import RecordDispatch.Json.Fault

/-!
# The tokens of a JSON text

Blanks, words, strings and numbers are read off the front of a list of bytes.

* `skipBlanks` and `word` read blanks and the rest of a literal name.
* `readString` reads a string after its opening quote.  Escapes are resolved
  first, and the bytes between them must then be UTF-8.
* `readNumber` reads a number.  `Numeral.value` gives its value: the leading
  digits that fit an unsigned 64-bit word, multiplied or divided once by a
  power of ten when there is a fraction or an exponent.
* `skipString` and `skipNumber` only look for the end.
-/

namespace RecordDispatch.Json

/-! ## Blanks and words -/

/-- The four blanks of JSON. -/
def isSpace (b : UInt8) : Bool :=
  b == 0x20 || b == 0x0A || b == 0x09 || b == 0x0D

/-- A text without its leading blanks. -/
def skipBlanks (s : Bytes) : Bytes :=
  s.dropWhile isSpace

/-- Read the given bytes. -/
def word : Bytes → Bytes → Except Fault Bytes
  | [], s => .ok s
  | _ :: _, [] => fail .endInValue []
  | expected :: rest, b :: s =>
    if b = expected then word rest s else fail .expectedIdent s

/-! ## Strings -/

/-- The value of a hexadecimal digit. -/
def hexValue (b : UInt8) : Option Nat :=
  let n := b.toNat
  if 48 ≤ n && n ≤ 57 then some (n - 48)
  else if 97 ≤ n && n ≤ 102 then some (n - 87)
  else if 65 ≤ n && n ≤ 70 then some (n - 55)
  else none

/-- The value of four hexadecimal digits. -/
def hexUnit (a b c d : UInt8) : Option Nat := do
  let a ← hexValue a
  let b ← hexValue b
  let c ← hexValue c
  let d ← hexValue d
  return ((a * 16 + b) * 16 + c) * 16 + d

/-- The character of an escape of one letter. -/
def shortEscape (b : UInt8) : Option Char :=
  if b = 0x22 then some '"'
  else if b = 0x5C then some '\\'
  else if b = 0x2F then some '/'
  else if b = 0x62 then some '\x08'
  else if b = 0x66 then some '\x0c'
  else if b = 0x6E then some '\n'
  else if b = 0x72 then some '\r'
  else if b = 0x74 then some '\t'
  else none

/-- One piece of a string: a byte as it stands, with the bytes after it, or a
character that was escaped. -/
inductive Piece
  | raw (byte : UInt8) (after : Bytes)
  | escaped (char : Char)

/-- Put a piece before the pieces that were read after it. -/
def Piece.before (p : Piece) : Except Fault (List Piece × Bytes) → Except Fault (List Piece × Bytes)
  | .ok (ps, rest) => .ok (p :: ps, rest)
  | .error e => .error e

/-- The pieces of a string up to its closing quote. -/
def pieces : Bytes → Except Fault (List Piece × Bytes)
  | [] => fail .endInString []
  | b :: s =>
    if b = 0x22 then .ok ([], s)
    else if b = 0x5C then
      match s with
      | [] => fail .endInString []
      | e :: s =>
        match shortEscape e with
        | some c => Piece.before (.escaped c) (pieces s)
        | none =>
          if e ≠ 0x75 then fail .invalidEscape s
          else match s with
            | h1 :: h2 :: h3 :: h4 :: s =>
              match hexUnit h1 h2 h3 h4 with
              | none => fail .invalidEscape s
              | some n =>
                if 0xDC00 ≤ n && n ≤ 0xDFFF then fail .loneSurrogate s
                else if n < 0xD800 || 0xDBFF < n then
                  Piece.before (.escaped (Char.ofNat n)) (pieces s)
                else match s with
                  | [] => fail .endInString []
                  | x :: s =>
                    if x ≠ 0x5C then fail .endOfHexEscape s
                    else match s with
                      | [] => fail .endInString []
                      | y :: s =>
                        if y ≠ 0x75 then fail .endOfHexEscape s
                        else match s with
                          | h1 :: h2 :: h3 :: h4 :: s =>
                            match hexUnit h1 h2 h3 h4 with
                            | none => fail .invalidEscape s
                            | some m =>
                              if m < 0xDC00 || 0xDFFF < m then
                                fail .loneSurrogate s
                              else
                                let c := 0x10000 + (n - 0xD800) * 0x400 + (m - 0xDC00)
                                Piece.before (.escaped (Char.ofNat c)) (pieces s)
                          | _ => fail .endInString []
            | _ => fail .endInString []
    else if b < 0x20 then fail .controlCharacter s
    else Piece.before (.raw b s) (pieces s)

/-- Whether a byte continues a character. -/
def isTail (b : UInt8) : Bool :=
  0x80 ≤ b && b ≤ 0xBF

/-- The value of a continuation byte. -/
def tailValue (b : UInt8) : Nat :=
  b.toNat - 0x80

/-- Put a character before the characters that were decoded after it. -/
def charBefore (c : Nat) : Except Fault (List Char) → Except Fault (List Char)
  | .ok cs => .ok (Char.ofNat c :: cs)
  | .error e => .error e

/-- The characters of the pieces.  The bytes between escapes must be UTF-8; a
fault lies at the first byte of the ill-formed character. -/
def decodePieces : List Piece → Except Fault (List Char)
  | [] => .ok []
  | .escaped c :: ps => charBefore c.toNat (decodePieces ps)
  | .raw a after :: ps =>
    if a < 0x80 then charBefore a.toNat (decodePieces ps)
    else if 0xC2 ≤ a && a ≤ 0xDF then
      match ps with
      | .raw b _ :: ps =>
        if isTail b then
          charBefore ((a.toNat - 0xC0) * 0x40 + tailValue b) (decodePieces ps)
        else fail .invalidCodePoint after
      | _ => fail .invalidCodePoint after
    else if 0xE0 ≤ a && a ≤ 0xEF then
      match ps with
      | .raw b _ :: .raw c _ :: ps =>
        if isTail b && isTail c && (a != 0xE0 || 0xA0 ≤ b) && (a != 0xED || b ≤ 0x9F) then
          charBefore
            (((a.toNat - 0xE0) * 0x40 + tailValue b) * 0x40 + tailValue c)
            (decodePieces ps)
        else fail .invalidCodePoint after
      | _ => fail .invalidCodePoint after
    else if 0xF0 ≤ a && a ≤ 0xF4 then
      match ps with
      | .raw b _ :: .raw c _ :: .raw d _ :: ps =>
        if isTail b && isTail c && isTail d && (a != 0xF0 || 0x90 ≤ b) &&
            (a != 0xF4 || b ≤ 0x8F) then
          charBefore
            ((((a.toNat - 0xF0) * 0x40 + tailValue b) * 0x40 + tailValue c) * 0x40 +
              tailValue d)
            (decodePieces ps)
        else fail .invalidCodePoint after
      | _ => fail .invalidCodePoint after
    else fail .invalidCodePoint after

/-- Read a string after its opening quote. -/
def readString (s : Bytes) : Except Fault (String × Bytes) := do
  let (ps, rest) ← pieces s
  let cs ← decodePieces ps
  return (String.ofList cs, rest)

/-- Find the end of a string after its opening quote.  Neither surrogates nor
UTF-8 are looked at. -/
def skipString : Bytes → Except Fault Bytes
  | [] => fail .endInString []
  | b :: s =>
    if b = 0x22 then .ok s
    else if b = 0x5C then
      match s with
      | [] => fail .endInString []
      | e :: s =>
        if (shortEscape e).isSome then skipString s
        else if e ≠ 0x75 then fail .invalidEscape s
        else match s with
          | h1 :: h2 :: h3 :: h4 :: s =>
            if (hexUnit h1 h2 h3 h4).isSome then skipString s
            else fail .invalidEscape s
          | _ => fail .endInString []
    else if b < 0x20 then fail .controlCharacter (b :: s)
    else skipString s

/-! ## Numbers -/

/-- Whether a byte is a decimal digit. -/
def isDigit (b : UInt8) : Bool :=
  0x30 ≤ b && b ≤ 0x39

/-- The value of a decimal digit. -/
def digitValue (b : UInt8) : Nat :=
  b.toNat - 0x30

/-- Whether a byte announces an exponent. -/
def isExponentMark (b : UInt8) : Bool :=
  b == 0x65 || b == 0x45

/-- The greatest unsigned 64-bit integer. -/
def maxWord : Nat := Nat.pow 2 64 - 1

/-- The greatest exponent that is read digit by digit. -/
def maxExponent : Nat := Nat.pow 2 31 - 1

/-- Append digits to a significand while it fits 64 bits.  The answer holds
the significand and the number of digits that were taken. -/
def significand : Nat → Bytes → Nat × Nat
  | acc, [] => (acc, 0)
  | acc, d :: ds =>
    let next := acc * 10 + digitValue d
    if maxWord < next then (acc, 0)
    else
      let (value, taken) := significand next ds
      (value, taken + 1)

/-- `2 ^ 63`, one more than the greatest signed 64-bit integer. -/
def signedBound : Nat := Nat.pow 2 63

/-- Scale a significand by a power of ten, in double precision: one
multiplication or division, after divisions by `10 ^ 308` while the exponent
is below the table of powers.  `none` if the result would be infinite. -/
def scaleDouble : Nat → Float → Int → Option Float
  | 0, _, _ => none
  | fuel + 1, f, e =>
    if e.natAbs ≤ 308 then
      let power := Float.ofScientific 1 false e.natAbs
      if 0 ≤ e then
        let product := f * power
        if product.isInf then none else some product
      else some (f / power)
    else if f == 0 then some f
    else if 0 ≤ e then none
    else scaleDouble fuel (f / Float.ofScientific 1 false 308) (e + 308)

/-- The double `significand * 10 ^ exponent` with the given sign. -/
def toDouble (negative : Bool) (significand : Nat) (exponent : Int) : Option Number :=
  -- after three divisions by `10 ^ 308` every significand has become zero
  (scaleDouble 8 significand.toUInt64.toFloat exponent).map fun f =>
    .double (if negative then -f else f).toBits

/-- The exponent part of a number: its sign, its value, and, when the value
left the range of exponents, the bytes after the digit at which it did. -/
structure Exponent where
  negative : Bool
  value : Nat
  left : Option Bytes

/-- Read the digits of an exponent up to the one at which it leaves its
range. -/
def exponentDigits (acc : Nat) : Bytes → Nat × Option Bytes
  | [] => (acc, none)
  | d :: s =>
    if isDigit d then
      let next := acc * 10 + digitValue d
      if maxExponent < next then (acc, some s) else exponentDigits next s
    else (acc, none)

/-- Read an exponent after its mark. -/
def readExponent (s : Bytes) : Except Fault (Exponent × Bytes) :=
  let (negative, s) :=
    match s with
    | 0x2B :: s => (false, s)
    | 0x2D :: s => (true, s)
    | s => (false, s)
  match s with
  | [] => fail .endInValue []
  | d :: s =>
    if isDigit d then
      let (value, left) := exponentDigits (digitValue d) s
      .ok (⟨negative, value, left⟩, s.dropWhile isDigit)
    else fail .invalidNumber s

/-- A number as it is written. -/
structure Numeral where
  negative : Bool
  whole : Bytes
  fraction : Option Bytes
  exponent : Option Exponent

/-- The digits before the point: a zero alone, or digits that do not start
with a zero. -/
def wholeDigits : Bytes → Except Fault (Bytes × Bytes)
  | [] => fail .endInValue []
  | d :: s =>
    if d = 0x30 then
      match s with
      | e :: _ => if isDigit e then failNext .invalidNumber s else .ok ([d], s)
      | [] => .ok ([d], s)
    else if isDigit d then .ok (d :: s.takeWhile isDigit, s.dropWhile isDigit)
    else fail .invalidNumber s

/-- The digits after a point, if there is a point.  There must be one. -/
def fractionDigits : Bytes → Except Fault (Option Bytes × Bytes)
  | 0x2E :: s =>
    match s.takeWhile isDigit with
    | [] =>
      match s with
      | [] => failNext .endInValue s
      | _ :: _ => failNext .invalidNumber s
    | ds => .ok (some ds, s.dropWhile isDigit)
  | s => .ok (none, s)

/-- The exponent, if a mark comes next. -/
def exponentPart : Bytes → Except Fault (Option Exponent × Bytes)
  | [] => .ok (none, [])
  | b :: s =>
    if isExponentMark b then do
      let (e, rest) ← readExponent s
      return (some e, rest)
    else .ok (none, b :: s)

/-- Read a numeral after its sign. -/
def readNumeral (negative : Bool) (s : Bytes) : Except Fault (Numeral × Bytes) := do
  let (whole, s) ← wholeDigits s
  let (fraction, s) ← fractionDigits s
  let (exponent, s) ← exponentPart s
  return (⟨negative, whole, fraction, exponent⟩, s)

/-- The significand of a numeral and the power of ten that its digits alone
give it.  Digits before the point that no longer fit raise the power, digits
after the point that still fit lower it. -/
def Numeral.decimal (n : Numeral) : Nat × Int :=
  let (value, taken) := significand 0 n.whole
  let dropped := n.whole.length - taken
  match n.fraction with
  | none => (value, dropped)
  | some ds =>
    let (value, taken) := significand value ds
    (value, (dropped : Int) - taken)

/-- The value of a numeral.  Without fraction and exponent it is an integer if
it fits a 64-bit word, and minus zero is a double. -/
def Numeral.value (n : Numeral) (rest : Bytes) : Except Fault Number :=
  let (value, power) := n.decimal
  match n.fraction, n.exponent with
  | none, none =>
    if power = 0 && !n.negative then .ok (.integer value)
    else if power = 0 && n.negative && 0 < value && value ≤ signedBound then
      .ok (.integer (-(value : Int)))
    else located n.negative value power
  | _, none => located n.negative value power
  | _, some e =>
    match e.left with
    | some left =>
      if value ≠ 0 && !e.negative then fail .numberOutOfRange left
      else .ok (.double (if n.negative then -0.0 else 0.0 : Float).toBits)
    | none =>
      located n.negative value (if e.negative then power - e.value else power + e.value)
where
  /-- The double, or a fault after the numeral. -/
  located (negative : Bool) (value : Nat) (power : Int) : Except Fault Number :=
    match toDouble negative value power with
    | some n => .ok n
    | none => fail .numberOutOfRange rest

/-- Read a number after its sign. -/
def readNumber (negative : Bool) (s : Bytes) : Except Fault (Number × Bytes) := do
  let (n, rest) ← readNumeral negative s
  let value ← n.value rest
  return (value, rest)

/-- Find the end of a number after its sign. -/
def skipNumber (s : Bytes) : Except Fault Bytes := do
  let s ← skipWhole s
  let s ← skipFraction s
  skipExponent s
where
  /-- Skip the digits before the point. -/
  skipWhole : Bytes → Except Fault Bytes
    | [] => fail .invalidNumber []
    | s => (wholeDigits s).map (·.2)
  /-- Skip the point and the digits after it. -/
  skipFraction : Bytes → Except Fault Bytes
    | 0x2E :: s =>
      match s.takeWhile isDigit with
      | [] => failNext .invalidNumber s
      | _ :: _ => .ok (s.dropWhile isDigit)
    | s => .ok s
  /-- Skip the exponent. -/
  skipExponent : Bytes → Except Fault Bytes
    | [] => .ok []
    | b :: s =>
      if isExponentMark b then
        let s := match s with
          | 0x2B :: s => s
          | 0x2D :: s => s
          | s => s
        match s with
        | [] => fail .invalidNumber []
        | d :: s =>
          if isDigit d then .ok (s.dropWhile isDigit) else fail .invalidNumber s
      else .ok (b :: s)

end RecordDispatch.Json
