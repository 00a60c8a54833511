import RecordDispatch.Json.Reader

/-!
# The grammar of JSON texts

Which bytes spell a JSON value, said without the readers.

* `Glyph` is one character inside a string, as it stands or escaped, and
  `Glyphs` a text of them.  A `Stroke` is what may stand inside a string when
  nobody asks which character it is: surrogates on their own and bytes that
  are not UTF-8 are strokes as well.
* `Figures` is a number without its sign.
* `Paired R` holds of two texts of one form that are equal but for their
  strings, which `R` relates.  A text that is paired with itself is `Spelled`,
  so that one list of rules serves for the grammar and for texts that differ
  inside strings.
-/

namespace RecordDispatch.Json

/-- Blanks and nothing else. -/
def Blank (w : Bytes) : Prop :=
  ∀ b ∈ w, isSpace b = true

/-! ## Strings -/

/-- A character inside a string. -/
inductive Glyph : Char → Bytes → Prop
  | plain {c : Char} : 0x20 ≤ c.toNat → c ≠ '"' → c ≠ '\\' → Glyph c (String.utf8EncodeChar c)
  | letter {e : UInt8} {c : Char} : shortEscape e = some c → Glyph c [0x5C, e]
  | code {a b c d : UInt8} {n : Nat} : hexUnit a b c d = some n → n < 0xD800 ∨ 0xDFFF < n →
    Glyph (Char.ofNat n) [0x5C, 0x75, a, b, c, d]
  /-- A character beyond the first plane is escaped as a pair of surrogates. -/
  | surrogates {a b c d a' b' c' d' : UInt8} {n m : Nat} :
    hexUnit a b c d = some n → 0xD800 ≤ n → n ≤ 0xDBFF →
    hexUnit a' b' c' d' = some m → 0xDC00 ≤ m → m ≤ 0xDFFF →
    Glyph (Char.ofNat (0x10000 + (n - 0xD800) * 0x400 + (m - 0xDC00)))
      [0x5C, 0x75, a, b, c, d, 0x5C, 0x75, a', b', c', d']

/-- The characters inside a string. -/
inductive Glyphs : List Char → Bytes → Prop
  | nil : Glyphs [] []
  | cons {c : Char} {cs : List Char} {g s : Bytes} :
    Glyph c g → Glyphs cs s → Glyphs (c :: cs) (g ++ s)

/-- A byte of a string as it stands, or an escape. -/
inductive Stroke : Bytes → Prop
  | plain {b : UInt8} : 0x20 ≤ b → b ≠ 0x22 → b ≠ 0x5C → Stroke [b]
  | letter {e : UInt8} {c : Char} : shortEscape e = some c → Stroke [0x5C, e]
  | code {a b c d : UInt8} {n : Nat} : hexUnit a b c d = some n →
    Stroke [0x5C, 0x75, a, b, c, d]

/-- The inside of a string. -/
inductive Strokes : Bytes → Prop
  | nil : Strokes []
  | cons {g s : Bytes} : Stroke g → Strokes s → Strokes (g ++ s)

/-! ## Numbers -/

/-- Digits and nothing else. -/
def Digits (ds : Bytes) : Prop :=
  ∀ d ∈ ds, isDigit d = true

/-- The digits before the point, which start with a zero only if it is alone. -/
inductive Whole : Bytes → Prop
  | zero : Whole [0x30]
  | digits {d : UInt8} {ds : Bytes} : isDigit d = true → d ≠ 0x30 → Digits ds → Whole (d :: ds)

/-- The point and the digits after it. -/
inductive Fraction : Bytes → Prop
  | none : Fraction []
  | digits {d : UInt8} {ds : Bytes} : isDigit d = true → Digits ds → Fraction (0x2E :: d :: ds)

/-- The sign of an exponent. -/
def PowerSign (sign : Bytes) : Prop :=
  sign = [] ∨ sign = [0x2B] ∨ sign = [0x2D]

/-- The exponent with its mark. -/
inductive Power : Bytes → Prop
  | none : Power []
  | digits {mark d : UInt8} {sign ds : Bytes} : isExponentMark mark = true → PowerSign sign →
    isDigit d = true → Digits ds → Power (mark :: (sign ++ d :: ds))

/-- A number without its sign. -/
inductive Figures : Bytes → Prop
  | mk {w f e : Bytes} : Whole w → Fraction f → Power e → Figures (w ++ (f ++ e))

/-! ## Values -/

/-- The forms of text: a value, and what stands between the brackets of a list
or an object, or remains of it once the first entry was read. -/
inductive Form
  | value
  | items (first : Bool)
  | members (first : Bool)

/-- What stands before an entry of a list or an object. -/
inductive Lead : Bool → Bytes → Prop
  | first {w : Bytes} : Blank w → Lead true w
  | later {w w' : Bytes} : Blank w → Blank w' → Lead false (w ++ 0x2C :: w')

/-- Two texts of one form that are equal but for their strings, which are
related.  The keys of objects are no strings in this sense: they are equal. -/
inductive Paired (R : Bytes → Bytes → Prop) : Form → Bytes → Bytes → Prop
  | nullWord : Paired R .value [0x6E, 0x75, 0x6C, 0x6C] [0x6E, 0x75, 0x6C, 0x6C]
  | trueWord : Paired R .value [0x74, 0x72, 0x75, 0x65] [0x74, 0x72, 0x75, 0x65]
  | falseWord : Paired R .value [0x66, 0x61, 0x6C, 0x73, 0x65] [0x66, 0x61, 0x6C, 0x73, 0x65]
  | number {n : Bytes} : Figures n → Paired R .value n n
  | negative {n : Bytes} : Figures n → Paired R .value (0x2D :: n) (0x2D :: n)
  | string {s s' : Bytes} : R s s' →
    Paired R .value (0x22 :: (s ++ [0x22])) (0x22 :: (s' ++ [0x22]))
  | list {s s' : Bytes} : Paired R (.items true) s s' →
    Paired R .value (0x5B :: (s ++ [0x5D])) (0x5B :: (s' ++ [0x5D]))
  | object {s s' : Bytes} : Paired R (.members true) s s' →
    Paired R .value (0x7B :: (s ++ [0x7D])) (0x7B :: (s' ++ [0x7D]))
  | noItem {first : Bool} {w : Bytes} : Blank w → Paired R (.items first) w w
  | item {first : Bool} {u v v' t t' : Bytes} : Lead first u →
    Paired R .value v v' → Paired R (.items false) t t' →
    Paired R (.items first) (u ++ (v ++ t)) (u ++ (v' ++ t'))
  | noMember {first : Bool} {w : Bytes} : Blank w → Paired R (.members first) w w
  | member {first : Bool} {u k w w' v v' t t' : Bytes} : Lead first u →
    Strokes k → Blank w → Blank w' →
    Paired R .value v v' → Paired R (.members false) t t' →
    Paired R (.members first)
      (u ++ 0x22 :: (k ++ 0x22 :: (w ++ 0x3A :: (w' ++ (v ++ t)))))
      (u ++ 0x22 :: (k ++ 0x22 :: (w ++ 0x3A :: (w' ++ (v' ++ t')))))

/-- The inside of a string and itself. -/
def Same (s s' : Bytes) : Prop :=
  Strokes s ∧ s' = s

/-- A text of a form. -/
def Spelled (f : Form) (x : Bytes) : Prop :=
  Paired Same f x x

/-! ## How texts begin and end -/

/-- The first bytes of a value: neither a blank nor a sign between entries. -/
structure Opening (b : UInt8) : Prop where
  space : isSpace b = false
  comma : b ≠ 0x2C
  bracket : b ≠ 0x5D
  brace : b ≠ 0x7D

/-- A text before which a number ends. -/
def Ends (r : Bytes) : Prop :=
  ∀ b ∈ r.head?, isDigit b = false ∧ b ≠ 0x2E ∧ isExponentMark b = false

end RecordDispatch.Json
