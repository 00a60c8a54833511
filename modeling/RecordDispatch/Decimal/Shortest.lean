/-!
# Shortest decimal text of a double

A double is printed with the fewest decimal digits that read back as the same
double, and of two candidates of that length with the nearer one.  The search
is exact: a finite double is `mantissa * 2 ^ exponent`, the reals that round
to it form an interval with rational ends, and a candidate with `n` digits is
one of the two neighbours of the value on the grid of step `10 ^ k`.

* `Binary` is the decoded double and `Binary.interval` its rounding interval.
* `shortest` finds the digits.
* `Layout` decides where a point stands and how an exponent is written.
-/

namespace RecordDispatch.Decimal

/-- A positive finite double, `mantissa * 2 ^ exponent`. -/
structure Binary where
  mantissa : Nat
  exponent : Int
  /-- Whether the double below lies at half the usual distance, which is so at
  a power of two above the least exponent. -/
  closeBelow : Bool
deriving DecidableEq

/-- The magnitude that the low 63 bits of a double encode. -/
def Binary.ofBits (bits : UInt64) : Binary :=
  let fraction : Nat := bits.toNat % Nat.pow 2 52
  let biased : Nat := bits.toNat / Nat.pow 2 52 % Nat.pow 2 11
  if biased = 0 then ⟨fraction, -1074, false⟩
  else ⟨Nat.pow 2 52 + fraction, (biased : Int) - 1075, fraction == 0 && biased != 1⟩

/-- Decimal digits as one number, and the power of ten of the last digit. -/
structure Digits where
  digits : Nat
  scale : Int
deriving DecidableEq

/-- `a * 2 ^ p * 10 ^ q` as a fraction: the power of two and the power of ten
go to the side where their exponent is positive. -/
def scaled (a : Nat) (p q : Int) : Nat × Nat :=
  (a * Nat.pow 2 p.toNat * Nat.pow 10 q.toNat, Nat.pow 2 (-p).toNat * Nat.pow 10 (-q).toNat)

/-- Whether `d * 10 ^ k` lies in the interval of reals that round to `b`.  The
ends belong to the interval exactly when the mantissa is even. -/
def Binary.rounds (b : Binary) (d : Nat) (k : Int) : Bool :=
  let below := if b.closeBelow then 1 else 2
  -- compare `4 * d * 10 ^ k` with `(4 * m - below) * 2 ^ e` and `(4 * m + 2) * 2 ^ e`
  let (num, den) := scaled (4 * d) (-b.exponent) k
  let low := (4 * b.mantissa - below) * den
  let high := (4 * b.mantissa + 2) * den
  if b.mantissa % 2 = 0 then low ≤ num && num ≤ high else low < num && num < high

/-- The nearer of the two neighbours of `b` on the grid of step `10 ^ k` that
round to `b`, if one does. -/
def Binary.neighbour? (b : Binary) (k : Int) : Option Nat :=
  let (num, den) := scaled b.mantissa b.exponent (-k)
  let down := num / den
  let rest := num % den
  match b.rounds down k, b.rounds (down + 1) k with
  | true, true =>
    if 2 * rest < den then some down
    else if den < 2 * rest then some (down + 1)
    else some (if down % 2 = 0 then down else down + 1)
  | true, false => some down
  | false, true => some (down + 1)
  | false, false => none

/-- The first grid, from coarse to fine, with a neighbour that rounds to `b`. -/
def Binary.search (b : Binary) : Nat → Int → Option Digits
  | 0, _ => none
  | fuel + 1, k =>
    match b.neighbour? k with
    | some d => some ⟨d, k⟩
    | none => b.search fuel (k - 1)

/-- Trailing zeros moved from the digits to the scale. -/
def Digits.trim : Nat → Digits → Digits
  | 0, d => d
  | fuel + 1, d =>
    if d.digits ≠ 0 ∧ d.digits % 10 = 0 then
      Digits.trim fuel ⟨d.digits / 10, d.scale + 1⟩
    else d

/-- The fewest digits that round to `b`.  The coarsest grid tried, of step
`10 ^ 309`, is above every double, and the finest, of step `10 ^ (-345)`,
has a point in every interval. -/
def Binary.shortest (b : Binary) : Digits :=
  match b.search 655 309 with
  | some d => d.trim 20
  | none => ⟨0, 0⟩

/-- How a decimal is laid out. -/
structure Layout where
  /-- The least power of ten of the first digit that is written positionally. -/
  least : Int
  /-- The greatest power of ten of the first digit written positionally. -/
  greatest : Int
  /-- Whether a positive exponent carries a sign. -/
  signed : Bool

/-- The decimal text of digits under a layout. -/
def Layout.render (layout : Layout) (d : Digits) : String :=
  let text := toString d.digits
  let count := text.length
  let lead : Int := d.scale + count - 1
  if layout.least ≤ lead && lead ≤ layout.greatest then
    if 0 ≤ d.scale then
      text ++ String.ofList (List.replicate d.scale.toNat '0') ++ ".0"
    else if 0 ≤ lead then
      let whole := lead.toNat + 1
      String.ofList (text.toList.take whole) ++ "." ++
        String.ofList (text.toList.drop whole)
    else
      "0." ++ String.ofList (List.replicate (-lead - 1).toNat '0') ++ text
  else
    let mantissa :=
      match text.toList with
      | [] => ""
      | [c] => String.singleton c
      | c :: rest => String.ofList (c :: '.' :: rest)
    let sign := if lead < 0 then "-" else if layout.signed then "+" else ""
    mantissa ++ "e" ++ sign ++ toString lead.natAbs

/-- The text of a finite double given by its bits. -/
def renderBits (layout : Layout) (bits : UInt64) : String :=
  let sign := if bits.toNat / Nat.pow 2 63 = 1 then "-" else ""
  let b := Binary.ofBits bits
  if b.mantissa = 0 then sign ++ "0.0" else sign ++ layout.render b.shortest

end RecordDispatch.Decimal
