import RecordDispatch.Proofs.Json.Tokens

/-!
# What the readers make of numbers

A number ends before anything that does not continue it (`Ends`).  What it is
worth does not depend on what follows; a number that is out of range is refused
where its exponent leaves the range, or at its end.
-/

namespace RecordDispatch.Json

/-- A text before which digits end. -/
def NoDigit (r : Bytes) : Prop :=
  ∀ b ∈ r.head?, isDigit b = false

section Digits

variable {d : UInt8} {ds r : Bytes}

theorem takeWhile_isDigit (hds : Digits ds) (hr : NoDigit r) :
    (ds ++ r).takeWhile isDigit = ds := by
  rw [List.takeWhile_append_of_pos hds]
  cases r with
  | nil => exact List.append_nil ds
  | cons b r => rw [List.takeWhile_cons_of_neg (by simp [hr b rfl]), List.append_nil]

theorem dropWhile_isDigit (hds : Digits ds) (hr : NoDigit r) :
    (ds ++ r).dropWhile isDigit = r := by
  rw [List.dropWhile_append_of_pos hds]
  cases r with
  | nil => rfl
  | cons b r => exact List.dropWhile_cons_of_neg (by simp [hr b rfl])

end Digits

theorem NoDigit.of_ends {r : Bytes} (hr : Ends r) : NoDigit r :=
  fun b hb => (hr b hb).1

theorem isExponentMark_iff {b : UInt8} : isExponentMark b = true ↔ b = 0x65 ∨ b = 0x45 := by
  simp [isExponentMark]

theorem isDigit_of_mark {b : UInt8} (hb : isExponentMark b = true) : isDigit b = false := by
  rcases isExponentMark_iff.mp hb with rfl | rfl <;> rfl

theorem noDigit_power {e r : Bytes} (he : Power e) (hr : Ends r) : NoDigit (e ++ r) := by
  cases he with
  | none => exact .of_ends hr
  | digits hmark =>
    rintro b ⟨⟩
    exact isDigit_of_mark hmark

theorem noDigit_fraction {f e r : Bytes} (hf : Fraction f) (he : Power e) (hr : Ends r) :
    NoDigit (f ++ (e ++ r)) := by
  cases hf with
  | none =>
    rw [List.nil_append]
    exact noDigit_power he hr
  | digits =>
    rintro b ⟨⟩
    rfl

/-! ## The parts of a number -/

theorem wholeDigits_append {w r : Bytes} (hw : Whole w) (hr : NoDigit r) :
    wholeDigits (w ++ r) = .ok (w, r) := by
  cases hw with
  | zero =>
    cases r with
    | nil => rfl
    | cons b r => simp [wholeDigits, hr b rfl]
  | digits hd hzero hds =>
    rw [List.cons_append, wholeDigits.eq_def]
    simp only [if_neg hzero, if_pos hd, takeWhile_isDigit hds hr, dropWhile_isDigit hds hr]

/-- The digits of a fraction, without the point. -/
def fractionOf : Bytes → Option Bytes
  | [] => none
  | _ :: ds => some ds

theorem ne_point {e r : Bytes} (he : Power e) (hr : Ends r) : ∀ s, e ++ r ≠ 0x2E :: s := by
  rintro s hs
  cases he with
  | none => exact (hr 0x2E (by rw [show r = _ from hs]; rfl)).2.1 rfl
  | digits hmark =>
    rw [(List.cons.inj hs).1] at hmark
    cases hmark

theorem fractionDigits_append {f e r : Bytes} (hf : Fraction f) (he : Power e) (hr : Ends r) :
    fractionDigits (f ++ (e ++ r)) = .ok (fractionOf f, e ++ r) := by
  cases hf with
  | none =>
    rw [List.nil_append, fractionDigits.eq_def]
    split
    · exact absurd ‹e ++ r = _› (ne_point he hr _)
    · rfl
  | @digits d ds hd hds =>
    have hall : Digits (d :: ds) := List.forall_mem_cons.mpr ⟨hd, hds⟩
    rw [List.cons_append, fractionDigits.eq_def]
    simp only [takeWhile_isDigit hall (noDigit_power he hr),
      dropWhile_isDigit hall (noDigit_power he hr)]
    rfl

/-- An exponent when more follows the number. -/
def Exponent.followed (r : Bytes) (x : Exponent) : Exponent :=
  { x with left := x.left.map (· ++ r) }

theorem exponentDigits_append {ds r : Bytes} (hds : Digits ds) (hr : NoDigit r) (acc : Nat) :
    exponentDigits acc (ds ++ r) =
      ((exponentDigits acc ds).1, (exponentDigits acc ds).2.map (· ++ r)) := by
  induction ds generalizing acc with
  | nil =>
    cases r with
    | nil => rfl
    | cons b r => simp [exponentDigits, hr b rfl]
  | cons d ds ih =>
    obtain ⟨hd, hds⟩ := List.forall_mem_cons.mp hds
    rw [List.cons_append, exponentDigits, exponentDigits, if_pos hd, if_pos hd]
    dsimp only
    split
    · rfl
    · exact ih hds _

/-- A sign is no digit. -/
theorem ne_sign {d : UInt8} (hd : isDigit d = true) : d ≠ 0x2B ∧ d ≠ 0x2D := by
  constructor <;> rintro rfl <;> cases hd

theorem readExponent_append {sign ds : Bytes} {d : UInt8} (hsign : PowerSign sign)
    (hd : isDigit d = true) (hds : Digits ds) :
    ∃ x : Exponent, ∀ r, NoDigit r →
      readExponent (sign ++ d :: (ds ++ r)) = .ok (x.followed r, r) := by
  refine ⟨⟨sign == [0x2D], (exponentDigits (digitValue d) ds).1,
    (exponentDigits (digitValue d) ds).2⟩, fun r hr => ?_⟩
  have hdigits := exponentDigits_append hds hr (digitValue d)
  have hdrop := dropWhile_isDigit hds hr
  obtain rfl | rfl | rfl := hsign
  · obtain ⟨hplus, hminus⟩ := ne_sign hd
    simp [readExponent, hplus, hminus, hdigits, hdrop, hd, Exponent.followed]
  · simp only [readExponent, hdigits, hdrop, hd, if_true, List.singleton_append]
    rfl
  · simp only [readExponent, hdigits, hdrop, hd, if_true, List.singleton_append]
    rfl

theorem exponentPart_append {e : Bytes} (he : Power e) :
    ∃ x : Option Exponent, ∀ r, Ends r →
      exponentPart (e ++ r) = .ok (x.map (Exponent.followed r), r) := by
  cases he with
  | none =>
    refine ⟨none, fun r hr => ?_⟩
    cases r with
    | nil => rfl
    | cons b r => simp [exponentPart, (hr b rfl).2.2]
  | @digits mark d sign ds hmark hsign hd hds =>
    obtain ⟨x, hx⟩ := readExponent_append hsign hd hds
    refine ⟨some x, fun r hr => ?_⟩
    have hread := hx r (.of_ends hr)
    rw [List.cons_append, List.append_assoc, List.cons_append, exponentPart, if_pos hmark, hread]
    rfl

/-! ## The value -/

/-- A numeral when more follows the number. -/
def Numeral.followed (r : Bytes) (n : Numeral) : Numeral :=
  { n with exponent := n.exponent.map (Exponent.followed r) }

theorem readNumeral_figures {n : Bytes} (hn : Figures n) (negative : Bool) :
    ∃ m : Numeral, ∀ r, Ends r → readNumeral negative (n ++ r) = .ok (m.followed r, r) := by
  obtain ⟨hw, hf, he⟩ := hn
  rename_i w f e
  obtain ⟨x, hx⟩ := exponentPart_append he
  refine ⟨⟨negative, w, fractionOf f, x⟩, fun r hr => ?_⟩
  rw [List.append_assoc, List.append_assoc]
  simp only [readNumeral, wholeDigits_append hw (noDigit_fraction hf he hr),
    fractionDigits_append hf he hr, hx r hr, bind, Except.bind]
  rfl

theorem located_followed (negative : Bool) (value : Nat) (power : Int) (r : Bytes) :
    Numeral.value.located r negative value power =
      (Numeral.value.located [] negative value power).mapError (Fault.followed r) := by
  unfold Numeral.value.located
  cases toDouble negative value power <;> rfl

theorem decimal_followed (n : Numeral) (r : Bytes) : (n.followed r).decimal = n.decimal := rfl

theorem value_followed (n : Numeral) (r : Bytes) :
    (n.followed r).value r = (n.value []).mapError (Fault.followed r) := by
  unfold Numeral.value
  rw [decimal_followed]
  generalize n.decimal = decimal
  obtain ⟨negative, whole, fraction, exponent⟩ := n
  cases fraction <;> rcases exponent with _ | ⟨_, _, _ | left⟩
  all_goals dsimp only [Numeral.followed, Option.map, Exponent.followed]
  case none.none =>
    rw [apply_ite (Except.mapError _), apply_ite (Except.mapError _), ← located_followed]
    rfl
  case none.some.some | some.some.some =>
    rw [apply_ite (Except.mapError _)]
    rfl
  all_goals exact located_followed _ _ _ r

/-- The faults of a number lie where they were found. -/
theorem settled_value {n : Numeral} {r : Bytes} {fault : Fault}
    (h : n.value r = .error fault) : fault.settled = true := by
  have hlocated {negative : Bool} {value : Nat} {power : Int}
      (h : Numeral.value.located r negative value power = .error fault) :
      fault.settled = true := by
    unfold Numeral.value.located at h
    split at h
    · cases h
    · cases h
      rfl
  unfold Numeral.value at h
  dsimp only at h
  split at h
  · split at h
    · cases h
    split at h
    · cases h
    · exact hlocated h
  · exact hlocated h
  · split at h
    · split at h
      · cases h
        rfl
      · cases h
    · exact hlocated h

theorem readNumber_figures {n : Bytes} (hn : Figures n) (negative : Bool) :
    ∃ v, Makes Ends (readNumber negative) n v := by
  obtain ⟨m, hm⟩ := readNumeral_figures hn negative
  have hvalue (r : Bytes) (hr : Ends r) : readNumber negative (n ++ r) = (do
      let value ← (m.value []).mapError (Fault.followed r)
      return (value, r)) := by
    rw [readNumber, hm r hr, ← value_followed]
    rfl
  cases hv : m.value [] with
  | ok value =>
    rw [hv] at hvalue
    exact ⟨.read value, hvalue⟩
  | error fault =>
    obtain ⟨cause, left, settled⟩ := fault
    obtain rfl : settled = true := settled_value hv
    rw [hv] at hvalue
    exact ⟨.fault cause left, hvalue⟩

/-! ## Skipping -/

theorem skipWhole_append {w r : Bytes} (hw : Whole w) (hr : NoDigit r) :
    skipNumber.skipWhole (w ++ r) = .ok r := by
  have hread := wholeDigits_append hw hr
  cases hw <;> exact congrArg (Except.map Prod.snd) hread

theorem skipFraction_append {f e r : Bytes} (hf : Fraction f) (he : Power e) (hr : Ends r) :
    skipNumber.skipFraction (f ++ (e ++ r)) = .ok (e ++ r) := by
  cases hf with
  | none =>
    rw [List.nil_append, skipNumber.skipFraction.eq_def]
    split
    · exact absurd ‹e ++ r = _› (ne_point he hr _)
    · rfl
  | @digits d ds hd hds =>
    have hall : Digits (d :: ds) := List.forall_mem_cons.mpr ⟨hd, hds⟩
    rw [List.cons_append, skipNumber.skipFraction.eq_def]
    simp only [takeWhile_isDigit hall (noDigit_power he hr),
      dropWhile_isDigit hall (noDigit_power he hr)]

theorem skipExponent_append {e r : Bytes} (he : Power e) (hr : Ends r) :
    skipNumber.skipExponent (e ++ r) = .ok r := by
  cases he with
  | none =>
    cases r with
    | nil => rfl
    | cons b r => simp [skipNumber.skipExponent, (hr b rfl).2.2]
  | @digits mark d sign ds hmark hsign hd hds =>
    have hdrop := dropWhile_isDigit hds (.of_ends hr)
    rw [List.cons_append, List.append_assoc, List.cons_append, skipNumber.skipExponent.eq_def]
    obtain rfl | rfl | rfl := hsign
    · obtain ⟨hplus, hminus⟩ := ne_sign hd
      simp [hmark, hplus, hminus, hd, hdrop]
    · simp [hmark, hd, hdrop]
    · simp [hmark, hd, hdrop]

theorem skipNumber_figures {n : Bytes} (hn : Figures n) {r : Bytes} (hr : Ends r) :
    skipNumber (n ++ r) = .ok r := by
  obtain ⟨hw, hf, he⟩ := hn
  rw [List.append_assoc, List.append_assoc]
  simp only [skipNumber, skipWhole_append hw (noDigit_fraction hf he hr),
    skipFraction_append hf he hr, bind, Except.bind]
  exact skipExponent_append he hr

end RecordDispatch.Json
