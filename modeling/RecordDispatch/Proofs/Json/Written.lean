import RecordDispatch.Proofs.Json.Values

/-!
# Texts and the values that they hold

`Written` relates a value to its texts, of which there are many: blanks may stand
around every part, a character of a string may be escaped, and the members of an
object come in any order.  Integers fit a 64-bit word, and the keys of an object
differ.

* `Written.spelled`: such texts are spelled as the grammar asks.
* `Written.read`: a text of a value is read as that value, provided that its
  brackets are not nested too deep.
* `Written.text` and `Written.alone` say what a text of a string and a text of an
  object with one member look like.
-/

namespace RecordDispatch.Json

/-! ## Sorted members -/

/-- Put members into a sorted member list, one after the other. -/
def insertMembers (members sorted : List (String × Json)) : List (String × Json) :=
  members.foldl (fun sorted m => insertMember m.1 m.2 sorted) sorted

theorem insertMember_perm {key : String} (value : Json) {sorted : List (String × Json)}
    (hkey : key ∉ sorted.map Prod.fst) :
    (insertMember key value sorted).Perm ((key, value) :: sorted) := by
  induction sorted with
  | nil => exact .refl _
  | cons m sorted ih =>
    obtain ⟨hne, hrest⟩ := not_or.mp (mt List.mem_cons.mpr hkey)
    rw [insertMember]
    by_cases hlt : key < m.1
    · rw [if_pos hlt]
    · rw [if_neg hlt, if_neg hne]
      exact ((ih hrest).cons m).trans (.swap _ _ _)

/-- No member is lost or replaced while the keys differ. -/
theorem insertMembers_perm {members sorted : List (String × Json)}
    (hkeys : ((members ++ sorted).map Prod.fst).Nodup) :
    (insertMembers members sorted).Perm (members ++ sorted) := by
  induction members generalizing sorted with
  | nil => exact .refl _
  | cons m members ih =>
    rw [List.cons_append, List.map_cons, List.nodup_cons] at hkeys
    obtain ⟨hm, hrest⟩ := hkeys
    have hsorted : m.1 ∉ sorted.map Prod.fst := fun h =>
      hm (List.map_append ▸ List.mem_append_right _ h)
    have hinserted : (members ++ insertMember m.1 m.2 sorted).Perm
        (m :: (members ++ sorted)) :=
      ((insertMember_perm m.2 hsorted).append_left members).trans List.perm_middle
    refine (ih ?_).trans hinserted
    exact (hinserted.map Prod.fst).nodup_iff.mpr (List.nodup_cons.mpr ⟨hm, hrest⟩)

/-- An object with one member was written as that member alone. -/
theorem eq_singleton_of_ofMembers {members : List (String × Json)} {m : String × Json}
    (hkeys : (members.map Prod.fst).Nodup) (h : ofMembers members = .object [m]) :
    members = [m] := by
  have hsorted : insertMembers members [] = [m] := Json.object.inj h
  have hperm : (insertMembers members []).Perm (members ++ []) :=
    insertMembers_perm (by rwa [List.append_nil])
  rw [hsorted, List.append_nil] at hperm
  exact List.perm_singleton.mp hperm.symm

/-! ## The texts of a value -/

/-- The number that digits spell. -/
def decimal (ds : Bytes) : Nat :=
  ds.foldl (fun acc d => acc * 10 + digitValue d) 0

/-- What a text of each form holds. -/
inductive Content
  | value (j : Json)
  | items (first : Bool) (js : List Json)
  | members (first : Bool) (ms : List (String × Json))

/-- The form of a text that holds something. -/
def Content.form : Content → Form
  | .value _ => .value
  | .items first _ => .items first
  | .members first _ => .members first

/-- A text that holds something, with at most the given number of brackets open
at once.  The members of an object are listed in the order of the text. -/
inductive Written : Nat → Content → Bytes → Prop
  | nullWord {d : Nat} : Written d (.value .null) [0x6E, 0x75, 0x6C, 0x6C]
  | trueWord {d : Nat} : Written d (.value (.bool true)) [0x74, 0x72, 0x75, 0x65]
  | falseWord {d : Nat} : Written d (.value (.bool false)) [0x66, 0x61, 0x6C, 0x73, 0x65]
  | number {d : Nat} {n : Bytes} : Whole n → decimal n ≤ maxWord →
    Written d (.value (.number (.integer (decimal n)))) n
  | negative {d : Nat} {n : Bytes} : Whole n → 0 < decimal n → decimal n ≤ signedBound →
    Written d (.value (.number (.integer (-(decimal n : Int))))) (0x2D :: n)
  | string {d : Nat} {text : String} {s : Bytes} : Glyphs text.toList s →
    Written d (.value (.string text)) (0x22 :: (s ++ [0x22]))
  | list {d : Nat} {js : List Json} {s : Bytes} : Written d (.items true js) s →
    Written (d + 1) (.value (.array js)) (0x5B :: (s ++ [0x5D]))
  | object {d : Nat} {ms : List (String × Json)} {s : Bytes} : (ms.map Prod.fst).Nodup →
    Written d (.members true ms) s →
    Written (d + 1) (.value (ofMembers ms)) (0x7B :: (s ++ [0x7D]))
  | noItem {d : Nat} {first : Bool} {w : Bytes} : Blank w → Written d (.items first []) w
  | item {d : Nat} {first : Bool} {j : Json} {js : List Json} {u v t : Bytes} : Lead first u →
    Written d (.value j) v → Written d (.items false js) t →
    Written d (.items first (j :: js)) (u ++ (v ++ t))
  | noMember {d : Nat} {first : Bool} {w : Bytes} : Blank w → Written d (.members first []) w
  | member {d : Nat} {first : Bool} {key : String} {j : Json} {ms : List (String × Json)}
    {u k w w' v t : Bytes} : Lead first u → Glyphs key.toList k → Blank w → Blank w' →
    Written d (.value j) v → Written d (.members false ms) t →
    Written d (.members first ((key, j) :: ms))
      (u ++ 0x22 :: (k ++ 0x22 :: (w ++ 0x3A :: (w' ++ (v ++ t)))))

/-- The text of an integer has neither a fraction nor an exponent. -/
theorem Whole.figures {n : Bytes} (hn : Whole n) : Figures n :=
  List.append_nil n ▸ .mk hn .none .none

/-- A text that holds something is spelled as the grammar asks. -/
theorem Written.spelled {d : Nat} {c : Content} {x : Bytes} (h : Written d c x) :
    Spelled c.form x := by
  induction h with
  | nullWord => exact .nullWord
  | trueWord => exact .trueWord
  | falseWord => exact .falseWord
  | number hn => exact .number hn.figures
  | negative hn => exact .negative hn.figures
  | string hs => exact .string ⟨hs.strokes, rfl⟩
  | list _ ih => exact .list ih
  | object _ _ ih => exact .object ih
  | noItem hw => exact .noItem hw
  | item hu _ _ ihv iht => exact .item hu ihv iht
  | noMember hw => exact .noMember hw
  | member hu hk hw hw' _ _ ihv iht => exact .member hu hk.strokes hw hw' ihv iht

/-! ## Integers -/

section Integers

variable {n r : Bytes}

theorem le_foldl_digits (ds : Bytes) (acc : Nat) :
    acc ≤ ds.foldl (fun acc d => acc * 10 + digitValue d) acc := by
  induction ds generalizing acc with
  | nil => exact Nat.le_refl acc
  | cons d ds ih =>
    refine Nat.le_trans ?_ (ih (acc * 10 + digitValue d))
    omega

/-- A significand that fits takes all digits. -/
theorem significand_of_le (ds : Bytes) (acc : Nat)
    (h : ds.foldl (fun acc d => acc * 10 + digitValue d) acc ≤ maxWord) :
    significand acc ds = (ds.foldl (fun acc d => acc * 10 + digitValue d) acc, ds.length) := by
  induction ds generalizing acc with
  | nil => rfl
  | cons d ds ih =>
    have hnext : acc * 10 + digitValue d ≤ maxWord := Nat.le_trans (le_foldl_digits ds _) h
    rw [significand]
    dsimp only
    rw [if_neg (Nat.not_lt.mpr hnext), ih _ h]
    rfl

theorem decimal_numeral (hle : decimal n ≤ maxWord) (negative : Bool) :
    (Numeral.mk negative n none none).decimal = (decimal n, 0) := by
  rw [Numeral.decimal, significand_of_le n 0 hle]
  simp [decimal]

theorem exponentPart_ends (hr : Ends r) : exponentPart r = .ok (none, r) := by
  cases r with
  | nil => rfl
  | cons b r => simp [exponentPart, (hr b rfl).2.2]

theorem readNumber_whole (hn : Whole n) (hr : Ends r) (negative : Bool) :
    readNumber negative (n ++ r) =
      (do
        let value ← (Numeral.mk negative n none none).value r
        return (value, r)) := by
  have hfraction := fractionDigits_append .none .none hr
  rw [List.nil_append, List.nil_append] at hfraction
  simp only [readNumber, readNumeral, wholeDigits_append hn (.of_ends hr), hfraction,
    exponentPart_ends hr, bind, Except.bind]
  rfl

theorem readNumber_natural (hn : Whole n) (hle : decimal n ≤ maxWord) (hr : Ends r) :
    readNumber false (n ++ r) = .ok (.integer (decimal n), r) := by
  rw [readNumber_whole hn hr, Numeral.value, decimal_numeral hle]
  rfl

theorem readNumber_negative (hn : Whole n) (hpos : 0 < decimal n) (hle : decimal n ≤ signedBound)
    (hr : Ends r) : readNumber true (n ++ r) = .ok (.integer (-(decimal n : Int)), r) := by
  have hword : signedBound ≤ maxWord := by decide
  have hvalue : (Numeral.mk true n none none).value r = .ok (.integer (-(decimal n : Int))) := by
    rw [Numeral.value, decimal_numeral (Nat.le_trans hle hword)]
    dsimp only
    rw [if_neg (by decide), if_pos (by simp [hpos, hle])]
  rw [readNumber_whole hn hr, hvalue]
  rfl

end Integers

/-! ## Reading -/

/-- With fuel for the length of a text and room for its brackets, what it holds
is read. -/
def Read (d : Nat) : Content → Bytes → Prop
  | .value j, x => ∀ fuel depth r, 2 * x.length ≤ fuel → d < depth → Ends r →
    readValue fuel depth (x ++ r) = .ok (j, r)
  | .items first js, s => ∀ fuel depth r, 2 * s.length + 1 ≤ fuel → d < depth →
    readItems fuel depth first (s ++ 0x5D :: r) = .ok (js, 0x5D :: r)
  | .members first ms, s => ∀ fuel depth sorted r, 2 * s.length + 1 ≤ fuel → d < depth →
    readMembers fuel depth first sorted (s ++ 0x7D :: r) =
      .ok (insertMembers ms sorted, 0x7D :: r)

section Read

variable {d : Nat} {first : Bool} {s u v w t : Bytes}

/-- A value is not empty, so there is fuel for its first byte. -/
theorem read_value {j : Json} {b : UInt8}
    (h : ∀ fuel depth r, 2 * s.length ≤ fuel → d < depth → Ends r →
      readValue (fuel + 1) depth (b :: (s ++ r)) = .ok (j, r)) : Read d (.value j) (b :: s) := by
  rintro (_ | fuel) depth r hfuel hdepth hr
  · simp at hfuel
  · rw [List.length_cons] at hfuel
    exact h fuel depth r (by omega) hdepth hr

theorem read_word {j : Json} {b : UInt8}
    (hread : ∀ fuel depth s, readValue (fuel + 1) depth (b :: s) = (do
      let rest ← word w s
      return (j, rest))) : Read d (.value j) (b :: w) :=
  read_value fun fuel depth r _ _ _ => by
    rw [hread, word_append]
    rfl

theorem read_number {n : Bytes} (hn : Whole n) (hle : decimal n ≤ maxWord) :
    Read d (.value (.number (.integer (decimal n)))) n := by
  obtain ⟨b, rest, hcons, hb⟩ := hn.figures.head
  have hvalue : Read d (.value (.number (.integer (decimal n)))) (b :: rest) :=
    read_value fun fuel depth r _ _ hr => by
      rw [readValue_digit fuel depth hb, ← List.cons_append, ← hcons,
        readNumber_natural hn hle hr]
      rfl
  rwa [← hcons] at hvalue

theorem read_negative {n : Bytes} (hn : Whole n) (hpos : 0 < decimal n)
    (hle : decimal n ≤ signedBound) :
    Read d (.value (.number (.integer (-(decimal n : Int))))) (0x2D :: n) :=
  read_value fun fuel depth r _ _ hr => by
    rw [readValue_minus, readNumber_negative hn hpos hle hr]
    rfl

theorem read_string {text : String} (hs : Glyphs text.toList s) :
    Read d (.value (.string text)) (0x22 :: (s ++ [0x22])) :=
  read_value fun fuel depth r _ _ _ => by
    rw [readValue_quote, List.append_assoc, List.singleton_append, readString_glyphs hs,
      String.ofList_toList]
    rfl

theorem read_list {js : List Json} (hs : Read d (.items true js) s) :
    Read (d + 1) (.value (.array js)) (0x5B :: (s ++ [0x5D])) :=
  read_value fun fuel depth r hfuel hdepth _ => by
    rw [List.length_append, List.length_singleton] at hfuel
    rw [readValue_bracket, if_neg (by omega), List.append_assoc, List.singleton_append,
      hs fuel (depth - 1) r (by omega) (by omega)]
    rfl

theorem read_object {ms : List (String × Json)} (hs : Read d (.members true ms) s) :
    Read (d + 1) (.value (ofMembers ms)) (0x7B :: (s ++ [0x7D])) :=
  read_value fun fuel depth r hfuel hdepth _ => by
    rw [List.length_append, List.length_singleton] at hfuel
    rw [readValue_brace, if_neg (by omega), List.append_assoc, List.singleton_append,
      hs fuel (depth - 1) [] r (by omega) (by omega)]
    rfl

theorem read_noItem (hw : Blank w) : Read d (.items first []) w := by
  rintro (_ | fuel) depth r hfuel _
  · omega
  · rw [readItems, nextItem_bracket hw, skipBlanks_append hw]
    rfl

theorem read_item {j : Json} {js : List Json} {b : UInt8} (hu : Lead first u) (hb : Opening b)
    (hv : Read d (.value j) (b :: v)) (ht : Read d (.items false js) t)
    (hends : ∀ r, Begins 0x5D r → Ends (t ++ r)) :
    Read d (.items first (j :: js)) (u ++ (b :: v ++ t)) := by
  rintro (_ | fuel) depth r hfuel hdepth
  · omega
  simp only [List.length_append, List.length_cons] at hfuel
  have hvalue := hv fuel depth (t ++ 0x5D :: r) (by simp; omega) hdepth (hends _ ⟨r, rfl⟩)
  rw [List.append_assoc, List.append_assoc, List.cons_append, readItems, nextItem_item hu hb,
    ok_bind]
  dsimp only
  rw [← List.cons_append, hvalue, ok_bind]
  dsimp only
  rw [ht fuel depth r (by omega) hdepth]
  rfl

theorem read_noMember (hw : Blank w) : Read d (.members first []) w := by
  rintro (_ | fuel) depth sorted r hfuel _
  · omega
  · rw [readMembers, nextMember_brace hw, skipBlanks_append hw]
    rfl

theorem read_member {key : String} {j : Json} {ms : List (String × Json)} {k w' : Bytes}
    (hu : Lead first u) (hk : Glyphs key.toList k) (hw : Blank w) (hw' : Blank w')
    (hv : Read d (.value j) v) (ht : Read d (.members false ms) t)
    (hends : ∀ r, Begins 0x7D r → Ends (t ++ r)) :
    Read d (.members first ((key, j) :: ms))
      (u ++ 0x22 :: (k ++ 0x22 :: (w ++ 0x3A :: (w' ++ (v ++ t))))) := by
  intro fuel depth sorted r hfuel hdepth
  simp only [List.length_append, List.length_cons] at hfuel
  obtain ⟨fuel, rfl⟩ : ∃ n, fuel = n + 2 := ⟨fuel - 2, by omega⟩
  have happend : (u ++ 0x22 :: (k ++ 0x22 :: (w ++ 0x3A :: (w' ++ (v ++ t))))) ++ 0x7D :: r =
      u ++ 0x22 :: (k ++ 0x22 :: (w ++ 0x3A :: (w' ++ (v ++ (t ++ 0x7D :: r))))) := by simp
  have hvalue := hv (fuel + 1) depth (t ++ 0x7D :: r) (by omega) hdepth (hends _ ⟨r, rfl⟩)
  rw [happend, readMembers, nextMember_key hu, ok_bind]
  dsimp only
  rw [readString_glyphs hk, ok_bind]
  dsimp only
  rw [colon_append hw, ok_bind, readValue_blank _ _ hw', hvalue, ok_bind, String.ofList_toList]
  exact ht (fuel + 1) depth _ r (by omega) hdepth

end Read

/-- What a text holds is read from it. -/
theorem Written.read {d : Nat} {c : Content} {x : Bytes} (h : Written d c x) : Read d c x := by
  induction h with
  | nullWord | trueWord | falseWord =>
    refine read_word fun fuel depth s => ?_
    rw [readValue, skipBlanks_cons (by decide)]
    rfl
  | number hn hle => exact read_number hn hle
  | negative hn hpos hle => exact read_negative hn hpos hle
  | string hs => exact read_string hs
  | list _ ih => exact read_list ih
  | object _ _ ih => exact read_object ih
  | noItem hw => exact read_noItem hw
  | item hu hv ht ihv iht =>
    obtain ⟨b, v, _, rfl, -, hb⟩ := hv.spelled.head
    exact read_item hu hb ihv iht fun r hr => ht.spelled.items_ends hr
  | noMember hw => exact read_noMember hw
  | member hu hk hw hw' hv ht ihv iht =>
    exact read_member hu hk hw hw' ihv iht fun r hr => ht.spelled.members_ends hr

/-! ## Texts of given values -/

section Values

variable {d : Nat} {x : Bytes}

theorem Written.null (h : Written d (.value .null) x) : x = [0x6E, 0x75, 0x6C, 0x6C] := by
  generalize hc : Content.value .null = c at h
  cases h <;> cases hc
  rfl

/-- No other value begins like `null`. -/
theorem Written.null_of_head {j : Json} (h : Written d (.value j) x) (hx : x.head? = some 0x6E) :
    j = .null := by
  generalize hc : Content.value j = c at h
  cases h with
  | nullWord => exact Content.value.inj hc
  | number hn =>
    obtain ⟨_, _, rfl, hdigit⟩ := hn.figures.head
    cases hx
    cases hdigit
  | noItem | item | noMember | member => cases hc
  | _ => simp at hx

/-- The text of a string is its characters between quotes. -/
theorem Written.text {text : String} (h : Written d (.value (.string text)) x) :
    ∃ s, Glyphs text.toList s ∧ x = 0x22 :: (s ++ [0x22]) := by
  generalize hc : Content.value (.string text) = c at h
  cases h <;> cases hc
  exact ⟨_, ‹_›, rfl⟩

/-- The text of an object with one member is that member between braces. -/
theorem Written.alone {key : String} {j : Json} (h : Written d (.value (.object [(key, j)])) x) :
    ∃ d u k w w' v t, Blank u ∧ Glyphs key.toList k ∧ Blank w ∧ Blank w' ∧
      Written d (.value j) v ∧ Blank t ∧
      x = 0x7B :: (u ++ 0x22 :: (k ++ 0x22 :: (w ++ 0x3A :: (w' ++ (v ++ (t ++ [0x7D])))))) := by
  generalize hc : Content.value (.object [(key, j)]) = c at h
  cases h with
  | object hkeys hs =>
    obtain rfl := eq_singleton_of_ofMembers hkeys (Content.value.inj hc).symm
    cases hs with
    | member hu hk hw hw' hv ht =>
      cases hu with
      | first hu =>
        cases ht with
        | noMember ht => exact ⟨_, _, _, _, _, _, _, hu, hk, hw, hw', hv, ht, by simp⟩
  | _ => cases hc

end Values

end RecordDispatch.Json
