import RecordDispatch.Proofs.Json.Written

/-!
# Printed values

The compact text of a value is one of its texts.  A value is `Canonical` if its
numbers are integers of 64 bits and the keys of its objects increase, as they do
in every object that was read.

* `whole_digits` and `decimal_digits`: the digits of a number spell it.
* `glyphs_escaped`: an escaped string has the characters that were escaped.
* `Canonical.printed` is the induction over the value.
-/

namespace RecordDispatch.Json

/-- The bytes of characters. -/
def utf8 (cs : List Char) : Bytes :=
  cs.flatMap String.utf8EncodeChar

theorem utf8_cons (c : Char) (cs : List Char) :
    utf8 (c :: cs) = String.utf8EncodeChar c ++ utf8 cs :=
  List.flatMap_cons

theorem utf8_append (cs cs' : List Char) : utf8 (cs ++ cs') = utf8 cs ++ utf8 cs' :=
  List.flatMap_append

/-- A value that is printed as it was read, with at most the given number of
brackets open at once. -/
inductive Canonical : Nat → Json → Prop
  | null {d : Nat} : Canonical d .null
  | bool {d : Nat} {b : Bool} : Canonical d (.bool b)
  | integer {d : Nat} {value : Int} : -(signedBound : Int) ≤ value → value ≤ maxWord →
    Canonical d (.number (.integer value))
  | string {d : Nat} {text : String} : Canonical d (.string text)
  | array {d : Nat} {js : List Json} : (∀ j ∈ js, Canonical d j) → Canonical (d + 1) (.array js)
  | object {d : Nat} {ms : List (String × Json)} : (ms.map Prod.fst).Pairwise (· < ·) →
    (∀ m ∈ ms, Canonical d m.2) → Canonical (d + 1) (.object ms)

/-! ## Integers -/

/-- The digits of a number. -/
def digits (n : Nat) : Bytes :=
  utf8 (Nat.toDigits 10 n)

/-- The byte of a digit. -/
def digitByte (n : Nat) : UInt8 :=
  .ofNat (48 + n)

theorem encode_digitChar : ∀ n < 10, String.utf8EncodeChar n.digitChar = [digitByte n] := by
  decide

theorem isDigit_digitByte : ∀ n < 10, isDigit (digitByte n) = true := by decide

theorem digitValue_digitByte : ∀ n < 10, digitValue (digitByte n) = n := by decide

theorem digits_of_lt {n : Nat} (h : n < 10) : digits n = [digitByte n] := by
  rw [digits, Nat.toDigits_of_lt_base h, utf8_cons, encode_digitChar n h]
  rfl

theorem digits_of_le {n : Nat} (h : 10 ≤ n) :
    digits n = digits (n / 10) ++ [digitByte (n % 10)] := by
  rw [digits, Nat.toDigits_of_base_le (by decide) h, utf8_append, utf8_cons,
    encode_digitChar _ (Nat.mod_lt n (by decide))]
  rfl

theorem decimal_append (ds : Bytes) (d : UInt8) :
    decimal (ds ++ [d]) = decimal ds * 10 + digitValue d :=
  List.foldl_append

theorem decimal_digits (n : Nat) : decimal (digits n) = n := by
  induction n using Nat.strongRecOn with
  | ind n ih =>
    by_cases h : n < 10
    · rw [digits_of_lt h]
      exact (Nat.zero_add _).trans (digitValue_digitByte n h)
    · rw [digits_of_le (Nat.not_lt.mp h), decimal_append, ih (n / 10) (by omega),
        digitValue_digitByte _ (Nat.mod_lt n (by decide))]
      exact Nat.div_add_mod' n 10

/-- Digits that spell more than zero start with no zero, and a digit may follow. -/
theorem Whole.append {w : Bytes} {d : UInt8} (hw : Whole w) (hpos : decimal w ≠ 0)
    (hd : isDigit d = true) : Whole (w ++ [d]) := by
  cases hw with
  | zero => exact absurd rfl hpos
  | digits hfirst hne hds =>
    refine .digits hfirst hne fun b hb => ?_
    obtain hb | hb := List.mem_append.mp hb
    · exact hds b hb
    · exact List.mem_singleton.mp hb ▸ hd

theorem whole_digits (n : Nat) : Whole (digits n) := by
  induction n using Nat.strongRecOn with
  | ind n ih =>
    by_cases h : n < 10
    · rw [digits_of_lt h]
      by_cases hzero : n = 0
      · subst hzero
        exact .zero
      · refine .digits (isDigit_digitByte n h) (fun hne => hzero ?_) (fun _ hb => by cases hb)
        rw [← digitValue_digitByte n h, hne]
        rfl
    · rw [digits_of_le (Nat.not_lt.mp h)]
      refine (ih (n / 10) (by omega)).append ?_ (isDigit_digitByte _ (Nat.mod_lt n (by decide)))
      rw [decimal_digits]
      omega

theorem utf8_toString (n : Nat) : utf8 (toString n).toList = digits n := by
  rw [Nat.toString_eq_ofList_toDigits, String.toList_ofList, digits]

/-- An integer of 64 bits is printed with a sign where it needs one. -/
theorem printed_integer {d : Nat} {value : Int} (hlow : -(signedBound : Int) ≤ value)
    (hhigh : value ≤ maxWord) :
    Written d (.value (.number (.integer value))) (utf8 (toString value).toList) := by
  cases value with
  | ofNat n =>
    have htext : utf8 (toString (Int.ofNat n)).toList = digits n := utf8_toString n
    have hle : decimal (digits n) ≤ maxWord := by
      rw [decimal_digits]
      exact Int.ofNat_le.mp hhigh
    have hwritten := Written.number (d := d) (whole_digits n) hle
    rwa [decimal_digits, ← htext] at hwritten
  | negSucc n =>
    have htext : utf8 (toString (Int.negSucc n)).toList = 0x2D :: digits (n + 1) := by
      have hsign : (toString (Int.negSucc n)).toList = '-' :: (toString (n + 1)).toList :=
        String.toList_append
      rw [hsign, utf8_cons, utf8_toString]
      rfl
    have hbound : decimal (digits (n + 1)) ≤ signedBound := by
      rw [decimal_digits]
      omega
    have hwritten := Written.negative (d := d) (whole_digits (n + 1))
      (by rw [decimal_digits]; exact Nat.succ_pos n) hbound
    rw [decimal_digits, ← htext] at hwritten
    exact hwritten

/-! ## Strings -/

theorem hexUnit_hexDigit : ∀ n < 32,
    hexUnit 0x30 0x30 (.ofNat (hexDigit (n / 16)).toNat) (.ofNat (hexDigit (n % 16)).toNat) =
      some n := by
  decide

theorem encode_hexDigit : ∀ n < 16,
    String.utf8EncodeChar (hexDigit n) = [.ofNat (hexDigit n).toNat] := by
  decide

/-- A character without a short form is escaped by its number. -/
theorem glyph_control {c : Char} (hc : c.toNat < 0x20) :
    Glyph c (utf8 ['\\', 'u', '0', '0', hexDigit (c.toNat / 16), hexDigit (c.toNat % 16)]) := by
  have hbytes : utf8 ['\\', 'u', '0', '0', hexDigit (c.toNat / 16), hexDigit (c.toNat % 16)] =
      [0x5C, 0x75, 0x30, 0x30, .ofNat (hexDigit (c.toNat / 16)).toNat,
        .ofNat (hexDigit (c.toNat % 16)).toNat] := by
    simp only [utf8_cons, encode_hexDigit _ (Nat.mod_lt _ (by decide : 0 < 16)),
      encode_hexDigit (c.toNat / 16) (by omega)]
    rfl
  have hglyph := Glyph.code (hexUnit_hexDigit c.toNat hc) (.inl (by omega))
  rwa [Char.ofNat_toNat, ← hbytes] at hglyph

theorem glyph_escapeChar (c : Char) : Glyph c (utf8 (escapeChar c)) := by
  unfold escapeChar
  split
  · subst c
    exact .letter (e := 0x22) rfl
  split
  · subst c
    exact .letter (e := 0x5C) rfl
  split
  · subst c
    exact .letter (e := 0x62) rfl
  split
  · subst c
    exact .letter (e := 0x66) rfl
  split
  · subst c
    exact .letter (e := 0x6E) rfl
  split
  · subst c
    exact .letter (e := 0x72) rfl
  split
  · subst c
    exact .letter (e := 0x74) rfl
  split
  case isTrue hc => exact glyph_control hc
  case isFalse hquote hback _ _ _ _ _ hc =>
    rw [utf8_cons]
    exact (List.append_nil (String.utf8EncodeChar c)).symm ▸ .plain (by omega) hquote hback

theorem glyphs_escaped (cs : List Char) : Glyphs cs (utf8 (cs.flatMap escapeChar)) := by
  induction cs with
  | nil => exact .nil
  | cons c cs ih =>
    rw [List.flatMap_cons, utf8_append]
    exact .cons (glyph_escapeChar c) ih

theorem utf8_printString (text : String) :
    utf8 (printString text) = 0x22 :: (utf8 (text.toList.flatMap escapeChar) ++ [0x22]) := by
  rw [printString, utf8_cons, utf8_append]
  rfl

/-! ## Lists and objects -/

theorem utf8_comma (cs : List Char) : utf8 (',' :: cs) = 0x2C :: utf8 cs :=
  utf8_cons ',' cs

/-- The items of a list are printed with nothing but a comma between them. -/
theorem printed_items {d : Nat} {first : Bool} {j : Json} {js : List Json} {u : Bytes}
    (hu : Lead first u) (hjs : ∀ k ∈ j :: js, Written d (.value k) (utf8 (print k))) :
    Written d (.items first (j :: js)) (u ++ utf8 (printItems (j :: js))) := by
  obtain ⟨hj, hrest⟩ := List.forall_mem_cons.mp hjs
  induction js generalizing first j u with
  | nil =>
    have hitem := Written.item hu hj (.noItem blank_nil)
    rwa [List.append_nil] at hitem
  | cons k js ih =>
    have htail := ih (.later blank_nil blank_nil) hrest (hrest k List.mem_cons_self)
      (List.forall_mem_cons.mp hrest).2
    have hprint : printItems (j :: k :: js) = print j ++ ',' :: printItems (k :: js) := by
      rw [printItems]
      simp
    rw [hprint, utf8_append, utf8_comma]
    exact .item hu hj htail

theorem utf8_member (key : String) (value : Json) (cs : List Char) :
    utf8 (printString key ++ ':' :: (print value ++ cs)) =
      0x22 :: (utf8 (key.toList.flatMap escapeChar) ++
        0x22 :: ([] ++ 0x3A :: ([] ++ (utf8 (print value) ++ utf8 cs)))) := by
  have hcolon (cs : List Char) : utf8 (':' :: cs) = 0x3A :: utf8 cs := utf8_cons ':' cs
  rw [utf8_append, utf8_printString, hcolon, utf8_append]
  simp

/-- The members of an object are printed with nothing but a colon inside them and
a comma between them. -/
theorem printed_members {d : Nat} {first : Bool} {m : String × Json}
    {ms : List (String × Json)} {u : Bytes} (hu : Lead first u)
    (hms : ∀ k ∈ m :: ms, Written d (.value k.2) (utf8 (print k.2))) :
    Written d (.members first (m :: ms)) (u ++ utf8 (printMembers (m :: ms))) := by
  obtain ⟨hm, hrest⟩ := List.forall_mem_cons.mp hms
  have hkey := glyphs_escaped m.1.toList
  induction ms generalizing first m u with
  | nil =>
    have hprint : printMembers [m] = printString m.1 ++ ':' :: (print m.2 ++ []) := by
      rw [printMembers, List.append_nil]
    rw [hprint, utf8_member]
    exact .member hu hkey blank_nil blank_nil hm (.noMember blank_nil)
  | cons k ms ih =>
    have htail := ih (.later blank_nil blank_nil) hrest (hrest k List.mem_cons_self)
      (List.forall_mem_cons.mp hrest).2 (glyphs_escaped k.1.toList)
    have hprint : printMembers (m :: k :: ms) =
        printString m.1 ++ ':' :: (print m.2 ++ ',' :: printMembers (k :: ms)) := by
      rw [printMembers]
      simp
    rw [hprint, utf8_member, utf8_comma]
    exact .member hu hkey blank_nil blank_nil hm htail

/-- Between its brackets a list is printed item by item. -/
theorem written_items {d : Nat} {js : List Json}
    (hjs : ∀ j ∈ js, Written d (.value j) (utf8 (print j))) :
    Written d (.items true js) (utf8 (printItems js)) := by
  cases js with
  | nil => exact .noItem blank_nil
  | cons j js => exact printed_items (.first blank_nil) hjs

theorem written_members {d : Nat} {ms : List (String × Json)}
    (hms : ∀ m ∈ ms, Written d (.value m.2) (utf8 (print m.2))) :
    Written d (.members true ms) (utf8 (printMembers ms)) := by
  cases ms with
  | nil => exact .noMember blank_nil
  | cons m ms => exact printed_members (.first blank_nil) hms

/-! ## Sorted members -/

/-- A member with the greatest key comes last. -/
theorem insertMember_last {key : String} (value : Json) {sorted : List (String × Json)}
    (h : ∀ m ∈ sorted, m.1 < key) :
    insertMember key value sorted = sorted ++ [(key, value)] := by
  induction sorted with
  | nil => rfl
  | cons m sorted ih =>
    obtain ⟨hm, hrest⟩ := List.forall_mem_cons.mp h
    have hne : key ≠ m.1 := by
      rintro rfl
      exact String.lt_irrefl _ hm
    rw [insertMember, if_neg (String.lt_asymm hm), if_neg hne, ih hrest]
    rfl

theorem insertMembers_sorted {members sorted : List (String × Json)}
    (h : ((sorted ++ members).map Prod.fst).Pairwise (· < ·)) :
    insertMembers members sorted = sorted ++ members := by
  induction members generalizing sorted with
  | nil => exact (List.append_nil sorted).symm
  | cons m members ih =>
    have hlast : ∀ k ∈ sorted, k.1 < m.1 := by
      rw [List.map_append, List.pairwise_append] at h
      exact fun k hk => h.2.2 k.1 (List.mem_map_of_mem hk) m.1 List.mem_cons_self
    have happend : sorted ++ [m] ++ members = sorted ++ m :: members := List.append_assoc _ _ _
    rw [insertMembers, List.foldl_cons, insertMember_last m.2 hlast, ← happend]
    exact ih (happend ▸ h)

theorem ofMembers_sorted {members : List (String × Json)}
    (h : (members.map Prod.fst).Pairwise (· < ·)) : ofMembers members = .object members := by
  have hsorted : insertMembers members [] = [] ++ members := insertMembers_sorted h
  exact congrArg Json.object hsorted

/-! ## Values -/

/-- The compact text of a canonical value is one of its texts. -/
theorem Canonical.printed {d : Nat} {j : Json} (h : Canonical d j) :
    Written d (.value j) (utf8 (print j)) := by
  induction h with
  | null => exact .nullWord
  | @bool _ b =>
    cases b
    · exact .falseWord
    · exact .trueWord
  | integer hlow hhigh => exact printed_integer hlow hhigh
  | string =>
    rw [print, utf8_printString]
    exact .string (glyphs_escaped _)
  | array _ ih =>
    rw [print, utf8_cons, utf8_append]
    exact .list (written_items ih)
  | @object _ ms hkeys _ ih =>
    have hnodup : (ms.map Prod.fst).Nodup := by
      refine List.Pairwise.imp ?_ hkeys
      rintro key _ hlt rfl
      exact String.lt_irrefl key hlt
    have hobject := Written.object hnodup (written_members ih)
    rw [ofMembers_sorted hkeys] at hobject
    rw [print, utf8_cons, utf8_append]
    exact hobject

end RecordDispatch.Json
