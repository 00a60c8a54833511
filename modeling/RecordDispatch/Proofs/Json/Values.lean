import RecordDispatch.Proofs.Json.Numbers
import RecordDispatch.Proofs.Json.Strings

/-!
# What the readers make of values

`Paired.judged` is the induction over the grammar: what is made of a value, of
the items of a list and of the members of an object does not depend on what
follows.  `Paired.skipped` is the one for skipping, which always succeeds.
-/

namespace RecordDispatch.Json

/-! ## Beginnings and ends -/

theorem isSpace_iff {b : UInt8} :
    isSpace b = true ↔ b = 0x20 ∨ b = 0x0A ∨ b = 0x09 ∨ b = 0x0D := by
  simp [isSpace, or_assoc]

theorem opening_of_isDigit {d : UInt8} (hd : isDigit d = true) : Opening d := by
  refine ⟨Bool.eq_false_iff.mpr fun h => ?_, ?_, ?_, ?_⟩
  · obtain rfl | rfl | rfl | rfl := isSpace_iff.mp h <;> cases hd
  all_goals
    rintro rfl
    cases hd

theorem Figures.head {n : Bytes} (hn : Figures n) : ∃ d rest, n = d :: rest ∧ isDigit d = true := by
  obtain ⟨hw, hf, he⟩ := hn
  cases hw with
  | zero => exact ⟨_, _, rfl, rfl⟩
  | digits hd => exact ⟨_, _, rfl, hd⟩

/-- Paired values begin alike. -/
theorem Paired.head {R : Bytes → Bytes → Prop} {x x' : Bytes} (h : Paired R .value x x') :
    ∃ b rest rest', x = b :: rest ∧ x' = b :: rest' ∧ Opening b := by
  cases h with
  | number hn =>
    obtain ⟨d, rest, rfl, hd⟩ := hn.head
    exact ⟨d, rest, rest, rfl, rfl, opening_of_isDigit hd⟩
  | _ => exact ⟨_, _, _, rfl, rfl, ⟨rfl, by decide, by decide, by decide⟩⟩

/-- The two texts of a pair change places. -/
theorem Paired.swap {R : Bytes → Bytes → Prop} {f : Form} {x x' : Bytes} (h : Paired R f x x') :
    Paired (fun s s' => R s' s) f x' x := by
  induction h with
  | nullWord => exact .nullWord
  | trueWord => exact .trueWord
  | falseWord => exact .falseWord
  | number hn => exact .number hn
  | negative hn => exact .negative hn
  | string hs => exact .string hs
  | list _ ih => exact .list ih
  | object _ ih => exact .object ih
  | noItem hw => exact .noItem hw
  | item hu _ _ ihv iht => exact .item hu ihv iht
  | noMember hw => exact .noMember hw
  | member hu hk hw hw' _ _ ihv iht => exact .member hu hk hw hw' ihv iht

section Heads

variable {R : Bytes → Bytes → Prop} {x x' : Bytes}

/-- A value that begins with a quote is a string. -/
theorem Paired.string_of_head (h : Paired R .value x x') (hx : x.head? = some 0x22) :
    ∃ s s', R s s' ∧ x = 0x22 :: (s ++ [0x22]) ∧ x' = 0x22 :: (s' ++ [0x22]) := by
  cases h with
  | string hs => exact ⟨_, _, hs, rfl, rfl⟩
  | number hn =>
    obtain ⟨d, rest, rfl, hd⟩ := hn.head
    cases hx
    cases hd
  | _ => simp at hx

/-- A value that begins with a brace is an object. -/
theorem Paired.object_of_head (h : Paired R .value x x') (hx : x.head? = some 0x7B) :
    ∃ s s', Paired R (.members true) s s' ∧ x = 0x7B :: (s ++ [0x7D]) ∧
      x' = 0x7B :: (s' ++ [0x7D]) := by
  cases h with
  | object hs => exact ⟨_, _, hs, rfl, rfl⟩
  | number hn =>
    obtain ⟨d, rest, rfl, hd⟩ := hn.head
    cases hx
    cases hd
  | _ => simp at hx

/-- A value that begins like `null` is that. -/
theorem Paired.null_of_head (h : Paired R .value x x') (hx : x.head? = some 0x6E) :
    x = [0x6E, 0x75, 0x6C, 0x6C] ∧ x' = [0x6E, 0x75, 0x6C, 0x6C] := by
  cases h with
  | nullWord => exact ⟨rfl, rfl⟩
  | number hn =>
    obtain ⟨d, rest, rfl, hd⟩ := hn.head
    cases hx
    cases hd
  | _ => simp at hx

end Heads

/-- A text that begins with a given byte. -/
def Begins (b : UInt8) (r : Bytes) : Prop :=
  ∃ t, r = b :: t

theorem Ends.append_blank {w r : Bytes} (hw : Blank w) (hr : Ends r) : Ends (w ++ r) := by
  cases w with
  | nil => exact hr
  | cons b w =>
    rintro _ ⟨⟩
    obtain rfl | rfl | rfl | rfl := isSpace_iff.mp (hw b List.mem_cons_self) <;> decide

theorem ends_comma (t : Bytes) : Ends (0x2C :: t) := by
  rintro _ ⟨⟩
  decide

theorem Ends.of_bracket {r : Bytes} (hr : Begins 0x5D r) : Ends r := by
  obtain ⟨t, rfl⟩ := hr
  rintro _ ⟨⟩
  decide

theorem Ends.of_brace {r : Bytes} (hr : Begins 0x7D r) : Ends r := by
  obtain ⟨t, rfl⟩ := hr
  rintro _ ⟨⟩
  decide

theorem Lead.ends {u : Bytes} (hu : Lead false u) (t : Bytes) : Ends (u ++ t) := by
  cases hu with
  | later hw hw' =>
    rw [List.append_assoc]
    exact .append_blank hw (ends_comma _)

section Entries

variable {R : Bytes → Bytes → Prop} {t t' r : Bytes}

theorem Paired.items_ends (ht : Paired R (.items false) t t') (hr : Begins 0x5D r) :
    Ends (t ++ r) := by
  cases ht with
  | noItem hw => exact .append_blank hw (.of_bracket hr)
  | item hu =>
    rw [List.append_assoc]
    exact hu.ends _

theorem Paired.members_ends (ht : Paired R (.members false) t t') (hr : Begins 0x7D r) :
    Ends (t ++ r) := by
  cases ht with
  | noMember hw => exact .append_blank hw (.of_brace hr)
  | member hu =>
    rw [List.append_assoc]
    exact hu.ends _

end Entries

/-! ## What the bounds do not change -/

/-- What is made of a text of a form does not depend on what follows it, whatever
the bounds are. -/
def Judged : Form → Bytes → Prop
  | .value, x => ∀ fuel depth, ∃ v, Makes Ends (readValue fuel depth) x v
  | .items first, s => ∀ fuel depth, ∃ v, Makes (Begins 0x5D) (readItems fuel depth first) s v
  | .members first, s => ∀ fuel depth members, ∃ v,
    Makes (Begins 0x7D) (readMembers fuel depth first members) s v

/-- Without fuel nothing is read. -/
theorem makes_nestedTooDeep {α : Type} {Next : Bytes → Prop}
    {f : Bytes → Except Fault (α × Bytes)} (hf : ∀ s, f s = fail .nestedTooDeep s) (x : Bytes) :
    ∃ v, Makes Next f x v :=
  ⟨.fault .nestedTooDeep x, fun r _ => hf (x ++ r)⟩

/-- What is left to show is what a reader with fuel makes of a text. -/
theorem judged_value {x : Bytes}
    (h : ∀ fuel depth, ∃ v, Makes Ends (readValue (fuel + 1) depth) x v) : Judged .value x := by
  rintro (_ | fuel) depth
  · exact makes_nestedTooDeep (fun s => by rw [readValue]) x
  · exact h fuel depth

theorem judged_items {first : Bool} {s : Bytes}
    (h : ∀ fuel depth, ∃ v, Makes (Begins 0x5D) (readItems (fuel + 1) depth first) s v) :
    Judged (.items first) s := by
  rintro (_ | fuel) depth
  · exact makes_nestedTooDeep (fun s => by rw [readItems]) s
  · exact h fuel depth

theorem judged_members {first : Bool} {s : Bytes}
    (h : ∀ fuel depth members, ∃ v,
      Makes (Begins 0x7D) (readMembers (fuel + 1) depth first members) s v) :
    Judged (.members first) s := by
  rintro (_ | fuel) depth members
  · exact makes_nestedTooDeep (fun s => by rw [readMembers]) s
  · exact h fuel depth members

/-! ## From entry to entry -/

theorem nextItem_item {first : Bool} {u : Bytes} {b : UInt8} (hu : Lead first u)
    (hb : Opening b) (t : Bytes) : nextItem first (u ++ b :: t) = .ok (some (b :: t)) := by
  cases hu with
  | first hw =>
    rw [nextItem, skipBlanks_append hw, skipBlanks_cons hb.space]
    simp [hb.bracket]
  | @later w w' hw hw' =>
    rw [nextItem, List.append_assoc, skipBlanks_append hw, List.cons_append,
      skipBlanks_cons (by decide)]
    simp [skipBlanks_append hw', skipBlanks_cons hb.space, hb.bracket]

theorem nextItem_bracket {first : Bool} {w : Bytes} (hw : Blank w) (r : Bytes) :
    nextItem first (w ++ 0x5D :: r) = .ok none := by
  rw [nextItem, skipBlanks_append hw, skipBlanks_cons (by decide)]
  rfl

theorem nextMember_key {first : Bool} {u : Bytes} (hu : Lead first u) (t : Bytes) :
    nextMember first (u ++ 0x22 :: t) = .ok (some t) := by
  cases hu with
  | first hw =>
    rw [nextMember, skipBlanks_append hw, skipBlanks_cons (by decide)]
    rfl
  | @later w w' hw hw' =>
    rw [nextMember, List.append_assoc, skipBlanks_append hw, List.cons_append,
      skipBlanks_cons (by decide)]
    simp only [skipBlanks_append hw', skipBlanks_cons (show isSpace 0x22 = false by decide)]
    rfl

theorem nextMember_brace {first : Bool} {w : Bytes} (hw : Blank w) (r : Bytes) :
    nextMember first (w ++ 0x7D :: r) = .ok none := by
  rw [nextMember, skipBlanks_append hw, skipBlanks_cons (by decide)]
  rfl

/-! ## Reading -/

section Reading

variable (fuel depth : Nat)

theorem readValue_blank {w : Bytes} (hw : Blank w) (s : Bytes) :
    readValue (fuel + 1) depth (w ++ s) = readValue (fuel + 1) depth s := by
  rw [readValue, readValue, skipBlanks_append hw]

theorem readValue_quote (s : Bytes) :
    readValue (fuel + 1) depth (0x22 :: s) = (do
      let (text, rest) ← readString s
      return (.string text, rest)) := by
  rw [readValue, skipBlanks_cons (by decide)]
  rfl

theorem readValue_minus (s : Bytes) :
    readValue (fuel + 1) depth (0x2D :: s) = (do
      let (n, rest) ← readNumber true s
      return (.number n, rest)) := by
  rw [readValue, skipBlanks_cons (by decide)]
  rfl

theorem readValue_digit {d : UInt8} (hd : isDigit d = true) (s : Bytes) :
    readValue (fuel + 1) depth (d :: s) = (do
      let (n, rest) ← readNumber false (d :: s)
      return (.number n, rest)) := by
  have hne (b : UInt8) (hb : isDigit b = false) : d ≠ b := by
    rintro rfl
    simp [hd] at hb
  rw [readValue, skipBlanks_cons (opening_of_isDigit hd).space]
  dsimp only
  rw [if_neg (hne _ rfl), if_neg (hne _ rfl), if_neg (hne _ rfl), if_neg (hne _ rfl), if_pos hd]

theorem readValue_bracket (s : Bytes) :
    readValue (fuel + 1) depth (0x5B :: s) =
      if depth ≤ 1 then failNext .nestedTooDeep (0x5B :: s)
      else do
        let (items, rest) ← readItems fuel (depth - 1) true s
        let rest ← endList rest
        return (.array items, rest) := by
  rw [readValue, skipBlanks_cons (by decide)]
  rfl

theorem readValue_brace (s : Bytes) :
    readValue (fuel + 1) depth (0x7B :: s) =
      if depth ≤ 1 then failNext .nestedTooDeep (0x7B :: s)
      else do
        let (members, rest) ← readMembers fuel (depth - 1) true [] s
        let rest ← endObject rest
        return (.object members, rest) := by
  rw [readValue, skipBlanks_cons (by decide)]
  rfl

end Reading

/-- A reader that passes on what another makes of the rest of the text. -/
theorem Makes.cons {α : Type} {Next : Bytes → Prop} {f g : Bytes → Except Fault (α × Bytes)}
    {b : UInt8} {x : Bytes} {v : Verdict α} (h : Makes Next g x v)
    (hf : ∀ s, f (b :: s) = g s) : Makes Next f (b :: x) v :=
  fun r hr => (hf (x ++ r)).trans (h r hr)

theorem Makes.map {α β : Type} {Next : Bytes → Prop} {f : Bytes → Except Fault (α × Bytes)}
    {x : Bytes} {v : Verdict α} (h : Makes Next f x v) (g : α → β) :
    Makes Next (fun s => f s >>= fun p => pure (g p.1, p.2)) x (v.map g) := by
  intro r hr
  dsimp only
  rw [h r hr]
  cases v <;> rfl

section Judged

variable {s t u v w : Bytes}

theorem judged_list (hs : Judged (.items true) s) : Judged .value (0x5B :: (s ++ [0x5D])) := by
  refine judged_value fun fuel depth => ?_
  by_cases hdepth : depth ≤ 1
  · exact ⟨.fault .nestedTooDeep (s ++ [0x5D]), fun r _ =>
      (readValue_bracket fuel depth _).trans (if_pos hdepth)⟩
  · obtain ⟨v, hv⟩ := hs fuel (depth - 1)
    have hclose (items : List Json) : ∃ u, Makes Ends
        (fun s => endList s >>= fun rest => pure (Json.array items, rest)) [0x5D] u :=
      ⟨.read (.array items), fun r _ => rfl⟩
    obtain ⟨u, hu⟩ := hv.bind (fun r _ => ⟨r, rfl⟩) hclose
    exact ⟨u, hu.cons fun s => (readValue_bracket fuel depth s).trans (if_neg hdepth)⟩

theorem judged_object (hs : Judged (.members true) s) :
    Judged .value (0x7B :: (s ++ [0x7D])) := by
  refine judged_value fun fuel depth => ?_
  by_cases hdepth : depth ≤ 1
  · exact ⟨.fault .nestedTooDeep (s ++ [0x7D]), fun r _ =>
      (readValue_brace fuel depth _).trans (if_pos hdepth)⟩
  · obtain ⟨v, hv⟩ := hs fuel (depth - 1) []
    have hclose (members : List (String × Json)) : ∃ u, Makes Ends
        (fun s => endObject s >>= fun rest => pure (Json.object members, rest)) [0x7D] u :=
      ⟨.read (.object members), fun r _ => rfl⟩
    obtain ⟨u, hu⟩ := hv.bind (fun r _ => ⟨r, rfl⟩) hclose
    exact ⟨u, hu.cons fun s => (readValue_brace fuel depth s).trans (if_neg hdepth)⟩

theorem judged_noItem {first : Bool} (hw : Blank w) : Judged (.items first) w := by
  refine judged_items fun fuel depth => ?_
  refine ⟨.read [], fun r ⟨t, hr⟩ => ?_⟩
  rw [hr, readItems, nextItem_bracket hw, skipBlanks_append hw]
  rfl

theorem judged_item {first : Bool} {b : UInt8} (hu : Lead first u) (hb : Opening b)
    (hv : Judged .value (b :: v)) (ht : Judged (.items false) t)
    (hends : ∀ r, Begins 0x5D r → Ends (t ++ r)) :
    Judged (.items first) (u ++ (b :: v ++ t)) := by
  refine judged_items fun fuel depth => ?_
  obtain ⟨_, hvalue⟩ := hv fuel depth
  obtain ⟨_, hitems⟩ := ht fuel depth
  obtain ⟨verdict, hboth⟩ := hvalue.bind hends fun item => ⟨_, hitems.map (item :: ·)⟩
  refine ⟨verdict, fun r hr => ?_⟩
  rw [← hboth r hr, List.append_assoc, List.append_assoc, List.cons_append, readItems,
    nextItem_item hu hb]
  rfl

theorem judged_noMember {first : Bool} (hw : Blank w) : Judged (.members first) w := by
  refine judged_members fun fuel depth members => ?_
  refine ⟨.read members, fun r ⟨t, hr⟩ => ?_⟩
  rw [hr, readMembers, nextMember_brace hw, skipBlanks_append hw]
  rfl

/-- What follows a key in an object. -/
theorem makes_afterKey {α : Type} {Next : Bytes → Prop}
    {f : Bytes → Except Fault (α × Bytes)} {verdict : Verdict α} {w' x : Bytes} (hw : Blank w)
    (h : Makes Next f (w' ++ x) verdict) :
    Makes Next (fun s => colon s >>= f) (w ++ 0x3A :: (w' ++ x)) verdict := by
  intro r hr
  dsimp only
  rw [← h r hr, List.append_assoc, List.cons_append, colon_append hw]
  rfl

theorem judged_member {first : Bool} {k w' : Bytes} (hu : Lead first u) (hk : Strokes k)
    (hw : Blank w) (hw' : Blank w') (hv : Judged .value v) (ht : Judged (.members false) t)
    (hends : ∀ r, Begins 0x7D r → Ends (t ++ r)) :
    Judged (.members first) (u ++ 0x22 :: (k ++ 0x22 :: (w ++ 0x3A :: (w' ++ (v ++ t))))) := by
  refine judged_members fun fuel depth members => ?_
  obtain ⟨_, hkey⟩ := readString_strokes hk
  have hrest (key : String) : ∃ verdict, Makes (Begins 0x7D)
      (fun s => colon s >>= fun s => readValue fuel depth s >>= fun p =>
        readMembers fuel depth false (insertMember key p.1 members) p.2)
      (w ++ 0x3A :: (w' ++ (v ++ t))) verdict := by
    -- the blanks before the value are left to the reader of the value, which needs fuel
    cases fuel with
    | zero =>
      have hspent : ∃ verdict, Makes (Begins 0x7D)
          (fun s => readValue 0 depth s >>= fun p =>
            readMembers 0 depth false (insertMember key p.1 members) p.2)
          (w' ++ (v ++ t)) verdict :=
        makes_nestedTooDeep (fun s => by rw [readValue]; rfl) _
      exact hspent.imp fun _ h => makes_afterKey hw h
    | succ fuel =>
      obtain ⟨_, hvalue⟩ := hv (fuel + 1) depth
      obtain ⟨verdict, hboth⟩ := hvalue.bind hends fun value =>
        ht (fuel + 1) depth (insertMember key value members)
      refine ⟨verdict, makes_afterKey hw fun r hr => ?_⟩
      rw [← hboth r hr, List.append_assoc w', readValue_blank _ _ hw']
  obtain ⟨verdict, hboth⟩ := hkey.bind (fun _ _ => trivial) hrest
  refine ⟨verdict, fun r hr => ?_⟩
  have happend : (u ++ 0x22 :: (k ++ 0x22 :: (w ++ 0x3A :: (w' ++ (v ++ t))))) ++ r =
      u ++ 0x22 :: ((k ++ [0x22] ++ (w ++ 0x3A :: (w' ++ (v ++ t)))) ++ r) := by simp
  rw [← hboth r hr, happend, readMembers, nextMember_key hu]
  rfl

end Judged

section Scalars

variable {s n w : Bytes}

theorem judged_word {b : UInt8} (value : Json)
    (hread : ∀ fuel depth s, readValue (fuel + 1) depth (b :: s) = (do
      let rest ← word w s
      return (value, rest))) : Judged .value (b :: w) := by
  refine judged_value fun fuel depth => ?_
  refine ⟨.read value, fun r _ => ?_⟩
  rw [List.cons_append, hread, word_append]
  rfl

theorem judged_string (hs : Strokes s) : Judged .value (0x22 :: (s ++ [0x22])) := by
  refine judged_value fun fuel depth => ?_
  obtain ⟨_, hread⟩ := readString_strokes hs
  exact ⟨_, ((hread.mono fun _ _ => trivial).map Json.string).cons fun s =>
    readValue_quote fuel depth s⟩

theorem judged_number (hn : Figures n) : Judged .value n := by
  refine judged_value fun fuel depth => ?_
  obtain ⟨_, hread⟩ := readNumber_figures hn false
  obtain ⟨d, rest, rfl, hd⟩ := hn.head
  exact ⟨_, fun r hr => (readValue_digit fuel depth hd (rest ++ r)).trans
    (hread.map Json.number r hr)⟩

theorem judged_negative (hn : Figures n) : Judged .value (0x2D :: n) := by
  refine judged_value fun fuel depth => ?_
  obtain ⟨_, hread⟩ := readNumber_figures hn true
  exact ⟨_, (hread.map Json.number).cons fun s => readValue_minus fuel depth s⟩

end Scalars

/-- What is made of a text does not depend on what follows it. -/
theorem Paired.judged {R : Bytes → Bytes → Prop} {f : Form} {x x' : Bytes}
    (h : Paired R f x x') (hstring : ∀ s s', R s s' → Strokes s) : Judged f x := by
  induction h with
  | nullWord =>
    refine judged_word .null fun fuel depth s => ?_
    rw [readValue, skipBlanks_cons (by decide)]
    rfl
  | trueWord =>
    refine judged_word (.bool true) fun fuel depth s => ?_
    rw [readValue, skipBlanks_cons (by decide)]
    rfl
  | falseWord =>
    refine judged_word (.bool false) fun fuel depth s => ?_
    rw [readValue, skipBlanks_cons (by decide)]
    rfl
  | number hn => exact judged_number hn
  | negative hn => exact judged_negative hn
  | string hs => exact judged_string (hstring _ _ hs)
  | list _ ih => exact judged_list ih
  | object _ ih => exact judged_object ih
  | noItem hw => exact judged_noItem hw
  | item hu hv ht ihv iht =>
    obtain ⟨b, v, v', rfl, rfl, hb⟩ := hv.head
    exact judged_item hu hb ihv iht fun r hr => ht.items_ends hr
  | noMember hw => exact judged_noMember hw
  | member hu hk hw hw' hv ht ihv iht =>
    exact judged_member hu hk hw hw' ihv iht fun r hr => ht.members_ends hr

/-! ## Skipping -/

/-- With fuel for the length of a text of a form, its end is found. -/
def Skipped : Form → Bytes → Prop
  | .value, x => ∀ fuel r, 2 * x.length ≤ fuel → Ends r → skipValue fuel (x ++ r) = .ok r
  | .items first, s => ∀ fuel r, 2 * s.length + 1 ≤ fuel →
    skipItems fuel first (s ++ 0x5D :: r) = .ok r
  | .members first, s => ∀ fuel r, 2 * s.length + 1 ≤ fuel →
    skipMembers fuel first (s ++ 0x7D :: r) = .ok r

section Skipping

variable (fuel : Nat) {first : Bool} {u w : Bytes}

theorem skipValue_blank (hw : Blank w) (s : Bytes) :
    skipValue (fuel + 1) (w ++ s) = skipValue (fuel + 1) s := by
  rw [skipValue, skipValue, skipBlanks_append hw]

theorem skipItems_bracket (hw : Blank w) (r : Bytes) :
    skipItems (fuel + 1) first (w ++ 0x5D :: r) = .ok r := by
  rw [skipItems, skipBlanks_append hw, skipBlanks_cons (by decide)]
  rfl

theorem skipItems_item {b : UInt8} (hu : Lead first u) (hb : Opening b) (t : Bytes) :
    skipItems (fuel + 2) first (u ++ b :: t) = (do
      let s ← skipValue (fuel + 1) (b :: t)
      skipItems (fuel + 1) false s) := by
  cases hu with
  | first hw =>
    rw [skipItems, skipBlanks_append hw, skipBlanks_cons hb.space]
    exact if_neg hb.bracket
  | later hw hw' =>
    rw [skipItems, List.append_assoc, skipBlanks_append hw, List.cons_append,
      skipBlanks_cons (by decide), ← skipValue_blank fuel hw']
    rfl

theorem skipMembers_brace (hw : Blank w) (r : Bytes) :
    skipMembers (fuel + 1) first (w ++ 0x7D :: r) = .ok r := by
  rw [skipMembers, skipBlanks_append hw, skipBlanks_cons (by decide)]
  rfl

theorem skipMembers_key (hu : Lead first u) (t : Bytes) :
    skipMembers (fuel + 1) first (u ++ 0x22 :: t) = (do
      let s ← skipMember fuel (0x22 :: t)
      skipMembers fuel false s) := by
  cases hu with
  | first hw =>
    rw [skipMembers, skipBlanks_append hw, skipBlanks_cons (by decide)]
    rfl
  | later hw hw' =>
    rw [skipMembers, List.append_assoc, skipBlanks_append hw, List.cons_append,
      skipBlanks_cons (by decide)]
    simp only [skipBlanks_append hw', skipBlanks_cons (show isSpace 0x22 = false by decide)]
    rfl

/-- A member whose key is a string is skipped to the end of its value. -/
theorem skipMember_append {k w' : Bytes} (hk : Strokes k) (hw : Blank w) (hw' : Blank w')
    (s : Bytes) :
    skipMember (fuel + 2) (0x22 :: (k ++ 0x22 :: (w ++ 0x3A :: (w' ++ s)))) =
      skipValue (fuel + 1) s := by
  rw [skipMember, if_pos rfl, ← skipValue_blank fuel hw']
  simp only [skipString_strokes hk, bind, Except.bind, colon_append hw]

end Skipping

section Skipped

variable {s n t u v w : Bytes} {first : Bool}

/-- A value is not empty, so there is fuel for its first byte. -/
theorem skipped_value {b : UInt8}
    (h : ∀ fuel r, 2 * s.length ≤ fuel → Ends r → skipValue (fuel + 1) (b :: (s ++ r)) = .ok r) :
    Skipped .value (b :: s) := by
  rintro (_ | fuel) r hfuel hr
  · simp at hfuel
  · rw [List.length_cons] at hfuel
    exact h fuel r (by omega) hr

theorem skipped_word {b : UInt8}
    (hread : ∀ fuel s, skipValue (fuel + 1) (b :: s) = word w s) : Skipped .value (b :: w) :=
  skipped_value fun fuel r _ _ => (hread fuel _).trans (word_append w r)

theorem skipped_number (hn : Figures n) : Skipped .value n := by
  obtain ⟨d, rest, rfl, hd⟩ := hn.head
  refine skipped_value fun fuel r _ hr => ?_
  have hne (b : UInt8) (hb : isDigit b = false) : d ≠ b := by
    rintro rfl
    simp [hd] at hb
  rw [skipValue, skipBlanks_cons (opening_of_isDigit hd).space]
  dsimp only
  rw [if_neg (hne _ rfl), if_neg (hne _ rfl), if_neg (hne _ rfl), if_neg (hne _ rfl), if_pos hd]
  exact skipNumber_figures hn hr

theorem skipped_negative (hn : Figures n) : Skipped .value (0x2D :: n) := by
  refine skipped_value fun fuel r _ hr => ?_
  rw [skipValue, skipBlanks_cons (by decide)]
  exact skipNumber_figures hn hr

theorem skipped_string (hs : Strokes s) : Skipped .value (0x22 :: (s ++ [0x22])) := by
  refine skipped_value fun fuel r _ _ => ?_
  rw [List.append_assoc, skipValue, skipBlanks_cons (by decide)]
  exact skipString_strokes hs r

theorem skipped_list (hs : Skipped (.items true) s) : Skipped .value (0x5B :: (s ++ [0x5D])) := by
  refine skipped_value fun fuel r hfuel _ => ?_
  rw [List.length_append, List.length_singleton] at hfuel
  rw [List.append_assoc, skipValue, skipBlanks_cons (by decide)]
  exact hs fuel r (by omega)

theorem skipped_object (hs : Skipped (.members true) s) :
    Skipped .value (0x7B :: (s ++ [0x7D])) := by
  refine skipped_value fun fuel r hfuel _ => ?_
  rw [List.length_append, List.length_singleton] at hfuel
  rw [List.append_assoc, skipValue, skipBlanks_cons (by decide)]
  exact hs fuel r (by omega)

theorem skipped_noItem (hw : Blank w) : Skipped (.items first) w := by
  rintro (_ | fuel) r hfuel
  · omega
  · exact skipItems_bracket fuel hw r

theorem skipped_item {b : UInt8} (hu : Lead first u) (hb : Opening b)
    (hv : Skipped .value (b :: v)) (ht : Skipped (.items false) t)
    (hends : ∀ r, Begins 0x5D r → Ends (t ++ r)) :
    Skipped (.items first) (u ++ (b :: v ++ t)) := by
  intro fuel r hfuel
  simp only [List.length_append, List.length_cons] at hfuel
  obtain ⟨fuel, rfl⟩ : ∃ n, fuel = n + 2 := ⟨fuel - 2, by omega⟩
  have hitem := hv (fuel + 1) (t ++ 0x5D :: r) (by simp; omega) (hends _ ⟨r, rfl⟩)
  rw [List.append_assoc, List.append_assoc, List.cons_append, skipItems_item fuel hu hb,
    ← List.cons_append, hitem]
  exact ht (fuel + 1) r (by omega)

theorem skipped_noMember (hw : Blank w) : Skipped (.members first) w := by
  rintro (_ | fuel) r hfuel
  · omega
  · exact skipMembers_brace fuel hw r

theorem skipped_member {k w' : Bytes} (hu : Lead first u) (hk : Strokes k) (hw : Blank w)
    (hw' : Blank w') (hv : Skipped .value v) (ht : Skipped (.members false) t)
    (hends : ∀ r, Begins 0x7D r → Ends (t ++ r)) :
    Skipped (.members first) (u ++ 0x22 :: (k ++ 0x22 :: (w ++ 0x3A :: (w' ++ (v ++ t))))) := by
  intro fuel r hfuel
  simp only [List.length_append, List.length_cons] at hfuel
  obtain ⟨fuel, rfl⟩ : ∃ n, fuel = n + 3 := ⟨fuel - 3, by omega⟩
  have hvalue := hv (fuel + 1) (t ++ 0x7D :: r) (by omega) (hends _ ⟨r, rfl⟩)
  have happend : (u ++ 0x22 :: (k ++ 0x22 :: (w ++ 0x3A :: (w' ++ (v ++ t))))) ++ 0x7D :: r =
      u ++ 0x22 :: (k ++ 0x22 :: (w ++ 0x3A :: (w' ++ (v ++ (t ++ 0x7D :: r))))) := by simp
  rw [happend, skipMembers_key _ hu, skipMember_append fuel hk hw hw', hvalue]
  exact ht (fuel + 2) r (by omega)

end Skipped

/-- What is skipped is never refused: neither its nesting nor its numbers count. -/
theorem Paired.skipped {R : Bytes → Bytes → Prop} {f : Form} {x x' : Bytes}
    (h : Paired R f x x') (hstring : ∀ s s', R s s' → Strokes s) : Skipped f x := by
  induction h with
  | nullWord | trueWord | falseWord =>
    refine skipped_word fun fuel s => ?_
    rw [skipValue, skipBlanks_cons (by decide)]
    rfl
  | number hn => exact skipped_number hn
  | negative hn => exact skipped_negative hn
  | string hs => exact skipped_string (hstring _ _ hs)
  | list _ ih => exact skipped_list ih
  | object _ ih => exact skipped_object ih
  | noItem hw => exact skipped_noItem hw
  | item hu hv ht ihv iht =>
    obtain ⟨b, v, v', rfl, rfl, hb⟩ := hv.head
    exact skipped_item hu hb ihv iht fun r hr => ht.items_ends hr
  | noMember hw => exact skipped_noMember hw
  | member hu hk hw hw' hv ht ihv iht =>
    exact skipped_member hu hk hw hw' ihv iht fun r hr => ht.members_ends hr

end RecordDispatch.Json
