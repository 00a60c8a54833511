import RecordDispatch.Proofs.Envelope.Credential

/-!
# Payloads read in parallel

Two payloads are alike if they are objects that are equal but for the values of
their members `authentication`, which a relation relates.  `readMembers_parallel`
is the induction over the members, and `decode_alike` says that two such payloads
are decoded alike, provided that no string alone stands for a credential where
they differ (`Covered`).
-/

namespace RecordDispatch.Json

theorem Paired.mono {R S : Bytes → Bytes → Prop} {f : Form} {x x' : Bytes}
    (h : Paired R f x x') (himp : ∀ s s', R s s' → S s s') : Paired S f x x' := by
  induction h with
  | nullWord => exact .nullWord
  | trueWord => exact .trueWord
  | falseWord => exact .falseWord
  | number hn => exact .number hn
  | negative hn => exact .negative hn
  | string hs => exact .string (himp _ _ hs)
  | list _ ih => exact .list ih
  | object _ ih => exact .object ih
  | noItem hw => exact .noItem hw
  | item hu _ _ ihv iht => exact .item hu ihv iht
  | noMember hw => exact .noMember hw
  | member hu hk hw hw' _ _ ihv iht => exact .member hu hk hw hw' ihv iht

end RecordDispatch.Json

namespace RecordDispatch.Envelope

open Json

/-- The members of two objects, or what remains of them once the first was read.
They are equal but for the values of members `authentication`, which are related. -/
inductive Members (C : Bytes → Bytes → Prop) : Bool → Bytes → Bytes → Prop
  | done {first : Bool} {w : Bytes} : Blank w → Members C first w w
  | other {first : Bool} {u k w w' v t t' : Bytes} : Lead first u → Strokes k → Blank w →
    Blank w' → Spelled .value v → Members C false t t' →
    Members C first
      (u ++ 0x22 :: (k ++ 0x22 :: (w ++ 0x3A :: (w' ++ (v ++ t)))))
      (u ++ 0x22 :: (k ++ 0x22 :: (w ++ 0x3A :: (w' ++ (v ++ t')))))
  | credential {first : Bool} {u k w w' v v' t t' : Bytes} : Lead first u →
    Glyphs "authentication".toList k → Blank w → Blank w' → C v v' → Members C false t t' →
    Members C first
      (u ++ 0x22 :: (k ++ 0x22 :: (w ++ 0x3A :: (w' ++ (v ++ t)))))
      (u ++ 0x22 :: (k ++ 0x22 :: (w ++ 0x3A :: (w' ++ (v' ++ t')))))

/-- Two payloads that are equal but for the values of members `authentication`,
which are related. -/
inductive Payloads (C : Bytes → Bytes → Prop) : Bytes → Bytes → Prop
  | object {w m m' w' : Bytes} : Blank w → Members C true m m' → Blank w' →
    Payloads C (w ++ 0x7B :: (m ++ 0x7D :: w')) (w ++ 0x7B :: (m' ++ 0x7D :: w'))

/-- Two values that differ at most in the characters of their strings. -/
def Masked (v v' : Bytes) : Prop :=
  Paired Veiled .value v v'

/-- The same, for values that are no strings alone. -/
def Covered (v v' : Bytes) : Prop :=
  Masked v v' ∧ (v.head? = some 0x22 → v' = v)

theorem Covered.refl {v : Bytes} (hv : Spelled .value v) : Covered v v :=
  ⟨hv.mono fun _ _ hs => .inl hs, fun _ => rfl⟩

theorem Covered.length_eq {v v' : Bytes} (h : Covered v v') : v.length = v'.length :=
  h.1.length_eq fun s s' hs => (readable_veiled s s' hs).1

section Members

variable {first : Bool} {m m' t t' r : Bytes}

theorem Members.length_eq (h : Members Covered first m m') : m.length = m'.length := by
  induction h with
  | done => rfl
  | other _ _ _ _ _ _ iht => simp [iht]
  | credential _ _ _ _ hv _ iht => simp [iht, hv.length_eq]

theorem Members.ends {C : Bytes → Bytes → Prop} (h : Members C false t t')
    (hr : Begins 0x7D r) : Ends (t ++ r) ∧ Ends (t' ++ r) := by
  cases h with
  | done hw => exact ⟨.append_blank hw (.of_brace hr), .append_blank hw (.of_brace hr)⟩
  | other hu | credential hu =>
    rw [List.append_assoc, List.append_assoc]
    exact ⟨hu.ends _, hu.ends _⟩

/-- The closing of an object stops before anything but its brace. -/
theorem objectStop_append {w : Bytes} {b : UInt8} (hw : Blank w) (hspace : isSpace b = false)
    (hbrace : b ≠ 0x7D) (s : Bytes) : objectStop (w ++ b :: s) = b :: s := by
  rw [objectStop, skipBlanks_append hw, skipBlanks_cons hspace]
  split
  · exact absurd (List.cons.inj ‹_›).1 hbrace
  · rfl

theorem length_objectStop_lead {u : Bytes} (hu : Lead false u) {x y : Bytes}
    (hlength : x.length = y.length) :
    (objectStop (u ++ x)).length = (objectStop (u ++ y)).length := by
  cases hu with
  | later hw hw' =>
    rw [List.append_assoc, List.append_assoc, List.cons_append, List.cons_append,
      objectStop_append hw rfl (by decide), objectStop_append hw rfl (by decide),
      List.length_cons, List.length_cons, List.length_append, List.length_append, hlength]

theorem Members.length_objectStop (h : Members Covered false t t') :
    (objectStop (t ++ 0x7D :: r)).length = (objectStop (t' ++ 0x7D :: r)).length := by
  cases h with
  | done hw => rfl
  | other hu _ _ _ _ ht =>
    rw [List.append_assoc, List.append_assoc]
    exact length_objectStop_lead hu (by simp [ht.length_eq])
  | credential hu _ _ _ hv ht =>
    rw [List.append_assoc, List.append_assoc]
    exact length_objectStop_lead hu (by simp [hv.length_eq, ht.length_eq])

end Members

/-! ## Reading the members -/

/-- Members that were read alike: the same but for the credential. -/
structure Slots.Alike (a b : Slots) : Prop where
  authentication : a.authentication.map (·.isSome) = b.authentication.map (·.isSome)
  messageId : a.messageId = b.messageId
  request : a.request = b.request

/-- What the reader of the members does once it has read a key. -/
def readMember (fuel : Nat) (slots : Slots) (key : String) (s : Bytes) :
    Except Fault (Slots × Bytes) :=
  if key = "authentication" then
    if slots.authentication.isSome then failWhole (.duplicateField key) s
    else do
      let s ← colon s
      let (value, s) ← readOptional readCredential s
      readMembers fuel false { slots with authentication := some value } s
  else if key = "message_id" then
    if slots.messageId.isSome then failWhole (.duplicateField key) s
    else do
      let s ← colon s
      let (value, s) ← readOptional readText s
      readMembers fuel false { slots with messageId := some value } s
  else if key = "request" then
    if slots.request.isSome then failWhole (.duplicateField key) s
    else do
      let s ← colon s
      let (value, s) ← readValue (fuelFor s) (nestingLimit - 1) s
      readMembers fuel false { slots with request := some value } s
  else do
    let s ← colon s
    let s ← skipValue (fuelFor s) s
    readMembers fuel false slots s

theorem readMembers_key {first : Bool} {u : Bytes} (hu : Lead first u) (fuel : Nat)
    (slots : Slots) (s : Bytes) :
    readMembers (fuel + 1) first slots (u ++ 0x22 :: s) =
      (readString s >>= fun p => readMember fuel slots p.1 p.2) := by
  rw [readMembers, nextMember_key hu]
  rfl

theorem readMembers_brace {first : Bool} {w : Bytes} (hw : Blank w) (fuel : Nat)
    (slots : Slots) (r : Bytes) :
    readMembers (fuel + 1) first slots (w ++ 0x7D :: r) = .ok (slots, 0x7D :: r) := by
  rw [readMembers, nextMember_brace hw, skipBlanks_append hw]
  rfl

theorem readOptional_blank {α : Type} (read : Bytes → Except Fault (α × Bytes)) {w : Bytes}
    (hw : Blank w) (s : Bytes) : readOptional read (w ++ s) = readOptional read s := by
  rw [readOptional.eq_def, readOptional.eq_def, skipBlanks_append hw]

section Step

variable {fuel : Nat} {a b : Slots} {w w' v v' t t' r : Bytes}

/-- A member that is there already is refused at its key. -/
theorem duplicate_parallel {cause : Cause} {x y : Bytes} (hw : Blank w)
    (hlength : x.length = y.length) :
    Parallel Slots.Alike (0x7D :: r) (0x7D :: r) (failWhole cause (w ++ 0x3A :: x))
      (failWhole cause (w ++ 0x3A :: y)) := by
  refine .whole ?_
  rw [objectStop_append hw rfl (by decide), objectStop_append hw rfl (by decide),
    List.length_cons, List.length_cons, hlength]

theorem Slots.Alike.isSome_eq (h : a.Alike b) :
    a.authentication.isSome = b.authentication.isSome := by
  have hsome := congrArg Option.isSome h.authentication
  rwa [Option.isSome_map, Option.isSome_map] at hsome

/-- One member is read in parallel if what follows it is.  Where its value is
changed, its key is `authentication`. -/
theorem readMember_parallel (key : String) (hab : a.Alike b) (hw : Blank w) (hw' : Blank w')
    (hv : Covered v v') (hkey : key ≠ "authentication" → Spelled .value v ∧ v' = v)
    (ht : Members Covered false t t')
    (hrest : ∀ a b : Slots, a.Alike b → Parallel Slots.Alike (0x7D :: r) (0x7D :: r)
      (readMembers fuel false a (t ++ 0x7D :: r)) (readMembers fuel false b (t' ++ 0x7D :: r))) :
    Parallel Slots.Alike (0x7D :: r) (0x7D :: r)
      (readMember fuel a key (w ++ 0x3A :: (w' ++ (v ++ (t ++ 0x7D :: r)))))
      (readMember fuel b key (w ++ 0x3A :: (w' ++ (v' ++ (t' ++ 0x7D :: r))))) := by
  obtain ⟨hends, hends'⟩ := ht.ends ⟨r, rfl⟩
  have hafter : (t ++ 0x7D :: r).length = (t' ++ 0x7D :: r).length := by
    rw [List.length_append, List.length_append, ht.length_eq]
  have hvalue : (w' ++ (v ++ (t ++ 0x7D :: r))).length =
      (w' ++ (v' ++ (t' ++ 0x7D :: r))).length := by
    simp only [List.length_append, hv.length_eq, ht.length_eq]
  unfold readMember
  by_cases hauth : key = "authentication"
  -- only here may the values differ
  · rw [if_pos hauth, if_pos hauth, hab.isSome_eq]
    split
    · exact duplicate_parallel hw hvalue
    rw [colon_append hw, colon_append hw, ok_bind, ok_bind, readOptional_blank _ hw',
      readOptional_blank _ hw']
    have hcredential := readOptional_parallel (U := fun o o' => o.isSome = o'.isSome) hv.1 rfl
      (fun _ _ _ => rfl) fun _ =>
        readCredential_parallel hv.1 hv.2 hafter ht.length_objectStop
    refine hcredential.bind fun o o' ho => ?_
    exact hrest _ _ ⟨congrArg some ho, hab.messageId, hab.request⟩
  obtain ⟨hspelled, rfl⟩ := hkey hauth
  rw [if_neg hauth, if_neg hauth]
  by_cases hid : key = "message_id"
  · rw [if_pos hid, if_pos hid, hab.messageId]
    split
    · exact duplicate_parallel hw hvalue
    rw [colon_append hw, colon_append hw, ok_bind, ok_bind, readOptional_blank _ hw',
      readOptional_blank _ hw']
    have hid := readOptional_parallel (U := Eq) hspelled rfl (fun _ _ => congrArg some) fun _ =>
      readText_parallel hspelled readable_same hends hends' hafter
    refine hid.bind fun o o' ho => ?_
    exact hrest _ _ ⟨hab.authentication, congrArg some ho, hab.request⟩
  rw [if_neg hid, if_neg hid]
  have hfuel : fuelFor (w' ++ (v' ++ (t ++ 0x7D :: r))) =
      fuelFor (w' ++ (v' ++ (t' ++ 0x7D :: r))) := by
    rw [fuelFor, fuelFor, hvalue]
  by_cases hrequest : key = "request"
  · rw [if_pos hrequest, if_pos hrequest, hab.request]
    split
    · exact duplicate_parallel hw hvalue
    rw [colon_append hw, colon_append hw, ok_bind, ok_bind, hfuel, fuelFor,
      readValue_blank _ _ hw', readValue_blank _ _ hw']
    obtain ⟨verdict, hverdict⟩ := hspelled.judged (fun _ _ hs => hs.1) _ _
    refine (hverdict.parallel hends hends' hafter).bind fun j j' hj => ?_
    exact hrest _ _ ⟨hab.authentication, hab.messageId, congrArg some hj⟩
  · rw [if_neg hrequest, if_neg hrequest, colon_append hw, colon_append hw, ok_bind, ok_bind,
      hfuel, fuelFor, skipValue_blank _ hw', skipValue_blank _ hw']
    have hskip := hspelled.skipped fun _ _ hs => hs.1
    rw [hskip _ _ ?_ hends, hskip _ _ ?_ hends']
    · exact hrest a b hab
    all_goals
      simp only [List.length_append]
      omega

end Step

/-- The members of two objects are read in parallel. -/
theorem readMembers_parallel {first : Bool} {m m' r : Bytes} (h : Members Covered first m m')
    (fuel : Nat) {a b : Slots} (hab : a.Alike b) :
    Parallel Slots.Alike (0x7D :: r) (0x7D :: r) (readMembers fuel first a (m ++ 0x7D :: r))
      (readMembers fuel first b (m' ++ 0x7D :: r)) := by
  induction h generalizing fuel a b with
  | done hw =>
    cases fuel with
    | zero => exact .fault rfl
    | succ fuel =>
      rw [readMembers_brace hw, readMembers_brace hw]
      exact .read hab
  | @other first u k w w' v t t' hu hk hw hw' hv ht iht =>
    cases fuel with
    | zero =>
      refine .fault ?_
      simp [ht.length_eq]
    | succ fuel =>
      simp only [List.append_assoc, List.cons_append]
      rw [readMembers_key hu, readMembers_key hu]
      refine (readString_parallel hk (by simp [ht.length_eq])).bind ?_
      rintro key _ rfl
      exact readMember_parallel key hab hw hw' (.refl hv) (fun _ => ⟨hv, rfl⟩) ht
        fun a b hab => iht fuel hab
  | @credential first u k w w' v v' t t' hu hk hw hw' hv ht iht =>
    cases fuel with
    | zero =>
      refine .fault ?_
      simp [ht.length_eq, hv.length_eq]
    | succ fuel =>
      simp only [List.append_assoc, List.cons_append]
      rw [readMembers_key hu, readMembers_key hu, readString_glyphs hk, readString_glyphs hk]
      exact readMember_parallel _ hab hw hw' hv (fun hkey => absurd String.ofList_toList hkey) ht
        fun a b hab => iht fuel hab

/-! ## Decoding -/

/-- Envelopes that differ in the credential at most, if there is one. -/
structure Alike (e e' : Envelope) : Prop where
  authentication : e.authentication.isSome = e'.authentication.isSome
  messageId : e.messageId = e'.messageId
  request : e.request = e'.request

theorem ofMembers_parallel {m m' r : Bytes} (h : Members Covered true m m') :
    Parallel Alike (0x7D :: r) (0x7D :: r) (ofMembers (m ++ 0x7D :: r))
      (ofMembers (m' ++ 0x7D :: r)) := by
  have hfuel : fuelFor (m ++ 0x7D :: r) = fuelFor (m' ++ 0x7D :: r) := by
    rw [fuelFor, fuelFor, List.length_append, List.length_append, h.length_eq]
  rw [ofMembers, ofMembers, hfuel]
  refine (readMembers_parallel h _ ⟨rfl, rfl, rfl⟩).bind fun a b hab => ?_
  dsimp only
  rw [hab.request]
  cases b.request with
  | none => exact .whole rfl
  | some request =>
    refine .read ⟨?_, congrArg Option.join hab.messageId, rfl⟩
    have hauth := hab.authentication
    dsimp only
    cases ha : a.authentication <;> cases hb : b.authentication <;> simp_all

/-- The envelope that an object holds, if only blanks follow the object. -/
theorem decode_object {w : Bytes} (hw : Blank w) (s : Bytes) :
    decode (w ++ 0x7B :: s) = (closed endObject objectStop (ofMembers s) >>= fun p =>
      finish p.2 >>= fun _ => pure p.1) := by
  rw [decode, read, skipBlanks_append hw, skipBlanks_cons (by decide)]
  rfl

theorem finish_closed {w : Bytes} (hw : Blank w) (e : Envelope) :
    (closed endObject objectStop (.ok (e, 0x7D :: w)) >>= fun p =>
      finish p.2 >>= fun _ => pure p.1) = .ok e := by
  have hfinish : finish w = .ok () := by
    have hblanks := skipBlanks_append hw []
    rw [List.append_nil] at hblanks
    rw [finish, hblanks]
    rfl
  change (finish w >>= fun _ => pure e) = _
  rw [hfinish]
  rfl

/-- Two payloads are decoded alike: both to an envelope, or both with a fault of
one cause at one place. -/
theorem decode_alike {x x' : Bytes} (h : Payloads Covered x x') :
    (∃ e e', decode x = .ok e ∧ decode x' = .ok e' ∧ e.Alike e') ∨
      ∃ fault fault', decode x = .error fault ∧ decode x' = .error fault' ∧
        fault.cause = fault'.cause ∧ fault.unread.length = fault'.unread.length := by
  obtain @⟨w, m, m', w', hw, hm, hw'⟩ := h
  have hmembers := ofMembers_parallel (r := w') hm
  rw [decode_object hw, decode_object hw]
  generalize ofMembers (m ++ 0x7D :: w') = answer at hmembers ⊢
  generalize ofMembers (m' ++ 0x7D :: w') = answer' at hmembers ⊢
  cases hmembers with
  | read he => exact .inl ⟨_, _, finish_closed hw' _, finish_closed hw' _, he⟩
  | fault hu => exact .inr ⟨_, _, rfl, rfl, rfl, hu⟩
  | whole hu => exact .inr ⟨_, _, rfl, rfl, rfl, hu⟩

end RecordDispatch.Envelope
