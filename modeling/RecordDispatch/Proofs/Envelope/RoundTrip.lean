import RecordDispatch.Work
import RecordDispatch.Proofs.Envelope.Payload
import RecordDispatch.Proofs.Json.Printed

/-!
# Envelopes and their texts

What is decoded from a payload is what was written into it.  A payload is a text
of an object, whose members are listed with the texts of their values (`Fields`,
`Document`).  They state an envelope (`States`) if each of its members is among
them once, or absent where nothing is lost; members of other names do not count.

* `readMember_stated` and `readMembers_stated`: a member that states a part of an
  envelope fills its slot with that part, and all members fill all slots.
* `readMember_ok` and `readMembers_ok`: whatever the members are, a name that
  comes twice is refused.
* `decode_stated` and `decode_refused` say so of whole payloads, `decode_print`
  and `decode_toJson` of printed ones, and `decode_inverts` of records.
-/

namespace RecordDispatch.Envelope

open Json

/-! ## Payloads and the envelopes that they state -/

/-- The members of an envelope. -/
def members (e : Envelope) : List (String × Json) :=
  [("authentication", (e.authentication.map (·.toJson)).getD .null),
   ("message_id", (e.messageId.map Json.string).getD .null),
   ("request", e.request)]

theorem toJson_eq (e : Envelope) : e.toJson = .object e.members := rfl

/-- The names that are not passed over. -/
def memberNames : List String := ["authentication", "message_id", "request"]

theorem mem_memberNames {key : String} :
    key ∈ memberNames ↔ key = "authentication" ∨ key = "message_id" ∨ key = "request" := by
  simp [memberNames]

/-- The members of an object, or what remains of them once the first was read,
with the texts of their values. -/
inductive Fields : Bool → List (String × Bytes) → Bytes → Prop
  | done {first : Bool} {w : Bytes} : Blank w → Fields first [] w
  | member {first : Bool} {name : String} {ms : List (String × Bytes)} {u k w w' v t : Bytes} :
    Lead first u → Glyphs name.toList k → Blank w → Blank w' → Spelled .value v →
    Fields false ms t →
    Fields first ((name, v) :: ms)
      (u ++ 0x22 :: (k ++ 0x22 :: (w ++ 0x3A :: (w' ++ (v ++ t)))))

/-- A text of an object with the given members. -/
inductive Document : List (String × Bytes) → Bytes → Prop
  | object {ms : List (String × Bytes)} {w m w' : Bytes} : Blank w → Fields true ms m → Blank w' →
    Document ms (w ++ 0x7B :: (m ++ 0x7D :: w'))

/-- Members that state an envelope, where `T` says which values state a value.
Nothing is stated twice, and only what is missing need not be stated. -/
structure States {β : Type} (T : Json → β → Prop) (ms : List (String × β)) (e : Envelope) :
    Prop where
  values : ∀ m ∈ ms, ∀ j, (m.1, j) ∈ e.members → T j m.2
  once : ∀ name ∈ memberNames, (ms.map Prod.fst).count name ≤ 1
  authentication : "authentication" ∈ ms.map Prod.fst ∨ e.authentication = none
  messageId : "message_id" ∈ ms.map Prod.fst ∨ e.messageId = none
  request : "request" ∈ ms.map Prod.fst

theorem Fields.ends {ms : List (String × Bytes)} {t r : Bytes} (h : Fields false ms t)
    (hr : Begins 0x7D r) : Ends (t ++ r) := by
  cases h with
  | done hw => exact .append_blank hw (.of_brace hr)
  | member hu =>
    rw [List.append_assoc]
    exact hu.ends _

/-- There are not more members than bytes. -/
theorem Fields.length_le {first : Bool} {ms : List (String × Bytes)} {m : Bytes}
    (h : Fields first ms m) : ms.length ≤ m.length := by
  induction h with
  | done => exact Nat.zero_le _
  | member _ _ _ _ _ _ ih =>
    simp only [List.length_append, List.length_cons]
    omega

/-! ## Slots -/

/-- How often a member was read. -/
def Slots.held (slots : Slots) (name : String) : Nat :=
  if name = "authentication" then slots.authentication.isSome.toNat
  else if name = "message_id" then slots.messageId.isSome.toNat
  else if name = "request" then slots.request.isSome.toNat
  else 0

/-- The slots after one more member of an envelope was read. -/
def Slots.put (e : Envelope) (slots : Slots) (name : String) : Slots :=
  if name = "authentication" then { slots with authentication := some e.authentication }
  else if name = "message_id" then { slots with messageId := some e.messageId }
  else if name = "request" then { slots with request := some e.request }
  else slots

theorem Slots.held_le_one (slots : Slots) (name : String) : slots.held name ≤ 1 := by
  unfold held
  split
  · exact Bool.toNat_le _
  split
  · exact Bool.toNat_le _
  split
  · exact Bool.toNat_le _
  · exact Nat.zero_le 1

theorem Slots.held_put (e : Envelope) (slots : Slots) (key : String) {name : String}
    (hname : name ∈ memberNames) :
    (slots.put e key).held name = if key = name then 1 else slots.held name := by
  unfold put held
  obtain rfl | rfl | rfl := mem_memberNames.mp hname
  all_goals grind

/-- A member of another name has no slot. -/
theorem Slots.put_other (e : Envelope) (slots : Slots) {key : String}
    (hkey : key ∉ memberNames) : slots.put e key = slots := by
  rw [mem_memberNames, not_or, not_or] at hkey
  rw [put, if_neg hkey.1, if_neg hkey.2.1, if_neg hkey.2.2]

/-- All members of an envelope that were named are in their slots. -/
theorem Slots.foldl_put (e : Envelope) (names : List String) (slots : Slots) :
    names.foldl (put e) slots =
      ⟨if "authentication" ∈ names then some e.authentication else slots.authentication,
       if "message_id" ∈ names then some e.messageId else slots.messageId,
       if "request" ∈ names then some e.request else slots.request⟩ := by
  induction names generalizing slots with
  | nil => rfl
  | cons key names ih =>
    rw [List.foldl_cons, ih]
    simp only [put, List.mem_cons, Slots.mk.injEq]
    grind

/-! ## Parts of an envelope -/

section Parts

variable {d : Nat} {v r : Bytes}

theorem readText_written {text : String} (hv : Written d (.value (.string text)) v) :
    readText (v ++ r) = .ok (text, r) := by
  obtain ⟨s, hs, rfl⟩ := hv.text
  rw [List.cons_append, List.append_assoc, readText, skipBlanks_cons (by decide)]
  dsimp only
  rw [if_pos rfl, List.singleton_append, readString_glyphs hs, String.ofList_toList]

/-- A credential is an object with one member, whose key names the kind. -/
theorem Authentication.toJson_alone (a : Authentication) :
    ∃ name kind text, a.toJson = .object [(name, .string text)] ∧
      credentialKind name = some kind ∧ kind text = a := by
  cases a with
  | apiKey key => exact ⟨"api_key", .apiKey, key, rfl, rfl, rfl⟩
  | jwt token => exact ⟨"jwt", .jwt, token, rfl, rfl, rfl⟩

theorem readCredential_written {a : Authentication} (hv : Written d (.value a.toJson) v) :
    readCredential (v ++ r) = .ok (a, r) := by
  obtain ⟨name, kind, text, ha, hkind, rfl⟩ := Authentication.toJson_alone a
  rw [ha] at hv
  obtain ⟨d', u, k, w, w', s, t, hu, hk, hw, hw', hs, ht, rfl⟩ := hv.alone
  have hkindread (rest : Bytes) : readKind (k ++ 0x22 :: rest) = .ok (kind, rest) := by
    rw [readKind, readString_glyphs hk, ok_bind, String.ofList_toList]
    dsimp only
    rw [hkind]
    rfl
  have hend : endCredential (kind text) (t ++ 0x7D :: r) = .ok (kind text, r) := by
    rw [endCredential, skipBlanks_append ht, skipBlanks_cons (by decide)]
    rfl
  simp only [List.cons_append, List.append_assoc, List.nil_append]
  rw [readCredential_key hu, hkindread, ok_bind]
  dsimp only
  rw [colon_append hw, ok_bind, readText_blank hw', readText_written hs, ok_bind]
  exact hend

/-- `null` stands for what is missing, and what is there is read as itself. -/
theorem readOptional_written {α : Type} {toJson : α → Json}
    {read : Bytes → Except Fault (α × Bytes)}
    (hread : ∀ a v, Written d (.value (toJson a)) v → read (v ++ r) = .ok (a, r))
    (hnull : ∀ a, toJson a ≠ .null) {o : Option α}
    (hv : Written d (.value ((o.map toJson).getD .null)) v) :
    readOptional read (v ++ r) = .ok (o, r) := by
  cases o with
  | none =>
    rw [hv.null]
    rfl
  | some a =>
    obtain ⟨b, s, _, rfl, -, hb⟩ := hv.spelled.head
    have hne : b ≠ 0x6E := by
      rintro rfl
      exact hnull a (hv.null_of_head rfl)
    rw [List.cons_append, readOptional_some hb hne, ← List.cons_append, hread a _ hv]
    rfl

end Parts

/-! ## One member -/

section Member

variable {fuel : Nat} {slots : Slots} {w w' v r : Bytes}

/-- A member whose slot is full is refused. -/
theorem readMember_twice {key : String} (hfull : slots.held key ≠ 0) (s : Bytes) :
    ∃ fault, readMember fuel slots key s = .error fault := by
  have filled {b : Bool} (h : b.toNat ≠ 0) : b = true :=
    (Bool.not_eq_false b).mp (mt Bool.toNat_eq_zero.mpr h)
  unfold Slots.held at hfull
  unfold readMember
  by_cases hauth : key = "authentication"
  · rw [if_pos hauth] at hfull ⊢
    exact ⟨_, if_pos (filled hfull)⟩
  rw [if_neg hauth] at hfull ⊢
  by_cases hid : key = "message_id"
  · rw [if_pos hid] at hfull ⊢
    exact ⟨_, if_pos (filled hfull)⟩
  rw [if_neg hid] at hfull ⊢
  by_cases hrequest : key = "request"
  · rw [if_pos hrequest] at hfull ⊢
    exact ⟨_, if_pos (filled hfull)⟩
  · exact absurd (if_neg hrequest) hfull

section Parts

variable (hw : Blank w) (hw' : Blank w')
include hw hw'

theorem readMember_authentication (hslot : slots.held "authentication" = 0) (s : Bytes) :
    readMember fuel slots "authentication" (w ++ 0x3A :: (w' ++ s)) =
      (readOptional readCredential s >>= fun p =>
        readMembers fuel false { slots with authentication := some p.1 } p.2) := by
  have hempty : slots.authentication.isSome = false := Bool.toNat_eq_zero.mp hslot
  rw [readMember, if_pos rfl, hempty, if_neg (by decide), colon_append hw, ok_bind,
    readOptional_blank _ hw']

theorem readMember_messageId (hslot : slots.held "message_id" = 0) (s : Bytes) :
    readMember fuel slots "message_id" (w ++ 0x3A :: (w' ++ s)) =
      (readOptional readText s >>= fun p =>
        readMembers fuel false { slots with messageId := some p.1 } p.2) := by
  have hempty : slots.messageId.isSome = false := Bool.toNat_eq_zero.mp hslot
  rw [readMember, if_neg (by decide), if_pos rfl, hempty, if_neg (by decide), colon_append hw,
    ok_bind, readOptional_blank _ hw']

theorem readMember_request (hslot : slots.held "request" = 0) (s : Bytes) :
    readMember fuel slots "request" (w ++ 0x3A :: (w' ++ s)) =
      (readValue (fuelFor (w' ++ s)) (nestingLimit - 1) s >>= fun p =>
        readMembers fuel false { slots with request := some p.1 } p.2) := by
  have hempty : slots.request.isSome = false := Bool.toNat_eq_zero.mp hslot
  rw [readMember, if_neg (by decide), if_neg (by decide), if_pos rfl, hempty, if_neg (by decide),
    colon_append hw, ok_bind, fuelFor, readValue_blank _ _ hw']

/-- A member of another name is passed over. -/
theorem readMember_other {key : String} (hkey : key ∉ memberNames) (hv : Spelled .value v)
    (hr : Ends r) :
    readMember fuel slots key (w ++ 0x3A :: (w' ++ (v ++ r))) =
      readMembers fuel false slots r := by
  rw [mem_memberNames, not_or, not_or] at hkey
  obtain ⟨hauth, hid, hrequest⟩ := hkey
  have hskip := hv.skipped (fun _ _ hs => hs.1) (fuelFor (w' ++ (v ++ r))) r
    (by rw [fuelFor]; simp only [List.length_append]; omega) hr
  rw [readMember, if_neg hauth, if_neg hid, if_neg hrequest, colon_append hw, ok_bind, fuelFor,
    skipValue_blank _ hw', ← fuelFor, hskip, ok_bind]

end Parts

end Member

/-! ## Members that state an envelope -/

section Members

variable {d fuel : Nat} {e : Envelope} {slots : Slots} {w w' v r : Bytes}

/-- A member that states a part of an envelope fills its slot. -/
theorem readMember_stated {key : String} (hd : d < nestingLimit - 1) (hw : Blank w)
    (hw' : Blank w') (hv : Spelled .value v)
    (hstated : ∀ j, (key, j) ∈ e.members → Written d (.value j) v)
    (hfree : key ∈ memberNames → slots.held key = 0) (hr : Ends r) :
    readMember fuel slots key (w ++ 0x3A :: (w' ++ (v ++ r))) =
      readMembers fuel false (slots.put e key) r := by
  by_cases hkey : key ∈ memberNames
  · have hslot := hfree hkey
    obtain rfl | rfl | rfl := mem_memberNames.mp hkey
    · have hpart := readOptional_written (r := r) (o := e.authentication)
        (fun _ _ h => readCredential_written h) (fun a => by cases a <;> exact nofun)
        (hstated _ List.mem_cons_self)
      rw [readMember_authentication hw hw' hslot, hpart]
      rfl
    · have hpart := readOptional_written (r := r) (o := e.messageId)
        (fun _ _ h => readText_written h) (fun _ => nofun)
        (hstated _ (List.mem_cons_of_mem _ List.mem_cons_self))
      rw [readMember_messageId hw hw' hslot, hpart]
      rfl
    · have hpart := (hstated e.request (by simp [members])).read (fuelFor (w' ++ (v ++ r)))
        (nestingLimit - 1) r (by rw [fuelFor]; simp only [List.length_append]; omega) hd hr
      rw [readMember_request hw hw' hslot, hpart]
      rfl
  · rw [readMember_other hw hw' hkey hv hr, Slots.put_other e slots hkey]

/-- Members that state an envelope fill its slots. -/
theorem readMembers_stated {first : Bool} {ms : List (String × Bytes)} {m : Bytes}
    (hd : d < nestingLimit - 1) (h : Fields first ms m)
    (hstated : ∀ k ∈ ms, ∀ j, (k.1, j) ∈ e.members → Written d (.value j) k.2)
    (hfree : ∀ name ∈ memberNames, slots.held name + (ms.map Prod.fst).count name ≤ 1)
    (hfuel : ms.length < fuel) :
    readMembers fuel first slots (m ++ 0x7D :: r) =
      .ok ((ms.map Prod.fst).foldl (Slots.put e) slots, 0x7D :: r) := by
  induction h generalizing fuel slots with
  | done hw =>
    obtain ⟨fuel, rfl⟩ : ∃ n, fuel = n + 1 := ⟨fuel - 1, by omega⟩
    exact readMembers_brace hw fuel slots r
  | @member first name ms u k w w' v t hu hk hw hw' hv ht ih =>
    obtain ⟨fuel, rfl⟩ : ∃ n, fuel = n + 1 := ⟨fuel - 1, by omega⟩
    obtain ⟨hmember, hrest⟩ := List.forall_mem_cons.mp hstated
    have hslot (hname : name ∈ memberNames) : slots.held name = 0 := by
      have := hfree name hname
      rw [List.map_cons, List.count_cons_self] at this
      omega
    have hafter : ∀ other ∈ memberNames,
        (slots.put e name).held other + (ms.map Prod.fst).count other ≤ 1 := by
      intro other hother
      have := hfree other hother
      rw [List.map_cons, List.count_cons] at this
      rw [Slots.held_put e slots name hother]
      by_cases hsame : name = other
      · subst hsame
        simp at this ⊢
        omega
      · simpa [hsame] using this
    have happend : (u ++ 0x22 :: (k ++ 0x22 :: (w ++ 0x3A :: (w' ++ (v ++ t))))) ++ 0x7D :: r =
        u ++ 0x22 :: (k ++ 0x22 :: (w ++ 0x3A :: (w' ++ (v ++ (t ++ 0x7D :: r))))) := by simp
    rw [happend, readMembers_key hu, readString_glyphs hk, ok_bind, String.ofList_toList]
    dsimp only
    rw [readMember_stated hd hw hw' hv hmember hslot (ht.ends ⟨r, rfl⟩)]
    exact ih hrest hafter (Nat.lt_of_succ_lt_succ hfuel)

/-- A reader that goes on after a text has found a value that ends with the text. -/
theorem ok_of_parallel {α β : Type} {T : α → α → Prop} {answer : Except Fault (α × Bytes)}
    {g : α × Bytes → Except Fault (β × Bytes)} {out : β × Bytes}
    (h : Parallel T r r answer answer) (hok : (answer >>= g) = .ok out) :
    ∃ a, g (a, r) = .ok out := by
  generalize answer = answer' at h hok
  cases h with
  | read _ => exact ⟨_, hok⟩
  | fault _ | whole _ => cases hok

/-- Whatever a member states, it fills a slot that was empty, or it is refused. -/
theorem readMember_ok {key : String} {out : Slots × Bytes} (hw : Blank w) (hw' : Blank w')
    (hv : Spelled .value v) (hr : Ends r)
    (hok : readMember fuel slots key (w ++ 0x3A :: (w' ++ (v ++ r))) = .ok out) :
    (key ∈ memberNames → slots.held key = 0) ∧
      ∃ e, readMembers fuel false (slots.put e key) r = .ok out := by
  have hslot : slots.held key = 0 := by
    refine Decidable.byContradiction fun hfull => ?_
    obtain ⟨fault, hfault⟩ := readMember_twice hfull (w ++ 0x3A :: (w' ++ (v ++ r)))
    cases hfault.symm.trans hok
  refine ⟨fun _ => hslot, ?_⟩
  by_cases hkey : key ∈ memberNames
  · obtain rfl | rfl | rfl := mem_memberNames.mp hkey
    · have hveiled : Paired Veiled .value v v := hv.mono fun _ _ hs => .inl hs
      have hpart : Parallel (fun _ _ => True) r r (readOptional readCredential (v ++ r))
          (readOptional readCredential (v ++ r)) :=
        readOptional_parallel hveiled trivial (fun _ _ _ => trivial) fun _ =>
          readCredential_parallel hveiled (fun _ => rfl) rfl rfl
      rw [readMember_authentication hw hw' hslot] at hok
      obtain ⟨a, ha⟩ := ok_of_parallel hpart hok
      exact ⟨⟨a, none, .null⟩, ha⟩
    · have hpart : Parallel Eq r r (readOptional readText (v ++ r))
          (readOptional readText (v ++ r)) :=
        readOptional_parallel hv rfl (fun _ _ => congrArg some) fun _ =>
          readText_parallel hv readable_same hr hr rfl
      rw [readMember_messageId hw hw' hslot] at hok
      obtain ⟨id, hid⟩ := ok_of_parallel hpart hok
      exact ⟨⟨none, id, .null⟩, hid⟩
    · rw [readMember_request hw hw' hslot] at hok
      obtain ⟨verdict, hverdict⟩ := hv.judged (fun _ _ hs => hs.1) _ _
      obtain ⟨j, hj⟩ := ok_of_parallel (hverdict.parallel hr hr rfl) hok
      exact ⟨⟨none, none, j⟩, hj⟩
  · rw [readMember_other hw hw' hkey hv hr] at hok
    refine ⟨⟨none, none, .null⟩, ?_⟩
    rwa [Slots.put_other _ slots hkey]

/-- Members that are not refused fill each slot as often as it is named. -/
theorem readMembers_ok {first : Bool} {ms : List (String × Bytes)} {m : Bytes}
    {out : Slots × Bytes} (h : Fields first ms m)
    (hok : readMembers fuel first slots (m ++ 0x7D :: r) = .ok out) :
    ∀ name ∈ memberNames,
      out.1.held name = slots.held name + (ms.map Prod.fst).count name := by
  induction h generalizing fuel slots with
  | done hw =>
    cases fuel with
    | zero => cases hok
    | succ fuel =>
      rw [readMembers_brace hw] at hok
      cases hok
      exact fun name _ => rfl
  | @member first key ms u k w w' v t hu hk hw hw' hv ht ih =>
    cases fuel with
    | zero => cases hok
    | succ fuel =>
      have happend : (u ++ 0x22 :: (k ++ 0x22 :: (w ++ 0x3A :: (w' ++ (v ++ t))))) ++ 0x7D :: r =
          u ++ 0x22 :: (k ++ 0x22 :: (w ++ 0x3A :: (w' ++ (v ++ (t ++ 0x7D :: r))))) := by simp
      rw [happend, readMembers_key hu, readString_glyphs hk, ok_bind, String.ofList_toList] at hok
      obtain ⟨hfree, e, hrest⟩ := readMember_ok hw hw' hv (ht.ends ⟨r, rfl⟩) hok
      intro name hname
      rw [ih hrest name hname, Slots.held_put e slots key hname, List.map_cons, List.count_cons]
      by_cases hsame : key = name
      · subst hsame
        simp [hfree hname, Nat.add_comm]
      · simp [hsame]

end Members

/-! ## Decoding -/

section Decoding

variable {d : Nat} {e : Envelope} {ms : List (String × Bytes)} {m x r : Bytes}

theorem Slots.held_empty (name : String) : Slots.held {} name = 0 := by
  simp [Slots.held]

theorem ofMembers_stated (hd : d < nestingLimit - 1) (h : Fields true ms m)
    (he : States (fun j v => Written d (.value j) v) ms e) :
    ofMembers (m ++ 0x7D :: r) = .ok (e, 0x7D :: r) := by
  have hfuel : ms.length < fuelFor (m ++ 0x7D :: r) := by
    have hlength := h.length_le
    rw [fuelFor, List.length_append]
    omega
  have hfree : ∀ name ∈ memberNames, Slots.held {} name + (ms.map Prod.fst).count name ≤ 1 := by
    intro name hname
    rw [Slots.held_empty, Nat.zero_add]
    exact he.once name hname
  have hread := readMembers_stated (r := r) hd h he.values hfree hfuel
  -- a slot that stayed empty reads as what is missing
  have hslot {α : Type} {name : String} {part : Option α}
      (hpart : name ∈ ms.map Prod.fst ∨ part = none) :
      (if name ∈ ms.map Prod.fst then some part else none).join = part := by
    split
    · rfl
    · exact (hpart.resolve_left ‹_›).symm
  rw [ofMembers, hread, ok_bind, Slots.foldl_put]
  dsimp only
  rw [if_pos he.request, hslot he.authentication, hslot he.messageId]
  rfl

/-- Members that make up an envelope hold the request, and nothing twice. -/
theorem ofMembers_ok {out : Envelope × Bytes} (h : Fields true ms m)
    (hok : ofMembers (m ++ 0x7D :: r) = .ok out) :
    "request" ∈ ms.map Prod.fst ∧ ∀ name ∈ memberNames, (ms.map Prod.fst).count name ≤ 1 := by
  rw [ofMembers] at hok
  cases hread : readMembers (fuelFor (m ++ 0x7D :: r)) true {} (m ++ 0x7D :: r) with
  | error fault =>
    rw [hread] at hok
    cases hok
  | ok answer =>
    rw [hread, ok_bind] at hok
    have hcount : ∀ name ∈ memberNames, answer.1.held name = (ms.map Prod.fst).count name := by
      intro name hname
      rw [readMembers_ok h hread name hname, Slots.held_empty, Nat.zero_add]
    refine ⟨?_, fun name hname => hcount name hname ▸ answer.1.held_le_one name⟩
    cases hrequest : answer.1.request with
    | none =>
      dsimp only at hok
      rw [hrequest] at hok
      cases hok
    | some request =>
      have hone : answer.1.held "request" = 1 := by simp [Slots.held, hrequest]
      rw [← List.count_pos_iff, ← hcount "request" (by decide), hone]
      exact Nat.one_pos

/-- A payload whose members state an envelope is decoded as that envelope. -/
theorem decode_stated (hd : d < nestingLimit - 1) (hx : Document ms x)
    (he : States (fun j v => Written d (.value j) v) ms e) : decode x = .ok e := by
  obtain ⟨hw, hm, hw'⟩ := hx
  rw [decode_object hw, ofMembers_stated hd hm he]
  exact finish_closed hw' e

/-- A payload without the request, or with a part twice, is refused. -/
theorem decode_refused (hx : Document ms x)
    (hms : "request" ∉ ms.map Prod.fst ∨ ∃ name ∈ memberNames, 1 < (ms.map Prod.fst).count name) :
    ∃ fault, decode x = .error fault := by
  obtain ⟨hw, hm, hw'⟩ := hx
  rename_i w m w'
  rw [decode_object hw]
  cases hread : ofMembers (m ++ 0x7D :: w') with
  | ok out =>
    obtain ⟨hrequest, honce⟩ := ofMembers_ok hm hread
    obtain hnone | ⟨name, hname, htwice⟩ := hms
    · exact absurd hrequest hnone
    · exact absurd (honce name hname) (Nat.not_le.mpr htwice)
  | error fault =>
    rw [closed]
    cases fault.settled
    · exact ⟨_, rfl⟩
    · exact ⟨_, rfl⟩

/-- The members of a written object, with the texts of their values. -/
theorem fields_of_written {first : Bool} {js : List (String × Json)} {t : Bytes}
    (h : Written d (.members first js) t) :
    ∃ ms, Fields first ms t ∧ ms.map Prod.fst = js.map Prod.fst ∧
      ∀ m ∈ ms, ∃ j, (m.1, j) ∈ js ∧ Written d (.value j) m.2 := by
  generalize hc : Content.members first js = c at h
  induction h generalizing first js with
  | noMember hw =>
    cases hc
    exact ⟨[], .done hw, rfl, nofun⟩
  | @member _ _ name j js _ _ _ _ v _ hu hk hw hw' hv _ _ iht =>
    cases hc
    obtain ⟨ms, hms, hnames, hvalues⟩ := iht rfl
    refine ⟨(name, v) :: ms, .member hu hk hw hw' hv.spelled hms, congrArg (name :: ·) hnames,
      List.forall_mem_cons.mpr ⟨⟨j, List.mem_cons_self, hv⟩, fun m hm => ?_⟩⟩
    obtain ⟨k, hk, hwritten⟩ := hvalues m hm
    exact ⟨k, List.mem_cons_of_mem _ hk, hwritten⟩
  | _ => cases hc

/-- A printed object is decoded as the envelope that its members state. -/
theorem decode_print {js : List (String × Json)} (hd : d < nestingLimit - 1)
    (hjs : ∀ m ∈ js, Canonical d m.2) (he : States Eq js e) :
    decode (utf8 (Json.print (.object js))) = .ok e := by
  obtain ⟨ms, hfields, hnames, hvalues⟩ :=
    fields_of_written (written_members fun m hm => (hjs m hm).printed)
  have hstates : States (fun j v => Written d (.value j) v) ms e := by
    refine ⟨fun m hm j hj => ?_, hnames ▸ he.once, hnames ▸ he.authentication,
      hnames ▸ he.messageId, hnames ▸ he.request⟩
    obtain ⟨k, hk, hwritten⟩ := hvalues m hm
    rwa [he.values (m.1, k) hk j hj]
  have hprint : utf8 (Json.print (.object js)) =
      [] ++ 0x7B :: (utf8 (printMembers js) ++ 0x7D :: []) := by
    rw [Json.print, utf8_cons, utf8_append]
    rfl
  exact decode_stated hd (hprint ▸ .object blank_nil hfields blank_nil) hstates

/-- The members of an envelope state it. -/
theorem states_members (e : Envelope) : States Eq e.members e where
  values := by simp [members]
  once := (by decide : ∀ name ∈ memberNames, memberNames.count name ≤ 1)
  authentication := .inl (by decide : "authentication" ∈ memberNames)
  messageId := .inl (by decide : "message_id" ∈ memberNames)
  request := (by decide : "request" ∈ memberNames)

theorem canonical_toJson (a : Authentication) : Canonical (d + 1) a.toJson := by
  obtain ⟨name, kind, text, ha, -⟩ := Authentication.toJson_alone a
  rw [ha]
  exact .object (List.pairwise_singleton _ _) (List.forall_mem_singleton.mpr .string)

/-- Decoding inverts encoding. -/
theorem decode_toJson (hd : d + 1 < nestingLimit - 1) (he : Canonical (d + 1) e.request) :
    decode (utf8 e.toJson.print) = .ok e := by
  rw [toJson_eq]
  refine decode_print hd (fun m hm => ?_) (states_members e)
  simp only [members, List.mem_cons, List.not_mem_nil, or_false] at hm
  obtain rfl | rfl | rfl := hm
  · cases e.authentication with
    | none => exact .null
    | some a => exact canonical_toJson a
  · cases e.messageId with
    | none => exact .null
    | some id => exact .string
  · exact he

end Decoding

end RecordDispatch.Envelope

namespace RecordDispatch.Work

open Json Envelope

/-- A record whose payload is a text of an envelope, however it is written, is
decoded as work with that content; so is one with a printed envelope.  A payload
without the request or with a part twice is refused. -/
theorem decode_inverts (p : Partition) (offset : Int) (key : Option Bytes) {d : Nat}
    (hd : d < nestingLimit - 1) :
    (∀ (e : Envelope) (ms : List (String × Bytes)) (x : Bytes), Document ms x →
      States (fun j v => Written d (.value j) v) ms e →
      Work.decode p ⟨offset, key, some x⟩ =
        .ok ⟨p, offset, key, e.messageId, e.authentication, e.request⟩) ∧
    (∀ (e : Envelope) (ms : List (String × Json)), (∀ m ∈ ms, Canonical d m.2) →
      States Eq ms e →
      Work.decode p ⟨offset, key, some (utf8 (Json.print (.object ms)))⟩ =
        .ok ⟨p, offset, key, e.messageId, e.authentication, e.request⟩) ∧
    ∀ (ms : List (String × Bytes)) (x : Bytes), Document ms x →
      ("request" ∉ ms.map Prod.fst ∨
        ∃ name ∈ memberNames, 1 < (ms.map Prod.fst).count name) →
      ∃ fault, Work.decode p ⟨offset, key, some x⟩ = .error (.invalidEnvelope x fault) := by
  refine ⟨fun e ms x hx he => ?_, fun e ms hms he => ?_, fun ms x hx hms => ?_⟩
  · rw [Work.decode]
    dsimp only
    rw [decode_stated hd hx he]
  · rw [Work.decode]
    dsimp only
    rw [decode_print hd hms he]
  · obtain ⟨fault, hfault⟩ := decode_refused hx hms
    refine ⟨fault, ?_⟩
    rw [Work.decode]
    dsimp only
    rw [hfault]

/-- Members in another order, with blanks, an escape and a member to pass over; a
printed object with a credential; and an object without members. -/
theorem decode_inverts_sample :
    let p : Partition := ⟨"t", 0⟩
    let x := utf8 " \x7b\"x\":7, \"request\":\"\\u0041\", \"message_id\":null\x7d".toList
    let request : Json := .object [("a", .array [.null]), ("n", .number (.integer (-7)))]
    let ms := [("request", request), ("x", .bool true),
      ("authentication", (Authentication.jwt "é").toJson)]
    Work.decode p ⟨7, some [1], some x⟩ = .ok ⟨p, 7, some [1], none, none, .string "A"⟩ ∧
      Work.decode p ⟨7, none, some (utf8 (Json.print (.object ms)))⟩ =
        .ok ⟨p, 7, none, none, some (.jwt "é"), request⟩ ∧
      ∃ fault, Work.decode p ⟨7, none, some [0x7B, 0x7D]⟩ =
        .error (.invalidEnvelope [0x7B, 0x7D] fault) := by
  intro p x request ms
  have hspace : Blank [0x20] := List.forall_mem_singleton.mpr rfl
  have hunit : hexUnit 0x30 0x30 0x34 0x31 = some 0x41 := rfl
  have hletter : Glyphs "A".toList [0x5C, 0x75, 0x30, 0x30, 0x34, 0x31] :=
    .cons (.code hunit (.inl (by decide))) .nil
  have hseven : Spelled .value [0x37] :=
    .number (Whole.digits (by decide) (by decide) fun _ h => by cases h).figures
  have hx : Document [("x", [0x37]),
      ("request", [0x22, 0x5C, 0x75, 0x30, 0x30, 0x34, 0x31, 0x22]),
      ("message_id", [0x6E, 0x75, 0x6C, 0x6C])] x :=
    .object hspace
      (.member (.first blank_nil) (glyphs_escaped "x".toList) blank_nil blank_nil hseven
        (.member (.later blank_nil hspace) (glyphs_escaped "request".toList) blank_nil blank_nil
          (.string ⟨hletter.strokes, rfl⟩)
          (.member (.later blank_nil hspace) (glyphs_escaped "message_id".toList) blank_nil
            blank_nil .nullWord (.done blank_nil))))
      blank_nil
  have hstated : States (fun j v => Written 2 (.value j) v) [("x", [0x37]),
      ("request", [0x22, 0x5C, 0x75, 0x30, 0x30, 0x34, 0x31, 0x22]),
      ("message_id", [0x6E, 0x75, 0x6C, 0x6C])] ⟨none, none, .string "A"⟩ := by
    refine ⟨fun m hm j hj => ?_, by decide, .inr rfl, .inr rfl, by decide⟩
    simp only [List.mem_cons, List.not_mem_nil, or_false] at hm
    obtain rfl | rfl | rfl := hm
    · simp [members] at hj
    · obtain rfl : j = .string "A" := by simpa [members] using hj
      exact .string hletter
    · obtain rfl : j = .null := by simpa [members] using hj
      exact .nullWord
  have hrequest : Canonical 2 request := by
    refine .object (by decide) (List.forall_mem_cons.mpr ⟨?_, List.forall_mem_singleton.mpr ?_⟩)
    · exact .array (List.forall_mem_singleton.mpr .null)
    · exact .integer (by decide) (by decide)
  have hms : ∀ m ∈ ms, Canonical 2 m.2 :=
    List.forall_mem_cons.mpr ⟨hrequest, List.forall_mem_cons.mpr ⟨.bool,
      List.forall_mem_singleton.mpr (canonical_toJson (.jwt "é"))⟩⟩
  have hprinted : States Eq ms ⟨some (.jwt "é"), none, request⟩ :=
    ⟨by simp [ms, members], by decide, .inl (by decide), .inr rfl, by decide⟩
  have hempty : Document [] [0x7B, 0x7D] := .object blank_nil (.done blank_nil) blank_nil
  have hd : 2 < nestingLimit - 1 := by decide
  exact ⟨(decode_inverts p 7 (some [1]) hd).1 _ _ _ hx hstated,
    (decode_inverts p 7 none hd).2.1 _ ms hms hprinted,
    (decode_inverts p 7 none hd).2.2 _ _ hempty (.inl (by decide))⟩

end RecordDispatch.Work
