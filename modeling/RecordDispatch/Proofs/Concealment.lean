import RecordDispatch.Executor.Http
import RecordDispatch.Handler
import RecordDispatch.Proofs.Envelope.Payload
import RecordDispatch.Proofs.Processor.Through

/-!
# What the log shows of a credential

Two records that differ inside a credential only are logged alike, with one
exception.

The log places a fault by line and column.  Payloads that are read in parallel
leave equally many bytes unread, and their lines break at the same places
(`breaks`), since no string holds a line break.

* `credential_concealed`: whatever is handed to an executor that does not look
  at the credential, the log says the same of both records.
* `bare_credential_shown` is the exception: a string alone instead of a
  credential shows in the log.
-/

namespace RecordDispatch

namespace Json

/-- Where the lines of a text break. -/
def breaks (x : Bytes) : List Bool :=
  x.map (· == 0x0A)

theorem breaks_append (x y : Bytes) : breaks (x ++ y) = breaks x ++ breaks y :=
  List.map_append

theorem length_breaks (x : Bytes) : (breaks x).length = x.length :=
  List.length_map _

/-- A position depends on the line breaks before it only. -/
theorem foldl_after {x y : Bytes} (h : breaks x = breaks y) (p : Position) :
    x.foldl Position.after p = y.foldl Position.after p := by
  induction x generalizing y p with
  | nil =>
    cases y with
    | nil => rfl
    | cons b y => cases h
  | cons a x ih =>
    cases y with
    | nil => cases h
    | cons b y =>
      obtain ⟨hbyte, hrest⟩ : (a == 10) = (b == 10) ∧ breaks x = breaks y := List.cons.inj h
      have hafter : p.after a = p.after b := by
        have hiff : a = 10 ↔ b = 10 := by
          rw [← beq_iff_eq, hbyte, beq_iff_eq]
        simp only [Position.after, hiff]
      rw [List.foldl_cons, List.foldl_cons, hafter, ih hrest]

/-- Faults at one place in texts with the same line breaks differ in their
messages if their causes do. -/
theorem Fault.message_inj {text text' : Bytes} (h : breaks text = breaks text') {a b : Fault}
    (hunread : a.unread.length = b.unread.length) :
    a.message text = b.message text' ↔ a.cause.message = b.cause.message := by
  have hlength : text.length = text'.length := by
    rw [← length_breaks, h, length_breaks]
  have hposition : a.position text = b.position text' := by
    refine foldl_after ?_ _
    rw [breaks, breaks, List.map_take, List.map_take, hlength, hunread]
    exact congrArg _ h
  rw [Fault.message, Fault.message, hposition, String.append_left_inj, String.append_left_inj,
    String.append_left_inj, String.append_left_inj]

theorem message_unknownVariant {name name' expected : String} :
    (Cause.unknownVariant name expected).message = (Cause.unknownVariant name' expected).message ↔
      name = name' := by
  have hmessage (name : String) : (Cause.unknownVariant name expected).message =
      "unknown variant `" ++ name ++ "`, expected " ++ expected := rfl
  rw [hmessage, hmessage, String.append_left_inj, String.append_left_inj, String.append_right_inj]

/-! ## No string breaks a line -/

theorem hexUnit_ne_break {a b c d : UInt8} {n : Nat} (h : hexUnit a b c d = some n) :
    ∀ x ∈ [a, b, c, d], x ≠ 0x0A := by
  simp only [hexUnit, bind, Option.bind_eq_some_iff] at h
  obtain ⟨_, ha, _, hb, _, hc, _, hd, -⟩ := h
  simp only [List.forall_mem_cons]
  refine ⟨?_, ?_, ?_, ?_, fun _ h => by cases h⟩ <;> rintro rfl
  · cases ha
  · cases hb
  · cases hc
  · cases hd

theorem Stroke.ne_break {g : Bytes} (hg : Stroke g) : ∀ b ∈ g, b ≠ 0x0A := by
  cases hg with
  | plain hblank =>
    refine List.forall_mem_singleton.mpr ?_
    rintro rfl
    exact absurd hblank (by decide)
  | letter he =>
    refine List.forall_mem_cons.mpr ⟨by decide, List.forall_mem_singleton.mpr ?_⟩
    rintro rfl
    cases he
  | code hn =>
    have hdigits := hexUnit_ne_break hn
    exact List.forall_mem_cons.mpr ⟨by decide, List.forall_mem_cons.mpr ⟨by decide, hdigits⟩⟩

/-- A string lies within one line. -/
theorem Strokes.breaks_eq {s : Bytes} (hs : Strokes s) :
    breaks s = List.replicate s.length false := by
  induction hs with
  | nil => rfl
  | @cons g s hg _ ih =>
    have hline : breaks g = List.replicate g.length false := by
      rw [List.eq_replicate_iff]
      refine ⟨length_breaks g, fun x hx => ?_⟩
      obtain ⟨b, hb, rfl⟩ := List.mem_map.mp hx
      exact beq_eq_false_iff_ne.mpr (hg.ne_break b hb)
    rw [breaks_append, hline, ih, List.length_append, List.replicate_append_replicate]

/-- Paired texts break at the same places if their strings do. -/
theorem Paired.breaks_eq {R : Bytes → Bytes → Prop} {f : Form} {x x' : Bytes}
    (h : Paired R f x x') (hR : ∀ s s', R s s' → breaks s = breaks s') :
    breaks x = breaks x' := by
  induction h with
  | string hs => simpa [breaks] using hR _ _ hs
  | list _ ih | object _ ih => simpa [breaks] using ih
  | item _ _ _ ihv iht | member _ _ _ _ _ _ ihv iht => simp_all [breaks]
  | _ => rfl

end Json

namespace Envelope

open Json

theorem Veiled.breaks_eq {s s' : Bytes} (h : Veiled s s') : breaks s = breaks s' := by
  obtain ⟨-, rfl⟩ | ⟨cs, cs', hs, hs', hlength⟩ := h
  · rfl
  · rw [hs.strokes.breaks_eq, hs'.strokes.breaks_eq, hlength]

theorem Members.breaks_eq {first : Bool} {m m' : Bytes} (h : Members Covered first m m') :
    breaks m = breaks m' := by
  induction h with
  | done => rfl
  | other _ _ _ _ _ _ iht => simp_all [breaks]
  | credential _ _ _ _ hv _ iht =>
    have hvalue := hv.1.breaks_eq fun _ _ => Veiled.breaks_eq
    simp_all [breaks]

theorem Payloads.breaks_eq {x x' : Bytes} (h : Payloads Covered x x') : breaks x = breaks x' := by
  obtain ⟨-, hm, -⟩ := h
  have hmembers := hm.breaks_eq
  simp_all [breaks]

/-! ## Payloads in their documented form -/

/-- The bytes of a text that is not escaped. -/
def plainly (text : String) : Bytes :=
  text.toList.flatMap String.utf8EncodeChar

/-- A character that stands for itself in a string. -/
def isPlain (c : Char) : Bool :=
  decide (0x20 ≤ c.toNat) && c != '"' && c != '\\'

theorem glyphs_plainly {text : String} (h : text.toList.all isPlain = true) :
    Glyphs text.toList (plainly text) := by
  unfold plainly
  generalize text.toList = cs at h ⊢
  induction cs with
  | nil => exact .nil
  | cons c cs ih =>
    rw [List.all_cons, Bool.and_eq_true] at h
    obtain ⟨hc, hcs⟩ := h
    simp only [isPlain, Bool.and_eq_true, decide_eq_true_eq, bne_iff_ne] at hc
    exact .cons (.plain hc.1.1 hc.1.2 hc.2) (ih hcs)

/-- The inside of a string between its quotes. -/
def quoted (s : Bytes) : Bytes :=
  0x22 :: (s ++ [0x22])

/-- The end of an object whose last member is the request. -/
def requested (request : Bytes) : Bytes :=
  0x2C :: 0x22 :: (plainly "request" ++ 0x22 :: 0x3A :: (request ++ [0x7D]))

/-- The payload of a credential and a request. -/
def carrying (credential request : Bytes) : Bytes :=
  0x7B :: 0x22 :: (plainly "authentication" ++ 0x22 :: 0x3A :: (credential ++ requested request))

/-- A credential of the kind `jwt`. -/
def token (s : Bytes) : Bytes :=
  0x7B :: 0x22 :: (plainly "jwt" ++ 0x22 :: 0x3A :: (quoted s ++ [0x7D]))

theorem glyphs_authentication : Glyphs "authentication".toList (plainly "authentication") :=
  glyphs_plainly (by decide)

theorem payloads_carrying {C : Bytes → Bytes → Prop} {v v' request : Bytes} (hv : C v v')
    (hrequest : Spelled .value request) :
    Payloads C (carrying v request) (carrying v' request) := by
  have hend : Members C false
      (0x2C :: 0x22 :: (plainly "request" ++ 0x22 :: 0x3A :: (request ++ [])))
      (0x2C :: 0x22 :: (plainly "request" ++ 0x22 :: 0x3A :: (request ++ []))) :=
    .other (.later blank_nil blank_nil) (glyphs_plainly (by decide)).strokes blank_nil blank_nil
      hrequest (.done blank_nil)
  have hmembers := Members.credential (.first blank_nil) glyphs_authentication blank_nil blank_nil
    hv hend
  simpa [carrying, requested] using Payloads.object blank_nil hmembers blank_nil

theorem covered_token {cs cs' : List Char} {s s' : Bytes} (hs : Glyphs cs s) (hs' : Glyphs cs' s')
    (hlength : s.length = s'.length) : Covered (token s) (token s') := by
  refine ⟨?_, fun hquote => absurd (Option.some.inj hquote) (by decide)⟩
  have hmembers : Paired Veiled (.members true)
      (0x22 :: (plainly "jwt" ++ 0x22 :: 0x3A :: (quoted s ++ [])))
      (0x22 :: (plainly "jwt" ++ 0x22 :: 0x3A :: (quoted s' ++ []))) :=
    .member (.first blank_nil) (glyphs_plainly (by decide)).strokes blank_nil blank_nil
      (.string (.inr ⟨cs, cs', hs, hs', hlength⟩)) (.noMember blank_nil)
  simpa [token, Masked] using Paired.object hmembers

theorem spelled_zero : Spelled .value [0x30] :=
  .number (.mk .zero .none .none)

section Quoted

variable {cs : List Char} {s : Bytes} (hs : Glyphs cs s)
  (hkind : credentialKind (String.ofList cs) = none) (request : Bytes)
include hs hkind

/-- A string alone is read as the name of a kind of credential. -/
theorem readCredential_quoted (rest : Bytes) :
    readCredential (quoted s ++ rest) =
      .error ⟨.unknownVariant (String.ofList cs) credentialNames, rest, true⟩ := by
  rw [quoted, List.cons_append, List.append_assoc, readCredential, skipBlanks_cons (by decide)]
  dsimp only
  rw [if_neg (by decide), if_pos rfl, List.singleton_append, readKind, readString_glyphs hs,
    ok_bind]
  dsimp only
  rw [hkind]
  rfl

theorem readMember_quoted (fuel : Nat) (rest : Bytes) :
    readMember fuel {} "authentication" (0x3A :: (quoted s ++ rest)) =
      .error ⟨.unknownVariant (String.ofList cs) credentialNames, rest, true⟩ := by
  have hcolon := colon_append blank_nil (quoted s ++ rest)
  have hquote : skipBlanks (quoted s ++ rest) = quoted s ++ rest := skipBlanks_cons (by decide) _
  rw [List.nil_append] at hcolon
  rw [readMember, if_pos rfl, if_neg (by decide), hcolon, ok_bind, readOptional, hquote]
  split
  · exact absurd (List.cons.inj ‹_›).1 (by decide)
  · rw [readCredential_quoted hs hkind]
    rfl

/-- A payload with a string alone instead of a credential is refused. -/
theorem decode_quoted : decode (carrying (quoted s) request) =
    .error ⟨.unknownVariant (String.ofList cs) credentialNames, requested request, true⟩ := by
  have hmembers (fuel : Nat) : readMembers (fuel + 1) true {}
      (0x22 :: (plainly "authentication" ++ 0x22 :: 0x3A :: (quoted s ++ requested request))) =
      .error ⟨.unknownVariant (String.ofList cs) credentialNames, requested request, true⟩ := by
    have hkey := readMembers_key (.first blank_nil) fuel {}
      (plainly "authentication" ++ 0x22 :: 0x3A :: (quoted s ++ requested request))
    rw [List.nil_append] at hkey
    rw [hkey, readString_glyphs glyphs_authentication, ok_bind, String.ofList_toList,
      readMember_quoted hs hkind]
  rw [decode, carrying, read, skipBlanks_cons (by decide)]
  dsimp only
  rw [if_neg (by decide), if_pos rfl, ofMembers, fuelFor, hmembers]
  rfl

end Quoted

end Envelope

namespace Handler

open Envelope

variable (h : Handler) (p : Partition) (r : Record)

/-- Whether an executor is handed one credential or another, it replies the same. -/
def Indifferent (execute : Work → Reply) : Prop :=
  ∀ (w : Work) (a a' : Authentication),
    execute { w with authentication := some a } = execute { w with authentication := some a' }

/-- What the log shows of handling a record, by the handler and by an executor
that only logs. -/
def logged (events : List Event) : List Report.Line × List Report.Line :=
  (Report.lines events, (events.filterMap Event.called?).map Executor.loggedLine)

theorem logged_cons (e : Event) (events : List Event) :
    logged (e :: events) = ((Report.Reported.line? e).toList ++ (logged events).1,
      (e.called?.map Executor.loggedLine).toList ++ (logged events).2) := by
  rw [logged, Report.lines, List.filterMap_cons, List.filterMap_cons]
  cases Report.Reported.line? e <;> cases e.called? <;> rfl

/-- The log shows what the triage and the executor tell. -/
theorem logged_handle :
    logged (h.handle p r).2 =
      logged ((h.triage p r).opening ++ (h.conclude (h.triage p r)).2) := by
  simp only [logged, handle, Report.lines, List.filterMap_append]
  exact Prod.ext (List.append_nil _)
    (congrArg (List.map Executor.loggedLine) (List.append_nil _))

theorem message_invalidEnvelope {x x' : Bytes} {fault fault' : Json.Fault} :
    (DecodeError.invalidEnvelope x fault).message =
      (DecodeError.invalidEnvelope x' fault').message ↔ fault.message x = fault'.message x' :=
  String.append_right_inj _

/-- Of a record that cannot be decoded, the log shows the message. -/
theorem logged_undecodable {e e' : DecodeError} {offset : Int} :
    logged [.undecodable p offset e] = logged [.undecodable p offset e'] ↔
      e.message = e'.message := by
  rw [logged_cons, logged_cons]
  simp only [Report.Reported.line?, Event.called?]
  simp [String.append_right_inj]

theorem triage_undecodable {x : Bytes} {fault : Json.Fault} (hd : decode x = .error fault) :
    h.triage p { r with payload := some x } =
      .rejected .undecodable (.undecodable p r.offset (.invalidEnvelope x fault)) := by
  simp only [triage, Work.decode, hd]

theorem triage_authenticated {x : Bytes} {a : Authentication} {id : Option String}
    {request : Json} (hd : decode x = .ok ⟨some a, id, request⟩) :
    h.triage p { r with payload := some x } =
      .accepted ⟨p, r.offset, r.key, id, some a, request⟩ := by
  simp only [triage, Work.decode, hd]
  rfl

/-- The credential that work carries does not show. -/
theorem logged_accepted (w : Work) (a a' : Authentication) (reply : Reply) :
    logged [.called { w with authentication := some a },
        .replied { w with authentication := some a } reply] =
      logged [.called { w with authentication := some a' },
        .replied { w with authentication := some a' } reply] := by
  cases reply <;> rfl

/-- Records that differ in the characters inside a credential are logged alike
and have the same outcome, unless a string alone stands for the credential. -/
theorem credential_concealed {x x' : Bytes} (hx : Payloads Covered x x')
    (hexecute : Indifferent h.execute) :
    (h.handle p { r with payload := some x }).1 = (h.handle p { r with payload := some x' }).1 ∧
      logged (h.handle p { r with payload := some x }).2 =
        logged (h.handle p { r with payload := some x' }).2 := by
  rw [logged_handle, logged_handle]
  rcases decode_alike hx with ⟨e, e', hd, hd', he⟩ | ⟨fault, fault', hd, hd', hcause, hunread⟩
  · obtain ⟨a, id, request⟩ := e
    obtain ⟨a', id', request'⟩ := e'
    obtain ⟨hauth, rfl, rfl⟩ := he
    cases a with
    | none =>
      -- a default may stand in, the same for both
      obtain rfl : a' = none := by simpa using hauth.symm
      have htriage : h.triage p { r with payload := some x } =
          h.triage p { r with payload := some x' } := by
        simp only [triage, Work.decode, hd, hd']
      rw [handle, handle, htriage]
      exact ⟨rfl, rfl⟩
    | some a =>
      obtain ⟨a', rfl⟩ := Option.isSome_iff_exists.mp hauth.symm
      let w : Work := ⟨p, r.offset, r.key, id, none, request⟩
      have hreply : h.execute { w with authentication := some a } =
          h.execute { w with authentication := some a' } := hexecute w a a'
      rw [handle, handle, h.triage_authenticated p r hd, h.triage_authenticated p r hd']
      refine ⟨congrArg outcome hreply, ?_⟩
      change logged [.called _, .replied _ (h.execute { w with authentication := some a })] =
        logged [.called _, .replied _ (h.execute { w with authentication := some a' })]
      rw [hreply]
      exact logged_accepted w a a' _
  · rw [handle, handle, h.triage_undecodable p r hd, h.triage_undecodable p r hd']
    have hmessage := (Json.Fault.message_inj hx.breaks_eq hunread).mpr (congrArg _ hcause)
    exact ⟨rfl, (logged_undecodable p).mpr (message_invalidEnvelope.mpr hmessage)⟩

/-- Whether the token is a letter or an escaped line break, of two bytes each. -/
theorem token_concealed :
    let x := carrying (token (plainly "é")) [0x30]
    let x' := carrying (token [0x5C, 0x6E]) [0x30]
    let h : Handler := { execute := Executor.loggedReply }
    Payloads Covered x x' ∧ Indifferent h.execute ∧
      (h.handle ⟨"t", 0⟩ ⟨7, none, some x⟩).1 = (h.handle ⟨"t", 0⟩ ⟨7, none, some x'⟩).1 ∧
      logged (h.handle ⟨"t", 0⟩ ⟨7, none, some x⟩).2 =
        logged (h.handle ⟨"t", 0⟩ ⟨7, none, some x'⟩).2 := by
  intro x x' h
  have hletter : Json.Glyphs "é".toList (plainly "é") := glyphs_plainly (by decide)
  have hbreak : Json.Glyphs ['\n'] [0x5C, 0x6E] := .cons (.letter rfl) .nil
  have hx : Payloads Covered x x' :=
    payloads_carrying (covered_token hletter hbreak (by decide)) spelled_zero
  have hexecute : Indifferent h.execute := fun _ _ _ => rfl
  exact ⟨hx, hexecute, credential_concealed h ⟨"t", 0⟩ ⟨7, none, none⟩ hx hexecute⟩

/-! ## A string alone -/

/-- A string alone instead of a credential shows: if it names no kind of
credential, the log of one such record is not that of another. -/
theorem bare_credential_shown {cs cs' : List Char} {s s' : Bytes} (hs : Json.Glyphs cs s)
    (hs' : Json.Glyphs cs' s') (hlength : s.length = s'.length) (hne : cs ≠ cs')
    (hkind : credentialKind (String.ofList cs) = none)
    (hkind' : credentialKind (String.ofList cs') = none) (request : Bytes) :
    logged (h.handle p { r with payload := some (carrying (quoted s) request) }).2 ≠
      logged (h.handle p { r with payload := some (carrying (quoted s') request) }).2 := by
  have hlogged {cs : List Char} {s : Bytes} (hs : Json.Glyphs cs s)
      (hkind : credentialKind (String.ofList cs) = none) :
      logged (h.handle p { r with payload := some (carrying (quoted s) request) }).2 =
        logged [.undecodable p r.offset (.invalidEnvelope (carrying (quoted s) request)
          ⟨.unknownVariant (String.ofList cs) credentialNames, requested request, true⟩)] := by
    rw [logged_handle, h.triage_undecodable p r (decode_quoted hs hkind request)]
    rfl
  have hbreaks : Json.breaks (carrying (quoted s) request) =
      Json.breaks (carrying (quoted s') request) := by
    have hbreaks := Veiled.breaks_eq (.inr ⟨cs, cs', hs, hs', hlength⟩)
    simp_all [Json.breaks, carrying, quoted]
  rw [hlogged hs hkind, hlogged hs' hkind', ne_eq, logged_undecodable]
  intro hmessage
  have hcause := (Json.Fault.message_inj hbreaks (by rfl)).mp (message_invalidEnvelope.mp hmessage)
  exact hne (String.ofList_inj.mp (Json.message_unknownVariant.mp hcause))

/-- So the log does not conceal credentials of any shape: it tells the bare
strings `k1` and `k2` apart. -/
theorem credential_not_always_concealed :
    ¬ ∀ (h : Handler) (p : Partition) (r : Record) (x x' : Bytes), Payloads Masked x x' →
      Indifferent h.execute →
      logged (h.handle p { r with payload := some x }).2 =
        logged (h.handle p { r with payload := some x' }).2 := by
  intro hall
  have hs : Json.Glyphs "k1".toList (plainly "k1") := glyphs_plainly (by decide)
  have hs' : Json.Glyphs "k2".toList (plainly "k2") := glyphs_plainly (by decide)
  have hmasked : Masked (quoted (plainly "k1")) (quoted (plainly "k2")) :=
    .string (.inr ⟨_, _, hs, hs', rfl⟩)
  have hpayloads := payloads_carrying hmasked spelled_zero
  exact bare_credential_shown { execute := Executor.loggedReply } ⟨"t", 0⟩ { offset := 0 } hs hs'
    rfl (by decide) (by decide) (by decide) _ (hall _ _ _ _ _ hpayloads fun _ _ _ => rfl)

end Handler

end RecordDispatch
