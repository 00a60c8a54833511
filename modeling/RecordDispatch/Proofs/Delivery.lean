import RecordDispatch.Executor.Http
import RecordDispatch.Proofs.Processor.Through

/-!
# What becomes of work that is sent to a server

A unit of work is done if its request was sent and the answer is no error.  Both
are said here without the executor.

* `Sends` says when a request is sent: there is a target, and the texts of the
  work can travel in headers.  `isSendable_request` is the step from all headers
  to these two.
* `Succeeds`, `Refuses` and `Interim` sort the statuses.  A status beyond the
  errors succeeds, and not only one of the two hundreds: `redirection_not_refused`.
* `execute_cases` is the executor in these words, and `delivered_exactly` carries
  it to the outcome and the counter of a record.
-/

namespace RecordDispatch

/-- The text of a credential. -/
def Authentication.text : Authentication → String
  | .apiKey key => key
  | .jwt token => token

/-- A record that reaches the executor has the outcome of its reply. -/
theorem Handler.outcomeOf_of_handedOver {h : Handler} {p : Partition} {r : Record} {w : Work}
    (hw : handedOver? h.fallback h.policy p r = some w) :
    h.outcomeOf p r = outcome (h.execute w) := by
  rw [outcome_eq, outcomeOf, hw]
  cases hd : Work.decode p r with
  | error e =>
    rw [handedOver?, hd] at hw
    exact absurd hw nofun
  | ok work => rfl

namespace Executor

/-! ## When a request is sent -/

/-- A text can travel in a header: it has no control characters but tabs. -/
def Travels (text : String) : Prop :=
  ∀ c ∈ text.toList, c = '\t' ∨ 0x20 ≤ c.toNat ∧ c.toNat ≠ 0x7F

/-- A request for the work is sent. -/
structure Sends (target : Option String) (w : Work) : Prop where
  reachable : target.isSome = true
  credential : ∀ a ∈ w.authentication, Travels a.text
  messageId : ∀ id ∈ w.messageId, Travels id

theorem isHeaderValue_iff {text : String} : isHeaderValue text = true ↔ Travels text := by
  simp [isHeaderValue, Travels, List.all_eq_true]

theorem travels_append {a b : String} : Travels (a ++ b) ↔ Travels a ∧ Travels b := by
  simp only [Travels, String.toList_append, List.mem_append, or_imp, forall_and]

/-- The length of a body is written in digits. -/
theorem travels_toString (n : Nat) : Travels (toString n) := by
  intro c hc
  rw [Nat.toString_eq_ofList_toDigits, String.toList_ofList] at hc
  have hdigit := Nat.isDigit_of_mem_toDigits (by decide) (by decide) hc
  obtain ⟨hlow, hhigh⟩ : 48 ≤ c.toNat ∧ c.toNat ≤ 57 := by
    simpa [Char.isDigit, UInt32.le_iff_toNat_le] using hdigit
  exact .inr ⟨by omega, by omega⟩

/-- Every request has headers of its own, and only those of the work may keep it
from being sent. -/
theorem isSendable_request {target : String} {w : Work} :
    (request target w).isSendable = true ↔ Sends (some target) w := by
  have hown : ∀ h ∈ [("content-type", "application/json"),
      ("user-agent", "partition-dispatcher"),
      ("content-length", toString w.request.render.utf8ByteSize)], isHeaderValue h.2 = true := by
    simp only [List.forall_mem_cons, List.not_mem_nil, false_imp_iff, implies_true, and_true]
    exact ⟨by decide, by decide, isHeaderValue_iff.mpr (travels_toString _)⟩
  have hcredential : (∀ h ∈ credentialHeaders w.authentication, isHeaderValue h.2 = true) ↔
      ∀ a ∈ w.authentication, Travels a.text := by
    have hbearer : Travels "Bearer " := isHeaderValue_iff.mp (by decide)
    rcases w.authentication with _ | _ | _ <;>
      simp [credentialHeaders, isHeaderValue_iff, travels_append, hbearer, Authentication.text]
  have hid : (∀ h ∈ messageIdHeaders w.messageId, isHeaderValue h.2 = true) ↔
      ∀ id ∈ w.messageId, Travels id := by
    cases w.messageId <;> simp [messageIdHeaders, isHeaderValue_iff]
  rw [Request.isSendable, List.all_eq_true, request, List.forall_mem_append,
    List.forall_mem_append, hcredential, hid]
  exact ⟨fun h => ⟨rfl, h.1.2, h.2⟩, fun h => ⟨⟨hown, h.credential⟩, h.messageId⟩⟩

/-! ## What an answer comes to -/

/-- An answer that is no error of the client or the server, and the last one. -/
def Succeeds (status : Nat) : Prop :=
  status = 101 ∨ 200 ≤ status ∧ status < 400 ∨ 600 ≤ status ∧ status < 1000

/-- An error of the client or the server. -/
def Refuses (status : Nat) : Prop :=
  400 ≤ status ∧ status < 600

/-- No answer, or one that only announces another. -/
def Interim (status : Nat) : Prop :=
  status ≠ 101 ∧ status < 200 ∨ 1000 ≤ status

theorem isErrorStatus_iff {status : Nat} : isErrorStatus status = true ↔ Refuses status := by
  simp [isErrorStatus, Refuses]

theorem isFinalStatus_iff {status : Nat} : isFinalStatus status = true ↔ ¬ Interim status := by
  simp only [isFinalStatus, Interim, Bool.or_eq_true, beq_iff_eq, Bool.and_eq_true,
    decide_eq_true_eq]
  omega

/-- Work is sent and done, sent and refused, or without an answer. -/
theorem execute_cases (target : Option String) (status : Nat) (w : Work) :
    (¬ Sends target w ∧ execute target status w = (none, .error (.noAnswer w.offset))) ∨
      Sends target w ∧ (execute target status w).1.isSome = true ∧
        (Succeeds status ∧ (execute target status w).2 = .ok () ∨
          Refuses status ∧ (execute target status w).2 = .error (.rejected w.offset) ∨
          Interim status ∧ (execute target status w).2 = .error (.noAnswer w.offset)) := by
  cases target with
  | none => exact .inl ⟨fun h => absurd h.reachable nofun, rfl⟩
  | some t =>
    by_cases hsends : Sends (some t) w
    · have hsendable := isSendable_request.mpr hsends
      refine .inr ⟨hsends, ?_⟩
      simp only [execute, Option.map_some, hsendable, Bool.not_true, Bool.false_eq_true, if_false]
      by_cases hfinal : isFinalStatus status = true
      · by_cases herror : isErrorStatus status = true
        · simp [hfinal, herror, isErrorStatus_iff.mp herror]
        · have hsucceeds : Succeeds status := by
            rw [isFinalStatus_iff, Interim] at hfinal
            rw [isErrorStatus_iff, Refuses] at herror
            unfold Succeeds
            omega
          simp [hfinal, herror, hsucceeds]
      · have hinterim := Classical.not_not.mp (mt isFinalStatus_iff.mpr hfinal)
        simp [hfinal, hinterim]
    · have hsendable := mt isSendable_request.mp hsends
      exact .inl ⟨hsends, by simp [execute, hsendable]⟩

/-- Statuses are of one of the three kinds. -/
theorem Succeeds.not_refuses {status : Nat} (h : Succeeds status) :
    ¬ Refuses status ∧ ¬ Interim status := by
  unfold Succeeds at h
  unfold Refuses Interim
  omega

theorem Refuses.not_interim {status : Nat} (h : Refuses status) : ¬ Interim status := by
  unfold Refuses at h
  unfold Interim
  omega

/-- What was sent and what came of it, each said exactly. -/
theorem execute_exactly (target : Option String) (status : Nat) (w : Work) :
    let sent := (execute target status w).1
    let result := (execute target status w).2
    (sent.isSome = true ↔ Sends target w) ∧
      (result = .ok () ↔ Sends target w ∧ Succeeds status) ∧
      (result = .error (.rejected w.offset) ↔ Sends target w ∧ Refuses status) ∧
      (result = .error (.noAnswer w.offset) ↔ ¬ Sends target w ∨ Interim status) := by
  intro sent result
  rcases execute_cases target status w with
    ⟨hsends, heq⟩ | ⟨hsends, hsent, ⟨hkind, heq⟩ | ⟨hkind, heq⟩ | ⟨hkind, heq⟩⟩
  · simp [sent, result, heq, hsends]
  · simp [sent, result, hsent, heq, hsends, hkind, hkind.not_refuses]
  · have hnot : ¬ Succeeds status := fun h => h.not_refuses.1 hkind
    simp [sent, result, hsent, heq, hsends, hkind, hnot, hkind.not_interim]
  · have hnot : ¬ Succeeds status := fun h => h.not_refuses.2 hkind
    have hnot' : ¬ Refuses status := fun h => h.not_interim hkind
    simp [sent, result, hsent, heq, hsends, hkind, hnot, hnot']

/-! ## Records whose work is sent -/

/-- The reply to work that was sent, with some words for what went wrong. -/
def replyOf (words : Error → String) : Except Error Unit → Reply
  | .ok () => .done
  | .error e => .failed (words e)

/-- Records are handled by sending their work to a server, which answers each
unit of work with a status of its own. -/
def sending (fallback : Option Authentication) (policy : MissingCredentialPolicy)
    (target : Option String) (status : Work → Nat) (words : Error → String) : Handler :=
  { fallback, policy, execute := fun w => replyOf words (execute target (status w) w).2 }

section Records

variable {fallback : Option Authentication} {policy : MissingCredentialPolicy}
  {target : Option String} {status : Work → Nat} {words : Error → String} {p : Partition}
  {r : Record} {w : Work}

theorem outcome_replyOf (result : Except Error Unit) :
    (Handler.outcome (replyOf words result) = .executed ↔ result = .ok ()) ∧
      (Handler.outcome (replyOf words result) = .executorFailed ↔ result ≠ .ok ()) := by
  cases result <;> simp [replyOf, Handler.outcome]

/-- A record counts as executed if its work is done, and as failed if not. -/
theorem handle_sending (hw : Handler.handedOver? fallback policy p r = some w) :
    let told := ((sending fallback policy target status words).handle p r).2
    let result := (execute target (status w) w).2
    ∃ o, told.filterMap Handler.Event.outcome? = [(r, o)] ∧
      told.flatMap Report.Reported.measurements = [.count (Handler.counterOf p.topic o) 1] ∧
      (o = .executed ↔ result = .ok ()) ∧ (o = .executorFailed ↔ result ≠ .ok ()) := by
  obtain ⟨-, houtcome, hcounted⟩ := (sending fallback policy target status words).handle_tells p r
  rw [Handler.outcomeOf_of_handedOver hw] at houtcome hcounted
  exact ⟨_, houtcome, hcounted, outcome_replyOf _⟩

end Records

/-- Work is done exactly if its request was sent and the answer is neither
interim nor an error, and otherwise it is told apart whether there was an answer.
A record whose work it is counts as executed in the first case, and as failed in
all others. -/
theorem delivered_exactly (target : Option String) (status : Work → Nat) (w : Work) :
    let sent := (execute target (status w) w).1
    let result := (execute target (status w) w).2
    (sent.isSome = true ↔ Sends target w) ∧
      (result = .ok () ↔ Sends target w ∧ Succeeds (status w)) ∧
      (result = .error (.rejected w.offset) ↔ Sends target w ∧ Refuses (status w)) ∧
      (result = .error (.noAnswer w.offset) ↔ ¬ Sends target w ∨ Interim (status w)) ∧
      ∀ fallback policy words p r, Handler.handedOver? fallback policy p r = some w →
        let told := ((sending fallback policy target status words).handle p r).2
        ∃ o, told.filterMap Handler.Event.outcome? = [(r, o)] ∧
          told.flatMap Report.Reported.measurements =
            [.count (Handler.counterOf p.topic o) 1] ∧
          (o = .executed ↔ result = .ok ()) ∧ (o = .executorFailed ↔ result ≠ .ok ()) := by
  obtain ⟨hsent, hdone, hrejected, hunanswered⟩ := execute_exactly target (status w) w
  exact ⟨hsent, hdone, hrejected, hunanswered, fun _ _ _ _ _ hw => handle_sending hw⟩

/-- The payload of a record whose work is only a number. -/
def barePayload : Bytes := "\x7b\"request\":0\x7d".toUTF8.toList

/-- A record whose work is redirected counts as executed. -/
theorem delivered_exactly_redirected :
    let w : Work := ⟨⟨"t", 0⟩, 17, none, none, none, .number (.integer 0)⟩
    let r : Record := ⟨17, none, some barePayload⟩
    Handler.handedOver? none .passThrough ⟨"t", 0⟩ r = some w ∧ Sends (some "/execute") w ∧
      Succeeds 302 ∧
      ((sending none .passThrough (some "/execute") (fun _ => 302) Error.message).handle
        ⟨"t", 0⟩ r).2.filterMap Handler.Event.outcome? = [(r, .executed)] := by
  intro w r
  have hw : Handler.handedOver? none .passThrough ⟨"t", 0⟩ r = some w := by with_unfolding_all rfl
  have hsends : Sends (some "/execute") w := ⟨rfl, nofun, nofun⟩
  have hsucceeds : Succeeds 302 := .inr (.inl ⟨by decide, by decide⟩)
  obtain ⟨-, hdone, -, -, hrecord⟩ := delivered_exactly (some "/execute") (fun _ => 302) w
  obtain ⟨o, houtcome, -, hexecuted, -⟩ := hrecord none .passThrough Error.message ⟨"t", 0⟩ r hw
  obtain rfl := hexecuted.mpr (hdone.mpr ⟨hsends, hsucceeds⟩)
  exact ⟨hw, hsends, hsucceeds, houtcome⟩

/-- So a status beyond the two hundreds is not always an error. -/
theorem redirection_not_refused :
    ¬ ∀ (target : Option String) (status : Nat) (w : Work),
      (execute target status w).2 = .ok () ↔
        (execute target status w).1.isSome = true ∧ 200 ≤ status ∧ status < 300 := by
  intro hall
  have hdone : (execute (some "/execute") 302
      ⟨⟨"t", 0⟩, 17, none, none, none, .number (.integer 0)⟩).2 = .ok () := by rfl
  exact absurd ((hall _ _ _).mp hdone).2.2 (by decide)

end Executor
end RecordDispatch
