import RecordDispatch.Report.Metrics
import RecordDispatch.Text.Keyword
import RecordDispatch.Work

/-!
# Handling one record

A record is decoded, given a credential if it carries none, and handed to an
executor.  Whatever goes wrong concerns this record alone and becomes its
`Outcome`.

`Handler.triage` decides what is handed to the executor, and `Handler.conclude`
says what becomes of the record: the executor's reply decides, or the triage if
the record never reaches the executor.  `Handler.handle` is the one after the
other.
-/

namespace RecordDispatch

/-- What becomes of a record without a credential when there is no default. -/
inductive MissingCredentialPolicy
  /-- The record is skipped. -/
  | drop
  /-- The executor decides. -/
  | passThrough
deriving DecidableEq, Inhabited

namespace MissingCredentialPolicy

/-- The name of a policy in printed settings. -/
def name : MissingCredentialPolicy → String
  | .drop => "Drop"
  | .passThrough => "PassThrough"

/-- Read a policy.  Blanks around it and letter case do not count. -/
def parse? (s : String) : Option MissingCredentialPolicy :=
  match Text.keyword s with
  | "drop" => some .drop
  | "pass_through" => some .passThrough
  | "passthrough" => some .passThrough
  | _ => none

end MissingCredentialPolicy

/-- What an executor answers. -/
inductive Reply
  | done
  | failed (reason : String)
  | panicked
deriving DecidableEq

namespace Handler

/-- What became of a record. -/
inductive Outcome
  | executed
  | executorFailed
  | undecodable
  | missingCredentials
deriving DecidableEq

/-- The name of an outcome. -/
def Outcome.name : Outcome → String
  | .executed => "executed"
  | .executorFailed => "executor_failed"
  | .undecodable => "undecodable"
  | .missingCredentials => "missing_credentials"

/-- What handling records tells. -/
inductive Event
  | undecodable (p : Partition) (offset : Int) (error : DecodeError)
  | unauthenticated (p : Partition) (offset : Int) (messageId : Option String)
  /-- A unit of work was handed to the executor. -/
  | called (work : Work)
  /-- The executor replied. -/
  | replied (work : Work) (reply : Reply)
  | handled (p : Partition) (record : Record) (outcome : Outcome)

open Report in
instance : Reported Event where
  line?
    | .undecodable p offset e => some
      { level := .warn
        source := "request"
        message := "Skipping undecodable record: " ++ e.message
        fields := partitionFields p ++ [("offset", .number offset)] }
    | .unauthenticated p offset messageId => some
      { level := .error
        source := "request"
        message := "No authentication on record and no default configured, dropping it"
        fields := partitionFields p ++ [("offset", .number offset),
          ("message_id", .shown (Text.optional Text.quoted messageId))] }
    | .called _ => none
    | .replied w (.failed reason) => some
      { level := .warn
        source := "request"
        message := "Request execution failed: " ++ reason
        fields := partitionFields w.partition ++ [("offset", .number w.offset)] }
    | .replied w .panicked => some
      { level := .error
        source := "request"
        message := "Request executor panicked"
        fields := partitionFields w.partition ++ [("offset", .number w.offset)] }
    | .replied _ .done => none
    | .handled _ _ _ => none
  measurements
    | .handled p _ outcome =>
      [.count (own "records_processed_total"
        [("topic", p.topic), ("outcome", outcome.name)]) 1]
    | _ => []

end Handler

/-- How records are handled. -/
structure Handler where
  /-- The credential of records that carry none. -/
  fallback : Option Authentication := none
  policy : MissingCredentialPolicy := .drop
  execute : Work → Reply

namespace Handler

/-- What is to be done with a record. -/
inductive Triage
  /-- The record does not reach the executor. -/
  | rejected (outcome : Outcome) (event : Event)
  | accepted (work : Work)

/-- The unit of work with the credential that the executor gets. -/
def authenticate (h : Handler) (w : Work) : Work :=
  { w with authentication := w.authentication.or h.fallback }

/-- Decide what is to be done with a record. -/
def triage (h : Handler) (p : Partition) (r : Record) : Triage :=
  match Work.decode p r with
  | .error e => .rejected .undecodable (.undecodable p r.offset e)
  | .ok work =>
    let work := h.authenticate work
    if work.authentication.isNone && h.policy == .drop then
      .rejected .missingCredentials (.unauthenticated p r.offset work.messageId)
    else .accepted work

/-- What taking up a record tells. -/
def Triage.opening : Triage → List Event
  | .rejected _ e => [e]
  | .accepted w => [.called w]

/-- What a reply of the executor comes to. -/
def outcome : Reply → Outcome
  | .done => .executed
  | .failed _ => .executorFailed
  | .panicked => .executorFailed

/-- What becomes of a record that was taken up, with what that tells. -/
def conclude (h : Handler) : Triage → Outcome × List Event
  | .rejected o _ => (o, [])
  | .accepted w =>
    let reply := h.execute w
    (outcome reply, [.replied w reply])

/-- Handle one record from beginning to end. -/
def handle (h : Handler) (p : Partition) (r : Record) : Outcome × List Event :=
  let t := h.triage p r
  let (o, events) := h.conclude t
  (o, t.opening ++ events ++ [.handled p r o])

end Handler
end RecordDispatch
