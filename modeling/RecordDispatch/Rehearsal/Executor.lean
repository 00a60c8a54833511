import RecordDispatch.Handler
import RecordDispatch.Json.Printer

/-!
# Sample records and the recording executor

Well-formed records for rehearsals, and an executor for them.  It fails or
panics on chosen offsets, and the units of work that reach it can be read off
the events of the handler.
-/

namespace RecordDispatch.Rehearsal

/-! ## Sample records -/

/-- An envelope with a small request. -/
def sampleEnvelope (authentication : Option Authentication) : Envelope :=
  { authentication
    messageId := some "test-message"
    request := .object [("op", .string "test")] }

/-- The payload of a sample record, as text. -/
def samplePayload (authentication : Option Authentication) : String :=
  (sampleEnvelope authentication).toJson.render

/-- Sample records without a credential, with the offsets from `start` on and
below `stop`. -/
def sampleBatch (p : Partition) (start stop : Int) : Batch :=
  Batch.ofRange p start (stop - start).toNat (samplePayload none).toUTF8.toList

/-! ## The recording executor -/

/-- The reply of the recording executor.  At an offset where it both fails and
panics, it panics. -/
def reply (failing panicking : List Int) (w : Work) : Reply :=
  if panicking.contains w.offset then .panicked
  else if failing.contains w.offset then
    .failed ("executor failure at offset " ++ toString w.offset)
  else .done

/-- A handler with the recording executor. -/
def handler (fallback : Option Authentication) (policy : MissingCredentialPolicy)
    (failing panicking : List Int) : Handler :=
  { fallback, policy, execute := reply failing panicking }

/-- The units of work that were handed to the executor, in order. -/
def calls (events : List Handler.Event) : List Work :=
  events.filterMap fun
    | .called w => some w
    | _ => none

/-- Handle records one after another. -/
def handleAll (h : Handler) (polled : List (Partition × Record)) :
    List (Handler.Outcome × List Handler.Event) :=
  polled.map fun e => h.handle e.1 e.2

/-- The units of work of chosen partitions that are with the executor after an
event. -/
def running (counts : Work → Bool) (n : Nat) : Handler.Event → Nat
  | .called w => if counts w then n + 1 else n
  | .replied w _ => if counts w then n - 1 else n
  | _ => n

/-- The highest number of units of work with the executor at one time. -/
def peak (counts : Work → Bool) (events : List Handler.Event) : Nat :=
  (events.foldl
    (fun (s : Nat × Nat) e =>
      let n := running counts s.1 e
      (n, max s.2 n))
    (0, 0)).2

/-- The highest number of units of work of a single partition with the executor
at one time. -/
def partitionPeak (events : List Handler.Event) : Nat :=
  ((calls events).map fun w => peak (fun v => v.partition == w.partition) events).foldl max 0

end RecordDispatch.Rehearsal
