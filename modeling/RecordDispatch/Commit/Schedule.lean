import RecordDispatch.Broker.Memory
import RecordDispatch.Duration

/-!
# When offsets are committed

A commit hands the pending offsets of the ledger to the broker.  One that is
not forced is attempted when more than the commit interval has passed since
the latest attempt, in the mode of the schedule.  A forced one does not wait
for the interval and is always synchronous.  Without pending offsets there is
no attempt.  The offsets of an attempt that failed go back into the ledger.
-/

namespace RecordDispatch.Commit

/-- When offsets are committed, and how. -/
structure Schedule where
  interval : Duration
  mode : CommitMode
  lastAttempt : Instant := 0

/-- What became of a commit. -/
inductive Outcome
  /-- Nothing was pending, or the interval had not passed. -/
  | skipped
  /-- The offsets of so many partitions were committed. -/
  | committed (partitions : Nat)
  | failed
deriving DecidableEq

/-- The form in which an outcome is shown. -/
def Outcome.shown : Outcome → String
  | .skipped => "Skipped"
  | .committed n => "Committed(" ++ toString n ++ ")"
  | .failed => "Failed"

/-- What committing tells. -/
inductive Event
  | committed (offsets : Offsets) (mode : CommitMode) (forced : Bool)
  | failed (offsets : Offsets) (mode : CommitMode) (forced : Bool) (error : Broker.Error)

open Report in
/-- The counter of commits. -/
def counted (mode : CommitMode) (result : String) : Measurement :=
  .count (own "offset_commits_total" [("mode", mode.name), ("result", result)]) 1

open Report in
instance : Reported Event where
  line?
    | .committed offsets mode forced => some
      { level := .debug
        source := "commit_scheduler"
        message := "Committed offsets"
        fields := [("partitions", .number offsets.size), ("mode", .text mode.name),
          ("forced", .flag forced)] }
    | .failed offsets _ true e => some
      { level := .error
        source := "commit_scheduler"
        message := "Forced offset commit failed"
        fields := [("error", .shown e.shown), ("partitions", .number offsets.size)] }
    | .failed offsets _ false e => some
      { level := .warn
        source := "commit_scheduler"
        message := "Offset commit failed, will retry"
        fields := [("error", .shown e.shown), ("partitions", .number offsets.size)] }
  measurements
    | .committed _ mode _ => [counted mode "ok"]
    | .failed _ mode _ _ => [counted mode "failed"]

namespace Schedule

/-- Whether more than the interval has passed since the latest attempt. -/
def isDue (s : Schedule) (now : Instant) : Bool :=
  decide (s.interval < Duration.between s.lastAttempt now)

/-- Whether a commit is attempted. -/
def attempts (s : Schedule) (now : Instant) (forced : Bool) (ledger : Ledger) : Bool :=
  !ledger.isEmpty && (forced || s.isDue now)

/-- The mode of an attempt. -/
def modeOf (s : Schedule) (forced : Bool) : CommitMode :=
  if forced then .sync else s.mode

end Schedule

/-- All that a commit changes, and what it comes to. -/
structure Step where
  schedule : Schedule
  ledger : Ledger
  broker : Broker
  outcome : Outcome
  events : List Event

/-- Commit the pending offsets of a ledger, if it is time. -/
def run (s : Schedule) (now : Instant) (forced : Bool) (ledger : Ledger) (broker : Broker) :
    Step :=
  if s.attempts now forced ledger then
    let mode := s.modeOf forced
    let offsets := ledger.pending
    let schedule := { s with lastAttempt := now }
    match broker.commit mode offsets with
    | (broker, .ok ()) =>
      { schedule, broker
        ledger := ledger.drain
        outcome := .committed offsets.size
        events := [.committed offsets mode forced] }
    | (broker, .error e) =>
      { schedule, broker
        ledger := ledger.drain.restore offsets
        outcome := .failed
        events := [.failed offsets mode forced e] }
  else { schedule := s, ledger, broker, outcome := .skipped, events := [] }

end RecordDispatch.Commit
