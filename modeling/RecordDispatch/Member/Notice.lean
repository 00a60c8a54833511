import RecordDispatch.Broker.Error
import RecordDispatch.Report.Metrics

/-!
# Notices about the assignment

The protocol client announces a change of the assignment before it takes
effect and confirms it afterwards.  A listener hears of partitions that are
taken away before, so that it can still commit, and of new ones afterwards.
Changes that concern no partition are passed over, and a member that is
leaving has given up its partitions already.
-/

namespace RecordDispatch.Member

/-- A change of the assignment. -/
inductive Notice
  | assign (ps : List Partition)
  | revoke (ps : List Partition)
  | error (error : Broker.ClientError)

/-- What a listener hears. -/
inductive Heard
  | assigned (ps : List Partition)
  | revoked (ps : List Partition)

/-- What the notices tell. -/
inductive Event
  | emptyRevoke
  | emptyAssign
  | alreadyRevoked
  | assigning (count : Nat)
  | revoked (count : Nat)
  | failing (error : Broker.ClientError)
  | failed (error : Broker.ClientError)
  | committed (count : Nat)
  | commitFailed (error : Broker.ClientError)

open Report in
/-- A log line of the notices. -/
def noticeLine (level : Level) (message : String) : Option Line :=
  some { level, source := "kafka::context", message }

open Report in
/-- The counter of changes that concern no partition. -/
def skipped (change : String) : List Measurement :=
  [.count (own "rebalance_empty_skipped_total" [("event_type", change)]) 1]

/-- A number of partitions. -/
def partitionCount (n : Nat) : String :=
  toString n ++ " partitions"

open Report in
instance : Reported Event where
  line?
    | .emptyRevoke => noticeLine .debug "Skipping empty revoke rebalance"
    | .emptyAssign => noticeLine .debug "Skipping empty assign rebalance"
    | .alreadyRevoked => noticeLine .debug "Consumer closing, revoke already handled"
    | .assigning n =>
      noticeLine .debug ("Pre-rebalance assign event for " ++ partitionCount n)
    | .revoked n => noticeLine .info ("Post-rebalance revoke of " ++ partitionCount n)
    | .failing e => noticeLine .error ("Rebalance error: " ++ e.message)
    | .failed e => noticeLine .error ("Post-rebalance error: " ++ e.message)
    | .committed n => noticeLine .debug ("Committed offsets for " ++ partitionCount n)
    | .commitFailed e => noticeLine .warn ("Failed to commit offsets: " ++ e.message)
  measurements
    | .emptyRevoke => skipped "revoke"
    | .emptyAssign => skipped "assign"
    | _ => []

namespace Notice

/-- What happens before a change takes effect. -/
def before (leaving : Bool) : Notice → List Heard × List Event
  | .revoke [] => ([], [.emptyRevoke])
  | .revoke ps => if leaving then ([], [.alreadyRevoked]) else ([.revoked ps], [])
  | .assign ps => ([], [.assigning ps.length])
  | .error e => ([], [.failing e])

/-- What happens after a change has taken effect. -/
def after : Notice → List Heard × List Event
  | .assign [] => ([], [.emptyAssign])
  | .assign ps => ([.assigned ps], [])
  | .revoke ps => ([], [.revoked ps.length])
  | .error e => ([], [.failed e])

end Notice

/-- What the answer to a commit tells. -/
def acknowledged (ps : List Partition) : Option Broker.ClientError → Event
  | none => .committed ps.length
  | some e => .commitFailed e

end RecordDispatch.Member
