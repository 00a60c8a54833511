import RecordDispatch.Commit.Schedule
import RecordDispatch.Dispatch.Settings
import RecordDispatch.Gate

/-!
# What a dispatcher tells

The events of a dispatcher: those of its parts, and its own.  The journal of
a dispatcher is a list of them.  Log and metrics are two renderings of it, and
it is also the history that statements about whole runs speak of.
-/

namespace RecordDispatch.Dispatch

/-- How the work of a revoked partition ended. -/
inductive DrainResult
  /-- What was processed is committed. -/
  | drained
  /-- Some of the work was never begun. -/
  | notStarted
  /-- Some of the work still runs. -/
  | timedOut
deriving DecidableEq

/-- The name of a drain's result. -/
def DrainResult.name : DrainResult → String
  | .drained => "drained"
  | .notStarted => "not_started"
  | .timedOut => "timed_out"

/-- What a dispatcher tells. -/
inductive Event
  | ledger (event : Ledger.Event)
  | commit (event : Commit.Event)
  | gate (event : Gate.Event)
  | monitor (event : Monitor.Event)
  | workers (event : Workers.Event)
  | pollFailed (mode : Mode) (error : Broker.Error)
  | polled (batches : List Batch)
  /-- A processor was created for a batch of a partition. -/
  | started (id : ProcessorId) (batch : Batch)
  /-- Processors were created for the records of a batch. -/
  | startedSingles (ids : List ProcessorId) (batch : Batch)
  | deferred (batch : Batch)
  | dropped (batch : Batch)
  | active (count : Nat)
  | pausedShown (snapshot : Monitor.Snapshot)
  | status (inFlight paused : Nat)
  | revoking (ps : List Partition)
  /-- The wait for the stopped processor of a partition has ended, and whether
  the processor was done then. -/
  | waited (p : Partition) (isDone : Bool)
  | drained (p : Partition) (result : DrainResult) (timeout : Duration)
  | revokeCommitted (offsets : Offsets)
  | revokeCommitFailed (offsets : Offsets) (error : Broker.Error)
  | revoked (ps : List Partition) (committed : Nat)
  | assigned (ps : List Partition)
  | shuttingDown (mode : Mode)
  | leftInFlight
  | terminated (mode : Mode)
  | terminationTimedOut (mode : Mode) (timeout : Duration) (inFlight : Nat)

namespace Event

open Report

/-- The log line of an event of the dispatcher's own. -/
def ownLine? : Event → Option Line
  | .pollFailed mode e => some
    { level := .warn
      source := mode.source
      message := "Poll failed, backing off"
      fields := [("error", .shown e.shown)] }
  | .started _ batch => some
    { level := .debug
      source := Mode.ordered.source
      message := "Starting batch processor"
      fields := partitionFields batch.partition ++
        [("batch_size", .number batch.size)] ++
        (batch.firstOffset?.map fun o => ("first_offset", Value.number o)).toList }
  | .deferred batch => some
    { level := .debug
      source := "dispatcher::state"
      message := "Partition still busy, deferring batch"
      fields := partitionFields batch.partition ++ [("batch_size", .number batch.size)] }
  | .dropped batch => some
    { level := .debug
      source := "dispatcher::state"
      message := "Dropping deferred records of revoked partition"
      fields := partitionFields batch.partition ++ [("records", .number batch.size)] }
  | .pausedShown [] => none
  | .pausedShown (s :: ss) => some
    { level := .debug
      source := Mode.ordered.source
      message := "Paused partitions: " ++ Monitor.Snapshot.render (s :: ss) }
  | .status inFlight paused => some
    { level := .debug
      source := Mode.unordered.source
      message := "Unordered dispatcher status"
      fields := [("in_flight", .number inFlight), ("paused", .number paused)] }
  | .revoking ps => some
    { level := .info
      source := "rebalance_coordinator"
      message := "Partitions revoked, draining in-flight work"
      fields := [("count", .number ps.length), ("partitions", .shown (showPartitions ps))] }
  | .drained p .timedOut timeout => some
    { level := .error
      source := "rebalance_coordinator"
      message := "Timed out draining revoked partition, committing nothing for it"
      fields := partitionFields p ++
        [("timeout_ms", .number (Duration.toMillis timeout))] }
  | .drained p .notStarted _ => some
    { level := .warn
      source := "rebalance_coordinator"
      message := "Revoked partition had not started processing"
      fields := partitionFields p }
  | .revokeCommitFailed offsets e => some
    { level := .error
      source := "rebalance_coordinator"
      message := "Failed to commit offsets of revoked partitions"
      fields := [("error", .shown e.shown), ("partitions", .number offsets.size)] }
  | .revoked ps committed => some
    { level := .info
      source := "rebalance_coordinator"
      message := "Revoke drain complete"
      fields := [("count", .number ps.length), ("committed", .number committed),
        ("duration_ms", .elapsed)] }
  | .assigned ps => some
    { level := .info
      source := "rebalance_coordinator"
      message := "Partitions assigned"
      fields := [("count", .number ps.length), ("partitions", .shown (showPartitions ps))] }
  | .shuttingDown mode => some
    { level := .info
      source := mode.source
      message := match mode with
        | .ordered => "Shutting down ordered dispatcher"
        | .unordered => "Shutting down unordered dispatcher" }
  | .leftInFlight => some
    { level := .debug
      source := Mode.unordered.source
      message := "Work still in flight at shutdown, leaving it to the revoke on close" }
  | .terminated .ordered => some
    { level := .info
      source := Mode.ordered.source
      message := "Worker pool terminated" }
  | .terminationTimedOut mode timeout inFlight => some
    { level := .error
      source := mode.source
      message := "Timed out waiting for worker pool to terminate"
      fields := [("timeout_ms", .number (Duration.toMillis timeout)),
        ("in_flight", .number inFlight)] }
  | _ => none

/-- The number of records in batches. -/
def recordCount (batches : List Batch) : Nat :=
  (batches.flatMap (·.records)).length

/-- The measurements of an event of the dispatcher's own. -/
def ownMeasurements : Event → List Measurement
  | .pollFailed _ e => [.count (own "poll_errors_total" [("error", e.kind)]) 1]
  | .polled batches =>
    if recordCount batches = 0 then []
    else [.count (own "records_polled_total") (recordCount batches)]
  | .started _ batch =>
    [.count (own "batches_started_total" [("topic", batch.partition.topic)]) 1]
  | .startedSingles ids batch =>
    [.count (own "batches_started_total" [("topic", batch.partition.topic)]) ids.length]
  | .deferred batch =>
    [.count (own "batches_deferred_total" [("topic", batch.partition.topic)]) 1]
  | .active n => [.gauge (own "active_processors") n]
  | .revoking ps => [.count (own "partitions_revoked_total") ps.length]
  | .drained _ result _ => [.count (own "revoke_drains_total" [("result", result.name)]) 1]
  | .revokeCommitted _ => [Commit.counted .sync "ok"]
  | .revokeCommitFailed _ _ => [Commit.counted .sync "failed"]
  | .assigned ps => [.count (own "partitions_assigned_total") ps.length]
  | _ => []

instance : Reported Event where
  line?
    | .ledger e => Reported.line? e
    | .commit e => Reported.line? e
    | .gate e => Reported.line? e
    | .monitor e => Reported.line? e
    | .workers e => Reported.line? e
    | e => e.ownLine?
  measurements
    | .ledger e => Reported.measurements e
    | .commit e => Reported.measurements e
    | .gate e => Reported.measurements e
    | .monitor e => Reported.measurements e
    | .workers e => Reported.measurements e
    | e => e.ownMeasurements

end Event
end RecordDispatch.Dispatch
