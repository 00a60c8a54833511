import RecordDispatch.Dispatch.Basic

/-!
# Unordered dispatch

Every polled record has a processor of its own, so that records of one
partition may be handled at the same time and in any order.  The dispatcher
does not poll again until all of this work is done; then the highest offset of
each partition goes into the ledger.  Partitions are paused only for the
operator.
-/

namespace RecordDispatch

namespace Dispatch

/-- The work of an unordered dispatcher: the processors of the last poll. -/
structure InFlight where
  processors : Table (List ProcessorId) := {}

namespace InFlight

/-- All processors. -/
def ids (f : InFlight) : List ProcessorId :=
  f.processors.values.flatten

/-- The number of processors. -/
def count (f : InFlight) : Nat :=
  f.ids.length

end InFlight
end Dispatch

open Dispatch

/-- A dispatcher that handles every record for itself. -/
abbrev UnorderedDispatcher := Dispatcher InFlight

namespace UnorderedDispatcher

/-- The highest offset to commit for the progress of some processors, if there
is one. -/
def highest? (w : Workers) (ids : List ProcessorId) : Option Int :=
  (ids.filterMap w.committable?).max?

/-! ## Draining -/

/-- Stop a processor. -/
def stopProcessor (m : Meanwhile) (d : UnorderedDispatcher) (id : ProcessorId) :
    UnorderedDispatcher :=
  ({ d with workers := d.workers.stop id }).pass m (.stopped id)

/-- Stop the processors of a partition and forget them. -/
def stopOne (m : Meanwhile) (s : UnorderedDispatcher × List (Partition × List ProcessorId))
    (p : Partition) : UnorderedDispatcher × List (Partition × List ProcessorId) :=
  let (d, draining) := s
  match d.held.processors.find? p with
  | some ids =>
    (ids.foldl (stopProcessor m) (d.hold ⟨d.held.processors.erase p⟩), draining ++ [(p, ids)])
  | none => (d, draining)

/-- Whether a processor has handled its whole batch. -/
def isFinished (w : Workers) (id : ProcessorId) : Bool :=
  ((w.processor? id).map fun p => p.stage == .finished).getD true

/-- Wait for processors until a deadline, and say whether each was finished at
the end of its wait. -/
def awaitFinished (m : Meanwhile) (deadline : Instant)
    (s : UnorderedDispatcher × Bool) (id : ProcessorId) : UnorderedDispatcher × Bool :=
  let (d, all) := s
  let d := (d.awaitProcessor m id (Duration.between d.now deadline)).pass m (.answered id)
  (d, all && isFinished d.workers id)

/-- Offsets with one more of a partition, unless a higher one is there. -/
def raise (staged : Offsets) (p : Partition) (offset : Int) : Offsets :=
  match staged.find? p with
  | some entry => staged.insert p (max entry offset)
  | none => staged.insert p offset

/-- Wait for the stopped processors of a partition, and settle what is
committed for it. -/
def drainOne (m : Meanwhile) (deadline : Instant) (s : UnorderedDispatcher × Offsets)
    (e : Partition × List ProcessorId) : UnorderedDispatcher × Offsets :=
  let (d, staged) := s
  let timeout := d.settings.revokeDrainTimeout
  let (d, finished) := e.2.foldl (awaitFinished m deadline) (d, true)
  if finished then
    (d.tell [.drained e.1 .drained timeout],
      match highest? d.workers e.2 with
      | some offset => raise staged e.1 offset
      | none => staged)
  else if e.2.all d.workers.isDone then
    (d.tell [.drained e.1 .notStarted timeout], staged)
  else (d.tell [.drained e.1 .timedOut timeout], staged)

/-- Stop the work of partitions, wait for it, and forget the partitions.  The
result has the offsets that are safe to commit for them.  All waits together
take no longer than the timeout. -/
def drain (d : UnorderedDispatcher) (m : Meanwhile) (ps : List Partition) :
    UnorderedDispatcher × Offsets :=
  let (d, draining) := ps.foldl (stopOne m) (d, [])
  let staged := d.ledger.pendingOf ps
  let d := { d with ledger := d.ledger.forget ps }
  let deadline := Duration.after d.now d.settings.revokeDrainTimeout
  let (d, staged) := draining.foldl (drainOne m deadline) (d, staged)
  (d.setMonitor (d.monitor.removeAll ps), staged)

instance : Held InFlight where
  mode := .unordered
  drain := drain

/-! ## The cycle -/

/-- Whether there is work of the last poll that is not done. -/
def pending (d : UnorderedDispatcher) : List ProcessorId :=
  d.held.ids.filter fun id => !d.workers.isDone id

/-- Wait for processors until a deadline, and say whether all of them are
done. -/
def awaitAll (m : Meanwhile) (deadline : Instant) :
    UnorderedDispatcher → List ProcessorId → UnorderedDispatcher × Bool
  | d, [] => (d, true)
  | d, id :: ids =>
    let left := Duration.between d.now deadline
    if left = 0 then (d, false)
    else
      let d := d.awaitProcessor m id left
      if d.workers.isDone id then awaitAll m deadline d ids else (d, false)

/-- Record the highest offset of a partition's processors. -/
def settleOne (d : UnorderedDispatcher) (e : Partition × List ProcessorId) :
    UnorderedDispatcher :=
  match highest? d.workers e.2 with
  | some offset => d.record e.1 offset
  | none => d

/-- Wait for the work of the last poll.  If all of it is done, its offsets go
into the ledger and it is forgotten. -/
def settle (d : UnorderedDispatcher) (m : Meanwhile) : UnorderedDispatcher × Bool :=
  match awaitAll m (Duration.after d.now d.settings.pollTimeout) d (pending d) with
  | (d, true) => ((d.held.processors.entries.foldl settleOne d).hold {}, true)
  | (d, false) => (d, false)

/-- Start a processor for one record. -/
def startSingle (p : Partition) (d : UnorderedDispatcher) (single : Batch) :
    UnorderedDispatcher :=
  let id := d.workers.nextId
  let d := d.submit single
  d.hold ⟨d.held.processors.insert p ((d.held.processors.find? p).getD [] ++ [id])⟩

/-- Take up a polled batch. -/
def receive (d : UnorderedDispatcher) (batch : Batch) : UnorderedDispatcher :=
  if batch.isEmpty then d
  else
    let ids := (List.range batch.size).map (d.workers.nextId + ·)
    let d := (d.noteTopic batch).tell [.startedSingles ids batch]
    batch.singles.foldl (startSingle batch.partition) d

/-- Report the monitor, if it is time. -/
def reportStatus (d : UnorderedDispatcher) : UnorderedDispatcher :=
  d.report (.status d.held.count d.monitor.size)

/-- What remains of a cycle once batches are polled. -/
def takeUp (d : UnorderedDispatcher) (batches : List Batch) : UnorderedDispatcher × Outcome :=
  let d := batches.foldl receive (d.tell [.polled batches])
  let d := d.tell [.active d.held.count]
  let isIdle := Event.recordCount batches == 0 && d.ledger.isEmpty
  ((reportStatus d).commit false, if isIdle then .idle else .busy)

/-- One cycle, after some time since the last call. -/
def cycle (d : UnorderedDispatcher) (m : Meanwhile) (elapsed : Duration) :
    UnorderedDispatcher × Outcome :=
  let d := (d.elapse elapsed).applyRequests
  match settle d m with
  | (d, false) => ((reportStatus d).commit false, .busy)
  | (d, true) =>
    match d.poll m with
    | (d, .error e) => (d.pollFailed e, .backoff)
    | (d, .ok batches) => takeUp d batches

/-- Commit, leave the group, and wait for the workers. -/
def shutdown (d : UnorderedDispatcher) (m : Meanwhile) (elapsed : Duration) :
    UnorderedDispatcher :=
  let d := (d.elapse elapsed).tell [.shuttingDown .unordered]
  let (d, settled) := settle d m
  let d := if settled then d else d.tell [.leftInFlight]
  ((d.commit true).close m).terminate m

end UnorderedDispatcher
end RecordDispatch
