import RecordDispatch.Dispatch.Basic

/-!
# Ordered dispatch

Each partition has at most one processor.  While it works, the partition is
paused at the broker; records that arrive all the same are deferred, and they
are the next batch of the partition.  Every cycle the progress of the
processors goes into the ledger and is committed from there.
-/

namespace RecordDispatch

namespace Dispatch

/-- The work of an ordered dispatcher, one lane for each busy partition. -/
structure Lanes where
  /-- The processor of each busy partition. -/
  active : Table ProcessorId := {}
  /-- Records that arrived while the processor of their partition was active. -/
  deferred : Table Batch := {}

end Dispatch

open Dispatch

/-- A dispatcher that keeps the records of a partition in order. -/
abbrev OrderedDispatcher := Dispatcher Lanes

namespace OrderedDispatcher

/-! ## Draining -/

/-- Forget the deferred records of a partition. -/
def dropDeferred (d : OrderedDispatcher) (p : Partition) : OrderedDispatcher :=
  match d.held.deferred.find? p with
  | some batch =>
    (d.hold { d.held with deferred := d.held.deferred.erase p }).tell [.dropped batch]
  | none => d

/-- Stop the processor of a partition and forget it. -/
def stopActive (d : OrderedDispatcher) (m : Meanwhile) (p : Partition) :
    OrderedDispatcher × Option ProcessorId :=
  match d.held.active.find? p with
  | some id =>
    let d := d.hold { d.held with active := d.held.active.erase p }
    (({ d with workers := d.workers.stop id }).pass m (.stopped id), some id)
  | none => (d, none)

/-- Stop the processors of partitions, and say which these were. -/
def stopAll (d : OrderedDispatcher) (m : Meanwhile) :
    List Partition → OrderedDispatcher × List (Partition × ProcessorId)
  | [] => (d, [])
  | p :: ps =>
    let (d, id?) := stopActive (dropDeferred d p) m p
    let (d, rest) := stopAll d m ps
    (d, (id?.map fun id => (p, id)).toList ++ rest)

/-- Wait for one stopped processor, and settle what is committed for its
partition.  A processor that was not done in time may be done when it is read
again. -/
def drainOne (m : Meanwhile) (s : OrderedDispatcher × Offsets)
    (e : Partition × ProcessorId) : OrderedDispatcher × Offsets :=
  let (d, staged) := s
  let timeout := d.settings.revokeDrainTimeout
  let d := d.awaitProcessor m e.2 timeout
  let offset := ((d.workers.processor? e.2).map Processor.awaited).getD
    Processor.nothingProcessed
  let d := (d.tell [.waited e.1 (d.workers.isDone e.2)]).pass m (.answered e.2)
  if 0 < offset then (d.tell [.drained e.1 .drained timeout], staged.insert e.1 offset)
  else if d.workers.isDone e.2 then (d.tell [.drained e.1 .notStarted timeout], staged)
  else (d.tell [.drained e.1 .timedOut timeout], staged.erase e.1)

/-- Stop the work of partitions, wait for it, and forget the partitions.  The
result has the offsets that are safe to commit for them. -/
def drain (d : OrderedDispatcher) (m : Meanwhile) (ps : List Partition) :
    OrderedDispatcher × Offsets :=
  let (d, draining) := stopAll d m ps
  let staged := d.ledger.pendingOf ps
  let d := { d with ledger := d.ledger.forget ps }
  let (d, staged) := draining.foldl (drainOne m) (d, staged)
  (d.setMonitor (d.monitor.removeAll ps), staged)

instance : Held Lanes where
  mode := .ordered
  drain := drain

/-! ## The cycle -/

/-- Keep a batch until the processor of its partition is done. -/
def defer (d : OrderedDispatcher) (batch : Batch) : OrderedDispatcher :=
  let p := batch.partition
  let later :=
    match d.held.deferred.find? p with
    | some earlier => earlier.append batch
    | none => batch
  (d.hold { d.held with deferred := d.held.deferred.insert p later }).tell [.deferred batch]

/-- Start a processor for a batch, and pause its partition. -/
def start (d : OrderedDispatcher) (batch : Batch) : OrderedDispatcher :=
  let p := batch.partition
  let id := d.workers.nextId
  let d := (d.tell [.started id batch]).submit batch
  let d := d.hold { d.held with active := d.held.active.insert p id }
  d.withGate (d.gate.pause d.now p id)

/-- Take up a polled batch. -/
def receive (d : OrderedDispatcher) (batch : Batch) : OrderedDispatcher :=
  if batch.isEmpty then d
  else
    let d := d.noteTopic batch
    if d.held.active.contains batch.partition then defer d batch else start d batch

/-- Read one processor: its progress goes into the ledger.  Its completion is
read first, so that the progress of a processor that is done is final. -/
def harvestOne (m : Meanwhile) (s : OrderedDispatcher × List Partition)
    (e : Partition × ProcessorId) : OrderedDispatcher × List Partition :=
  let (d, done) := s
  let d := d.pass m (.completion e.2)
  let isDone := d.workers.isDone e.2
  let d := d.pass m (.progress e.2)
  let d :=
    match d.workers.committable? e.2 with
    | some offset => d.record e.1 offset
    | none => d
  (d, if isDone then done ++ [e.1] else done)

/-- Read every processor, and say which partitions are done. -/
def harvest (d : OrderedDispatcher) (m : Meanwhile) : OrderedDispatcher × List Partition :=
  d.held.active.entries.foldl (harvestOne m) (d, [])

/-- Forget the processor of a partition that is done.  Its deferred records are
the next batch; without any the partition is to be resumed. -/
def retireOne (s : OrderedDispatcher × List Partition) (p : Partition) :
    OrderedDispatcher × List Partition :=
  let (d, idle) := s
  let d := d.hold { d.held with active := d.held.active.erase p }
  match d.held.deferred.find? p with
  | some batch =>
    (start (d.hold { d.held with deferred := d.held.deferred.erase p }) batch, idle)
  | none => (d, idle ++ [p])

/-- Forget the processors of partitions that are done. -/
def retire (d : OrderedDispatcher) (done : List Partition) : OrderedDispatcher :=
  let (d, idle) := done.foldl retireOne (d, [])
  d.withGate (d.gate.resume idle)

/-- What remains of a cycle once batches are polled. -/
def takeUp (d : OrderedDispatcher) (m : Meanwhile) (batches : List Batch) :
    OrderedDispatcher × Outcome :=
  let d := batches.foldl receive (d.tell [.polled batches])
  let isIdle :=
    Event.recordCount batches == 0 && d.held.active.isEmpty && d.ledger.isEmpty
  let (d, done) := harvest d m
  let d := retire d done
  let d := d.tell [.active d.held.active.size]
  let d := d.report (.pausedShown d.snapshot)
  (d.commit false, if isIdle then .idle else .busy)

/-- One cycle, after some time since the last call. -/
def cycle (d : OrderedDispatcher) (m : Meanwhile) (elapsed : Duration) :
    OrderedDispatcher × Outcome :=
  let d := (d.elapse elapsed).applyRequests
  match d.poll m with
  | (d, .error e) => (d.pollFailed e, .backoff)
  | (d, .ok batches) => takeUp d m batches

/-- Commit, leave the group, and wait for the workers. -/
def shutdown (d : OrderedDispatcher) (m : Meanwhile) (elapsed : Duration) :
    OrderedDispatcher :=
  let d := (d.elapse elapsed).tell [.shuttingDown .ordered]
  let (d, _) := harvest d m
  ((d.commit true).close m).terminate m

end OrderedDispatcher
end RecordDispatch
