import RecordDispatch.Dispatch.Event

/-!
# The parts that every dispatcher has

A dispatcher polls a broker, hands the records to workers and commits what
they have handled.  `Dispatcher ω` has what the two ways of dispatching share;
`ω` is the work that a dispatcher holds, and `Held ω` says how that work is
drained when partitions are revoked.

Workers run beside the dispatcher.  A `Meanwhile` says what they do, and how
much time passes, while the dispatcher is at a `Point` where this matters:
while it waits, between the reads of a processor, and while it asks one
processor after another to stop.  A run of a dispatcher with any `Meanwhile`s,
and any steps of tasks in between, is a possible run.

The journal records everything that happens, newest first.
-/

namespace RecordDispatch

namespace Dispatch

/-- The points at which workers may act within a call of the dispatcher. -/
inductive Point
  /-- Before the completion of a processor is read. -/
  | completion (id : ProcessorId)
  /-- Between that and the reading of its progress. -/
  | progress (id : ProcessorId)
  /-- After a processor was asked to stop, before the next one is. -/
  | stopped (id : ProcessorId)
  /-- During a wait for a processor. -/
  | wait (id : ProcessorId)
  /-- After such a wait has ended, before the processor is read again. -/
  | answered (id : ProcessorId)
  /-- During the wait for all workers. -/
  | allWorkers

/-- What happens at a point: steps of tasks, and time that passes. -/
structure Activity where
  steps : List Nat := []
  elapsed : Duration := 0

/-- What workers do at each point, given how they stand. -/
abbrev Meanwhile := Point → Workers → Activity

/-- Nothing happens at any point. -/
def Meanwhile.nothing : Meanwhile := fun _ _ => {}

end Dispatch

open Dispatch

/-- A dispatcher that holds work of type `ω`. -/
structure Dispatcher (ω : Type) where
  settings : Settings
  workers : Workers
  /-- The gate, with the broker and the monitor. -/
  gate : Gate
  ledger : Ledger := {}
  schedule : Commit.Schedule
  /-- The topics of which records were polled. -/
  topics : List String := []
  /-- When the monitor was last reported. -/
  lastReport : Instant := 0
  now : Instant := 0
  held : ω
  /-- What has happened, newest first. -/
  journal : List Dispatch.Event := []

namespace Dispatcher

variable {ω : Type}

/-- A dispatcher at its start. -/
def create (settings : Settings) (workers : Workers) (broker : Broker) (held : ω) :
    Dispatcher ω :=
  { settings
    workers
    gate := { broker }
    schedule := { interval := settings.commitInterval, mode := settings.commitMode }
    held
    journal := [.workers (.created workers.size)] }

/-! ## The parts of a dispatcher -/

/-- The broker. -/
def broker (d : Dispatcher ω) : Broker :=
  d.gate.broker

/-- The monitor of paused partitions. -/
def monitor (d : Dispatcher ω) : Monitor :=
  d.gate.monitor

/-- Change the broker. -/
def setBroker (d : Dispatcher ω) (broker : Broker) : Dispatcher ω :=
  { d with gate := { d.gate with broker } }

/-- Change the monitor. -/
def setMonitor (d : Dispatcher ω) (monitor : Monitor) : Dispatcher ω :=
  { d with gate := { d.gate with monitor } }

/-- Change the work that is held. -/
def hold (d : Dispatcher ω) (held : ω) : Dispatcher ω :=
  { d with held }

/-- Record events, oldest first, in the journal. -/
def tell (d : Dispatcher ω) (events : List Dispatch.Event) : Dispatcher ω :=
  { d with journal := events.reverse ++ d.journal }

/-- The events so far, oldest first. -/
def history (d : Dispatcher ω) : List Dispatch.Event :=
  d.journal.reverse

@[simp] theorem history_tell (d : Dispatcher ω) (events : List Dispatch.Event) :
    (d.tell events).history = d.history ++ events := by
  simp [history, tell]

@[simp] theorem broker_setBroker (d : Dispatcher ω) (b : Broker) :
    (d.setBroker b).broker = b := rfl

@[simp] theorem monitor_setBroker (d : Dispatcher ω) (b : Broker) :
    (d.setBroker b).monitor = d.monitor := rfl

@[simp] theorem broker_setMonitor (d : Dispatcher ω) (m : Monitor) :
    (d.setMonitor m).broker = d.broker := rfl

@[simp] theorem monitor_setMonitor (d : Dispatcher ω) (m : Monitor) :
    (d.setMonitor m).monitor = m := rfl

/-- Let the workers be as they are after an operation. -/
def withWorkers (d : Dispatcher ω) (r : Workers × List Workers.Event) : Dispatcher ω :=
  { d with workers := r.1 }.tell (r.2.map .workers)

/-- Let the gate be as it is after an operation. -/
def withGate (d : Dispatcher ω) (r : Gate × List Gate.Event) : Dispatcher ω :=
  { d with gate := r.1 }.tell (r.2.map .gate)

/-- Record the next offset of a partition in the ledger. -/
def record (d : Dispatcher ω) (p : Partition) (next : Int) : Dispatcher ω :=
  { d with ledger := d.ledger.record p next }.tell
    ((d.ledger.recordEvents p next).map .ledger)

/-- Commit the pending offsets, if it is time. -/
def commit (d : Dispatcher ω) (forced : Bool) : Dispatcher ω :=
  let s := Commit.run d.schedule d.now forced d.ledger d.broker
  ({ d with schedule := s.schedule, ledger := s.ledger }.setBroker s.broker).tell
    (s.events.map .commit)

/-- Create a processor for a batch and queue it. -/
def submit (d : Dispatcher ω) (batch : Batch) : Dispatcher ω :=
  d.withWorkers ((d.workers.create batch).submit d.workers.nextId)

/-- Let time pass. -/
def elapse (d : Dispatcher ω) (t : Duration) : Dispatcher ω :=
  { d with now := Duration.after d.now t }

/-! ## Workers beside the dispatcher -/

/-- Steps of tasks. -/
def work (d : Dispatcher ω) (steps : List Nat) : Dispatcher ω :=
  d.withWorkers (d.workers.run steps)

/-- What happens at a point where the dispatcher does not wait. -/
def pass (d : Dispatcher ω) (m : Meanwhile) (point : Point) : Dispatcher ω :=
  d.work (m point d.workers).steps

/-- Wait, for at most some time, until the workers have come to a condition.
A wait that does not end before takes all of the time, and with no time at all
nothing is waited for. -/
def await (d : Dispatcher ω) (m : Meanwhile) (point : Point) (timeout : Duration)
    (isOver : Workers → Bool) : Dispatcher ω :=
  if isOver d.workers || timeout == 0 then d
  else
    let a := m point d.workers
    let d := d.work a.steps
    d.elapse (if isOver d.workers then min a.elapsed timeout else timeout)

/-- Wait for a processor. -/
def awaitProcessor (d : Dispatcher ω) (m : Meanwhile) (id : ProcessorId)
    (timeout : Duration) : Dispatcher ω :=
  d.await m (.wait id) timeout fun w => w.isDone id

/-- Wait until no task is in flight. -/
def awaitWorkers (d : Dispatcher ω) (m : Meanwhile) (timeout : Duration) : Dispatcher ω :=
  d.await m .allWorkers timeout fun w => w.inFlight == 0

end Dispatcher

/-! ## Revocation -/

namespace Dispatch

/-- Work that can be drained. -/
class Held (ω : Type) where
  /-- The way of dispatching. -/
  mode : Mode
  /-- Stop and forget the work of partitions, and say which offsets are safe to
  commit for them. -/
  drain : Dispatcher ω → Meanwhile → List Partition → Dispatcher ω × Offsets

end Dispatch

namespace Dispatcher

variable {ω : Type}

/-- Commit the offsets of revoked partitions, if there are any. -/
def commitRevoked (d : Dispatcher ω) (offsets : Offsets) : Dispatcher ω :=
  if offsets.isEmpty then d
  else
    match d.broker.commit .sync offsets with
    | (broker, .ok ()) => (d.setBroker broker).tell [.revokeCommitted offsets]
    | (broker, .error e) => (d.setBroker broker).tell [.revokeCommitFailed offsets e]

variable [Held ω]

/-- Drain partitions and commit what was processed of them. -/
def revoke (d : Dispatcher ω) (m : Meanwhile) (ps : List Partition) : Dispatcher ω :=
  if ps.isEmpty then d
  else
    let (d, offsets) := Held.drain (d.tell [.revoking ps]) m ps
    (d.commitRevoked offsets).tell [.revoked ps offsets.size]

/-- Deliver one rebalance.  Partitions are drained before they are taken away. -/
def deliver (m : Meanwhile) (d : Dispatcher ω) : Broker.Rebalance → Dispatcher ω
  | .revoke ps =>
    let d := d.revoke m ps
    d.setBroker (d.broker.revoke ps)
  | .assign ps => (d.setBroker (d.broker.assign ps)).tell [.assigned ps]

/-- Deliver the scheduled rebalances. -/
def deliverAll (d : Dispatcher ω) (m : Meanwhile) : Dispatcher ω :=
  d.broker.rebalances.foldl (deliver m) (d.setBroker { d.broker with rebalances := [] })

/-- Poll the broker. -/
def poll (d : Dispatcher ω) (m : Meanwhile) : Dispatcher ω × Except Broker.Error (List Batch) :=
  match d.broker.clientErrors with
  | e :: rest => (d.setBroker { d.broker with clientErrors := rest }, .error (.client e))
  | [] =>
    let d := d.deliverAll m
    let (broker, answer) := d.broker.fetch
    (d.setBroker broker, answer)

/-- Leave the group.  What is still assigned is revoked first. -/
def close (d : Dispatcher ω) (m : Meanwhile) : Dispatcher ω :=
  if d.broker.closed then d
  else
    let d := d.revoke m (Partition.sort d.broker.assigned)
    d.setBroker d.broker.leave

/-! ## The frame of a cycle -/

/-- Take up the operator's requests. -/
def applyRequests (d : Dispatcher ω) : Dispatcher ω :=
  d.withGate (d.gate.apply d.now)

/-- Whether the monitor is to be reported. -/
def reportIsDue (d : Dispatcher ω) : Bool :=
  decide (d.settings.monitorInterval ≤ Duration.between d.lastReport d.now)

/-- Remember the topic of a batch. -/
def noteTopic (d : Dispatcher ω) (batch : Batch) : Dispatcher ω :=
  { d with
    topics :=
      if d.topics.contains batch.partition.topic then d.topics
      else batch.partition.topic :: d.topics }

/-- The monitor at this moment. -/
def snapshot (d : Dispatcher ω) : Monitor.Snapshot :=
  d.monitor.snapshot d.workers.processor? d.now

/-- Report the monitor, if it is time, with an event for the log. -/
def report (d : Dispatcher ω) (shown : Dispatch.Event) : Dispatcher ω :=
  if d.reportIsDue then
    { d with lastReport := d.now }.tell
      [shown, .monitor (.published (d.snapshot.published d.topics))]
  else d

/-- A poll has failed. -/
def pollFailed (d : Dispatcher ω) (e : Broker.Error) : Dispatcher ω :=
  d.tell [.pollFailed (Held.mode ω) e]

/-- Wait for the workers after leaving the group. -/
def terminate (d : Dispatcher ω) (m : Meanwhile) : Dispatcher ω :=
  let timeout := d.settings.shutdownTimeout
  let d := d.awaitWorkers m timeout
  if d.workers.inFlight = 0 then d.tell [.terminated (Held.mode ω)]
  else d.tell [.terminationTimedOut (Held.mode ω) timeout d.workers.inFlight]

end Dispatcher
end RecordDispatch
