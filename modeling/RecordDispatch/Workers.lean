import RecordDispatch.Processor

/-!
# Workers

A fixed number of workers runs processors.  A submitted processor has a task,
which waits for a permit, picks the processor up, runs it to its end and gives
the permit back.  There are as many permits as workers, so that no more
processors run at once.  A processor that is stopped while its task waits is
not run, and its task still takes and returns a permit.

Everything the workers do is a sequence of `step`s of tasks, in any order.
Processors and tasks are known by their position in the order of creation.
-/

namespace RecordDispatch

/-- The position of a processor in the order of creation. -/
abbrev ProcessorId := Nat

namespace Workers

/-- The phases of a task. -/
inductive Phase
  /-- Waits for a permit. -/
  | queued
  /-- Has a permit and has not looked at its processor yet. -/
  | permitted
  /-- Runs its processor. -/
  | running
  | ended
deriving DecidableEq, Inhabited

/-- The task of a submitted processor. -/
structure Task where
  processor : ProcessorId
  phase : Phase := .queued
deriving Inhabited

/-- Whether a task holds a permit. -/
def Task.holdsPermit (t : Task) : Bool :=
  match t.phase with
  | .permitted => true
  | .running => true
  | _ => false

/-- Whether a task is queued or running. -/
def Task.isInFlight (t : Task) : Bool :=
  t.phase != .ended

/-- What the workers tell. -/
inductive Event
  | created (size : Nat)
  | submitted (id : ProcessorId) (inFlight : Nat)
  | ended (id : ProcessorId) (inFlight : Nat)
  | processor (id : ProcessorId) (event : Processor.Event)
  /-- There are fewer partitions than workers were asked for. -/
  | capped (requested partitions : Nat)

open Report in
instance : Reported Event where
  line?
    | .created size => some
      { level := .info
        source := "worker_pool"
        message := "Created worker pool"
        fields := [("size", .number size)] }
    | .capped requested partitions => some
      { level := .warn
        source := "worker_pool"
        message := "Worker pool size exceeds partition count, capping it"
        fields := [("requested", .number requested),
          ("partition_count", .number partitions)] }
    | .processor _ e => Reported.line? e
    | _ => none
  measurements
    | .created size => [.gauge (own "worker_pool_size") size]
    | .submitted _ n => [.gauge (own "worker_pool_in_flight") n]
    | .ended _ n => [.gauge (own "worker_pool_in_flight") n]
    | .processor _ e => Reported.measurements e
    | .capped _ _ => []

/-- How many workers serve a topic: as many as asked for, or as there are
processors of the machine, but at least one, and no more than partitions if
their number is known. -/
def effectiveSize (configured : Option Nat) (machine partitions : Nat) : Nat :=
  let requested := max (configured.getD machine) 1
  if partitions = 0 then requested else min requested partitions

/-- What choosing the number of workers tells. -/
def sizeEvents (configured : Option Nat) (machine partitions : Nat) : List Event :=
  let requested := max (configured.getD machine) 1
  if partitions != 0 && decide (partitions < requested) then [.capped requested partitions]
  else []

end Workers

/-- Workers with their processors. -/
structure Workers where
  size : Nat
  handler : Handler
  processors : List Processor := []
  tasks : List Workers.Task := []

namespace Workers

/-- A number of workers, at least one. -/
def ofSize (size : Nat) (handler : Handler) : Workers :=
  { size := max size 1, handler }

/-- A processor. -/
def processor? (w : Workers) (id : ProcessorId) : Option Processor :=
  w.processors[id]?

/-- Whether a processor is finished or stopped. -/
def isDone (w : Workers) (id : ProcessorId) : Bool :=
  ((w.processor? id).map Processor.isDone).getD true

/-- The offset to commit for the progress of a processor, if there is one. -/
def committable? (w : Workers) (id : ProcessorId) : Option Int :=
  (w.processor? id).bind Processor.committable?

/-- How many tasks hold a permit. -/
def permitsHeld (w : Workers) : Nat :=
  w.tasks.countP Task.holdsPermit

/-- How many tasks are queued or running. -/
def inFlight (w : Workers) : Nat :=
  w.tasks.countP Task.isInFlight

/-- The position of the next processor. -/
def nextId (w : Workers) : ProcessorId :=
  w.processors.length

/-- Change one processor. -/
def modify (w : Workers) (id : ProcessorId) (f : Processor → Processor) : Workers :=
  { w with processors := w.processors.modify id f }

/-- Create a processor for a batch. -/
def create (w : Workers) (batch : Batch) : Workers :=
  { w with processors := w.processors ++ [{ batch }] }

/-- Queue a processor. -/
def submit (w : Workers) (id : ProcessorId) : Workers × List Event :=
  let w := { w with tasks := w.tasks ++ [{ processor := id }] }
  (w, [.submitted id w.inFlight])

/-- Ask a processor to stop. -/
def stop (w : Workers) (id : ProcessorId) : Workers :=
  w.modify id Processor.stop

/-- Move a task to a phase. -/
def setPhase (w : Workers) (i : Nat) (phase : Phase) : Workers :=
  { w with tasks := w.tasks.modify i fun t => { t with phase } }

/-- End a task. -/
def finish (w : Workers) (i : Nat) (id : ProcessorId) : Workers × List Event :=
  let w := w.setPhase i .ended
  (w, [.ended id w.inFlight])

/-- One step of a task: it gets a permit, picks its processor up, advances it,
or ends.  A task that cannot move stays as it is. -/
def step (w : Workers) (i : Nat) : Workers × List Event :=
  match w.tasks[i]? with
  | none => (w, [])
  | some t =>
    match w.processor? t.processor with
    | none => (w, [])
    | some p =>
      match t.phase with
      | .queued => if w.permitsHeld < w.size then (w.setPhase i .permitted, []) else (w, [])
      | .permitted =>
        if p.stage = .created then
          ((w.modify t.processor Processor.claim).setPhase i .running, [])
        else
          let (w, events) := w.finish i t.processor
          (w, .processor t.processor (.stoppedBeforeStart p.partition) :: events)
      | .running =>
        if p.isDone then w.finish i t.processor
        else
          let (q, events) := p.advance w.handler
          (w.modify t.processor fun _ => q, events.map (.processor t.processor))
      | .ended => (w, [])

/-- Steps of tasks in order. -/
def run (w : Workers) : List Nat → Workers × List Event
  | [] => (w, [])
  | i :: is =>
    let (w, events) := w.step i
    let (w, more) := w.run is
    (w, events ++ more)

/-! ## What each operation does to processors and tasks -/

@[simp] theorem processor?_modify (w : Workers) (id i : ProcessorId)
    (f : Processor → Processor) :
    (w.modify id f).processor? i =
      if i = id then (w.processor? i).map f else w.processor? i := by
  simp only [modify, processor?, List.getElem?_modify, eq_comm (a := i)]
  split <;> simp

theorem processor?_create (w : Workers) (batch : Batch) (i : ProcessorId) :
    (w.create batch).processor? i =
      if i = w.nextId then some { batch } else w.processor? i := by
  unfold create processor?
  rcases Nat.lt_trichotomy i w.nextId with h | h | h
  · rw [if_neg (Nat.ne_of_lt h)]
    exact List.getElem?_append_left h
  · rw [if_pos h, h]
    exact List.getElem?_concat_length
  · rw [if_neg (Nat.ne_of_gt h), List.getElem?_eq_none (Nat.le_of_lt h)]
    exact List.getElem?_eq_none (List.length_append ▸ Nat.succ_le_of_lt h)

@[simp] theorem processor?_stop (w : Workers) (id i : ProcessorId) :
    (w.stop id).processor? i =
      if i = id then (w.processor? i).map Processor.stop else w.processor? i :=
  w.processor?_modify id i Processor.stop

@[simp] theorem inFlight_submit (w : Workers) (id : ProcessorId) :
    (w.submit id).1.inFlight = w.inFlight + 1 := by
  simp [submit, inFlight, Task.isInFlight]

end Workers
end RecordDispatch
