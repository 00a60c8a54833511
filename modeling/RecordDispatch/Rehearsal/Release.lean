import RecordDispatch.Workers

/-!
# Holding records at the executor

In a rehearsal every unit of work is held when it reaches the executor, until
its partition and offset are released.  `settle` lets the workers move until
nothing can move any more.
-/

namespace RecordDispatch.Rehearsal

/-- Offsets of a partition, from `start` on and below `stop`. -/
structure Span where
  partition : Partition
  start : Int
  stop : Int

/-- Whether an offset of a partition lies in a span. -/
def Span.covers (s : Span) (p : Partition) (offset : Int) : Bool :=
  s.partition == p && decide (s.start ≤ offset) && decide (offset < s.stop)

/-- What is released: everything, or some spans. -/
structure Releases where
  all : Bool := false
  spans : List Span := []

/-- Whether a unit of work is released. -/
def Releases.covers (r : Releases) (w : Work) : Bool :=
  r.all || r.spans.any fun s => s.covers w.partition w.offset

/-- Release more. -/
def Releases.add (r : Releases) (spans : List Span) : Releases :=
  { r with spans := r.spans ++ spans }

/-- Whether a processor's next step is not held. -/
def isFree (r : Releases) (p : Processor) : Bool :=
  match p.current with
  | some (.accepted w) => r.covers w
  | _ => true

/-- Whether a task can take its next step. -/
def canMove (r : Releases) (w : Workers) (t : Workers.Task) : Bool :=
  match t.phase with
  | .queued => decide (w.permitsHeld < w.size)
  | .permitted => true
  | .running => ((w.processor? t.processor).map (isFree r)).getD false
  | .ended => false

/-- Let one task move until it is held, for at most some steps. -/
def pursue (r : Releases) (i : Nat) : Nat → Workers → Workers × List Nat
  | 0, w => (w, [])
  | fuel + 1, w =>
    match w.tasks[i]? with
    | none => (w, [])
    | some t =>
      if canMove r w t then
        let (w, steps) := pursue r i fuel (w.step i).1
        (w, i :: steps)
      else (w, [])

/-- A number of steps that no task exceeds. -/
def stepBound (w : Workers) : Nat :=
  (w.processors.map Processor.stepsLeft).foldl max 0 + 4

/-- Let tasks move, one after another. -/
def pursueAll (r : Releases) : List Nat → Workers → List Nat
  | [], _ => []
  | i :: is, w =>
    let (w, steps) := pursue r i (stepBound w) w
    steps ++ pursueAll r is w

/-- The tasks in one phase, in the order of their submission. -/
def tasksIn (phase : Workers.Phase) (w : Workers) : List Nat :=
  (List.range w.tasks.length).filter fun i =>
    (w.tasks[i]?.map fun t => t.phase == phase).getD false

/-- The steps with which the workers move until nothing can move.  Tasks that
wait for a permit come before tasks that run already, and then once more, for
the permits that these give back. -/
def settle (r : Releases) (w : Workers) : List Nat :=
  let queued := tasksIn .queued w
  pursueAll r (queued ++ tasksIn .running w ++ queued) w

end RecordDispatch.Rehearsal
