import RecordDispatch.Dispatch.Basic
import RecordDispatch.Rehearsal.Release

/-!
# A dispatcher on stage

A rehearsal drives a dispatcher step by step.  The workers move only when they
are told to, and records are held until they are released.  After each step it
can be asked what is new.

A rehearsal of commits alone begins with a commit at time zero, from which the
first interval is counted (`startedSchedule`).
-/

namespace RecordDispatch.Rehearsal

open Dispatch

/-- A dispatcher in a rehearsal. -/
structure Stage (ω : Type) where
  dispatcher : Dispatcher ω
  releases : Releases := {}
  /-- How much of the journal was told after earlier steps. -/
  told : Nat := 0
  /-- How many requests were made in earlier steps. -/
  asked : Nat := 0

namespace Stage

variable {ω : Type}

/-- Change the dispatcher. -/
def update (s : Stage ω) (f : Dispatcher ω → Dispatcher ω) : Stage ω :=
  { s with dispatcher := f s.dispatcher }

/-- Let the workers move until nothing can move. -/
def work (s : Stage ω) : Stage ω :=
  s.update fun d => d.work (settle s.releases d.workers)

/-- Release records, and let the workers move. -/
def release (s : Stage ω) (spans : List Span) : Stage ω :=
  { s with releases := s.releases.add spans }.work

/-- What workers do during a call.  With nothing to release they stand still.
Otherwise records are released as soon as the call waits, and the workers move
until nothing can move. -/
def meanwhile (r : Releases) (during : Option (List Span)) : Meanwhile :=
  match during with
  | none => Meanwhile.nothing
  | some spans => fun point w =>
    match point with
    | .wait _ => { steps := settle (r.add spans) w }
    | .allWorkers => { steps := settle (r.add spans) w }
    | _ => {}

/-- Call the dispatcher.  What was to be released during the call is released
after it in any case. -/
def call {α : Type} (s : Stage ω) (during : Option (List Span))
    (f : Dispatcher ω → Meanwhile → Dispatcher ω × α) : Stage ω × α :=
  let (d, answer) := f s.dispatcher (meanwhile s.releases during)
  let s := { s with dispatcher := d }
  (match during with
    | none => s
    | some spans => s.release spans, answer)

/-- The events of the latest step, oldest first. -/
def news (s : Stage ω) : List Dispatch.Event :=
  (s.dispatcher.journal.take (s.dispatcher.journal.length - s.told)).reverse

/-- The requests of the latest step, oldest first. -/
def requests (s : Stage ω) : List Broker.Request :=
  let all := s.dispatcher.broker.requests
  (all.take (all.length - s.asked)).reverse

/-- Begin a step. -/
def begin (s : Stage ω) : Stage ω :=
  { s with
    told := s.dispatcher.journal.length
    asked := s.dispatcher.broker.requests.length }

/-- The events of the handler among the events of a dispatcher. -/
def handlerEvents (events : List Dispatch.Event) : List Handler.Event :=
  events.filterMap fun
    | .workers (.processor _ (.handler e)) => some e
    | _ => none

/-- The units of work that reached the executor. -/
def begun (events : List Handler.Event) : List (Partition × Int) :=
  events.filterMap fun
    | .called w => some (w.partition, w.offset)
    | _ => none

/-- The units of work to which the executor replied. -/
def executed (events : List Handler.Event) : List (Partition × Int) :=
  events.filterMap fun
    | .replied w _ => some (w.partition, w.offset)
    | _ => none

/-- The offsets of each partition, in the order of the partitions. -/
def byPartition (entries : List (Partition × Int)) : List (Partition × List Int) :=
  (Partition.sort (entries.map (·.1)).eraseDups).map fun p =>
    (p, (entries.filter fun e => e.1 == p).map (·.2))

end Stage

/-! ## Commits alone -/

/-- A schedule right after a forced commit at time zero, with what that commit
told. -/
def startedSchedule (interval : Duration) (mode : CommitMode) :
    Commit.Schedule × List Commit.Event :=
  let ledger := ({} : Ledger).record default 1
  let first := Commit.run { interval, mode } 0 true ledger {}
  (first.schedule, first.events)

end RecordDispatch.Rehearsal
