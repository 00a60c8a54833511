import RecordDispatch.Rehearsal.Solo

/-!
# Processors at given points

A bench holds processors that are to be looked at.  Each is put up with
a number of its records handled and the next one at the executor, or finished
if there is no next one.  What is released for one of them is released for
all.
-/

namespace RecordDispatch.Rehearsal

/-- Processors that are to be looked at. -/
structure Bench where
  handler : Handler
  releases : Releases := {}
  processors : List Processor := []
  /-- Which processor a number stands for.  The latest one counts. -/
  names : List (Int × ProcessorId) := []
  /-- What has happened, oldest first. -/
  events : List Processor.Event := []

namespace Bench

/-- The processor for which a number stands. -/
def named? (b : Bench) (name : Int) : Option ProcessorId :=
  b.names.lookup name

/-- A processor. -/
def processor? (b : Bench) (id : ProcessorId) : Option Processor :=
  b.processors[id]?

/-- Let every running processor move until it is held or done. -/
def work (b : Bench) : Bench :=
  let moved := b.processors.map fun p =>
    Solo.drive b.handler (isFree b.releases) p.stepsLeft p
  { b with
    processors := moved.map (·.1)
    events := b.events ++ moved.flatMap (·.2) }

/-- Put up a processor. -/
def add (b : Bench) (name : Int) (p : Processor) : Bench :=
  { b with
    processors := b.processors ++ [p]
    names := (name, b.processors.length) :: b.names }

/-- Put up a processor that is run until it has handled a number of records. -/
def addRun (b : Bench) (name : Int) (batch : Batch) (records : Nat) : Bench :=
  let spans := (batch.records.take records).map fun r =>
    ({ partition := batch.partition, start := r.offset, stop := r.offset + 1 } : Span)
  ({ b with releases := b.releases.add spans }.add name { batch, stage := .running }).work

end Bench
end RecordDispatch.Rehearsal
