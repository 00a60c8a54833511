import RecordDispatch.Duration
import RecordDispatch.Rehearsal.Release

/-!
# A processor on its own

A rehearsal of a single processor.  It may be run several times; only the
first run of a processor that was not stopped before drives it, and every
other one returns at once.
-/

namespace RecordDispatch.Rehearsal

/-- A run of a processor. -/
inductive Run
  /-- The run that drives the processor. -/
  | driving
  /-- A run that returned at once, at a stage. -/
  | returned (stage : Processor.Stage)

/-- A processor on its own. -/
structure Solo where
  processor : Processor
  handler : Handler
  releases : Releases := {}
  runs : List Run := []
  /-- What has happened, oldest first. -/
  events : List Processor.Event := []
  /-- How much of it was told after earlier steps. -/
  told : Nat := 0

namespace Solo

/-- Advance a processor until it is held or done, for at most some steps. -/
def drive (h : Handler) (isFree : Processor → Bool) :
    Nat → Processor → Processor × List Processor.Event
  | 0, p => (p, [])
  | fuel + 1, p =>
    if p.stage = .running && isFree p then
      let (p, events) := p.advance h
      let (p, more) := drive h isFree fuel p
      (p, events ++ more)
    else (p, [])

/-- Let the processor move until it is held or done. -/
def work (s : Solo) : Solo :=
  let (processor, events) :=
    drive s.handler (isFree s.releases) s.processor.stepsLeft s.processor
  { s with processor, events := s.events ++ events }

/-- Release records, and let the processor move. -/
def release (s : Solo) (spans : List Span) : Solo :=
  { s with releases := s.releases.add spans }.work

/-- Run the processor. -/
def run (s : Solo) : Solo :=
  if s.processor.stage = .created then
    { s with processor := s.processor.claim, runs := s.runs ++ [Run.driving] }.work
  else
    { s with
      runs := s.runs ++ [Run.returned s.processor.stage]
      events := s.events ++ [Processor.Event.stoppedBeforeStart s.processor.partition] }.work

/-- Ask the processor to stop. -/
def stop (s : Solo) : Solo :=
  { s with processor := s.processor.stop }

/-- Wait for the processor, for at most some time, and release records in the
meantime or else afterwards. -/
def wait (s : Solo) (timeout : Duration) (during : Option (List Span)) : Solo × Int :=
  let waited :=
    if s.processor.isDone || timeout == 0 then s
    else (during.map s.release).getD s
  ((during.map waited.release).getD waited, waited.processor.awaited)

/-- The stage that a run has returned, if it has. -/
def result? (s : Solo) : Run → Option Processor.Stage
  | .driving => if s.processor.isDone then some s.processor.stage else none
  | .returned stage => some stage

/-- The events of the latest step. -/
def news (s : Solo) : List Processor.Event :=
  s.events.drop s.told

/-- Begin a step. -/
def begin (s : Solo) : Solo :=
  { s with told := s.events.length }

end Solo
end RecordDispatch.Rehearsal
