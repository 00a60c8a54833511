import RecordDispatch.Broker.Change
import RecordDispatch.Dispatch.Ordered
import RecordDispatch.Dispatch.Unordered

/-!
# Runs of a dispatcher

A run of a dispatcher is a list of moves: its own calls, the steps of its
workers in between, the requests of the operator, and what happens to the
broker from outside.  Each call carries what the workers do while it lasts, so
that every interleaving of the dispatcher with its workers is a run.

* `Cycled` has the calls that the two ways of dispatching define for
  themselves.
* `Move` is a move, `Dispatcher.move` makes one, and `Dispatcher.run` makes
  several.
-/

namespace RecordDispatch

namespace Dispatch

/-- Work whose dispatcher runs in cycles until it is shut down. -/
class Cycled (ω : Type) extends Held ω where
  /-- No work. -/
  nothing : ω
  /-- One cycle, after some time since the last call. -/
  cycle : Dispatcher ω → Meanwhile → Duration → Dispatcher ω × Outcome
  /-- The end of the dispatcher, after some time since the last call. -/
  shutdown : Dispatcher ω → Meanwhile → Duration → Dispatcher ω

instance : Cycled Lanes where
  nothing := {}
  cycle := OrderedDispatcher.cycle
  shutdown := OrderedDispatcher.shutdown

instance : Cycled InFlight where
  nothing := {}
  cycle := UnorderedDispatcher.cycle
  shutdown := UnorderedDispatcher.shutdown

/-- A move in a run of a dispatcher. -/
inductive Move
  | cycle (meanwhile : Meanwhile) (elapsed : Duration)
  /-- Partitions are given up without a rebalance. -/
  | revoke (meanwhile : Meanwhile) (elapsed : Duration) (ps : List Partition)
  | shutdown (meanwhile : Meanwhile) (elapsed : Duration)
  /-- A task takes a step. -/
  | work (task : Nat)
  /-- The operator asks for a global pause. -/
  | pauseAll
  /-- The operator asks to lift the global pause. -/
  | resumeAll
  | broker (change : Broker.Change)

end Dispatch

open Dispatch

namespace Dispatcher

variable {ω : Type} [Cycled ω]

/-- A dispatcher that holds no work yet. -/
def initial (settings : Settings) (workers : Workers) (broker : Broker) : Dispatcher ω :=
  create settings workers broker Cycled.nothing

/-- The dispatcher after a move. -/
def move (d : Dispatcher ω) : Move → Dispatcher ω
  | .cycle m elapsed => (Cycled.cycle d m elapsed).1
  | .revoke m elapsed ps => (d.elapse elapsed).revoke m ps
  | .shutdown m elapsed => Cycled.shutdown d m elapsed
  | .work task => d.work [task]
  | .pauseAll => { d with gate := d.gate.requestPause }
  | .resumeAll => { d with gate := d.gate.requestResume }
  | .broker change => d.setBroker (d.broker.apply change)

/-- The dispatcher after moves, one after another. -/
def run (d : Dispatcher ω) (moves : List Move) : Dispatcher ω :=
  moves.foldl move d

@[simp] theorem run_nil (d : Dispatcher ω) : d.run [] = d := rfl

@[simp] theorem run_cons (d : Dispatcher ω) (m : Move) (ms : List Move) :
    d.run (m :: ms) = (d.move m).run ms := rfl

theorem run_append (d : Dispatcher ω) (ms ns : List Move) :
    d.run (ms ++ ns) = (d.run ms).run ns :=
  List.foldl_append

/-- What holds of a dispatcher and is kept by every move of a run holds after
it. -/
theorem run_induction {P : Dispatcher ω → Prop} {d : Dispatcher ω} {ms : List Move}
    (start : P d) (step : ∀ d, ∀ m ∈ ms, P d → P (d.move m)) : P (d.run ms) := by
  induction ms generalizing d with
  | nil => exact start
  | cons m ms ih =>
    exact ih (step d m List.mem_cons_self start) fun d m' hm' =>
      step d m' (List.mem_cons_of_mem m hm')

end Dispatcher
end RecordDispatch
