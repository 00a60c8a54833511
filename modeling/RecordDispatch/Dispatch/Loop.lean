import RecordDispatch.Dispatch.Settings
import RecordDispatch.Report.Metrics

/-!
# The dispatch loop

The loop runs one cycle after another until it is cancelled, sleeps after
a cycle with nothing to do or a failed poll, and shuts the dispatcher down in
the end.  It may be cancelled at any time, and a sleep ends at once when it is.
A cycle that panics ends the loop without a shutdown.

A run of the loop is a function of its `Turn`s: what each cycle comes to, and
when the loop is cancelled.
-/

namespace RecordDispatch.Dispatch.Loop

/-- A cycle and the sleep after it. -/
structure Turn where
  /-- What the cycle comes to; nothing if it panics. -/
  outcome : Option Outcome
  /-- The loop is cancelled during the cycle. -/
  cancelledInCycle : Bool := false
  /-- The loop is cancelled during the sleep after it. -/
  cancelledInSleep : Bool := false

/-- What the loop tells. -/
inductive Event
  | started
  /-- A cycle was begun. -/
  | begun
  /-- A cycle came to an outcome. -/
  | cycled (outcome : Outcome)
  | panicked
  /-- A sleep because there was nothing to do. -/
  | idled
  /-- A sleep because the poll had failed. -/
  | backedOff
  | stopping (cycles : Nat)
  /-- The dispatcher was shut down. -/
  | shutDown
  | stopped
deriving DecidableEq

open Report in
/-- A log line of the loop. -/
def line (message : String) (fields : List (String × Value)) : Option Line :=
  some { level := .info, source := "dispatcher", message, fields }

open Report in
instance : Reported Event where
  line?
    | .started => line "Dispatch loop started" []
    | .stopping cycles => line "Dispatch loop stopping" [("polls", .number cycles)]
    | .stopped => line "Dispatch loop stopped" []
    | _ => none
  measurements
    | .cycled _ => [.count (own "poll_cycles_total") 1]
    | .idled => [.count (own "idle_sleeps_total") 1]
    | _ => []

/-- What follows a cycle: events, and whether the loop is cancelled by then. -/
def afterCycle (idleInterval : Duration) (t : Turn) : Outcome → List Event × Bool
  | .busy => ([], t.cancelledInCycle)
  | .idle =>
    if idleInterval = 0 then ([], t.cancelledInCycle)
    else ([.idled], t.cancelledInCycle || t.cancelledInSleep)
  | .backoff =>
    if t.cancelledInCycle then ([], true) else ([.backedOff], t.cancelledInSleep)

/-- The end of the loop after a number of cycles. -/
def ending (cycles : Nat) : List Event :=
  [.stopping cycles, .shutDown, .stopped]

/-- The rest of a run after a number of cycles.  A run whose turns are used up
goes on in a way that is not told. -/
def proceed (idleInterval : Duration) : Bool → Nat → List Turn → List Event
  | true, cycles, _ => ending cycles
  | false, _, [] => []
  | false, cycles, t :: ts =>
    match t.outcome with
    | none => [.begun, .panicked]
    | some o =>
      let (events, cancelled) := afterCycle idleInterval t o
      .begun :: .cycled o :: (events ++ proceed idleInterval cancelled (cycles + 1) ts)

/-- A run of the loop, which may be cancelled before it starts. -/
def run (idleInterval : Duration) (cancelled : Bool) (turns : List Turn) : List Event :=
  .started :: proceed idleInterval cancelled 0 turns

/-- How many cycles were begun. -/
def cycles (events : List Event) : Nat :=
  events.count .begun

/-- How often the dispatcher was shut down. -/
def shutdowns (events : List Event) : Nat :=
  events.count .shutDown

/-- Whether the loop ended without a panic. -/
def joined (events : List Event) : Bool :=
  !events.contains .panicked

end RecordDispatch.Dispatch.Loop
