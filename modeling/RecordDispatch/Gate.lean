import RecordDispatch.Broker.Memory
import RecordDispatch.Monitor

/-!
# The gate of partitions

A partition is paused at the broker while a processor works on it, so that
no further records of it arrive.  The gate keeps the paused partitions of the
broker and the entries of the monitor in step: what it pauses gets an entry,
and what it resumes loses it.

Above that stands the operator.  A global pause holds every partition that is
assigned when it takes effect, until it is lifted; in the meantime partitions
whose batches end stay paused.  The operator's requests wait until they are
applied at the beginning of a cycle.
-/

namespace RecordDispatch

namespace Gate

/-- What the gate tells. -/
inductive Event
  | pausing (p : Partition)
  | pauseFailed (p : Partition) (error : Broker.Error)
  | paused (scope : String) (count : Nat)
  | keptPaused (count : Nat)
  | resuming (ps : List Partition)
  | resumeFailed (error : Broker.Error)
  | resumed (scope : String) (count : Nat)
  | idleResumeFailed (error : Broker.Error) (scope : String)
  | assignmentUnknown (error : Broker.Error)
  | globalPauseFailed (error : Broker.Error)
  | globalPause (newlyPaused total : Nat)
  | globalResume (resumed busy : Nat)

open Report in
/-- A log line of the gate. -/
def line (level : Level) (message : String) (fields : List (String × Value)) :
    Option Line :=
  some { level, source := "partition_gate", message, fields }

open Report in
/-- The counter of partitions that were paused or resumed. -/
def flow (action scope : String) (count : Nat) : List Measurement :=
  [.count (own "flow_control_calls_total" [("action", action), ("scope", scope)]) count]

open Report in
instance : Reported Event where
  line?
    | .pausing p => line .debug "PAUSE partition" (partitionFields p)
    | .pauseFailed p e =>
      line .warn "Failed to pause partition" (partitionFields p ++ [("error", .shown e.shown)])
    | .paused _ _ => none
    | .keptPaused n =>
      line .debug "Global pause active, keeping finished partitions paused"
        [("count", .number n)]
    | .resuming ps =>
      line .debug "RESUME partitions" [("partitions", .shown (showPartitions ps))]
    | .resumeFailed e => line .warn "Failed to resume partitions" [("error", .shown e.shown)]
    | .resumed _ _ => none
    | .idleResumeFailed e scope =>
      line .warn "Failed to resume idle partitions"
        [("error", .shown e.shown), ("scope", .text scope)]
    | .assignmentUnknown e =>
      line .warn "Failed to read assignment for global pause" [("error", .shown e.shown)]
    | .globalPauseFailed e =>
      line .warn "Failed to pause partitions for global pause" [("error", .shown e.shown)]
    | .globalPause new total =>
      line .info "Global pause applied"
        [("newly_paused", .number new), ("total_paused", .number total)]
    | .globalResume resumed busy =>
      line .info "Global resume applied"
        [("resumed", .number resumed), ("still_busy", .number busy)]
  measurements
    | .paused scope n => flow "pause" scope n
    | .resumed scope n => flow "resume" scope n
    | _ => []

end Gate

/-- The gate with the broker and the monitor that it keeps in step. -/
structure Gate where
  /-- The operator asked for a global pause. -/
  pauseRequested : Bool := false
  /-- The operator asked to lift the global pause. -/
  resumeRequested : Bool := false
  globallyPaused : Bool := false
  broker : Broker
  monitor : Monitor := {}

namespace Gate

/-- Ask for a global pause. -/
def requestPause (g : Gate) : Gate :=
  { g with pauseRequested := true }

/-- Ask to lift the global pause. -/
def requestResume (g : Gate) : Gate :=
  { g with resumeRequested := true }

/-- Pause a partition for a processor.  A partition that is paused already
only gets the processor. -/
def pause (g : Gate) (now : Instant) (p : Partition) (id : ProcessorId) :
    Gate × List Event :=
  if g.monitor.contains p then ({ g with monitor := g.monitor.attach p id }, [])
  else
    match g.broker.pause [p] with
    | (broker, .error e) => ({ g with broker }, [.pausing p, .pauseFailed p e])
    | (broker, .ok ()) =>
      ({ g with broker, monitor := g.monitor.recordPause p now (some id) },
        [.pausing p, .paused "partition" 1])

/-- Resume partitions whose batches are done.  Under a global pause they only
lose their processors, and so they do if the broker fails; a later cycle
resumes them. -/
def resume (g : Gate) (ps : List Partition) : Gate × List Event :=
  if ps.isEmpty then (g, [])
  else if g.globallyPaused then
    ({ g with monitor := g.monitor.detachAll ps }, [.keptPaused ps.length])
  else
    let held := ps.filter g.monitor.contains
    if held.isEmpty then (g, [])
    else
      match g.broker.resume held with
      | (broker, .error e) =>
        ({ g with broker, monitor := g.monitor.detachAll held },
          [.resuming held, .resumeFailed e])
      | (broker, .ok ()) =>
        ({ g with broker, monitor := g.monitor.removeAll held },
          [.resuming held, .resumed "partition" held.length])

/-- Pause every assigned partition that is not paused yet, and let the global
pause take effect.  If the broker fails, it does not take effect. -/
def pauseAll (g : Gate) (now : Instant) : Gate × List Event :=
  match g.broker.assignment with
  | (broker, .error e) => ({ g with broker }, [.assignmentUnknown e])
  | (broker, .ok assigned) =>
    match assigned.filter fun p => !g.monitor.contains p with
    | [] =>
      ({ g with broker, globallyPaused := true }, [.globalPause 0 g.monitor.size])
    | p :: ps =>
      match broker.pause (p :: ps) with
      | (broker, .error e) => ({ g with broker }, [.globalPauseFailed e])
      | (broker, .ok ()) =>
        let monitor := (p :: ps).foldl (fun m p => m.recordPause p now none) g.monitor
        let n := (p :: ps).length
        ({ g with broker, monitor, globallyPaused := true },
          [.paused "global" n, .globalPause n monitor.size])

/-- Resume every paused partition without a processor, and tell how many these
were. -/
def resumeIdle (g : Gate) (scope : String) : Gate × Nat × List Event :=
  match g.monitor.idle with
  | [] => (g, 0, [])
  | p :: ps =>
    match g.broker.resume (p :: ps) with
    | (broker, .error e) => ({ g with broker }, 0, [.idleResumeFailed e scope])
    | (broker, .ok ()) =>
      let n := (p :: ps).length
      ({ g with broker, monitor := g.monitor.removeAll (p :: ps) }, n, [.resumed scope n])

/-- Take up the operator's request for a global pause, if there is one. -/
def applyPause (g : Gate) (now : Instant) : Gate × List Event :=
  if g.pauseRequested then ({ g with pauseRequested := false }).pauseAll now else (g, [])

/-- Take up the operator's request to lift the global pause, if there is one;
otherwise, outside a global pause, resume what could not be resumed before. -/
def applyResume (g : Gate) : Gate × List Event :=
  if g.resumeRequested then
    let (g, n, events) :=
      ({ g with resumeRequested := false, globallyPaused := false }).resumeIdle "global"
    (g, events ++ [.globalResume n g.monitor.size])
  else if g.globallyPaused then (g, [])
  else
    let (g, _, events) := g.resumeIdle "retry"
    (g, events)

/-- Take up the operator's requests, first the pause, then the resumption. -/
def apply (g : Gate) (now : Instant) : Gate × List Event :=
  let (g, events) := g.applyPause now
  let (g, more) := g.applyResume
  (g, events ++ more)

end Gate
end RecordDispatch
