import RecordDispatch.Dispatch.Run
import RecordDispatch.Proofs.Flow

/-!
# Runs in which the gate is obeyed

In a routine run partitions are revoked by rebalances only, and the broker
refuses no call of the gate.  Then the partitions that are paused are those of
which the monitor has an entry, and outside the operator's override every entry
is there for a processor.  This is `GateInv`, for both ways of dispatching;
which processor an entry refers to is another matter.
-/

namespace RecordDispatch

open Dispatch

namespace Dispatch

/-- Partitions are revoked by rebalances only, the dispatcher is not shut down
(no cycle follows a shutdown), and the broker does not begin to refuse the calls
of the gate. -/
def Move.IsRoutine : Move → Prop
  | .revoke _ _ _ => False
  | .shutdown _ _ => False
  | .broker (.pauseOutage o) => o.Never
  | .broker (.resumeOutage o) => o.Never
  | .broker (.assignmentOutage o) => o.Never
  | _ => True

end Dispatch

namespace Broker

/-- The broker does not begin to refuse the calls of the gate. -/
def Change.Obliges : Change → Prop
  | .pauseOutage o => o.Never
  | .resumeOutage o => o.Never
  | .assignmentOutage o => o.Never
  | _ => True

theorem Obliging.apply {b : Broker} (h : b.Obliging) {change : Change} (hc : change.Obliges) :
    (b.apply change).Obliging := by
  obtain ⟨hpause, hresume, hassignment⟩ := h
  cases change with
  | pauseOutage o => exact ⟨hc, hresume, hassignment⟩
  | resumeOutage o => exact ⟨hpause, hc, hassignment⟩
  | assignmentOutage o => exact ⟨hpause, hresume, hc⟩
  | _ => exact ⟨hpause, hresume, hassignment⟩

end Broker

theorem Dispatch.Move.IsRoutine.obliges {change : Broker.Change}
    (h : (Move.broker change).IsRoutine) : change.Obliges := by
  cases change with
  | pauseOutage | resumeOutage | assignmentOutage => exact h
  | _ => trivial

namespace Dispatcher

variable {ω : Type}

/-- A rebalance keeps broker and monitor in agreement.  What it takes away is not
paused any more, and has no entry. -/
theorem agreesOn_deliver [Held ω] [Held.LeavesFlow ω] {d : Dispatcher ω} {p : Partition}
    (h : d.gate.AgreesOn p) (m : Meanwhile) (r : Broker.Rebalance) :
    (deliver m d r).gate.AgreesOn p := by
  cases r with
  | assign ps => exact h
  | revoke ps =>
    have hmonitor : (deliver m d (.revoke ps)).gate.monitor = d.monitor.removeAll ps :=
      d.monitor_revoke m ps
    have hpaused : (deliver m d (.revoke ps)).gate.broker.paused =
        Broker.without d.broker.paused ps :=
      congrArg (Broker.without · ps) (d.paused_revoke m ps)
    have hbefore : p ∈ d.broker.paused ↔ d.monitor.contains p = true := h
    rw [Gate.AgreesOn, hpaused, hmonitor, Broker.mem_without, hbefore, Monitor.contains_removeAll,
      Bool.and_eq_true, decide_eq_true_eq]

/-- The broker refuses no call of the gate, it agrees with the monitor on what is
paused, and outside the override every entry refers to a processor. -/
structure GateInv (d : Dispatcher ω) : Prop where
  obliging : d.broker.Obliging
  coherent : d.gate.Coherent
  busy : d.gate.globallyPaused = false → d.monitor.idle = []

theorem gateInv_initial [Cycled ω] (settings : Settings) (workers : Workers) {broker : Broker}
    (hb : broker.Obliging) (hp : broker.paused = []) :
    GateInv (initial settings workers broker : Dispatcher ω) := by
  refine ⟨hb, ?_, fun _ => rfl⟩
  intro p
  exact iff_of_false (hp ▸ List.not_mem_nil) nofun

namespace GateInv

variable {d d' : Dispatcher ω}

theorem steady (h : GateInv d) (hs : Steady d d') : GateInv d' := by
  have hstep : d.gate.InStep d'.gate :=
    .of_eq hs.served hs.paused fun p => congrArg (·.contains p) hs.monitor
  refine ⟨hs.served.obliging h.obliging, h.coherent.inStep hstep, ?_⟩
  intro hoff
  rw [hs.monitor]
  exact h.busy (hs.globallyPaused ▸ hoff)

theorem applyRequests (h : GateInv d) : GateInv d.applyRequests := by
  have hstep := (d.gate.applied_apply d.now).inStep
  exact ⟨hstep.served.obliging h.obliging, h.coherent.inStep hstep,
    d.gate.idle_apply h.obliging d.now⟩

/-- What a rebalance takes away is not paused any more, and has no entry. -/
theorem deliver [Held ω] [Held.LeavesFlow ω] (h : GateInv d) (m : Meanwhile)
    (r : Broker.Rebalance) : GateInv (Dispatcher.deliver m d r) := by
  cases r with
  | assign ps =>
    have hassigned : (d.setBroker (d.broker.assign ps)).broker.Obliging :=
      ⟨h.obliging.pause, h.obliging.resume, h.obliging.assignment⟩
    exact ⟨hassigned, h.coherent, h.busy⟩
  | revoke ps =>
    have hobliging := (d.served_revoke m ps).obliging h.obliging
    have hmonitor : (Dispatcher.deliver m d (.revoke ps)).monitor = d.monitor.removeAll ps :=
      d.monitor_revoke m ps
    have hoverride : (Dispatcher.deliver m d (.revoke ps)).gate.globallyPaused =
        d.gate.globallyPaused :=
      congrArg Gate.Control.globallyPaused (d.control_revoke m ps)
    refine ⟨⟨hobliging.pause, hobliging.resume, hobliging.assignment⟩,
      fun p => agreesOn_deliver (h.coherent p) m (.revoke ps), fun hoff => ?_⟩
    rw [hmonitor]
    exact Monitor.idle_removeAll (h.busy (hoverride ▸ hoff)) ps

theorem change (h : GateInv d) {change : Broker.Change} (hc : (Move.broker change).IsRoutine) :
    GateInv (d.setBroker (d.broker.apply change)) := by
  refine ⟨h.obliging.apply hc.obliges, ?_, h.busy⟩
  intro p
  have hsame : (d.broker.apply change).paused = d.broker.paused := d.broker.paused_apply change
  show p ∈ (d.broker.apply change).paused ↔ d.monitor.contains p = true
  rw [hsame]
  exact h.coherent p

end GateInv

/-- The entry of a partition that is not taken away by a rebalance refers to the
processor it did before. -/
theorem attached?_deliver [Held ω] [Held.LeavesFlow ω] (d : Dispatcher ω) (m : Meanwhile)
    (r : Broker.Rebalance) (p : Partition) :
    (Dispatcher.deliver m d r).monitor.attached? p =
      match r with
      | .revoke ps => if p ∈ ps then none else d.monitor.attached? p
      | .assign _ => d.monitor.attached? p := by
  cases r with
  | assign ps => rfl
  | revoke ps =>
    have hmonitor : (Dispatcher.deliver m d (.revoke ps)).monitor = d.monitor.removeAll ps :=
      d.monitor_revoke m ps
    rw [hmonitor, Monitor.attached?_removeAll]

end Dispatcher
end RecordDispatch
