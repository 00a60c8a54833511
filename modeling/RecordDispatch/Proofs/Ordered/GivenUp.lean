import RecordDispatch.Proofs.Ordered.EntriesInvariant
import RecordDispatch.Proofs.Override

/-!
# Partitions that are given up without a rebalance

A revocation takes the entries of the partitions out of the monitor.  After a
rebalance the broker does not hold them paused either.  Without a rebalance it
does: a partition that is paused when it is given up stays paused, with neither
an entry nor a processor, and nothing resumes it (`given_up_stays_paused`).

In every run this is the only way in which broker and monitor come to disagree
on a partition (`in_step_unless_given_up`).  The invariant is `Agrees`.  It is
about one partition, and it is kept whatever calls the broker refuses.
-/

namespace RecordDispatch

open Dispatch

namespace Dispatcher

variable {ω : Type}

/-- Broker and monitor agree on a partition until the dispatcher leaves the
group. -/
def Agrees (p : Partition) (d : Dispatcher ω) : Prop :=
  d.broker.closed = false → d.gate.AgreesOn p

/-- In a run, a partition is given up without a rebalance only while it is not
paused. -/
def GivenUpUnpaused [Cycled ω] (p : Partition) : Dispatcher ω → List Move → Prop
  | _, [] => True
  | d, move :: moves =>
    (∀ m t ps, move = .revoke m t ps → p ∈ ps → p ∉ d.broker.paused) ∧
      GivenUpUnpaused p (d.move move) moves

namespace Agrees

variable {p : Partition} {d d' : Dispatcher ω}

theorem inStep (h : Agrees p d) (hs : d.gate.InStep d'.gate) : Agrees p d' :=
  fun hopen => (h (hs.served.closed ▸ hopen)).inStep hs

theorem steady (h : Agrees p d) (hs : Steady d d') : Agrees p d' :=
  h.inStep (.of_eq hs.served hs.paused fun q => congrArg (·.contains q) hs.monitor)

theorem still (h : Agrees p d) (hs : Still d d') : Agrees p d' :=
  h.steady hs.toSteady

/-- After leaving the group nothing is promised. -/
theorem close [Held ω] (h : Agrees p d) (m : Meanwhile) : Agrees p (d.close m) := by
  unfold Dispatcher.close
  split
  · exact h
  · exact fun hopen => absurd hopen nofun

variable [Held ω] [Held.LeavesFlow ω]

theorem flowKept : FlowKept (Agrees (ω := ω) p) where
  steady := Agrees.steady
  adjust h hr := h.inStep hr.inStep
  deliver {d} m r h hopen := by
    refine d.agreesOn_deliver (h ?_) m r
    cases r with
    | assign ps => exact hopen
    | revoke ps => exact (d.served_revoke m ps).closed.symm.trans hopen
  close m h := h.close m

/-- What giving partitions up does: they have no entry any more, and are paused
as before. -/
theorem revoke_iff (hopen : d.broker.closed = false) (m : Meanwhile) (ps : List Partition) :
    Agrees p (d.revoke m ps) ↔ if p ∈ ps then p ∉ d.broker.paused else Agrees p d := by
  have hclosed : (d.revoke m ps).broker.closed = false :=
    (d.served_revoke m ps).closed.trans hopen
  have hpaused : (d.revoke m ps).gate.broker.paused = d.broker.paused := d.paused_revoke m ps
  have hmonitor : (d.revoke m ps).gate.monitor = d.monitor.removeAll ps := d.monitor_revoke m ps
  have hagrees : Agrees p (d.revoke m ps) ↔ (d.revoke m ps).gate.AgreesOn p :=
    ⟨fun h => h hclosed, fun h _ => h⟩
  rw [hagrees, Gate.AgreesOn, hpaused, hmonitor, Monitor.contains_removeAll]
  split
  · next hp => simp [hp]
  · next hp =>
    simp only [hp, not_false_eq_true, decide_true, Bool.and_true]
    exact ⟨fun h _ => h, fun h => h hopen⟩

end Agrees

section Runs

variable [Cycled ω] [Held.LeavesFlow ω] [Cycled.KeepsFlow ω] {p : Partition}

theorem Agrees.move {d : Dispatcher ω} (h : Agrees p d) {move : Move}
    (hm : ∀ m t ps, move = .revoke m t ps → p ∈ ps → p ∉ d.broker.paused) :
    Agrees p (d.move move) := by
  cases move with
  | cycle m t =>
    have helapsed := h.still (.elapse d t)
    have happlied : Agrees p (d.elapse t).applyRequests :=
      helapsed.inStep ((d.elapse t).gate.applied_apply (d.elapse t).now).inStep
    exact Cycled.KeepsFlow.cycle Agrees.flowKept m t happlied
  | revoke m t ps =>
    intro hopen
    have hbefore : (d.elapse t).broker.closed = false :=
      ((d.elapse t).served_revoke m ps).closed.symm.trans hopen
    refine (Agrees.revoke_iff hbefore m ps).mpr ?_ hopen
    split
    · next hp => exact hm m t ps rfl hp
    · exact h
  | shutdown m t => exact Cycled.KeepsFlow.shutdown Agrees.flowKept m t h
  | work task => exact h.still (.work d [task])
  | pauseAll | resumeAll => exact h
  | broker change =>
    intro hopen
    have hclosed : (d.broker.apply change).closed = d.broker.closed := by cases change <;> rfl
    have hbefore := h (hclosed.symm.trans hopen)
    show p ∈ (d.broker.apply change).paused ↔ d.monitor.contains p = true
    rw [d.broker.paused_apply change]
    exact hbefore

theorem Agrees.run {d : Dispatcher ω} (h : Agrees p d) {moves : List Move}
    (hm : GivenUpUnpaused p d moves) : Agrees p (d.run moves) := by
  induction moves generalizing d with
  | nil => exact h
  | cons move moves ih => exact ih (h.move hm.1) hm.2

end Runs
end Dispatcher

/-! ## Ordered dispatch -/

namespace OrderedDispatcher

open Dispatcher

/-- Broker and monitor agree on a partition that is not busy outside the
override; then it is not paused. -/
theorem EntriesInv.not_paused {d : OrderedDispatcher} (h : EntriesInv [] d) {p : Partition}
    (hp : d.gate.AgreesOn p) (hoff : d.gate.globallyPaused = false)
    (hidle : d.held.active.find? p = none) : p ∉ d.broker.paused := by
  intro hpaused
  refine Monitor.idle_eq_nil_iff.mp (h.busy hoff) p (hp.mp hpaused) ?_
  rw [h.attached p List.not_mem_nil, hidle]

namespace Sample

/-- Records arrive, and a cycle takes them up. -/
def arrival : List Move :=
  [.broker (.push ⟨partition, [{ offset := 0 }]⟩), .cycle .nothing 0]

/-- The processor handles its record, and a cycle forgets it. -/
def handling : List Move :=
  [.work 0, .work 0, .work 0, .work 0, .work 0, .cycle .nothing 0]

/-- The partition is given up without a rebalance, and a cycle follows. -/
def givingUp : List Move :=
  [.revoke .nothing 0 [partition], .cycle .nothing 0]

/-- A dispatcher with one partition after moves. -/
def after (moves : List Move) : OrderedDispatcher :=
  (initial {} (Workers.ofSize 1 { execute := fun _ => .done })
    { assigned := [partition] }).run moves

end Sample

/-- In every run, until the group is left, every entry of the monitor is of
a paused partition.  If broker and monitor agree on a partition, they do so in
every later run in which it is given up without a rebalance only while it is not
paused; giving it up while it is paused makes them disagree.  Where they agree
and the broker refuses no call of the gate, a partition without an active
processor is paused only under the operator's override. -/
theorem in_step_unless_given_up (settings : Settings) (size : Nat) (handler : Handler)
    (broker : Broker) (moves : List Move) :
    let d : OrderedDispatcher :=
      (initial settings (Workers.ofSize size handler) broker).run moves
    (d.broker.closed = false → d.gate.EntriesPaused) ∧
      (∀ p later, Agrees p d → GivenUpUnpaused p d later → Agrees p (d.run later)) ∧
      (d.broker.closed = false → ∀ m t ps p, Agrees p (d.move (.revoke m t ps)) ↔
        if p ∈ ps then p ∉ d.broker.paused else Agrees p d) ∧
      (broker.Obliging → (∀ change, Move.broker change ∈ moves → change.Obliges) →
        d.broker.closed = false → d.gate.globallyPaused = false →
          ∀ p, Agrees p d → d.held.active.find? p = none → p ∉ d.broker.paused) := by
  intro d
  refine ⟨fun hopen => ?_, fun p later h => h.run, fun hopen m t ps p => ?_,
    fun hb hm hopen hoff p hp hidle => ?_⟩
  · exact (overrideInv_run settings _ broker moves hopen).entriesPaused
  · have helapsed : (d.elapse t).broker.closed = false := hopen
    exact Agrees.revoke_iff helapsed m ps
  · have hentriesInv : EntriesInv [] d := EntriesInv.run (entriesInv_initial settings _ hb)
      (lanesInv_initial settings size handler broker) hm
    exact hentriesInv.not_paused (hp hopen) hoff hidle

/-- In the sample the partition is given up when its records are handled.  It is
assigned afterwards, and not paused. -/
theorem in_step_unless_given_up_sample :
    let d := Sample.after (Sample.arrival ++ Sample.handling ++ Sample.givingUp)
    Sample.partition ∈ d.broker.assigned ∧ Agrees Sample.partition d ∧
      Sample.partition ∉ d.broker.paused := by
  intro d
  have hobliging : ({ assigned := [Sample.partition] } : Broker).Obliging :=
    ⟨⟨rfl, nofun⟩, ⟨rfl, nofun⟩, ⟨rfl, nofun⟩⟩
  have hagree : Agrees Sample.partition
      (Sample.after (Sample.arrival ++ Sample.handling)) := fun _ =>
    iff_of_false (by decide +kernel) (by decide +kernel)
  have hunpaused : GivenUpUnpaused Sample.partition
      (Sample.after (Sample.arrival ++ Sample.handling)) Sample.givingUp :=
    ⟨fun _ _ _ _ _ => by decide +kernel, fun _ _ _ h => by simp at h, trivial⟩
  have hafter : Agrees Sample.partition d :=
    (in_step_unless_given_up {} 1 { execute := fun _ => .done } { assigned := [Sample.partition] }
      (Sample.arrival ++ Sample.handling)).2.1 Sample.partition Sample.givingUp hagree hunpaused
  refine ⟨by decide +kernel, hafter, ?_⟩
  exact (in_step_unless_given_up {} 1 { execute := fun _ => .done }
    { assigned := [Sample.partition] }
    (Sample.arrival ++ Sample.handling ++ Sample.givingUp)).2.2.2 hobliging
      (by simp [Sample.arrival, Sample.handling, Sample.givingUp, Broker.Change.Obliges])
      (by decide +kernel) (by decide +kernel) Sample.partition hafter (by decide +kernel)

/-- A partition is assigned and paused although nothing asks for it: it has
neither an entry nor a processor, and the override is not in effect. -/
def Stranded (p : Partition) (d : OrderedDispatcher) : Prop :=
  d.broker.closed = false ∧ d.gate.globallyPaused = false ∧ p ∈ d.broker.assigned ∧
    p ∈ d.broker.paused ∧ d.monitor.contains p = false ∧ d.held.active.find? p = none

/-- A partition that is given up while its processor is active is stranded at
once, and still after the next cycle. -/
theorem given_up_stays_paused :
    Stranded Sample.partition
        (Sample.after (Sample.arrival ++ [.revoke .nothing 0 [Sample.partition]])) ∧
      Stranded Sample.partition (Sample.after (Sample.arrival ++ Sample.givingUp)) := by
  unfold Stranded
  decide +kernel

end OrderedDispatcher
end RecordDispatch
