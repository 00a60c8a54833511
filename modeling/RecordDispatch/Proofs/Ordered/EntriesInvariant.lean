import RecordDispatch.Proofs.Ordered.Flow
import RecordDispatch.Proofs.RoutineRuns

/-!
# Entries of the monitor and active processors

The entry of a partition refers to the active processor of the partition, and to
none if there is none.  `EntriesInv` says so, for a broker that refuses no call
of the gate.  It is the invariant between the calls of a dispatcher, and also
while a cycle forgets processors that are done: the partitions whose entries are
behind are a parameter.

Every move keeps it that does not make the broker refuse those calls
(`EntriesInv.run`).  In particular a partition may be given up without
a rebalance, which leaves it paused without an entry; so `EntriesInv` does not
say which partitions are paused.
-/

namespace RecordDispatch.OrderedDispatcher

open Dispatch Dispatcher

/-- The monitor and the dispatcher agree on the processors of partitions, but for
the partitions in `behind`: they have no processor any more, and the monitor does
not know yet. -/
structure EntriesInv (behind : List Partition) (d : OrderedDispatcher) : Prop where
  obliging : d.broker.Obliging
  attached : ∀ p, p ∉ behind → d.monitor.attached? p = d.held.active.find? p
  retired : ∀ p ∈ behind, d.held.active.find? p = none
  /-- Outside the override no entry is there without a processor. -/
  busy : d.gate.globallyPaused = false → d.monitor.idle = []

namespace EntriesInv

variable {behind : List Partition} {d d' : OrderedDispatcher}

/-- A change that is steady and neither starts nor forgets a processor. -/
theorem steady (h : EntriesInv behind d) (hs : Steady d d')
    (ha : d'.held.active = d.held.active) : EntriesInv behind d' := by
  refine ⟨hs.served.obliging h.obliging, ?_, ?_, fun hoff => ?_⟩
  · rw [hs.monitor, ha]
    exact h.attached
  · rw [ha]
    exact h.retired
  · rw [hs.monitor]
    exact h.busy (hs.globallyPaused ▸ hoff)

theorem still (h : EntriesInv behind d) (hs : Still d d')
    (ha : d'.held.active = d.held.active) : EntriesInv behind d' :=
  h.steady hs.toSteady ha

/-! ## Processors that start and are forgotten -/

/-- A processor starts, and its partition is paused for it.  Its entry is not
behind any more. -/
theorem start {behind' : List Partition} (h : EntriesInv behind d) (batch : Batch)
    (hbehind : ∀ p, p ∈ behind' ↔ p ∈ behind ∧ p ≠ batch.partition) :
    EntriesInv behind' (start d batch) := by
  have hpause := d.gate.pausedFor_pause d.now batch.partition d.workers.nextId
  have hentry := hpause.entry h.obliging
  refine ⟨hpause.inStep.served.obliging h.obliging, fun p hp => ?_, fun p hp => ?_,
    fun hoff => ?_⟩
  · rw [active_start, Table.find?_insert]
    have hattached := (hentry p).2
    split at hattached
    · exact hattached.trans (if_pos ‹_›).symm
    · next hne =>
      have hkept : p ∉ behind := fun hmem => hp ((hbehind p).mpr ⟨hmem, hne⟩)
      rw [if_neg hne, ← h.attached p hkept]
      exact hattached
  · obtain ⟨hmem, hne⟩ := (hbehind p).mp hp
    rw [active_start, Table.find?_insert, if_neg hne]
    exact h.retired p hmem
  · have hbefore : d.gate.globallyPaused = false := hpause.globallyPaused ▸ hoff
    have hbusy := Monitor.idle_eq_nil_iff.mp (h.busy hbefore)
    rw [Monitor.idle_eq_nil_iff]
    intro p hp
    have hp' := (hentry p).1.symm.trans hp
    rw [Bool.or_eq_true, decide_eq_true_eq] at hp'
    have hattached := (hentry p).2
    by_cases heq : p = batch.partition
    · rw [if_pos heq] at hattached
      exact fun hnone => absurd (hattached.symm.trans hnone) nofun
    · rw [if_neg heq] at hattached
      exact fun hnone => hbusy p (hp'.resolve_right heq) (hattached.symm.trans hnone)

/-- A processor is forgotten, and the monitor is behind. -/
theorem forget (h : EntriesInv behind d) {p : Partition} {held : Lanes}
    (ha : ∀ q, held.active.find? q = if q = p then none else d.held.active.find? q) :
    EntriesInv (behind ++ [p]) (d.hold held) := by
  refine ⟨h.obliging, fun q hq => ?_, fun q hq => ?_, h.busy⟩
  · rw [List.mem_append, List.mem_singleton, not_or] at hq
    exact (h.attached q hq.1).trans (by simp [hold, ha, hq.2])
  · simp only [hold, ha]
    split
    · rfl
    · next hne =>
      rw [List.mem_append, List.mem_singleton] at hq
      exact h.retired q (hq.resolve_right hne)

/-- Partitions of which the processors are forgotten are resumed. -/
theorem resume (h : EntriesInv behind d) : EntriesInv [] (d.withGate (d.gate.resume behind)) := by
  have hresume := d.gate.resumedFor_resume behind
  refine ⟨hresume.inStep.served.obliging h.obliging, fun p _ => ?_, List.forall_mem_nil _,
    fun hoff => ?_⟩
  · have hattached := hresume.attached p
    split at hattached
    · next hp => exact hattached.trans (h.retired p hp).symm
    · next hp => exact hattached.trans (h.attached p hp)
  · have hbefore : d.gate.globallyPaused = false := hresume.globallyPaused ▸ hoff
    have hbusy := Monitor.idle_eq_nil_iff.mp (h.busy hbefore)
    have hentry := hresume.entry h.obliging hbefore
    refine Monitor.idle_eq_nil_iff.mpr fun p hp => ?_
    have hp' := (hentry p).symm.trans hp
    rw [Bool.and_eq_true, decide_eq_true_eq] at hp'
    have hattached := hresume.attached p
    rw [if_neg hp'.2] at hattached
    exact fun hnone => hbusy p hp'.1 (hattached.symm.trans hnone)

theorem laneSteps : LaneSteps EntriesInv where
  still := EntriesInv.still
  start batch h := h.start batch
  forget h := h.forget
  resume := EntriesInv.resume

/-! ## The operator's requests -/

theorem applyRequests (h : EntriesInv [] d) : EntriesInv [] d.applyRequests := by
  have happlied := d.gate.applied_apply d.now
  exact ⟨happlied.inStep.served.obliging h.obliging,
    fun p hp => (happlied.attached p).trans (h.attached p hp), h.retired,
    d.gate.idle_apply h.obliging d.now⟩

/-! ## Revocations -/

/-- What is given up is neither busy any more nor has it an entry. -/
theorem revoke (h : EntriesInv [] d) (m : Meanwhile) (ps : List Partition) :
    EntriesInv [] (d.revoke m ps) := by
  have hoverride : (d.revoke m ps).gate.globallyPaused = d.gate.globallyPaused :=
    congrArg Gate.Control.globallyPaused (d.control_revoke m ps)
  refine ⟨(d.served_revoke m ps).obliging h.obliging, fun p _ => ?_, List.forall_mem_nil _,
    fun hoff => ?_⟩
  · rw [monitor_revoke, Monitor.attached?_removeAll, (held_revoke d m ps p).1,
      h.attached p List.not_mem_nil]
  · rw [monitor_revoke]
    exact Monitor.idle_removeAll (h.busy (hoverride ▸ hoff)) ps

theorem setBroker (h : EntriesInv [] d) {b : Broker} (hb : b.Obliging) :
    EntriesInv [] (d.setBroker b) :=
  ⟨hb, h.attached, h.retired, h.busy⟩

theorem deliver (h : EntriesInv [] d) (m : Meanwhile) (r : Broker.Rebalance) :
    EntriesInv [] (Dispatcher.deliver m d r) := by
  cases r with
  | revoke ps =>
    have hrevoked := h.revoke m ps
    obtain ⟨hpause, hresume, hassignment⟩ := hrevoked.obliging
    exact hrevoked.setBroker ⟨hpause, hresume, hassignment⟩
  | assign ps =>
    obtain ⟨hpause, hresume, hassignment⟩ := h.obliging
    exact ⟨⟨hpause, hresume, hassignment⟩, h.attached, h.retired, h.busy⟩

theorem close (h : EntriesInv [] d) (m : Meanwhile) : EntriesInv [] (d.close m) := by
  unfold Dispatcher.close
  split
  · exact h
  · have hrevoked := h.revoke m (Partition.sort d.broker.assigned)
    obtain ⟨hpause, hresume, hassignment⟩ := hrevoked.obliging
    exact hrevoked.setBroker ⟨hpause, hresume, hassignment⟩

/-! ## Calls of the dispatcher -/

variable {base : List Broker.Request}

theorem cycle (h : EntriesInv [] d) (hs : LanesInv base [] d) (m : Meanwhile) (t : Duration) :
    EntriesInv [] (cycle d m t).1 :=
  hs.cycle_keeps (fun m r _ h => h.deliver m r) (fun _ hb h => h.still hb.still rfl)
    (fun _ h => h.still (.tellOne _ rfl) rfl)
    (fun m batches hs h => laneSteps.takeUp h hs m batches) m t
    (h.still (.elapse d t) rfl).applyRequests

theorem shutdown (h : EntriesInv [] d) (m : Meanwhile) (t : Duration) :
    EntriesInv [] (shutdown d m t) := by
  have hbegin : EntriesInv [] ((d.elapse t).tell [.shuttingDown .ordered]) :=
    h.still ((Still.elapse d t).trans (.tellOne _ rfl)) rfl
  have hharvested := hbegin.still (still_harvest _ m) (by rw [held_harvest])
  exact ((hharvested.still (.commit _ true) rfl).close m).still (still_terminate _ m)
    (congrArg Lanes.active (held_terminate _ m))

theorem move (h : EntriesInv [] d) (hs : LanesInv base [] d) {move : Move}
    (hm : ∀ change, move = .broker change → change.Obliges) : EntriesInv [] (d.move move) := by
  cases move with
  | cycle m t => exact h.cycle hs m t
  | revoke m t ps => exact (h.still (.elapse d t) rfl).revoke m ps
  | shutdown m t => exact h.shutdown m t
  | work task => exact h.still (.work d [task]) rfl
  | pauseAll | resumeAll => exact ⟨h.obliging, h.attached, h.retired, h.busy⟩
  | broker change => exact h.setBroker (h.obliging.apply (hm change rfl))

end EntriesInv

theorem entriesInv_initial (settings : Settings) (workers : Workers) {broker : Broker}
    (hb : broker.Obliging) : EntriesInv [] (initial settings workers broker) :=
  ⟨hb, fun _ _ => rfl, List.forall_mem_nil _, fun _ => rfl⟩

theorem EntriesInv.run {base : List Broker.Request} {d : OrderedDispatcher} (h : EntriesInv [] d)
    (hs : LanesInv base [] d) {moves : List Move}
    (hm : ∀ change, Move.broker change ∈ moves → change.Obliges) : EntriesInv [] (d.run moves) := by
  have hrun : EntriesInv [] (d.run moves) ∧ LanesInv base [] (d.run moves) :=
    run_induction (P := fun d => EntriesInv [] d ∧ LanesInv base [] d) ⟨h, hs⟩ fun _ move hmem hd =>
      ⟨hd.1.move hd.2 fun change heq => hm change (heq ▸ hmem), hd.2.move move⟩
  exact hrun.1

end RecordDispatch.OrderedDispatcher
