import RecordDispatch.Proofs.Ordered.EntriesInvariant

/-!
# Exact flow control of ordered dispatch

Which partitions are paused is known in three places: to the broker, to the
monitor, and to the dispatcher, which has a processor for each busy partition.
`FlowInv` says that they agree.  It is the invariant between the calls of
a dispatcher, and also while a cycle forgets processors that are done: the
partitions whose entries of the monitor are behind are a parameter.

For every run in which partitions are revoked by rebalances only, and in which
the broker refuses no call of the gate, three things follow
(`paused_exactly_busy`).  The paused partitions are those with an entry; an
entry refers to the active processor of its partition, and to none if there is
none; and outside the operator's override the paused partitions are the busy
ones.
-/

namespace RecordDispatch.OrderedDispatcher

open Dispatch Dispatcher

/-- Broker, monitor and dispatcher agree on what is paused for which processor,
but for the partitions in `behind`: they have no processor any more, and the
monitor does not know yet. -/
structure FlowInv (behind : List Partition) (d : OrderedDispatcher) : Prop where
  obliging : d.broker.Obliging
  coherent : d.gate.Coherent
  attached : ∀ p, p ∉ behind → d.monitor.attached? p = d.held.active.find? p
  retired : ∀ p ∈ behind, d.held.active.find? p = none
  busy : d.gate.globallyPaused = false → d.monitor.idle = []

namespace FlowInv

variable {behind : List Partition} {d d' : OrderedDispatcher}

theorem gateInv (h : FlowInv behind d) : GateInv d :=
  ⟨h.obliging, h.coherent, h.busy⟩

theorem entriesInv (h : FlowInv behind d) : EntriesInv behind d :=
  ⟨h.obliging, h.attached, h.retired, h.busy⟩

theorem ofEntriesInv (h : EntriesInv behind d) (hc : d.gate.Coherent) : FlowInv behind d :=
  ⟨h.obliging, hc, h.attached, h.retired, h.busy⟩

theorem laneSteps : LaneSteps FlowInv where
  still h hs ha := .ofEntriesInv (h.entriesInv.still hs ha) (h.gateInv.steady hs.toSteady).coherent
  start batch h hbehind :=
    .ofEntriesInv (h.entriesInv.start batch hbehind)
      (h.coherent.inStep (Gate.pausedFor_pause _ _ _ _).inStep)
  forget h ha := .ofEntriesInv (h.entriesInv.forget ha) h.coherent
  resume h :=
    .ofEntriesInv h.entriesInv.resume (h.coherent.inStep (Gate.resumedFor_resume _ _).inStep)

/-- What a rebalance takes away is neither paused nor busy any more. -/
theorem deliver (h : FlowInv [] d) (m : Meanwhile) (r : Broker.Rebalance) :
    FlowInv [] (Dispatcher.deliver m d r) :=
  .ofEntriesInv (h.entriesInv.deliver m r) (h.gateInv.deliver m r).coherent

theorem cycle {base : List Broker.Request} (h : FlowInv [] d) (hs : LanesInv base [] d)
    (m : Meanwhile) (t : Duration) :
    FlowInv [] (cycle d m t).1 := by
  have hstart : FlowInv [] (d.elapse t) := laneSteps.still h (.elapse d t) rfl
  refine hs.cycle_keeps (fun m r _ h => h.deliver m r)
    (fun _ hb h => laneSteps.still h hb.still rfl)
    (fun _ h => laneSteps.still h (.tellOne _ rfl) rfl)
    (fun m batches hs h => laneSteps.takeUp h hs m batches) m t ?_
  exact .ofEntriesInv hstart.entriesInv.applyRequests hstart.gateInv.applyRequests.coherent

end FlowInv

/-! ## Runs -/

variable {base : List Broker.Request} {d : OrderedDispatcher}

theorem flowInv_initial (settings : Settings) (workers : Workers) {broker : Broker}
    (hb : broker.Obliging) (hp : broker.paused = []) :
    FlowInv [] (initial settings workers broker) :=
  .ofEntriesInv (entriesInv_initial settings workers hb)
    (gateInv_initial settings workers hb hp).coherent

theorem FlowInv.move (h : FlowInv [] d) (hs : LanesInv base [] d) {move : Move}
    (hm : move.IsRoutine) : FlowInv [] (d.move move) := by
  cases move with
  | cycle m t => exact h.cycle hs m t
  | work task => exact FlowInv.laneSteps.still h (.work d [task]) rfl
  | pauseAll => exact ⟨h.obliging, h.coherent, h.attached, h.retired, h.busy⟩
  | resumeAll => exact ⟨h.obliging, h.coherent, h.attached, h.retired, h.busy⟩
  | broker change =>
    have hchanged := h.gateInv.change hm
    exact .ofEntriesInv (h.entriesInv.setBroker hchanged.obliging) hchanged.coherent
  | revoke | shutdown => exact hm.elim

theorem FlowInv.run (h : FlowInv [] d) (hs : LanesInv base [] d) {moves : List Move}
    (hm : ∀ move ∈ moves, move.IsRoutine) : FlowInv [] (d.run moves) := by
  have hrun : FlowInv [] (d.run moves) ∧ LanesInv base [] (d.run moves) :=
    run_induction (P := fun d => FlowInv [] d ∧ LanesInv base [] d) ⟨h, hs⟩ fun _ move hmem hd =>
      ⟨hd.1.move hd.2 (hm move hmem), hd.2.move move⟩
  exact hrun.1

namespace Sample

/-- A processor starts.  The operator asks for a global pause and, before it is
taken up, for its end.  The partition is taken away and assigned again, and the
next processor starts. -/
def rebalanced : List Move :=
  [.broker (.push ⟨partition, [{ offset := 0 }]⟩), .cycle .nothing 0, .pauseAll, .resumeAll,
    .work 0, .broker (.push ⟨partition, [{ offset := 1 }]⟩),
    .broker (.rebalance (.revoke [partition])), .broker (.rebalance (.assign [partition])),
    .cycle .nothing 0]

end Sample

/-- In every run in which partitions are revoked by rebalances only and the
broker refuses no call of the gate, and so at the end of every cycle, the paused
partitions are those of which the monitor has an entry; an active processor is
the one to which the entry of its partition refers, and the entries of other
partitions refer to none; and outside the operator's override the paused
partitions are those with an active processor. -/
theorem paused_exactly_busy (settings : Settings) (size : Nat) (handler : Handler)
    (broker : Broker) (hb : broker.Obliging) (hp : broker.paused = []) (moves : List Move)
    (hm : ∀ move ∈ moves, move.IsRoutine) :
    let d : OrderedDispatcher :=
      (initial settings (Workers.ofSize size handler) broker).run moves
    (∀ p, p ∈ d.broker.paused ↔ d.monitor.contains p = true) ∧
      (∀ p id, d.held.active.find? p = some id →
        ∃ e, d.monitor.find? p = some e ∧ e.processor = some id) ∧
      (∀ p e, d.monitor.find? p = some e → e.processor = d.held.active.find? p) ∧
      (d.gate.globallyPaused = false →
        ∀ p, p ∈ d.broker.paused ↔ d.held.active.contains p = true) := by
  intro d
  have h : FlowInv [] d := (flowInv_initial settings _ hb hp).run
    (lanesInv_initial settings size handler broker) hm
  have hattached (p : Partition) : d.monitor.attached? p = d.held.active.find? p :=
    h.attached p List.not_mem_nil
  have hcoherent : ∀ p, p ∈ d.broker.paused ↔ d.monitor.contains p = true := h.coherent
  refine ⟨hcoherent, fun p id hid => ?_, fun p e he => ?_, fun hoff p => ?_⟩
  · obtain ⟨e, he, hprocessor⟩ := Option.bind_eq_some_iff.mp ((hattached p).trans hid)
    exact ⟨e, he, hprocessor⟩
  · rw [← hattached p, Monitor.attached?, he, Option.bind_some]
  · have hbusy := Monitor.idle_eq_nil_iff.mp (h.busy hoff)
    rw [hcoherent p, Table.contains, ← hattached p]
    refine ⟨fun hentry => ?_, fun hactive => ?_⟩
    · exact Option.isSome_iff_ne_none.mpr (hbusy p hentry)
    · refine Decidable.byContradiction fun hnone => ?_
      rw [Bool.not_eq_true] at hnone
      rw [Monitor.attached?_of_not_contains hnone] at hactive
      cases hactive

/-- In the sample the partition is paused for its second processor, and no other
partition is paused. -/
theorem paused_exactly_busy_sample :
    let d : OrderedDispatcher :=
      (initial {} (Workers.ofSize 1 { execute := fun _ => .done })
        { assigned := [Sample.partition] }).run Sample.rebalanced
    d.gate.globallyPaused = false ∧
      (∃ e, d.monitor.find? Sample.partition = some e ∧ e.processor = some 1) ∧
      ∀ p, p ∈ d.broker.paused ↔ p = Sample.partition := by
  intro d
  have hroutine : ∀ move ∈ Sample.rebalanced, move.IsRoutine := by
    simp [Sample.rebalanced, Move.IsRoutine]
  have hobliging : ({ assigned := [Sample.partition] } : Broker).Obliging :=
    ⟨⟨rfl, nofun⟩, ⟨rfl, nofun⟩, ⟨rfl, nofun⟩⟩
  obtain ⟨-, hattached, -, hbusy⟩ := paused_exactly_busy {} 1 { execute := fun _ => .done } _
    hobliging rfl Sample.rebalanced hroutine
  have hoff : d.gate.globallyPaused = false := by decide +kernel
  have hactive : d.held.active.entries = [(Sample.partition, 1)] := by decide +kernel
  have hfind (p : Partition) : d.held.active.find? p = [(Sample.partition, 1)].lookup p := by
    rw [← hactive]
    rfl
  refine ⟨hoff, hattached _ _ (by rw [hfind]; rfl), fun p => (hbusy hoff p).trans ?_⟩
  rw [Table.contains, hfind, List.lookup_cons]
  cases hp : p == Sample.partition with
  | true => simpa using hp
  | false => simpa using hp

end RecordDispatch.OrderedDispatcher
