import RecordDispatch.Dispatch.Run
import RecordDispatch.Proofs.Ordered.Flow
import RecordDispatch.Proofs.Unordered.Flow

/-!
# How far the operator's override reaches

A global pause holds the partitions that are assigned when it takes effect.  One
that is assigned later is late: nothing pauses it, also if it was held before
and has been taken away in between.  So a poll that reads the log while the
override is in effect returns records of late partitions only
(`override_holds_back`), and it may well return some
(`override_misses_reassigned`).

The invariant is `OverrideInv`.  It speaks of both ways of dispatching, and it is
kept whatever calls the broker refuses.
-/

namespace RecordDispatch

open Dispatch

/-! ## Late partitions -/

namespace Dispatch

namespace Event

/-- Whether a global pause takes effect. -/
def isGlobalPause : Event → Bool
  | .gate e => e.isGlobalPause
  | _ => false

/-- The partitions that are assigned, if the event says so. -/
def newlyAssigned : Event → List Partition
  | .assigned ps => ps
  | _ => []

end Event

/-- The partitions that were assigned after the last global pause took effect. -/
def late (journal : List Event) : List Partition :=
  (journal.takeWhile fun e => !e.isGlobalPause).flatMap Event.newlyAssigned

theorem late_append {es : List Event}
    (h : ∀ e ∈ es, e.isGlobalPause = false ∧ e.newlyAssigned = []) (journal : List Event) :
    late (es ++ journal) = late journal := by
  have htake : (es ++ journal).takeWhile (fun e => !e.isGlobalPause) =
      es ++ journal.takeWhile fun e => !e.isGlobalPause := by
    refine List.takeWhile_append_of_pos fun e he => ?_
    rw [(h e he).1]
    rfl
  have hnone : es.flatMap Event.newlyAssigned = [] :=
    List.flatMap_eq_nil_iff.mpr fun e he => (h e he).2
  rw [late, htake, List.flatMap_append, hnone, List.nil_append]
  rfl

theorem late_append_of_isFlow {es : List Event} (h : ∀ e ∈ es, e.isFlow = false)
    (journal : List Event) : late (es ++ journal) = late journal := by
  refine late_append (fun e he => ?_) journal
  have hflow := h e he
  cases e with
  | gate | assigned => exact absurd hflow nofun
  | _ => exact ⟨rfl, rfl⟩

theorem late_append_gate {es : List Gate.Event} (h : ∀ e ∈ es, e.isGlobalPause = false)
    (journal : List Event) : late ((es.map Event.gate).reverse ++ journal) = late journal := by
  refine late_append (fun e he => ?_) journal
  obtain ⟨e, hmem, rfl⟩ := List.mem_map.mp (List.mem_reverse.mp he)
  exact ⟨h e hmem, rfl⟩

theorem late_assigned (ps : List Partition) (journal : List Event) :
    late (.assigned ps :: journal) = ps ++ late journal := rfl

end Dispatch

/-! ## The invariant -/

namespace Dispatcher

variable {ω : Type}

/-- The partitions of which the monitor has an entry are paused, and under the
operator's override all that are assigned and not late are. -/
structure PausedUnderOverride (d : Dispatcher ω) : Prop where
  entriesPaused : d.gate.EntriesPaused
  held : d.gate.globallyPaused = true →
    ∀ p ∈ d.broker.assigned, p ∉ late d.journal → p ∈ d.broker.paused

/-- Until the dispatcher leaves the group, the partitions with an entry are
paused, and so are those that the override holds. -/
def OverrideInv (d : Dispatcher ω) : Prop :=
  d.broker.closed = false → PausedUnderOverride d

namespace OverrideInv

variable {d d' : Dispatcher ω}

/-- The broker changes in a way that has nothing to do with flow control. -/
theorem setBroker (h : OverrideInv d) {b : Broker} (hp : b.paused = d.broker.paused)
    (ha : b.assigned = d.broker.assigned) (hc : b.closed = d.broker.closed) :
    OverrideInv (d.setBroker b) := by
  intro hopen
  have hd := h (hc ▸ hopen)
  refine ⟨fun p hentry => ?_, fun hoverride p hassigned hearly => ?_⟩
  · have hpaused : p ∈ d.broker.paused := hd.entriesPaused p hentry
    exact hp ▸ hpaused
  · exact hp ▸ hd.held hoverride p (ha ▸ hassigned) hearly

theorem steady (h : OverrideInv d) (hs : Steady d d') : OverrideInv d' := by
  intro hopen
  have hd := h (hs.served.closed ▸ hopen)
  obtain ⟨es, hj, hes⟩ := hs.journal
  refine ⟨fun p hentry => ?_, fun hoverride p hassigned hearly => ?_⟩
  · have hbefore : d.monitor.contains p = true := hs.monitor ▸ hentry
    exact hs.paused ▸ hd.entriesPaused p hbefore
  · rw [hs.globallyPaused] at hoverride
    rw [hs.served.assigned] at hassigned
    rw [hj, late_append_of_isFlow hes] at hearly
    exact hs.paused ▸ hd.held hoverride p hassigned hearly

theorem still (h : OverrideInv d) (hs : Still d d') : OverrideInv d' :=
  h.steady hs.toSteady

/-- The gate pauses or resumes partitions for processors. -/
theorem adjust (h : OverrideInv d) {r : Gate × List Gate.Event} (hr : d.gate.Adjusted r) :
    OverrideInv (d.withGate r) := by
  intro hopen
  have hd := h (hr.inStep.served.closed ▸ hopen)
  refine ⟨hd.entriesPaused.inStep hr.inStep, fun hoverride p hassigned hearly => ?_⟩
  have hbefore : d.gate.globallyPaused = true := hr.globallyPaused ▸ hoverride
  have hsame : (d.withGate r).broker.assigned = d.broker.assigned := hr.inStep.served.assigned
  have hlate : late (d.withGate r).journal = late d.journal := late_append_gate hr.events _
  rw [hsame] at hassigned
  rw [hlate] at hearly
  exact hr.paused hbefore p (hd.held hbefore p hassigned hearly)

theorem applyRequests (h : OverrideInv d) : OverrideInv d.applyRequests := by
  intro hopen
  have hstep := (d.gate.applied_apply d.now).inStep
  have hd := h (hstep.served.closed ▸ hopen)
  have hcovered : (d.gate.apply d.now).1.EntriesPaused := hd.entriesPaused.inStep hstep
  refine ⟨hcovered, fun hoverride p hassigned hearly => ?_⟩
  have hsame : d.applyRequests.broker.assigned = d.broker.assigned := hstep.served.assigned
  rw [hsame] at hassigned
  rcases d.gate.override_cases d.now hoverride with
    ⟨-, hentries⟩ | ⟨hbefore, hpaused, hevents⟩
  · exact hcovered p (hentries p hassigned)
  · have hlate : late d.applyRequests.journal = late d.journal := late_append_gate hevents _
    rw [hlate] at hearly
    have hkept : d.applyRequests.broker.paused = d.broker.paused := hpaused
    exact hkept ▸ hd.held hbefore p hassigned hearly

/-- After leaving the group nothing is promised. -/
theorem close [Held ω] (h : OverrideInv d) (m : Meanwhile) : OverrideInv (d.close m) := by
  unfold Dispatcher.close
  split
  · exact h
  · exact fun hopen => absurd hopen nofun

end OverrideInv

/-! ### Rebalances and polls -/

section Calls

variable [Held ω] [Held.LeavesFlow ω] {d : Dispatcher ω}

theorem OverrideInv.revoke (h : OverrideInv d) (m : Meanwhile) (ps : List Partition) :
    OverrideInv (d.revoke m ps) := by
  obtain ⟨d₁, hdrain, hrest⟩ := d.still_revoke m ps
  refine OverrideInv.still (fun hopen => ?_) hrest
  have hd := h.still hdrain hopen
  refine ⟨fun p hentry => ?_, hd.held⟩
  have hkept : (d₁.monitor.removeAll ps).contains p = true := hentry
  rw [Monitor.contains_removeAll, Bool.and_eq_true] at hkept
  exact hd.entriesPaused p hkept.1

/-- A revocation leaves no entry of the partitions in the monitor. -/
theorem contains_revoke (d : Dispatcher ω) (m : Meanwhile) {ps : List Partition} {p : Partition}
    (h : (d.revoke m ps).monitor.contains p = true) : p ∉ ps := by
  rw [monitor_revoke, Monitor.contains_removeAll, Bool.and_eq_true, decide_eq_true_eq] at h
  exact h.2

theorem OverrideInv.deliver (h : OverrideInv d) (m : Meanwhile) (r : Broker.Rebalance) :
    OverrideInv (Dispatcher.deliver m d r) := by
  cases r with
  | revoke ps =>
    intro hopen
    have hd := h.revoke m ps hopen
    refine ⟨fun p hentry => ?_, fun hoverride p hassigned hearly => ?_⟩
    · exact Broker.mem_without.mpr ⟨hd.entriesPaused p hentry, d.contains_revoke m hentry⟩
    · obtain ⟨hbefore, hkept⟩ := Broker.mem_without.mp hassigned
      exact Broker.mem_without.mpr ⟨hd.held hoverride p hbefore hearly, hkept⟩
  | assign ps =>
    intro hopen
    have hd := h hopen
    refine ⟨hd.entriesPaused, fun hoverride p hassigned hearly => ?_⟩
    have hlate : late (Dispatcher.deliver m d (.assign ps)).journal = ps ++ late d.journal :=
      late_assigned ps d.journal
    rw [hlate, List.mem_append, not_or] at hearly
    have hbefore := (Broker.mem_union.mp hassigned).resolve_right hearly.1
    exact hd.held hoverride p hbefore hearly.2

theorem OverrideInv.flowKept : FlowKept (OverrideInv (ω := ω)) where
  steady := OverrideInv.steady
  adjust h hr := h.adjust hr
  deliver m r h := h.deliver m r
  close m h := h.close m

end Calls

theorem overrideInv_initial [Cycled ω] (settings : Settings) (workers : Workers) (broker : Broker) :
    OverrideInv (initial settings workers broker : Dispatcher ω) := by
  refine fun _ => ⟨fun p hentry => ?_, fun hoverride => absurd hoverride nofun⟩
  exact absurd hentry nofun

section Runs

variable [Cycled ω] [Held.LeavesFlow ω] [Cycled.KeepsFlow ω]

theorem OverrideInv.run {d : Dispatcher ω} (h : OverrideInv d) (moves : List Move) :
    OverrideInv (d.run moves) := by
  refine run_induction h fun d move _ hd => ?_
  cases move with
  | cycle m t =>
    exact Cycled.KeepsFlow.cycle OverrideInv.flowKept m t (hd.still (.elapse d t)).applyRequests
  | revoke m t ps => exact (hd.still (.elapse d t)).revoke m ps
  | shutdown m t => exact Cycled.KeepsFlow.shutdown OverrideInv.flowKept m t hd
  | work task => exact hd.still (.work d [task])
  | pauseAll => exact fun hopen => ⟨(hd hopen).entriesPaused, (hd hopen).held⟩
  | resumeAll => exact fun hopen => ⟨(hd hopen).entriesPaused, (hd hopen).held⟩
  | broker change => exact hd.setBroker (by simp) (by simp) (by cases change <;> rfl)

theorem overrideInv_run (settings : Settings) (workers : Workers) (broker : Broker)
    (moves : List Move) :
    OverrideInv ((initial settings workers broker : Dispatcher ω).run moves) :=
  (overrideInv_initial settings workers broker).run moves

end Runs
end Dispatcher

/-! ## Reading the log -/

namespace Broker

/-- Batches are read from the log: the member has not left the group, and each
batch has a few records of a partition that is assigned and not paused. -/
structure Reads (b : Broker) (batches : List Batch) : Prop where
  opened : b.closed = false
  batch : ∀ batch ∈ batches, batch.partition ∈ b.assigned ∧ batch.partition ∉ b.paused ∧
    batch.records.length ≤ b.perPoll
  distinct : b.assigned.Nodup → (batches.map (·.partition)).Nodup

theorem nextBatch_eq_some {b : Broker} {p : Partition} {batch : Batch}
    (h : b.nextBatch p = some batch) :
    batch.partition = p ∧ batch.records.length ≤ b.perPoll := by
  unfold nextBatch at h
  split at h
  · exact absurd h nofun
  · next r rs heq =>
    rw [← Option.some.inj h]
    refine ⟨rfl, ?_⟩
    dsimp only
    rw [← heq]
    exact List.length_take_le _ _

theorem reads_readable {b : Broker} (h : b.closed = false) :
    b.Reads (b.readable.filterMap b.nextBatch) := by
  refine ⟨h, fun batch hbatch => ?_, fun hdistinct => ?_⟩
  · obtain ⟨p, hreadable, hnext⟩ := List.mem_filterMap.mp hbatch
    obtain ⟨hpartition, hlength⟩ := nextBatch_eq_some hnext
    obtain ⟨hassigned, hnot⟩ := mem_readable.mp hreadable
    rw [hpartition]
    exact ⟨hassigned, hnot, hlength⟩
  · have hreadable : b.readable.Nodup :=
      ((Partition.sort_perm b.assigned).nodup_iff.mpr hdistinct).filter _
    refine hreadable.sublist ?_
    induction b.readable with
    | nil => exact List.Sublist.slnil
    | cons p ps ih =>
      rw [List.filterMap_cons]
      split
      · exact ih.cons p
      · next batch hnext =>
        rw [List.map_cons, (nextBatch_eq_some hnext).1]
        exact ih.cons_cons p

/-- A poll that answers with records has read the log, if nothing was fetched
ahead. -/
theorem fetch_log {b b' : Broker} {batches : List Batch} (h : b.fetch = (b', .ok batches))
    (hp : b.prefetched = []) : b.Reads batches := by
  unfold fetch at h
  rw [hp] at h
  cases hclosed : b.closed with
  | true => simp [hclosed] at h
  | false =>
    cases herrors : b.pollErrors with
    | cons text rest => simp [hclosed, herrors] at h
    | nil =>
      simp only [hclosed, herrors, Bool.false_eq_true, if_false, Prod.mk.injEq,
        Except.ok.injEq] at h
      rw [← h.2]
      exact reads_readable hclosed

/-- What was read does not depend on what the calls of a member leave alone. -/
theorem Reads.served {b b' : Broker} {batches : List Batch} (h : b.Reads batches)
    (hs : b.Served b') (hp : b'.paused = b.paused) : b'.Reads batches := by
  refine ⟨hs.closed.trans h.opened, fun batch hbatch => ?_, fun hdistinct => ?_⟩
  · rw [hs.assigned, hp, hs.perPoll]
    exact h.batch batch hbatch
  · exact h.distinct (hs.assigned ▸ hdistinct)

end Broker

namespace Dispatcher

variable {ω : Type} [Held ω]

/-- What a poll returns was read from the log, if nothing was fetched ahead. -/
theorem poll_log {d d' : Dispatcher ω} {m : Meanwhile} {batches : List Batch}
    (h : d.poll m = (d', .ok batches)) (hlog : (d.deliverAll m).broker.prefetched = []) :
    d'.broker.Reads batches := by
  unfold Dispatcher.poll at h
  split at h
  · exact absurd (Prod.mk.inj h).2 nofun
  · dsimp only at h
    generalize d.deliverAll m = d₁ at h hlog
    obtain ⟨rfl, hanswer⟩ := Prod.mk.inj h
    have hread := Broker.fetch_log (Prod.ext rfl hanswer) hlog
    exact hread.served d₁.broker.served_fetch d₁.broker.paused_fetch

/-- If the next poll reads the log while the override is in effect, every
partition that is assigned and not late is paused, and records come of late
partitions only. -/
def HoldsBack (d : Dispatcher ω) (m : Meanwhile) : Prop :=
  ∀ d' batches, d.poll m = (d', .ok batches) → (d.deliverAll m).broker.prefetched = [] →
    d'.gate.globallyPaused = true →
      (∀ p ∈ d'.broker.assigned, p ∉ late d'.journal → p ∈ d'.broker.paused) ∧
        ∀ batch ∈ batches, batch.partition ∈ late d'.journal

theorem OverrideInv.holdsBack [Held.LeavesFlow ω] {d : Dispatcher ω} (h : OverrideInv d)
    (m : Meanwhile) :
    HoldsBack d m := by
  intro d' batches hpoll hlog hoverride
  have hread := poll_log hpoll hlog
  have hready : OverrideInv d' := by
    have hpolled := OverrideInv.flowKept.poll h m
    rwa [hpoll] at hpolled
  have hheld := (hready hread.opened).held hoverride
  refine ⟨hheld, fun batch hbatch => ?_⟩
  obtain ⟨hassigned, hnot, -⟩ := hread.batch batch hbatch
  exact Decidable.byContradiction fun hearly => hnot (hheld _ hassigned hearly)

end Dispatcher

/-! ## Both ways of dispatching -/

namespace Dispatcher

/-- Whatever has happened, a poll that reads the log while the override is in
effect returns records of late partitions only. -/
theorem override_holds_back (settings : Settings) (size : Nat) (handler : Handler)
    (broker : Broker) (moves : List Move) (m : Meanwhile) (t : Duration) :
    let ordered : OrderedDispatcher :=
      (initial settings (Workers.ofSize size handler) broker).run moves
    let unordered : UnorderedDispatcher :=
      (initial settings (Workers.ofSize size handler) broker).run moves
    HoldsBack (ordered.elapse t).applyRequests m ∧
      HoldsBack (UnorderedDispatcher.settle (unordered.elapse t).applyRequests m).1 m := by
  intro ordered unordered
  have hordered : OverrideInv ordered := overrideInv_run settings _ broker moves
  have hunordered : OverrideInv unordered := overrideInv_run settings _ broker moves
  have hready := (hunordered.still (.elapse _ t)).applyRequests
  exact ⟨(hordered.still (.elapse _ t)).applyRequests.holdsBack m,
    (hready.still (UnorderedDispatcher.still_settle _ m)).holdsBack m⟩

/-- A dispatcher that is about to poll after a global pause has taken effect,
with records in the log of two partitions. -/
def heldSample (rebalances : List Broker.Rebalance) : OrderedDispatcher :=
  (((initial {} (Workers.ofSize 1 { execute := fun _ => .done })
      { assigned := [⟨"t", 0⟩] }).run
    ([.pauseAll, .cycle .nothing 0, .broker (.push ⟨⟨"t", 0⟩, [{ offset := 0 }]⟩),
      .broker (.push ⟨⟨"t", 1⟩, [{ offset := 0 }]⟩)] ++
        rebalances.map fun r => .broker (.rebalance r))).elapse 0).applyRequests

/-- The partition that was assigned when the pause took effect is held back; the
one that is assigned later is late. -/
theorem override_holds_back_sample :
    let s := (heldSample [.assign [⟨"t", 1⟩]]).poll .nothing
    s.1.gate.globallyPaused = true ∧ ⟨"t", 0⟩ ∈ s.1.broker.paused ∧
      ∃ batches, s.2 = .ok batches ∧ ∀ batch ∈ batches, batch.partition = ⟨"t", 1⟩ := by
  intro s
  have hoverride : s.1.gate.globallyPaused = true := by decide +kernel
  have hlate : late s.1.journal = [⟨"t", 1⟩] := by decide +kernel
  have hanswer : s.2.toOption.isSome = true := by decide +kernel
  cases h : s.2 with
  | error e =>
    rw [h] at hanswer
    exact absurd hanswer nofun
  | ok batches =>
    obtain ⟨hheld, hread⟩ :=
      (override_holds_back {} 1 { execute := fun _ => .done } { assigned := [⟨"t", 0⟩] } _
        .nothing 0).1 s.1 batches (Prod.ext rfl h) (by decide +kernel) hoverride
    rw [hlate] at hheld hread
    exact ⟨hoverride, hheld _ (by decide +kernel) (by decide), batches, rfl,
      fun batch hbatch => List.mem_singleton.mp (hread batch hbatch)⟩

/-- A partition that is taken away and assigned again under the override is read
all the same. -/
theorem override_misses_reassigned :
    let d := heldSample [.revoke [⟨"t", 0⟩], .assign [⟨"t", 0⟩]]
    (d.deliverAll .nothing).broker.prefetched = [] ∧
      (d.poll .nothing).1.gate.globallyPaused = true ∧
      ((d.poll .nothing).2.toOption.map fun batches => batches.map Batch.partition) =
        some [⟨"t", 0⟩] := by
  decide +kernel

end Dispatcher
end RecordDispatch
