import RecordDispatch.Proofs.Ordered.EntriesInvariant
import RecordDispatch.Proofs.Ordered.OneBatch
import RecordDispatch.Proofs.Override

/-!
# Back-pressure of ordered dispatch

A partition is paused while its processor is active, so that no poll returns
records of it.  So a processor has its partition to itself, nothing has to be
deferred, and of the records that polls have returned only the rest of one batch
is not handled (`back_pressure`).

This is for a broker that refuses no call of the gate, that has fetched nothing
ahead, and that reads each partition once in a poll and no more than a limit of
its records (`Broker.ReadsAtMost`).  Polls and commits may fail, and partitions
may be revoked with or without a rebalance.  `PausedWhileBusyInv` is the invariant
between the calls of a dispatcher.
-/

namespace RecordDispatch

open Dispatch Dispatcher

/-! ## Brokers that return little -/

/-- A broker that reads a partition once in a poll, and no more than a limit of
its records. -/
structure Broker.ReadsAtMost (limit : Nat) (b : Broker) : Prop where
  distinct : b.assigned.Nodup
  log : b.prefetched = []
  perPoll : b.perPoll ≤ limit

namespace Broker

variable {limit : Nat} {b b' : Broker}

theorem ReadsAtMost.served (h : b.ReadsAtMost limit) (hs : b.Served b') : b'.ReadsAtMost limit :=
  ⟨hs.assigned ▸ h.distinct, hs.prefetched h.log, hs.perPoll ▸ h.perPoll⟩

theorem nodup_union {ps : List Partition} (h : ps.Nodup) (added : List Partition) :
    (union ps added).Nodup := by
  unfold union
  induction added generalizing ps with
  | nil => exact h
  | cons p added ih =>
    refine ih ?_
    dsimp only
    split
    · exact h
    · next hnew =>
      exact List.nodup_cons.mpr ⟨fun hmem => hnew (List.contains_iff_mem.mpr hmem), h⟩

/-- The broker does not begin to refuse the calls of the gate, nothing is fetched
ahead, and no limit is set above the given one.  A limit of no records at all
counts as one. -/
def Change.IsWithin (limit : Nat) : Change → Prop
  | .prefetch _ => False
  | .limitPolls n => max n 1 ≤ limit
  | change => change.Obliges

theorem Change.IsWithin.obliges {change : Change} (h : change.IsWithin limit) :
    change.Obliges := by
  cases change with
  | prefetch | limitPolls => trivial
  | _ => exact h

theorem ReadsAtMost.apply (h : b.ReadsAtMost limit) {change : Change} (hc : change.IsWithin limit) :
    (b.apply change).ReadsAtMost limit := by
  obtain ⟨hdistinct, hlog, hperPoll⟩ := h
  cases change with
  | prefetch => exact hc.elim
  | limitPolls n => exact ⟨hdistinct, hlog, hc⟩
  | _ => exact ⟨hdistinct, hlog, hperPoll⟩

end Broker

namespace Dispatcher

theorem readsAtMost_flowKept {ω : Type} [Held ω] [Held.LeavesFlow ω] (limit : Nat) :
    FlowKept fun d : Dispatcher ω => d.broker.ReadsAtMost limit where
  steady h hs := h.served hs.served
  adjust h hr := h.served hr.inStep.served
  deliver {d} m r h := by
    cases r with
    | revoke ps =>
      have hrevoked := h.served (d.served_revoke m ps)
      exact ⟨hrevoked.distinct.filter _, hrevoked.log, hrevoked.perPoll⟩
    | assign ps => exact ⟨Broker.nodup_union h.distinct ps, h.log, h.perPoll⟩
  close {d} m h := by
    unfold close
    split
    · exact h
    · have hrevoked := h.served (d.served_revoke m (Partition.sort d.broker.assigned))
      exact ⟨List.nodup_nil, hrevoked.log, hrevoked.perPoll⟩

end Dispatcher

namespace OrderedDispatcher

variable {base : List Broker.Request} {limit : Nat} {d d' : OrderedDispatcher}

/-! ## Calls of the dispatcher -/

/-- The partitions that are busy are paused and the broker reads little of the
others, so that nothing comes that would have to wait. -/
structure PausedWhileBusyInv (base : List Broker.Request) (limit : Nat)
    (d : OrderedDispatcher) : Prop
    extends NothingDeferredInv base limit d where
  entriesInv : EntriesInv [] d
  overrideInv : OverrideInv d
  readsAtMost : d.broker.ReadsAtMost limit

/-- In a cycle, every batch that the poll has returned finds nothing deferred and
no processor of its partition active when it is taken up. -/
def TakesUpIdle (d : OrderedDispatcher) (m : Meanwhile) (t : Duration) : Prop :=
  ∀ d' batches, (d.elapse t).applyRequests.poll m = (d', .ok batches) →
    ∀ before batch after, batches = before ++ batch :: after →
      let s := before.foldl receive (d'.tell [.polled batches])
      s.held.active.contains batch.partition = false ∧ ∀ p, s.held.deferred.find? p = none

namespace PausedWhileBusyInv

theorem atStart (h : PausedWhileBusyInv base limit d) (t : Duration) :
    PausedWhileBusyInv base limit (d.elapse t).applyRequests := by
  have hk := kept_nothingDeferredInv base limit
  refine ⟨hk.quiet (hk.quiet h.toNothingDeferredInv (.elapse d t)) (.applyRequests _),
    (h.entriesInv.still (.elapse d t) rfl).applyRequests,
    (h.overrideInv.still (.elapse d t)).applyRequests, h.readsAtMost.served ?_⟩
  exact (d.gate.applied_apply (d.elapse t).now).inStep.served

theorem poll (h : PausedWhileBusyInv base limit d) (m : Meanwhile) :
    PausedWhileBusyInv base limit (d.poll m).1 :=
  ⟨(kept_nothingDeferredInv base limit).poll h.toNothingDeferredInv m,
    poll_keeps (fun m r h => h.deliver m r) (fun _ hb h => h.still hb.still rfl) h.entriesInv m,
    OverrideInv.flowKept.poll h.overrideInv m, (readsAtMost_flowKept limit).poll h.readsAtMost m⟩

/-- A partition that is busy is paused, so that a poll returns no records of
it. -/
theorem receiving (h : PausedWhileBusyInv base limit d) {m : Meanwhile} {batches : List Batch}
    (hpoll : d.poll m = (d', .ok batches)) :
    TakeUpInv base limit batches (d'.tell [.polled batches]) := by
  have hpolled := h.poll m
  have hlog : (d.deliverAll m).broker.ReadsAtMost limit :=
    deliverAll_keeps (P := fun d => d.broker.ReadsAtMost limit) (readsAtMost_flowKept limit).deliver
      (fun _ hb h => h.served hb.served) h.readsAtMost m
  have hread := poll_log hpoll hlog.log
  rw [hpoll] at hpolled
  refine hpolled.toNothingDeferredInv.polled (hread.distinct hpolled.readsAtMost.distinct)
    (fun batch hbatch => ?_) fun batch hbatch => ?_
  · cases hactive : d'.held.active.find? batch.partition with
    | none => rfl
    | some id =>
      have hattached := (hpolled.entriesInv.attached batch.partition List.not_mem_nil).trans hactive
      have hentry : d'.monitor.contains batch.partition = true := by
        cases hcontains : d'.monitor.contains batch.partition with
        | true => rfl
        | false =>
          rw [Monitor.attached?_of_not_contains hcontains] at hattached
          cases hattached
      have hpaused := (hpolled.overrideInv hread.opened).entriesPaused batch.partition hentry
      exact absurd hpaused (hread.batch batch hbatch).2.1
  · exact Nat.le_trans (hread.batch batch hbatch).2.2 hpolled.readsAtMost.perPoll

theorem takesUpIdle (h : PausedWhileBusyInv base limit d) (m : Meanwhile) (t : Duration) :
    TakesUpIdle d m t := by
  rintro d' _ hpoll before batch after rfl
  have hreceiving := (h.atStart t).receiving hpoll
  have hreceived : TakeUpInv base limit (batch :: after) _ := hreceiving.receiveAll
  refine ⟨?_, hreceived.undeferred⟩
  rw [Table.contains, hreceived.idle batch List.mem_cons_self]
  rfl

theorem cycle (h : PausedWhileBusyInv base limit d) (m : Meanwhile) (t : Duration) :
    PausedWhileBusyInv base limit (cycle d m t).1 := by
  have hstart := h.atStart t
  refine ⟨?_, h.entriesInv.cycle h.toLanesInv m t,
    Cycled.KeepsFlow.cycle OverrideInv.flowKept m t hstart.overrideInv,
    Cycled.KeepsFlow.cycle (readsAtMost_flowKept limit) m t hstart.readsAtMost⟩
  have hpolled := hstart.poll m
  unfold OrderedDispatcher.cycle
  dsimp only
  split
  · next heq =>
    rw [heq] at hpolled
    exact (kept_nothingDeferredInv base limit).quiet hpolled.toNothingDeferredInv (.tellOne _ rfl)
  · next heq =>
    rw [heq] at hpolled
    exact (hstart.receiving heq).takeUp hpolled.toLanesInv m

theorem shutdown (h : PausedWhileBusyInv base limit d) (m : Meanwhile) (t : Duration) :
    PausedWhileBusyInv base limit (shutdown d m t) :=
  ⟨shutdown_keeps (kept_nothingDeferredInv base limit) (fun m h => h.harvest m)
      (fun forced h => h.commit forced) h.toNothingDeferredInv m t,
    h.entriesInv.shutdown m t, Cycled.KeepsFlow.shutdown OverrideInv.flowKept m t h.overrideInv,
    Cycled.KeepsFlow.shutdown (readsAtMost_flowKept limit) m t h.readsAtMost⟩

theorem move (h : PausedWhileBusyInv base limit d) {move : Move}
    (hm : ∀ change, move = .broker change → change.IsWithin limit) :
    PausedWhileBusyInv base limit (d.move move) := by
  have hk := kept_nothingDeferredInv base limit
  have hentriesInv := h.entriesInv.move h.toLanesInv fun change heq => (hm change heq).obliges
  have hoverrideInv := h.overrideInv.run [move]
  cases move with
  | cycle m t => exact h.cycle m t
  | revoke m t ps =>
    exact ⟨hk.revoke m ps (hk.quiet h.toNothingDeferredInv (.elapse d t)), hentriesInv,
      hoverrideInv, h.readsAtMost.served ((d.elapse t).served_revoke m ps)⟩
  | shutdown m t => exact h.shutdown m t
  | work task =>
    exact ⟨hk.work [task] h.toNothingDeferredInv, hentriesInv, hoverrideInv, h.readsAtMost⟩
  | pauseAll | resumeAll =>
    exact ⟨hk.quiet h.toNothingDeferredInv (.ofSilent rfl rfl rfl rfl rfl), hentriesInv,
      hoverrideInv, h.readsAtMost⟩
  | broker change =>
    have hquiet : Quiet d (d.setBroker (d.broker.apply change)) :=
      .setBroker d (Broker.commitRequests_apply _ change)
    exact ⟨hk.quiet h.toNothingDeferredInv hquiet, hentriesInv, hoverrideInv,
      h.readsAtMost.apply (hm change rfl)⟩

theorem run (h : PausedWhileBusyInv base limit d) {moves : List Move}
    (hm : ∀ change, Move.broker change ∈ moves → change.IsWithin limit) :
    PausedWhileBusyInv base limit (d.run moves) :=
  run_induction h fun _ _ hmem hd => hd.move fun change heq => hm change (heq ▸ hmem)

end PausedWhileBusyInv

/-! ## Runs -/

theorem pausedWhileBusyInv_initial (settings : Settings) (size : Nat) (handler : Handler)
    {broker : Broker} (hb : broker.Obliging) (hr : broker.ReadsAtMost limit) :
    PausedWhileBusyInv broker.commitRequests limit
      (initial settings (Workers.ofSize size handler) broker) := by
  refine ⟨⟨lanesInv_initial settings size handler broker, fun _ => rfl, ?_⟩,
    entriesInv_initial settings _ hb, overrideInv_initial settings _ broker, hr⟩
  exact along_cons.mpr ⟨⟨fun _ => List.prefix_rfl, nofun, nofun⟩, along_nil _⟩

namespace Sample

/-- Three records are in the log, and polls return two at most.  The processor
has handled the first one when a global pause begins and ends; another poll
fails, and one more succeeds. -/
def pressed : List Move :=
  [.broker (.push ⟨partition, [{ offset := 0 }, { offset := 1 }, { offset := 2 }]⟩),
    .cycle .nothing 0, .work 0, .work 0, .work 0, .work 0, .pauseAll, .cycle .nothing 0,
    .resumeAll, .broker (.failPoll "down"), .cycle .nothing 0, .cycle .nothing 0]

/-- A dispatcher after these moves. -/
def underPressure : OrderedDispatcher :=
  (initial {} (Workers.ofSize 1 { execute := fun _ => .done })
    { assigned := [partition], perPoll := 2 }).run pressed

end Sample

/-- Polls return a limited number of records of a partition, none of them
fetched ahead, and the broker refuses no call of the gate.  Then in every run
nothing is ever deferred; a batch is never taken up while a processor of its
partition is active, and a processor starts with all records of its partition
that are not handled; and at every moment the records of a partition that polls
have returned since it was last drained, and that are not handled, are the rest
of one batch, and no more than the limit. -/
theorem back_pressure (settings : Settings) (size : Nat) (handler : Handler) (broker : Broker)
    (limit : Nat) (hb : broker.Obliging) (hr : broker.ReadsAtMost limit) (moves : List Move)
    (hm : ∀ change, Move.broker change ∈ moves → change.IsWithin limit) :
    let d : OrderedDispatcher :=
      (initial settings (Workers.ofSize size handler) broker).run moves
    (∀ p, d.held.deferred.find? p = none) ∧ (∀ m t, TakesUpIdle d m t) ∧
      (∀ id batch older, .started id batch :: older <:+ d.journal →
        (period batch.partition older).polled =
          (period batch.partition older).handled ++ batch.records) ∧
      ∀ older, older <:+ d.journal → ∀ p, InHand limit p older := by
  intro d
  have h : PausedWhileBusyInv broker.commitRequests limit d :=
    (pausedWhileBusyInv_initial settings size handler hb hr).run hm
  refine ⟨h.undeferred, h.takesUpIdle, fun id batch older hs => ?_, fun older hs p => ?_⟩
  · exact (h.oneBatch _ _ hs).start id batch rfl
  · exact inHand_of_oneBatch (fun e before he => h.oneBatch e before (he.trans hs)) p

/-- In the sample the record that was returned and is not handled is the only
one, and one more is in the log. -/
theorem back_pressure_sample :
    let d := Sample.underPressure
    (∀ p, d.held.deferred.find? p = none) ∧
      (period Sample.partition d.journal).handled.map (·.offset) = [0] ∧
      (∃ r, (period Sample.partition d.journal).polled =
        (period Sample.partition d.journal).handled ++ [r]) ∧
      d.broker.backlogSize Sample.partition = 1 := by
  intro d
  have hobliging : ({ assigned := [Sample.partition], perPoll := 2 } : Broker).Obliging :=
    ⟨⟨rfl, nofun⟩, ⟨rfl, nofun⟩, ⟨rfl, nofun⟩⟩
  have hreads : ({ assigned := [Sample.partition], perPoll := 2 } : Broker).ReadsAtMost 2 :=
    ⟨by simp, rfl, Nat.le_refl 2⟩
  obtain ⟨hundeferred, -, -, hin⟩ := back_pressure {} 1 { execute := fun _ => .done } _ 2
    hobliging hreads Sample.pressed (by simp [Sample.pressed, Broker.Change.IsWithin,
      Broker.Change.Obliges])
  have hhandled : (period Sample.partition d.journal).handled.map (·.offset) = [0] := by
    decide +kernel
  have hpolled : (period Sample.partition d.journal).polled.length = 2 := by decide +kernel
  obtain ⟨earlier, begun, rest, hdone, hall, -, -⟩ := hin d.journal List.suffix_rfl
    Sample.partition
  rw [← hdone] at hall
  have hrest : rest.length = 1 := by
    have hone := congrArg List.length hhandled
    rw [hall, List.length_append] at hpolled
    rw [List.length_map, List.length_singleton] at hone
    omega
  obtain ⟨r, rfl⟩ := List.length_eq_one_iff.mp hrest
  exact ⟨hundeferred, hhandled, ⟨r, hall⟩, by decide +kernel⟩

end OrderedDispatcher
end RecordDispatch