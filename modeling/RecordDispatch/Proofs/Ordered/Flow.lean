import RecordDispatch.Proofs.Flow
import RecordDispatch.Proofs.Ordered.Guarantees

/-!
# Flow control and the work of an ordered dispatcher

An ordered dispatcher pauses a partition when it starts a processor for it, and
resumes it when it has forgotten the processor.  Everything else that it does
with processors is still.

* `forgetDone` is the part of a cycle between the poll and the resumption.
  `takeUp_keeps` carries a statement through what follows the poll.
* `LaneSteps.takeUp` does so for a statement in which the partitions whose
  processors are forgotten, and whose entries of the monitor are behind, are
  a parameter.
* `LanesInv.cycle_keeps` carries a statement that needs `LanesInv` through
  a whole cycle.
-/

namespace RecordDispatch.OrderedDispatcher

open Dispatch Dispatcher

/-! ## Draining -/

section Drain

variable {R : OrderedDispatcher → OrderedDispatcher → Prop} (hR : DrainSteps R) (m : Meanwhile)
include hR

theorem dropDeferred_rel (d : OrderedDispatcher) (p : Partition) : R d (dropDeferred d p) := by
  unfold dropDeferred
  split
  · exact hR.trans (hR.hold d _) (hR.tellOne _ rfl)
  · exact hR.refl d

theorem stopActive_rel (d : OrderedDispatcher) (p : Partition) : R d (stopActive d m p).1 := by
  unfold stopActive
  split
  · exact hR.trans (hR.trans (hR.hold d _) (hR.stop _ _)) (hR.work _ _)
  · exact hR.refl d

theorem stopAll_rel (d : OrderedDispatcher) (ps : List Partition) : R d (stopAll d m ps).1 := by
  induction ps generalizing d with
  | nil => exact hR.refl d
  | cons p ps ih =>
    have hfirst := hR.trans (dropDeferred_rel hR d p) (stopActive_rel hR m _ p)
    exact hR.trans hfirst (ih _)

theorem drainOne_rel (s : OrderedDispatcher × Offsets) (e : Partition × ProcessorId) :
    R s.1 (drainOne m s e).1 := by
  have hanswered : R s.1 (answered m e s.1) :=
    hR.trans (hR.trans (hR.await s.1 m _ _ _) (hR.tellOne _ rfl)) (hR.work _ _)
  obtain ⟨result, htold⟩ := told_drainOne m s e
  rw [htold]
  exact hR.trans hanswered (hR.tellOne _ rfl)

theorem drain_rel (d : OrderedDispatcher) (ps : List Partition) :
    ∃ d₁, R d d₁ ∧ (drain d m ps).1 = d₁.setMonitor (d₁.monitor.removeAll ps) := by
  have hstop := stopAll_rel hR m d ps
  unfold drain
  generalize stopAll d m ps = s at hstop ⊢
  obtain ⟨d₁, draining⟩ := s
  have hwait := hR.foldl Prod.fst (drainOne_rel hR m) draining
    ({ d₁ with ledger := d₁.ledger.forget ps }, d₁.ledger.pendingOf ps)
  exact ⟨_, hR.trans (hR.trans hstop (hR.forget d₁ ps)) hwait, rfl⟩

end Drain

instance : Held.DrainsInSteps Lanes where
  drain_rel hR d m ps := drain_rel hR m d ps

variable (d : OrderedDispatcher) (m : Meanwhile)

/-! ## The cycle -/

theorem still_defer (batch : Batch) : Still d (defer d batch) :=
  (Still.hold d _).trans (.tellOne _ rfl)

theorem still_harvestOne (s : OrderedDispatcher × List Partition) (e : Partition × ProcessorId) :
    Still s.1 (harvestOne m s e).1 := by
  obtain ⟨d, done⟩ := s
  have hread : Still d ((d.pass m (.completion e.2)).pass m (.progress e.2)) :=
    (Still.pass d m _).trans (.pass _ m _)
  unfold harvestOne
  dsimp only
  split
  · exact hread.trans (.record _ _ _)
  · exact hread

theorem still_harvest : Still d (harvest d m).1 :=
  foldl_rel .refl .trans Prod.fst (still_harvestOne m) d.held.active.entries (d, [])

/-! ## Processors that start -/

section Start

variable (batch : Batch)

theorem active_start : (start d batch).held.active =
    d.held.active.insert batch.partition d.workers.nextId := rfl

/-- What is told when a processor starts: that it does, and what the gate and
the workers tell. -/
theorem journal_start : (start d batch).journal =
    ((d.gate.pause d.now batch.partition d.workers.nextId).2.map Event.gate).reverse ++
      ((d.workers.create batch).submit d.workers.nextId).2.map Event.workers ++
        .started d.workers.nextId batch :: d.journal := by
  simp [start, Dispatcher.withGate, Dispatcher.tell, Dispatcher.hold, Dispatcher.submit,
    Dispatcher.withWorkers, Workers.submit]

end Start

/-! ## After the poll -/

/-- A cycle, once batches are polled, until the processors that are done are
forgotten, and the partitions that are to be resumed then. -/
def forgetDone (batches : List Batch) : OrderedDispatcher × List Partition :=
  let s := harvest (batches.foldl receive (d.tell [.polled batches])) m
  s.2.foldl retireOne (s.1, [])

/-- What remains of a cycle once partitions are resumed is still. -/
theorem still_takeUp (batches : List Batch) :
    Still ((forgetDone d m batches).1.withGate
        ((forgetDone d m batches).1.gate.resume (forgetDone d m batches).2))
      (takeUp d m batches).1 :=
  ((Still.tellOne _ rfl).trans (.report _ rfl)).trans (.commit _ false)

theorem held_takeUp (batches : List Batch) :
    (takeUp d m batches).1.held = (forgetDone d m batches).1.held := by
  have hreport (d : OrderedDispatcher) (e : Event) : (d.report e).held = d.held := by
    unfold Dispatcher.report
    split <;> rfl
  exact hreport _ _

section Keeps

variable {P : OrderedDispatcher → Prop} {d}
  (still : ∀ {d d' : OrderedDispatcher}, P d → Still d d' → P d')
  (start : ∀ {d : OrderedDispatcher} (batch : Batch), P d → P (start d batch))
include still start

/-- What still changes keep, and the start of a processor, is kept until the
processors that are done are forgotten. -/
theorem forgetDone_keeps (h : P d) (batches : List Batch) : P (forgetDone d m batches).1 := by
  have hreceive (d : OrderedDispatcher) (batch : Batch) (h : P d) : P (receive d batch) := by
    unfold receive
    split
    · exact h
    · have hnoted := still h (.noteTopic d batch)
      dsimp only
      split
      · exact still hnoted (still_defer _ batch)
      · exact start batch hnoted
  have hretire (s : OrderedDispatcher × List Partition) (p : Partition) (h : P s.1) :
      P (retireOne s p).1 := by
    unfold retireOne
    dsimp only
    split
    · exact start _ (still (still h (.hold _ _)) (.hold _ _))
    · exact still h (.hold _ _)
  have hreceived : P (batches.foldl receive (d.tell [.polled batches])) :=
    foldl_keeps id hreceive batches _ (still h (.tellOne d rfl))
  have hharvested := still hreceived (still_harvest _ m)
  exact foldl_keeps Prod.fst hretire _ (_, []) hharvested

/-- If it is kept by the resumption of partitions, it is kept by what remains of
a cycle. -/
theorem takeUp_keeps
    (resume : ∀ {d : OrderedDispatcher} (ps : List Partition), P d →
      P (d.withGate (d.gate.resume ps)))
    (h : P d) (batches : List Batch) : P (takeUp d m batches).1 :=
  still (resume _ (forgetDone_keeps m still start h batches)) (still_takeUp d m batches)

end Keeps

/-! ## Statements about flow control -/

section FlowKept

variable {P : OrderedDispatcher → Prop} {d : OrderedDispatcher} (hk : FlowKept P)
include hk

theorem start_keepsFlow (h : P d) (batch : Batch) : P (start d batch) := by
  have htold := hk.steady h (.tellOne d (e := .started d.workers.nextId batch) rfl)
  have hsubmitted := hk.steady htold (.submit _ batch)
  exact hk.adjust (hk.still hsubmitted (.hold _ _)) (Gate.pausedFor_pause _ _ _ _).toAdjusted

theorem cycle_keepsFlow (m : Meanwhile) (t : Duration) (h : P (d.elapse t).applyRequests) :
    P (cycle d m t).1 := by
  have hpolled := hk.poll h m
  unfold cycle
  dsimp only
  split
  · next heq =>
    rw [heq] at hpolled
    exact hk.still hpolled (.tellOne _ rfl)
  · next heq =>
    rw [heq] at hpolled
    exact takeUp_keeps m hk.still (fun batch h => start_keepsFlow hk h batch)
      (fun ps h => hk.adjust h (Gate.resumedFor_resume _ ps).toAdjusted) hpolled _

theorem shutdown_keepsFlow (m : Meanwhile) (t : Duration) (h : P d) : P (shutdown d m t) := by
  have hbegin := hk.still h ((Still.elapse d t).trans
    (.tellOne _ (e := .shuttingDown .ordered) rfl))
  have hcommitted := hk.still (hk.still hbegin (still_harvest _ m)) (.commit _ true)
  exact hk.still (hk.close m hcommitted) (still_terminate _ m)

end FlowKept

instance : Cycled.KeepsFlow Lanes where
  cycle hk _ m t h := cycle_keepsFlow hk m t h
  shutdown hk _ m t h := shutdown_keepsFlow hk m t h

/-! ## Statements that need the invariant of the lanes -/

variable {base : List Broker.Request} {d : OrderedDispatcher}

theorem LanesInv.move (h : LanesInv base [] d) (move : Move) : LanesInv base [] (d.move move) :=
  (kept_lanesInv base).run (fun m t h => h.cycle m t) (fun m t h => h.shutdown m t) h [move]

section Calls

variable {P : OrderedDispatcher → Prop}
  (deliver : ∀ {d : OrderedDispatcher} (m : Meanwhile) (r : Broker.Rebalance),
    LanesInv base [] d → P d → P (Dispatcher.deliver m d r))
  (setBroker : ∀ {d : OrderedDispatcher} (b : Broker), Spared d.broker b → P d → P (d.setBroker b))
include deliver setBroker

/-- What rebalances keep, given `LanesInv`, is kept by a poll, once the operator's
requests are taken up. -/
theorem LanesInv.poll_keeps (hs : LanesInv base [] d) (m : Meanwhile) (t : Duration)
    (h : P (d.elapse t).applyRequests) :
    LanesInv base [] ((d.elapse t).applyRequests.poll m).1 ∧
      P ((d.elapse t).applyRequests.poll m).1 := by
  have hstart : LanesInv base [] (d.elapse t).applyRequests :=
    (hs.quiet (.elapse d t)).quiet (.applyRequests _)
  exact Dispatcher.poll_keeps (P := fun d => LanesInv base [] d ∧ P d)
    (fun m r hd => ⟨(kept_lanesInv base).deliver hd.1 m r, deliver m r hd.1 hd.2⟩)
    (fun b hb hd => ⟨hd.1.quiet (.setBroker _ hb.commits), setBroker b hb hd.2⟩) ⟨hstart, h⟩ m

/-- What the parts of a cycle keep, given `LanesInv`, is kept by the cycle. -/
theorem LanesInv.cycle_keeps
    (pollFailed : ∀ {d : OrderedDispatcher} (e : Broker.Error), P d → P (d.pollFailed e))
    (takeUp : ∀ {d : OrderedDispatcher} (m : Meanwhile) (batches : List Batch),
      LanesInv base [] d → P d → P (OrderedDispatcher.takeUp d m batches).1)
    (hs : LanesInv base [] d) (m : Meanwhile) (t : Duration)
    (h : P (d.elapse t).applyRequests) : P (OrderedDispatcher.cycle d m t).1 := by
  obtain ⟨hlanesInv, hpolled⟩ := hs.poll_keeps deliver setBroker m t h
  unfold OrderedDispatcher.cycle
  dsimp only
  split
  · next heq =>
    rw [heq] at hpolled
    exact pollFailed _ hpolled
  · next heq =>
    rw [heq] at hpolled hlanesInv
    exact takeUp m _ hlanesInv hpolled

end Calls

/-! ## Processors that are forgotten -/

/-- A statement about a dispatcher and the partitions that are behind, which have
no processor any more.  Still changes keep it, a partition is not behind once
a processor starts for it, it is behind once its processor is forgotten, and
none is behind once they are resumed. -/
structure LaneSteps (P : List Partition → OrderedDispatcher → Prop) : Prop where
  still : ∀ {behind d d'}, P behind d → Still d d' → d'.held.active = d.held.active → P behind d'
  start : ∀ {behind behind' d} (batch : Batch), P behind d →
    (∀ p, p ∈ behind' ↔ p ∈ behind ∧ p ≠ batch.partition) → P behind' (start d batch)
  forget : ∀ {behind d} {p : Partition} {held : Lanes}, P behind d →
    (∀ q, held.active.find? q = if q = p then none else d.held.active.find? q) →
      P (behind ++ [p]) (d.hold held)
  resume : ∀ {behind d}, P behind d → P [] (d.withGate (d.gate.resume behind))

theorem held_harvest (d : OrderedDispatcher) (m : Meanwhile) : (harvest d m).1.held = d.held :=
  foldl_rel (R := fun d d' => d'.held = d.held) (fun _ => rfl) (fun h₁ h₂ => h₂.trans h₁) Prod.fst
    (held_harvestOne m) d.held.active.entries (d, [])

namespace LaneSteps

variable {P : List Partition → OrderedDispatcher → Prop} (hP : LaneSteps P)
  {behind : List Partition}
include hP

theorem receive (h : P [] d) (batch : Batch) : P [] (receive d batch) := by
  unfold OrderedDispatcher.receive
  split
  · exact h
  · have hnote : P [] (d.noteTopic batch) := hP.still h (.noteTopic d batch) rfl
    dsimp only
    split
    · exact hP.still hnote (still_defer _ batch) rfl
    · exact hP.start batch hnote (by simp)

/-- A processor is forgotten, and that of deferred records takes its place.  If
there are none, the monitor is behind. -/
theorem retireOne (h : P behind d) {p : Partition} (hp : p ∉ behind)
    (hdeferred : ∀ batch, d.held.deferred.find? p = some batch → batch.partition = p) :
    P (retireOne (d, behind) p).2 (retireOne (d, behind) p).1 ∧
      ∀ q ∈ (OrderedDispatcher.retireOne (d, behind) p).2, q ∈ behind ∨ q = p := by
  unfold OrderedDispatcher.retireOne
  dsimp only [Dispatcher.hold]
  split
  · next batch hbatch =>
    have hpartition := hdeferred batch hbatch
    have hforgotten : P (behind ++ [p]) (d.hold
        { active := d.held.active.erase p, deferred := d.held.deferred.erase p }) :=
      hP.forget h (Table.find?_erase _ _)
    refine ⟨hP.start batch hforgotten fun q => ?_, fun q hq => Or.inl hq⟩
    rw [hpartition, List.mem_append, List.mem_singleton]
    refine ⟨fun hq => ⟨Or.inl hq, fun heq => hp (heq ▸ hq)⟩, fun hq => ?_⟩
    exact hq.1.resolve_right hq.2
  · refine ⟨hP.forget h (Table.find?_erase _ _), fun q hq => ?_⟩
    rw [List.mem_append, List.mem_singleton] at hq
    exact hq

theorem retireAll {done : List Partition} (h : P behind d) (hr : Retirable base d done)
    (hfresh : ∀ p ∈ done, p ∉ behind) :
    P (done.foldl OrderedDispatcher.retireOne (d, behind)).2
      (done.foldl OrderedDispatcher.retireOne (d, behind)).1 := by
  induction done generalizing d behind with
  | nil => exact h
  | cons p done ih =>
    obtain ⟨hp, -⟩ := List.nodup_cons.mp hr.nodup
    obtain ⟨hfirst, hbehind⟩ := hP.retireOne h (hfresh p List.mem_cons_self) fun batch hbatch =>
      (hr.lanesInv.deferred p batch hbatch).1
    have hrest := hr.retireOne behind
    rw [List.foldl_cons]
    generalize OrderedDispatcher.retireOne (d, behind) p = s at hfirst hbehind hrest ⊢
    refine ih hfirst hrest fun q hq hmem => ?_
    rcases hbehind q hmem with hold | rfl
    · exact hfresh q (List.mem_cons_of_mem p hq) hold
    · exact hp hq

theorem forgetDone (h : P [] d) (hs : LanesInv base [] d) (m : Meanwhile) (batches : List Batch) :
    P (forgetDone d m batches).2 (forgetDone d m batches).1 := by
  have hreceived : P [] (batches.foldl OrderedDispatcher.receive (d.tell [.polled batches])) :=
    foldl_keeps id (fun _ batch h => hP.receive h batch) batches _
      (hP.still h (.tellOne d rfl) rfl)
  have hretirable := (hs.polled batches).receiveAll.harvest m
  have hharvested := hP.still hreceived (still_harvest _ m) (by rw [held_harvest])
  exact hP.retireAll hharvested hretirable fun _ _ => List.not_mem_nil

theorem takeUp (h : P [] d) (hs : LanesInv base [] d) (m : Meanwhile) (batches : List Batch) :
    P [] (takeUp d m batches).1 :=
  hP.still (hP.resume (hP.forgetDone h hs m batches)) (still_takeUp d m batches)
    (by rw [held_takeUp]; rfl)

end LaneSteps
end RecordDispatch.OrderedDispatcher
