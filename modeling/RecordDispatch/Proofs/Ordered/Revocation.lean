import RecordDispatch.Proofs.Ordered.Cycle

/-!
# Revocations of an ordered dispatcher

A revocation stops the processors of its partitions, takes them out of the
dispatcher, waits for each, and commits.  The period of these partitions ends
after that.  Until then the account of what the dispatcher held when the drain
began goes on, though the dispatcher does not hold it any more.

* `emptied_stopAll` and `mem_stopAll` say what is taken out and which processors
  are stopped, `drainOne_eq` what the wait for one of them comes to, and
  `frame_drain` what else a drain changes.
* `DrainWaitInv` is the invariant while they are waited for.  An offset that is
  staged is settled; and what is staged for a partition that was drained in time
  is the progress of its processor or, if that has handled nothing, what was
  pending (`StagedProgress`).
* `LanesInv.revoke` puts the parts together.
-/

namespace RecordDispatch.OrderedDispatcher

open Dispatch

/-! ## Stopping -/

/-- What stopping the processors of partitions leaves and takes. -/
structure Emptied (d d' : OrderedDispatcher) (ps : List Partition) : Prop where
  ledger : d'.ledger = d.ledger
  active : ∀ p, d'.held.active.find? p = if p ∈ ps then none else d.held.active.find? p
  deferred : ∀ p, d'.held.deferred.find? p = if p ∈ ps then none else d.held.deferred.find? p

theorem Emptied.trans {d₁ d₂ d₃ : OrderedDispatcher} {ps qs : List Partition}
    (h₁ : Emptied d₁ d₂ ps) (h₂ : Emptied d₂ d₃ qs) : Emptied d₁ d₃ (ps ++ qs) := by
  refine ⟨h₂.ledger.trans h₁.ledger, fun p => ?_, fun p => ?_⟩
  · rw [h₂.active, h₁.active]
    by_cases hp : p ∈ ps <;> simp [hp]
  · rw [h₂.deferred, h₁.deferred]
    by_cases hp : p ∈ ps <;> simp [hp]

theorem active_dropDeferred (d : OrderedDispatcher) (p : Partition) :
    (dropDeferred d p).held.active = d.held.active := by
  unfold dropDeferred
  split <;> rfl

theorem emptied_stop (d : OrderedDispatcher) (m : Meanwhile) (p : Partition) :
    Emptied d (stopActive (dropDeferred d p) m p).1 [p] := by
  have ha := active_dropDeferred d p
  have hdrop : (dropDeferred d p).ledger = d.ledger ∧
      ∀ q, (dropDeferred d p).held.deferred.find? q =
        if q ∈ [p] then none else d.held.deferred.find? q := by
    unfold dropDeferred
    split
    · exact ⟨rfl, fun q => by simp [Dispatcher.hold, Dispatcher.tell]⟩
    · next hnone =>
      refine ⟨rfl, fun q => ?_⟩
      split
      · next heq => rw [List.mem_singleton.mp heq, hnone]
      · rfl
  obtain ⟨hl, hd⟩ := hdrop
  unfold stopActive
  split
  · refine ⟨hl, fun q => ?_, hd⟩
    simp [Dispatcher.pass, Dispatcher.hold, ha]
  · next hnone =>
    refine ⟨hl, fun q => ?_, hd⟩
    rw [ha] at hnone ⊢
    split
    · next heq => rw [List.mem_singleton.mp heq, hnone]
    · rfl

section Stop

variable (m : Meanwhile)

/-- The processor that is stopped is the active one. -/
theorem stopped_stopActive (d : OrderedDispatcher) (p : Partition) :
    (stopActive (dropDeferred d p) m p).2 = d.held.active.find? p := by
  unfold stopActive
  rw [active_dropDeferred]
  split
  · next hfind => rw [hfind]
  · next hnone => rw [hnone]

theorem emptied_stopAll (d : OrderedDispatcher) (ps : List Partition) :
    Emptied d (stopAll d m ps).1 ps := by
  induction ps generalizing d with
  | nil => exact ⟨rfl, fun p => by simp [stopAll], fun p => by simp [stopAll]⟩
  | cons p ps ih => exact (emptied_stop d m p).trans (ih _)

/-- Exactly the processors that were active are to be waited for. -/
theorem mem_stopAll (d : OrderedDispatcher) (ps : List Partition) (p : Partition)
    (id : ProcessorId) :
    (p, id) ∈ (stopAll d m ps).2 ↔ p ∈ ps ∧ d.held.active.find? p = some id := by
  induction ps generalizing d with
  | nil => simp [stopAll]
  | cons p' ps ih =>
    simp only [stopAll, List.mem_append, Option.mem_toList, Option.map_eq_some_iff,
      stopped_stopActive, Prod.mk.injEq, ih, (emptied_stop d m p').active, List.mem_cons]
    by_cases hp : p = p'
    · subst hp
      simp
    · simp [hp, Ne.symm hp]

variable {base : List Broker.Request} {shares : Partition → Share} {l : Ledger}
  {d : OrderedDispatcher}

theorem Accounted.dropDeferred (h : Accounted base shares l d) (p : Partition) :
    Accounted base shares l (dropDeferred d p) := by
  unfold OrderedDispatcher.dropDeferred
  split
  · next batch _ =>
    have hheld : Accounted base shares l
        (d.hold { d.held with deferred := d.held.deferred.erase p }) :=
      ⟨h.accounts, h.active, h.unstopped, h.linked⟩
    exact hheld.quiet (.tellOne _ rfl)
  · exact h

/-- No other partition has the processor that is stopped. -/
theorem Accounted.stopActive (h : Accounted base shares l d) (p : Partition) :
    Accounted base shares l (stopActive d m p).1 := by
  unfold OrderedDispatcher.stopActive
  split
  · next id hid =>
    have hactive {q : Partition} {id' : ProcessorId}
        (ha : (d.held.active.erase p).find? q = some id') :
        q ≠ p ∧ d.held.active.find? q = some id' := by
      rw [Table.find?_erase] at ha
      split at ha
      · exact absurd ha nofun
      · next hne => exact ⟨hne, ha⟩
    have hstop : Accounted base shares l
        { d.hold { d.held with active := d.held.active.erase p } with
          workers := d.workers.stop id } := by
      refine ⟨h.accounts.stop id, fun q id' ha => ?_, fun q id' ha => ?_, h.linked⟩
      · exact h.active q id' (hactive ha).2
      · obtain ⟨hne, hold⟩ := hactive ha
        have hother : id' ≠ id := h.ne_of_ne (h.active p id hid) (h.active q id' hold) hne
        exact (h.unstopped q id' hold).stop hother
    exact hstop.work _
  · exact h

theorem Accounted.stopAll (h : Accounted base shares l d) (ps : List Partition) :
    Accounted base shares l (stopAll d m ps).1 := by
  induction ps generalizing d with
  | nil => exact h
  | cons p ps ih => exact ih ((h.dropDeferred p).stopActive m p)

end Stop

/-! ## What the wait for a processor comes to -/

section Wait

variable (m : Meanwhile) (s : OrderedDispatcher × Offsets) (e : Partition × ProcessorId)

/-- A dispatcher when a wait for a processor has ended and is told of. -/
def answered (d : OrderedDispatcher) : OrderedDispatcher :=
  let d := d.awaitProcessor m e.2 d.settings.revokeDrainTimeout
  (d.tell [.waited e.1 (d.workers.isDone e.2)]).pass m (.answered e.2)

/-- The answer of a wait for a processor. -/
def answer (d : OrderedDispatcher) : Int :=
  let d := d.awaitProcessor m e.2 d.settings.revokeDrainTimeout
  ((d.workers.processor? e.2).map Processor.awaited).getD Processor.nothingProcessed

/-- An answer that is an offset is staged.  With another one, what is staged
stays, if the processor is done by now. -/
theorem drainOne_eq :
    drainOne m s e =
      if 0 < answer m e s.1 then
        ((answered m e s.1).tell [.drained e.1 .drained s.1.settings.revokeDrainTimeout],
          s.2.insert e.1 (answer m e s.1))
      else if (answered m e s.1).workers.isDone e.2 then
        ((answered m e s.1).tell [.drained e.1 .notStarted s.1.settings.revokeDrainTimeout], s.2)
      else ((answered m e s.1).tell [.drained e.1 .timedOut s.1.settings.revokeDrainTimeout],
        s.2.erase e.1) :=
  rfl

theorem told_drainOne :
    ∃ result, (drainOne m s e).1 =
      (answered m e s.1).tell [.drained e.1 result s.1.settings.revokeDrainTimeout] := by
  rw [drainOne_eq]
  split
  · exact ⟨_, rfl⟩
  · split <;> exact ⟨_, rfl⟩

theorem find?_staged (p : Partition) :
    (drainOne m s e).2.find? p =
      if p = e.1 then
        if 0 < answer m e s.1 then some (answer m e s.1)
        else if (answered m e s.1).workers.isDone e.2 then s.2.find? p else none
      else s.2.find? p := by
  rw [drainOne_eq]
  split
  · exact Table.find?_insert _ _ _ _
  · split
    · exact (ite_self _).symm
    · exact Table.find?_erase _ _ _

/-- Neither the work that is held nor the ledger changes. -/
theorem frame_drainOne :
    (drainOne m s e).1.held = s.1.held ∧ (drainOne m s e).1.ledger = s.1.ledger := by
  have hwait := s.1.worked_await m (.wait e.2) s.1.settings.revokeDrainTimeout (·.isDone e.2)
  obtain ⟨result, htold⟩ := told_drainOne m s e
  rw [htold]
  exact ⟨hwait.held, hwait.ledger⟩

end Wait

/-! ## What a drain changes -/

/-- A drain takes what is held of its partitions out of the dispatcher, and the
ledger forgets them. -/
theorem frame_drain (d : OrderedDispatcher) (m : Meanwhile) (ps : List Partition) :
    (∀ p, (drain d m ps).1.held.active.find? p =
        if p ∈ ps then none else d.held.active.find? p) ∧
      (∀ p, (drain d m ps).1.held.deferred.find? p =
        if p ∈ ps then none else d.held.deferred.find? p) ∧
      (drain d m ps).1.ledger = d.ledger.forget ps := by
  have hempty := emptied_stopAll m d ps
  unfold drain
  generalize stopAll d m ps = s at hempty ⊢
  obtain ⟨d₁, draining⟩ := s
  dsimp only at hempty ⊢
  obtain ⟨hheld, hledger⟩ := Dispatcher.frame_foldl Prod.fst (frame_drainOne m) draining
    ({ d₁ with ledger := d₁.ledger.forget ps }, d₁.ledger.pendingOf ps)
  refine ⟨fun p => ?_, fun p => ?_, ?_⟩
  · exact (congrArg (fun lanes : Lanes => lanes.active.find? p) hheld).trans (hempty.active p)
  · exact (congrArg (fun lanes : Lanes => lanes.deferred.find? p) hheld).trans
      (hempty.deferred p)
  · exact hledger.trans (congrArg (·.forget ps) hempty.ledger)

/-- So does a revocation. -/
theorem held_revoke (d : OrderedDispatcher) (m : Meanwhile) (ps : List Partition)
    (p : Partition) :
    ((d.revoke m ps).held.active.find? p =
        if p ∈ ps then none else d.held.active.find? p) ∧
      (d.revoke m ps).held.deferred.find? p =
        if p ∈ ps then none else d.held.deferred.find? p := by
  unfold Dispatcher.revoke
  split
  · next hnil => simp [List.isEmpty_iff.mp hnil]
  · obtain ⟨hactive, hdeferred, -⟩ := frame_drain (d.tell [.revoking ps]) m ps
    dsimp only [Dispatcher.tell]
    rw [(Dispatcher.commitRevoked_frame _ _).1]
    exact ⟨hactive p, hdeferred p⟩

/-! ## Waiting -/

/-- The processor of a partition is done, and what is staged for the partition
is its progress or, if it has handled nothing, what was pending. -/
structure StagedProgress (w : Workers) (l : Ledger) (p : Partition) (id? : Option ProcessorId)
    (staged : Option Int) : Prop where
  done : ∀ id, id? = some id → w.Done id
  staged : staged = (id?.bind w.committable?).or (l.get? p)

theorem StagedProgress.later {w w' : Workers} {l : Ledger} {p : Partition}
    {id? : Option ProcessorId}
    {staged : Option Int} (h : StagedProgress w l p id? staged) (hw : w.Later w') :
    StagedProgress w' l p id? staged := by
  refine ⟨fun id hid => (h.done id hid).later hw, ?_⟩
  rw [h.staged]
  cases id? with
  | none => rfl
  | some id =>
    obtain ⟨q, hq, hd⟩ := h.done id rfl
    simp only [Option.bind_some, Workers.committable?, hq, hw.done hq hd]

/-- The invariant while stopped processors are waited for.  Those in `left` are
still to be waited for. -/
structure DrainWaitInv (base : List Broker.Request) (shares : Partition → Share) (l : Ledger)
    (ps : List Partition) (held : Lanes) (left : List (Partition × ProcessorId))
    (d : OrderedDispatcher) (staged : Offsets) : Prop extends Accounted base shares l d where
  held : d.held = held
  ledger : d.ledger = l.forget ps
  stopped : ∀ e ∈ left, e.1 ∈ ps ∧ (shares e.1).processor = some e.2
  settled : ∀ p c, staged.find? p = some c → p ∈ ps ∧ Settled (period p d.journal) c
  stagedProgress : ∀ p ∈ ps, InTime p d.journal →
    StagedProgress d.workers l p (shares p).processor (staged.find? p) ∨
      (∃ id, (p, id) ∈ left) ∧ staged.find? p = l.get? p

namespace DrainWaitInv

variable {base : List Broker.Request} {shares : Partition → Share} {l : Ledger}
  {ps : List Partition} {held : Lanes} {left : List (Partition × ProcessorId)}
  {d : OrderedDispatcher} {staged : Offsets}

/-- What workers do, and what is told of it, leaves what is staged valid. -/
theorem later (h : DrainWaitInv base shares l ps held left d staged) {d' : OrderedDispatcher}
    (ha : Accounted base shares l d') (hh : d'.held = d.held) (hl : d'.ledger = d.ledger)
    (hw : d.workers.Later d'.workers) {es : List Event} (hj : d'.journal = es ++ d.journal)
    (hes : ∀ e ∈ es, e.isRevoking = false ∧ ∀ ps n, e ≠ .revoked ps n) :
    DrainWaitInv base shares l ps held left d' staged := by
  refine ⟨ha, hh.trans h.held, hl.trans h.ledger, h.stopped, fun p c hc => ?_,
    fun p hp hintime => ?_⟩
  · obtain ⟨hp, hsettled⟩ := h.settled p c hc
    rw [hj]
    exact ⟨hp, hsettled.mono (period_le_append (fun e he => (hes e he).2) p d.journal)⟩
  · rw [hj] at hintime
    have hbefore : InTime p d.journal := hintime.of_append fun e he => (hes e he).1
    exact (h.stagedProgress p hp hbefore).imp_left fun hr => hr.later hw

theorem await (h : DrainWaitInv base shares l ps held left d staged) (m : Meanwhile) (point : Point)
    (timeout : Duration) (isOver : Workers → Bool) :
    DrainWaitInv base shares l ps held left (d.await m point timeout isOver) staged := by
  obtain ⟨steps, t, heq⟩ := d.await_cases m point timeout isOver
  rw [heq]
  refine h.later ((h.toAccounted.work steps).quiet (.elapse _ t)) rfl rfl (d.work_later steps)
    rfl fun e he => ?_
  obtain ⟨e, -, rfl⟩ := List.mem_map.mp (List.mem_reverse.mp he)
  exact ⟨rfl, nofun⟩

/-- If a drain is in time at the end of a wait, the processor was done then. -/
theorem answered (h : DrainWaitInv base shares l ps held left d staged) (m : Meanwhile)
    (e : Partition × ProcessorId) :
    DrainWaitInv base shares l ps held left (OrderedDispatcher.answered m e d) staged ∧
      (d.awaitProcessor m e.2 d.settings.revokeDrainTimeout).workers.Later
        (OrderedDispatcher.answered m e d).workers ∧
      (InTime e.1 (OrderedDispatcher.answered m e d).journal →
        (d.awaitProcessor m e.2 d.settings.revokeDrainTimeout).workers.isDone e.2 = true) := by
  have hwait : DrainWaitInv base shares l ps held left
      (d.awaitProcessor m e.2 d.settings.revokeDrainTimeout) staged := h.await m _ _ _
  unfold OrderedDispatcher.answered Dispatcher.pass
  dsimp only
  generalize d.awaitProcessor m e.2 d.settings.revokeDrainTimeout = d' at hwait ⊢
  generalize d'.workers.isDone e.2 = isDone
  generalize (m (.answered e.2) (d'.tell [.waited e.1 isDone]).workers).steps = steps
  have htell : Accounted base shares l (d'.tell [.waited e.1 isDone]) :=
    hwait.toAccounted.quiet (.tellOne _ rfl)
  have hworked : ∀ event ∈ ((d'.workers.run steps).2.map Event.workers).reverse,
      event.isRevoking = false ∧ ∀ ps n, event ≠ .revoked ps n := by
    intro event hevent
    obtain ⟨_, -, rfl⟩ := List.mem_map.mp (List.mem_reverse.mp hevent)
    exact ⟨rfl, nofun⟩
  have hjournal : ((d'.tell [.waited e.1 isDone]).work steps).journal =
      (((d'.workers.run steps).2.map Event.workers).reverse ++ [.waited e.1 isDone]) ++
        d'.journal := List.append_cons _ _ _
  refine ⟨hwait.later (htell.work steps) rfl rfl (d'.work_later steps) hjournal
    fun event hevent => ?_, d'.work_later steps, fun hintime => ?_⟩
  · rcases List.mem_append.mp hevent with hevent | hevent
    · exact hworked event hevent
    · rw [List.mem_singleton.mp hevent]
      exact ⟨rfl, nofun⟩
  · have hbefore : InTime e.1 (.waited e.1 isDone :: d'.journal) :=
      hintime.of_append fun event hevent => (hworked event hevent).1
    cases isDone with
    | true => rfl
    | false => exact absurd List.mem_cons_self hbefore

/-- The wait for one processor has come to an end. -/
theorem conclude {p : Partition} {id : ProcessorId} {staged' : Offsets}
    (h : DrainWaitInv base shares l ps held ((p, id) :: left) d staged) (result : DrainResult)
    (timeout : Duration)
    (hother : ∀ p', p' ≠ p → staged'.find? p' = staged.find? p')
    (hsettled : ∀ c, staged'.find? p = some c → Settled (period p d.journal) c)
    (hready : InTime p (.drained p result timeout :: d.journal) →
      StagedProgress d.workers l p (some id) (staged'.find? p)) :
    DrainWaitInv base shares l ps held left (d.tell [.drained p result timeout]) staged' := by
  obtain ⟨hp, hactive⟩ := h.stopped (p, id) List.mem_cons_self
  refine ⟨h.toAccounted.quiet (.tellOne _ rfl), h.held, h.ledger,
    fun e he => h.stopped e (List.mem_cons_of_mem _ he), fun p' c hc => ?_,
    fun p' hp' hintime => ?_⟩
  · by_cases heq : p' = p
    · subst heq
      exact ⟨hp, hsettled c hc⟩
    · rw [hother p' heq] at hc
      exact h.settled p' c hc
  · by_cases heq : p' = p
    · subst heq
      refine Or.inl ?_
      rw [hactive]
      exact hready hintime
    · rw [hother p' heq]
      refine (h.stagedProgress p' hp' (hintime.of_cons rfl)).imp_right fun hleft => ⟨?_, hleft.2⟩
      obtain ⟨id', hid'⟩ := hleft.1
      rcases List.mem_cons.mp hid' with hhead | htail
      · exact absurd (Prod.mk.inj hhead).1 heq
      · exact ⟨id', htail⟩

/-- The result of a wait is staged if it is an offset.  If the processor has
handled nothing, what was pending stays staged; and if it is not done, nothing
is staged. -/
theorem drainOne {p : Partition} {id : ProcessorId}
    (h : DrainWaitInv base shares l ps held ((p, id) :: left) d staged) (m : Meanwhile) :
    DrainWaitInv base shares l ps held left (drainOne m (d, staged) (p, id)).1
      (drainOne m (d, staged) (p, id)).2 := by
  obtain ⟨hp, hactive⟩ := h.stopped (p, id) List.mem_cons_self
  have hwait : DrainWaitInv base shares l ps held ((p, id) :: left)
      (d.awaitProcessor m id d.settings.revokeDrainTimeout) staged := h.await m _ _ _
  obtain ⟨q, hq, -⟩ := (hwait.accounts.account p).exists_processor hactive
  have hanswer : answer m (p, id) d = q.awaited := by
    unfold answer
    dsimp only
    rw [hq, Option.map_some, Option.getD_some]
  obtain ⟨hw, hlater, hdone⟩ := h.answered m (p, id)
  rw [Workers.isDone_of_processor? hq] at hdone
  obtain ⟨result, htold⟩ := told_drainOne m (d, staged) (p, id)
  have hstaged := find?_staged m (d, staged) (p, id)
  rw [hanswer] at hstaged
  rw [htold]
  -- The processor may have gone on only if it was not done.
  have hcommittable (hd : q.isDone = true) :
      (OrderedDispatcher.answered m (p, id) d).workers.committable? id = q.committable? := by
    rw [Workers.committable?, hlater.done hq hd, Option.bind_some]
  refine hw.conclude result _ (fun p' hne => (hstaged p').trans (if_neg hne)) (fun c hc => ?_)
    fun hintime => ?_
  · rw [hstaged, if_pos rfl] at hc
    split at hc
    · next hpos =>
      obtain ⟨hd, hoffset⟩ := Processor.awaited_pos hpos
      exact (hw.accounts.account p).settled hactive ((hcommittable hd).trans (hoffset.trans hc))
    · split at hc
      · exact (hw.settled p c hc).2
      · cases hc
  · have hd := hdone (hintime.of_cons rfl)
    have hlast := hlater.done hq hd
    refine ⟨fun i hi => Option.some.inj hi ▸ ⟨q, hlast, hd⟩, ?_⟩
    rw [hstaged, if_pos rfl, Option.bind_some, hcommittable hd]
    split
    · next hpos => rw [(Processor.awaited_pos hpos).2, Option.some_or]
    · next hneg =>
      have hnone := Processor.committable?_of_awaited hd hneg
      rw [if_pos ((Workers.isDone_of_processor? hlast).trans hd), hnone, Option.none_or]
      rcases hw.stagedProgress p hp (hintime.of_cons rfl) with hready | ⟨-, hpending⟩
      · rw [hready.staged, hactive, Option.bind_some, hcommittable hd, hnone, Option.none_or]
      · exact hpending

theorem drainAll (h : DrainWaitInv base shares l ps held left d staged) (m : Meanwhile) :
    DrainWaitInv base shares l ps held [] (left.foldl (OrderedDispatcher.drainOne m) (d, staged)).1
      (left.foldl (OrderedDispatcher.drainOne m) (d, staged)).2 := by
  induction left generalizing d staged with
  | nil => exact h
  | cons e left ih => exact ih (h.drainOne m)

/-- The offset after the last handled record of a partition that was drained in
time is staged, or the broker has accepted it before. -/
theorem or_lastCommitted (h : DrainWaitInv base shares l ps held [] d staged)
    (hmark : ∀ p, (shares p).mark = l.mark p) {p : Partition} (hp : p ∈ ps)
    (hintime : InTime p d.journal)
    (hs : (period p d.journal).polled.Pairwise (·.offset < ·.offset)) {r : Record}
    (hr : (period p d.journal).handled.getLast? = some r) (h0 : 0 ≤ r.offset) :
    (staged.find? p).or (lastCommitted p d.journal) = some (r.offset + 1) := by
  have hready := (h.stagedProgress p hp hintime).resolve_right fun hleft =>
    hleft.1.elim fun _ hmem => List.not_mem_nil hmem
  have hbacked := h.accounts.backed
  have hnext := (h.accounts.account p).committable?_or_mark
    (fun c hc => hbacked.mark (hmark p ▸ hc)) hs hr h0
  rw [hmark] at hnext
  rw [hready.staged]
  cases hc : (shares p).processor.bind d.workers.committable? with
  | some c =>
    rw [hc, Option.some_or] at hnext
    rw [Option.some_or, Option.some_or, hnext]
  | none =>
    rw [hc, Option.none_or] at hnext
    rw [Option.none_or]
    rcases Ledger.mark_eq_some hnext with hpending | ⟨hpending, hflushed⟩
    · rw [hpending, Option.some_or]
    · rw [hpending, Option.none_or]
      exact hbacked.committed p _ hpending hflushed

end DrainWaitInv

/-- After a drain nothing is to be waited for, and the dispatcher holds nothing
of the drained partitions. -/
theorem LanesInv.drain {base : List Broker.Request} {d : OrderedDispatcher} (h : LanesInv base [] d)
    (m : Meanwhile) (ps : List Partition) :
    ∃ held : Lanes,
      (∀ p, held.active.find? p = if p ∈ ps then none else d.held.active.find? p) ∧
      (∀ p, held.deferred.find? p = if p ∈ ps then none else d.held.deferred.find? p) ∧
      DrainWaitInv base (share [] d) d.ledger ps held [] (drain d m ps).1 (drain d m ps).2 := by
  have hstop := h.toAccounted.stopAll m ps
  have hempty := emptied_stopAll m d ps
  have hmem := mem_stopAll m d ps
  unfold OrderedDispatcher.drain
  generalize OrderedDispatcher.stopAll d m ps = s at hstop hempty hmem ⊢
  obtain ⟨d₁, draining⟩ := s
  refine ⟨d₁.held, hempty.active, hempty.deferred, ?_⟩
  have hstart : DrainWaitInv base (share [] d) d.ledger ps d₁.held draining
      { d₁ with ledger := d₁.ledger.forget ps } (d₁.ledger.pendingOf ps) := by
    refine ⟨⟨hstop.accounts, hstop.active, hstop.unstopped, hstop.linked⟩, rfl, ?_, ?_,
      fun p c hc => ?_, fun p hp _ => ?_⟩
    · exact congrArg (·.forget ps) hempty.ledger
    · exact fun e he => (hmem e.1 e.2).mp he
    · rw [hempty.ledger, Ledger.find?_pendingOf] at hc
      split at hc
      · next hp => exact ⟨hp, hstop.accounts.backed.pending p c hc⟩
      · cases hc
    · rw [hempty.ledger, Ledger.find?_pendingOf, if_pos hp]
      cases hactive : d.held.active.find? p with
      | none =>
        refine Or.inl ?_
        simp only [share, hactive]
        exact ⟨fun _ hid => absurd hid (Option.some_ne_none _).symm, rfl⟩
      | some id => exact Or.inr ⟨⟨id, (hmem p id).mpr ⟨hp, hactive⟩⟩, rfl⟩
  have hend := hstart.drainAll m
  exact ⟨hend.toAccounted.quiet (.setMonitor _ _), hend.held, hend.ledger, hend.stopped,
    hend.settled, hend.stagedProgress⟩

/-! ## The end of a revocation -/

/-- The invariant after the commit of a revocation, before its periods end. -/
structure HandOverInv (base : List Broker.Request) (shares : Partition → Share) (l : Ledger)
    (ps : List Partition) (held : Lanes) (d : OrderedDispatcher) : Prop
    extends Accounted base shares (l.forget ps) d where
  held : d.held = held
  ledger : d.ledger = l.forget ps
  done : ∀ p ∈ ps, InTime p d.journal → ∀ id, (shares p).processor = some id → d.workers.Done id
  handedOver : ∀ p ∈ ps, InTime p d.journal → Accepted d.journal → HandedOver p d.journal

theorem DrainWaitInv.commit {base : List Broker.Request} {shares : Partition → Share} {l : Ledger}
    {ps : List Partition} {held : Lanes} {d : OrderedDispatcher} {staged : Offsets}
    (h : DrainWaitInv base shares l ps held [] d staged) (hmark : ∀ p, (shares p).mark = l.mark p) :
    HandOverInv base shares l ps held (d.commitRevoked staged) := by
  have hforget : AccountsInv d.workers d.journal (l.forget ps) shares :=
    { h.accounts with toJournalInv := h.accounts.toJournalInv.forget ps }
  have hdone (p : Partition) (hp : p ∈ ps) (hintime : InTime p d.journal) (id : ProcessorId)
      (hid : (shares p).processor = some id) : d.workers.Done id := by
    rcases h.stagedProgress p hp hintime with hready | ⟨⟨_, hmem⟩, -⟩
    · exact hready.done id hid
    · exact absurd hmem List.not_mem_nil
  rcases d.commitRevoked_cases staged with
    ⟨hempty, heq⟩ | ⟨accepted, e, he, hfailed, hw, hh, hl, hj, hb⟩
  · rw [heq]
    refine ⟨⟨hforget, h.active, h.unstopped, h.linked⟩, h.held, h.ledger, hdone,
      fun p hp hintime _ hs h0 r hr => ?_⟩
    have hcommitted := h.or_lastCommitted hmark hp hintime hs hr
      (h0 r ((h.accounts.account p).polled_starts_with_handled.subset (List.mem_of_getLast? hr)))
    rwa [Table.isEmpty_iff.mp hempty p, Option.none_or] at hcommitted
  · have hrevoking : e.isRevoking = false := by
      cases e with
      | revoking ps => exact absurd he nofun
      | _ => rfl
    have hsame (p : Partition) : period p (e :: d.journal) = period p d.journal := by
      rw [period_cons, Period.next_of_request? he]
    refine ⟨⟨?_, ?_, ?_, ?_⟩, hh.trans h.held, hl.trans h.ledger, ?_, ?_⟩
    · rw [hw, hj]
      refine hforget.request he (hforget.toJournalInv.commitOther he fun p c hc => ?_)
      obtain ⟨hp, hsettled⟩ := h.settled p c hc
      exact ⟨hsettled, by rw [Ledger.flushed_forget, if_pos hp]⟩
    · rw [hh]
      exact h.active
    · rw [hh, hw]
      exact h.unstopped
    · exact h.linked.request he hb hj
    · rw [hj, hw]
      exact fun p hp hintime => hdone p hp (hintime.of_cons hrevoking)
    · rw [hj]
      intro p hp hintime haccepted hs h0 r hr
      rw [hsame] at hs h0 hr
      have hcommitted := h.or_lastCommitted hmark hp (hintime.of_cons hrevoking) hs hr
        (h0 r ((h.accounts.account p).polled_starts_with_handled.subset
          (List.mem_of_getLast? hr)))
      rcases hfailed with rfl | ⟨error, rfl⟩
      · rw [lastCommitted_cons_commit he, if_pos rfl, hcommitted]
      · exact absurd (haccepted _ List.mem_cons_self) nofun

theorem HandOverInv.revoked {base : List Broker.Request} {ps : List Partition} {held : Lanes}
    {d₀ d : OrderedDispatcher} (h₀ : LanesInv base [] d₀)
    (h : HandOverInv base (share [] d₀) d₀.ledger ps held d)
    (hactive : ∀ p, held.active.find? p = if p ∈ ps then none else d₀.held.active.find? p)
    (hdeferred : ∀ p, held.deferred.find? p =
      if p ∈ ps then none else d₀.held.deferred.find? p) (n : Nat) :
    LanesInv base [] (d.tell [.revoked ps n]) := by
  refine ⟨⟨?_, fun _ _ ha => ha, h.unstopped, h.linked⟩, fun p b hb => ?_⟩
  · have hledger : (d.tell [.revoked ps n]).ledger = d₀.ledger.forget ps := h.ledger
    rw [hledger]
    refine h.accounts.revoked n (fun p hp => by rw [Ledger.mark_forget, if_pos hp]) h.done
      h.handedOver fun p => ?_
    simp only [share, deferredRecords, Dispatcher.tell, h.held, hactive, hdeferred, h.ledger,
      Ledger.mark_forget]
    split
    · simp [recordsOf]
    · rfl
  · simp only [Dispatcher.tell, h.held, hdeferred] at hb
    split at hb
    · cases hb
    · next hp =>
      obtain ⟨hpartition, hbusy⟩ := h₀.deferred p b hb
      refine ⟨hpartition, ?_⟩
      simp only [Dispatcher.tell, h.held, Table.contains, hactive, if_neg hp]
      exact hbusy

theorem LanesInv.revoke {base : List Broker.Request} {d : OrderedDispatcher}
    (h : LanesInv base [] d)
    (m : Meanwhile) (ps : List Partition) : LanesInv base [] (d.revoke m ps) := by
  unfold Dispatcher.revoke
  split
  · exact h
  · have hbegin : LanesInv base [] (d.tell [.revoking ps]) :=
      h.quiet (.tellOne _ rfl)
    obtain ⟨held, hactive, hdeferred, hstaging⟩ := hbegin.drain m ps
    exact (hstaging.commit fun _ => rfl).revoked hbegin hactive hdeferred _

end RecordDispatch.OrderedDispatcher
