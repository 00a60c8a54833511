import RecordDispatch.Proofs.Ordered.Flow
import RecordDispatch.Proofs.RisingCommits

/-!
# Commits of an ordered dispatcher rise

A cycle changes the ledger by recording offsets and by committing what is
pending.  A drain hands over what was pending for its partitions, and in place
of this the progress of their processors if these are done and have handled
something (`staged_drain`).  That progress is the offset after the last handled
record of the partition, so that it reaches the mark (`LanesInv.atLeastMarks`).
-/

namespace RecordDispatch.OrderedDispatcher

open Dispatch Dispatcher

/-! ## What a drain hands over -/

/-- The offset is the progress of a processor that is done. -/
def Attained (w : Workers) (id : ProcessorId) (offset : Int) : Prop :=
  ∃ q, w.processor? id = some q ∧ q.isDone = true ∧ q.committable? = some offset

theorem Attained.later {w w' : Workers} {id : ProcessorId} {offset : Int}
    (h : Attained w id offset) (hw : w.Later w') : Attained w' id offset := by
  obtain ⟨q, hq, hd, hc⟩ := h
  exact ⟨q, hw.done hq hd, hd, hc⟩

section Drain

variable (m : Meanwhile)

theorem later_answered (d : OrderedDispatcher) (e : Partition × ProcessorId) :
    (d.awaitProcessor m e.2 d.settings.revokeDrainTimeout).workers.Later
      (answered m e d).workers :=
  Workers.run_later _ _

theorem later_drainOne (s : OrderedDispatcher × Offsets) (e : Partition × ProcessorId) :
    s.1.workers.Later (drainOne m s e).1.workers := by
  obtain ⟨result, htold⟩ := told_drainOne m s e
  rw [htold]
  exact (s.1.worked_await m _ _ _).later.trans (later_answered m s.1 e)

/-- A positive answer is the progress of the processor. -/
theorem attained_answer (d : OrderedDispatcher) (e : Partition × ProcessorId)
    (hpos : 0 < answer m e d) : Attained (answered m e d).workers e.2 (answer m e d) := by
  refine Attained.later ?_ (later_answered m d e)
  unfold answer at hpos ⊢
  dsimp only at hpos ⊢
  cases hq : (d.awaitProcessor m e.2 d.settings.revokeDrainTimeout).workers.processor? e.2 with
  | none =>
    rw [hq] at hpos
    exact absurd hpos (by decide)
  | some q =>
    rw [hq] at hpos
    obtain ⟨hd, hoffset⟩ := Processor.awaited_pos hpos
    exact ⟨q, hq, hd, hoffset⟩

/-- Waiting for a processor changes what is staged for its partition only, and
puts nothing there but the progress of the processor. -/
theorem staged_drainOne (s : OrderedDispatcher × Offsets) (e : Partition × ProcessorId)
    {p : Partition} {c : Int} (hc : (drainOne m s e).2.find? p = some c) :
    s.2.find? p = some c ∨ p = e.1 ∧ Attained (drainOne m s e).1.workers e.2 c := by
  obtain ⟨result, htold⟩ := told_drainOne m s e
  rw [find?_staged] at hc
  rw [htold]
  split at hc
  · next hp =>
    split at hc
    · next hpos => exact Or.inr ⟨hp, Option.some.inj hc ▸ attained_answer m s.1 e hpos⟩
    · split at hc
      · exact Or.inl hc
      · exact absurd hc nofun
  · exact Or.inl hc

theorem staged_drainAll (es : List (Partition × ProcessorId)) (s : OrderedDispatcher × Offsets)
    {p : Partition} {c : Int} (hc : (es.foldl (drainOne m) s).2.find? p = some c) :
    s.2.find? p = some c ∨
      ∃ id, (p, id) ∈ es ∧ Attained (es.foldl (drainOne m) s).1.workers id c := by
  induction es generalizing s with
  | nil => exact Or.inl hc
  | cons e es ih =>
    rw [List.foldl_cons] at hc ⊢
    rcases ih _ hc with hstaged | ⟨id, hid, hattained⟩
    · rcases staged_drainOne m s e hstaged with hold | ⟨rfl, hattained⟩
      · exact Or.inl hold
      · refine Or.inr ⟨e.2, List.mem_cons_self, hattained.later ?_⟩
        exact foldl_rel (R := fun d d' => d.workers.Later d'.workers) (fun d => .refl d.workers)
          (fun h₁ h₂ => h₁.trans h₂) Prod.fst (later_drainOne m) es _
    · exact Or.inr ⟨id, List.mem_cons_of_mem e hid, hattained⟩

end Drain

variable {base : List Broker.Request} {d : OrderedDispatcher}

/-- A drain hands over what was pending or the progress of the active
processor. -/
theorem staged_drain (d : OrderedDispatcher) (m : Meanwhile) (ps : List Partition)
    {p : Partition} {c : Int} (hc : (OrderedDispatcher.drain d m ps).2.find? p = some c) :
    d.ledger.get? p = some c ∨
      ∃ id, d.held.active.find? p = some id ∧
        Attained (OrderedDispatcher.drain d m ps).1.workers id c := by
  have hempty := emptied_stopAll m d ps
  have hmem := mem_stopAll m d ps
  unfold OrderedDispatcher.drain at hc ⊢
  generalize OrderedDispatcher.stopAll d m ps = s at hempty hmem hc ⊢
  obtain ⟨d₁, draining⟩ := s
  rcases staged_drainAll m draining _ hc with hpending | ⟨id, hid, hattained⟩
  · rw [hempty.ledger, Ledger.find?_pendingOf] at hpending
    split at hpending
    · exact Or.inl hpending
    · exact absurd hpending nofun
  · exact Or.inr ⟨id, ((hmem p id).mp hid).2, hattained⟩

/-- What a drain hands over reaches the marks. -/
theorem LanesInv.atLeastMarks (h : LanesInv base [] d) (m : Meanwhile) (ps : List Partition) :
    AtLeastMarks d.ledger d.journal ps (OrderedDispatcher.drain d m ps).2 := by
  obtain ⟨held, -, -, hstaging⟩ := h.drain m ps
  intro p c hc
  refine ⟨(hstaging.settled p c hc).1, fun hinOrder k hk => ?_⟩
  rcases staged_drain d m ps hc with hpending | ⟨id, hid, q, hq, -, hcommittable⟩
  · rw [Ledger.mark, hpending, Option.some_or] at hk
    exact Int.le_of_eq (Option.some.inj hk).symm
  · have hpolled := (tells_drain d m ps).polled p
    refine (hstaging.accounts.account p).mark_le_committable
      (fun c hc => hstaging.accounts.backed.mark hc) ?_ hid hq hcommittable hk
    exact hpolled ▸ hinOrder

/-! ## Cycles -/

theorem plain_start (d : OrderedDispatcher) (batch : Batch) : Plain d (start d batch) := by
  have hstarted : Plain d (d.tell [.started d.workers.nextId batch]) :=
    .tellOne d ⟨rfl, nofun⟩
  exact ((hstarted.trans (.submit _ batch)).trans (.hold _ _)).trans (.withGate _ _)

theorem plain_receive (d : OrderedDispatcher) (batch : Batch) : Plain d (receive d batch) := by
  unfold receive
  split
  · exact .refl d
  · have hnote : Plain d (d.noteTopic batch) := .ofSilent rfl rfl
    dsimp only
    split
    · exact (hnote.trans (.hold _ _)).trans (.tellOne _ ⟨rfl, nofun⟩)
    · exact hnote.trans (plain_start _ batch)

theorem plain_retireOne (s : OrderedDispatcher × List Partition) (p : Partition) :
    Plain s.1 (retireOne s p).1 := by
  obtain ⟨d, idle⟩ := s
  unfold retireOne
  dsimp only
  split
  · exact ((Plain.hold d _).trans (.hold _ _)).trans (plain_start _ _)
  · exact .hold d _

theorem plain_retire (d : OrderedDispatcher) (done : List Partition) :
    Plain d (retire d done) := by
  have hretired := foldl_rel Plain.refl Plain.trans Prod.fst plain_retireOne done (d, [])
  exact hretired.trans (.withGate _ _)

theorem risingInv_harvestOne (m : Meanwhile) (s : OrderedDispatcher × List Partition)
    (e : Partition × ProcessorId) (h : RisingInv s.1) : RisingInv (harvestOne m s e).1 := by
  obtain ⟨d, done⟩ := s
  have hread : RisingInv ((d.pass m (.completion e.2)).pass m (.progress e.2)) :=
    (h.plain (.work d _)).plain (.work _ _)
  unfold harvestOne
  dsimp only
  split
  · exact hread.record _ _
  · exact hread

theorem risingInv_harvest (m : Meanwhile) (h : RisingInv d) : RisingInv (harvest d m).1 :=
  foldl_keeps Prod.fst (risingInv_harvestOne m) d.held.active.entries (d, []) h

theorem risingInv_takeUp (h : RisingInv d) (m : Meanwhile) (batches : List Batch) :
    RisingInv (takeUp d m batches).1 := by
  have hpolled : Plain d (d.tell [.polled batches]) := .tellOne d ⟨rfl, nofun⟩
  have hreceived : RisingInv (batches.foldl receive (d.tell [.polled batches])) :=
    h.plain (hpolled.trans (foldl_rel Plain.refl Plain.trans id plain_receive batches _))
  unfold takeUp
  dsimp only
  generalize batches.foldl receive (d.tell [.polled batches]) = d₁ at hreceived ⊢
  have hretired := (risingInv_harvest m hreceived).plain (plain_retire _ (harvest d₁ m).2)
  refine RisingInv.commit (hretired.plain ?_) false
  exact (Plain.tellOne _ (e := .active _) ⟨rfl, nofun⟩).trans (.quiet (.report _ rfl))

/-! ## Every run -/

theorem kept_risingInv (base : List Broker.Request) :
    Dispatcher.Kept fun d : OrderedDispatcher => LanesInv base [] d ∧ RisingInv d where
  quiet h hq := ⟨h.1.quiet hq, h.2.plain (.quiet hq)⟩
  work steps h := ⟨h.1.work steps, h.2.plain (.work _ steps)⟩
  revoke m ps h := by
    have hbegin := h.1.quiet (.tellOne _ (e := .revoking ps) rfl)
    obtain ⟨held, -, -, hstaging⟩ := hbegin.drain m ps
    exact ⟨h.1.revoke m ps, h.2.revoke m ps hstaging.ledger (hbegin.atLeastMarks m ps)⟩

theorem risingInv_run (settings : Settings) (size : Nat) (handler : Handler) (broker : Broker)
    (moves : List Move) :
    let d : OrderedDispatcher :=
      (Dispatcher.initial settings (Workers.ofSize size handler) broker).run moves
    LanesInv broker.commitRequests [] d ∧ RisingInv d :=
  (kept_risingInv _).run
    (fun m t h => cycle_keeps (kept_risingInv _)
      (fun m batches h => ⟨h.1.takeUp m, risingInv_takeUp h.2 m batches⟩) h m t)
    (fun m t h => shutdown_keeps (kept_risingInv _)
      (fun m h => ⟨(h.1.harvest m).lanesInv, risingInv_harvest m h.2⟩)
      (fun forced h => ⟨h.1.commit forced, h.2.commit forced⟩) h m t)
    ⟨lanesInv_initial settings size handler broker, risingInv_initial _ _ _⟩ moves

end RecordDispatch.OrderedDispatcher
