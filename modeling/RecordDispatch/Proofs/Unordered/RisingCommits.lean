import RecordDispatch.Proofs.RisingCommits
import RecordDispatch.Proofs.Unordered.Marks

/-!
# Commits of an unordered dispatcher rise

A cycle records offsets and commits what is pending.  A drain hands over what
was pending for its partitions, raised to the highest offset of their processors
if all of these have finished.  The mark of a partition may stand higher than
what is pending, for it counts what was committed before; but it does not stand
above a record that is in flight, and so not above the progress of its processor
(`MarksInv.atLeastMarks`).
-/

namespace RecordDispatch.UnorderedDispatcher

open Dispatch Dispatcher

/-! ## What a drain hands over -/

/-- No record of some processors lies below an offset. -/
def FliesFrom (w : Workers) (ids : List ProcessorId) (low : Int) : Prop :=
  ∀ id ∈ ids, ∀ q, w.processor? id = some q → ∀ r ∈ q.batch.records, low ≤ r.offset

section Drain

variable {w w' : Workers} {ids : List ProcessorId} {low : Int}

theorem FliesFrom.congr (h : FliesFrom w ids low)
    (hw : ∀ id, (w'.processor? id).map (·.batch) = (w.processor? id).map (·.batch)) :
    FliesFrom w' ids low := by
  intro id hid q' hq'
  exact Workers.forall_batch (P := fun b => ∀ r ∈ b.records, low ≤ r.offset) (hw id) (h id hid) hq'

/-- The progress of these processors does not lie below it either. -/
theorem FliesFrom.le_highest (h : FliesFrom w ids low) {offset : Int}
    (ho : highest? w ids = some offset) : low ≤ offset := by
  obtain ⟨id, hid, hcommittable⟩ := List.mem_filterMap.mp (List.max?_mem ho)
  cases hq : w.processor? id with
  | none => simp [Workers.committable?, hq] at hcommittable
  | some q =>
    rw [Workers.committable?, hq, Option.bind_some] at hcommittable
    obtain ⟨hpos, hnext⟩ := Processor.committable?_eq_some.mp hcommittable
    rw [← hnext] at hpos
    obtain ⟨r, hr, hoff⟩ := Processor.exists_getLast?_of_nextOffset_pos hpos
    have hrecord : r ∈ q.batch.records := by
      rw [← q.handled_append_upcoming]
      exact List.mem_append_left _ (List.mem_of_getLast? hr)
    have := h id hid q hq r hrecord
    omega

variable (m : Meanwhile) (deadline : Instant)

theorem low_drainOne (s : UnorderedDispatcher × Offsets) (e : Partition × List ProcessorId)
    {p : Partition} (hflies : e.1 = p → FliesFrom s.1.workers e.2 low)
    (hs : ∀ c, s.2.find? p = some c → low ≤ c) :
    ∀ c, (drainOne m deadline s e).2.find? p = some c → low ≤ c := by
  have hwait : Still s.1 (e.2.foldl (awaitFinished m deadline) (s.1, true)).1 :=
    drainSteps_still.foldl Prod.fst (awaitFinished_rel drainSteps_still m deadline) e.2 (s.1, true)
  intro c hc
  rw [staged_drainOne] at hc
  split at hc
  · next hp =>
    rcases Option.merge_eq_or_eq Std.MaxEqOr.max_eq_or (s.2.find? p)
      (highest? (e.2.foldl (awaitFinished m deadline) (s.1, true)).1.workers e.2) with
      hpending | hhighest
    · exact hs c (hpending ▸ hc)
    · exact ((hflies hp.1.symm).congr hwait.batches).le_highest (hhighest ▸ hc)
  · exact hs c hc

theorem low_drainAll (es : List (Partition × List ProcessorId))
    (s : UnorderedDispatcher × Offsets) {p : Partition}
    (hflies : ∀ e ∈ es, e.1 = p → FliesFrom s.1.workers e.2 low)
    (hs : ∀ c, s.2.find? p = some c → low ≤ c) :
    ∀ c, (es.foldl (drainOne m deadline) s).2.find? p = some c → low ≤ c := by
  induction es generalizing s with
  | nil => exact hs
  | cons e es ih =>
    have hstill := drainOne_rel drainSteps_still m deadline s e
    refine ih _ (fun e' he' hp => ?_)
      (low_drainOne m deadline s e (hflies e List.mem_cons_self) hs)
    exact (hflies e' (List.mem_cons_of_mem e he') hp).congr hstill.batches

end Drain

variable {base : List Broker.Request} {d : UnorderedDispatcher}

/-- What a drain hands over reaches the marks. -/
theorem MarksInv.atLeastMarks (h : MarksInv [] d) (hs : FlightInv base [] d) (m : Meanwhile)
    (ps : List Partition) :
    AtLeastMarks d.ledger d.journal ps (UnorderedDispatcher.drain d m ps).2 := by
  obtain ⟨held, -, hstaging⟩ := hs.drain m ps
  intro p c hc
  refine ⟨(hstaging.settled p c hc).1, fun hinOrder low hlow => ?_⟩
  have hempty := emptied_stopAll m d [] ps
  have hmem := mem_stopAll m d [] ps
  have hstop : Still d (ps.foldl (stopOne m) (d, [])).1 :=
    drainSteps_still.foldl Prod.fst (stopOne_rel drainSteps_still m) ps (d, [])
  unfold UnorderedDispatcher.drain at hc
  generalize ps.foldl (stopOne m) (d, []) = s at hempty hmem hstop hc
  obtain ⟨d₁, draining⟩ := s
  refine low_drainAll m _ draining _ (fun e he hp => ?_) (fun c hc => ?_) c hc
  · obtain ⟨-, hfind⟩ := ((hmem e.1 e.2).mp he).resolve_left List.not_mem_nil
    rw [← held_flightOf d e.1 e.2 hfind, hp]
    have hflies : FliesFrom d.workers (flightOf d p) low := fun id hid q hq r hr =>
      (h p).above hinOrder low hlow r (Or.inr ⟨id, hid, q, hq, hr⟩)
    exact hflies.congr hstop.batches
  · rw [hempty.ledger, Ledger.find?_pendingOf] at hc
    split at hc
    · rw [Ledger.mark, hc, Option.some_or] at hlow
      exact Int.le_of_eq (Option.some.inj hlow).symm
    · cases hc

/-! ## Cycles -/

theorem plain_startSingle (p : Partition) (d : UnorderedDispatcher) (single : Batch) :
    Plain d (startSingle p d single) :=
  (Plain.submit d single).trans (.hold _ _)

theorem plain_receive (d : UnorderedDispatcher) (batch : Batch) : Plain d (receive d batch) := by
  unfold receive
  split
  · exact .refl d
  · have hnote : Plain d (d.noteTopic batch) := .ofSilent rfl rfl
    have htold := hnote.trans (.tellOne _ (e := .startedSingles
      ((List.range batch.size).map (d.workers.nextId + ·)) batch) ⟨rfl, nofun⟩)
    exact htold.trans (foldl_rel Plain.refl Plain.trans id
      (plain_startSingle batch.partition) batch.singles _)

theorem risingInv_takeUp (h : RisingInv d) (batches : List Batch) :
    RisingInv (takeUp d batches).1 := by
  have hpolled : Plain d (d.tell [.polled batches]) := .tellOne d ⟨rfl, nofun⟩
  have hreceived : RisingInv (batches.foldl receive (d.tell [.polled batches])) :=
    h.plain (hpolled.trans (foldl_rel Plain.refl Plain.trans id plain_receive batches _))
  refine RisingInv.commit (hreceived.plain ?_) false
  exact (Plain.tellOne _ (e := .active _) ⟨rfl, nofun⟩).trans (.quiet (.report _ rfl))

theorem risingInv_settle (h : RisingInv d) (hs : FlightInv base [] d) (m : Meanwhile) :
    RisingInv (settle d m).1 := by
  have hone (d : UnorderedDispatcher) (e : Partition × List ProcessorId) (h : RisingInv d) :
      RisingInv (settleOne d e) := by
    unfold settleOne
    split
    · exact h.record _ _
    · exact h
  obtain ⟨d', -, hworked, hend⟩ := hs.settle_cases m
  have hwaited : RisingInv d' := h.plain (.worked hworked)
  rcases hend with heq | ⟨-, heq⟩
  · rw [heq]
    exact hwaited
  · rw [heq]
    exact (foldl_keeps id hone d'.held.processors.entries d' hwaited).plain (.hold _ _)

/-! ## Every run -/

/-- The dispatcher accounts for its work, its marks stand between settled and open
records, and its commits rise. -/
structure RisingRunInv (base : List Broker.Request) (d : UnorderedDispatcher) : Prop where
  flightInv : FlightInv base [] d
  marksInv : MarksInv [] d
  rising : RisingInv d

theorem kept_risingRunInv (base : List Broker.Request) : Kept (RisingRunInv base) where
  quiet h hq := ⟨h.flightInv.quiet hq, h.marksInv.quiet hq, h.rising.plain (.quiet hq)⟩
  work steps h := ⟨h.flightInv.work steps, h.marksInv.work steps, h.rising.plain (.work _ steps)⟩
  revoke {d} m ps h := by
    have hquiet : Quiet d (d.tell [.revoking ps]) := .tellOne d rfl
    have hbegin := h.flightInv.quiet hquiet
    obtain ⟨held, -, hstaging⟩ := hbegin.drain m ps
    exact ⟨h.flightInv.revoke m ps, h.marksInv.revoke h.flightInv m ps,
      h.rising.revoke m ps hstaging.ledger ((h.marksInv.quiet hquiet).atLeastMarks hbegin m ps)⟩

theorem risingRunInv_run (settings : Settings) (size : Nat) (handler : Handler) (broker : Broker)
    (moves : List Move) :
    RisingRunInv broker.commitRequests
      ((initial settings (Workers.ofSize size handler) broker).run moves) := by
  have hsettle {d : UnorderedDispatcher} (m : Meanwhile)
      (h : RisingRunInv broker.commitRequests d) :
      RisingRunInv broker.commitRequests (settle d m).1 :=
    ⟨h.flightInv.settle m, h.marksInv.settle h.flightInv m, risingInv_settle h.rising h.flightInv m⟩
  have hcommit {d : UnorderedDispatcher} (forced : Bool)
      (h : RisingRunInv broker.commitRequests d) :
      RisingRunInv broker.commitRequests (d.commit forced) :=
    ⟨h.flightInv.commit forced, h.marksInv.commit forced, h.rising.commit forced⟩
  have htakeUp {d : UnorderedDispatcher} (batches : List Batch)
      (h : RisingRunInv broker.commitRequests d) :
      RisingRunInv broker.commitRequests (takeUp d batches).1 :=
    ⟨h.flightInv.takeUp, h.marksInv.takeUp h.flightInv batches, risingInv_takeUp h.rising batches⟩
  have hk := kept_risingRunInv broker.commitRequests
  exact hk.run (fun m t h => cycle_keeps hk hsettle hcommit htakeUp h m t)
    (fun m t h => shutdown_keeps hk hsettle hcommit h m t)
    ⟨flightInv_initial settings size handler broker, marksInv_initial _ _ _,
      risingInv_initial _ _ _⟩ moves

end RecordDispatch.UnorderedDispatcher
