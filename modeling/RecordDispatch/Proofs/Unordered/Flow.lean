import RecordDispatch.Dispatch.Unordered
import RecordDispatch.Proofs.Flow

/-!
# Flow control and the work of an unordered dispatcher

No processor of an unordered dispatcher has to do with flow control: all that
the dispatcher does with them is steady.
-/

namespace RecordDispatch.UnorderedDispatcher

open Dispatch Dispatcher

/-! ## Draining -/

section Drain

variable {R : UnorderedDispatcher → UnorderedDispatcher → Prop} (hR : DrainSteps R)
  (m : Meanwhile)
include hR

theorem stopProcessor_rel (d : UnorderedDispatcher) (id : ProcessorId) :
    R d (stopProcessor m d id) :=
  hR.trans (hR.stop d id) (hR.work _ _)

theorem stopOne_rel (s : UnorderedDispatcher × List (Partition × List ProcessorId))
    (p : Partition) : R s.1 (stopOne m s p).1 := by
  obtain ⟨d, draining⟩ := s
  unfold stopOne
  dsimp only
  split
  · next ids _ =>
    exact hR.trans (hR.hold d _) (hR.foldl id (stopProcessor_rel hR m) ids _)
  · exact hR.refl d

theorem awaitFinished_rel (deadline : Instant) (s : UnorderedDispatcher × Bool)
    (id : ProcessorId) : R s.1 (awaitFinished m deadline s id).1 :=
  hR.trans (hR.await s.1 m _ _ _) (hR.work _ _)

theorem drainOne_rel (deadline : Instant) (s : UnorderedDispatcher × Offsets)
    (e : Partition × List ProcessorId) : R s.1 (drainOne m deadline s e).1 := by
  obtain ⟨d, staged⟩ := s
  have hwait : R d (e.2.foldl (awaitFinished m deadline) (d, true)).1 :=
    hR.foldl Prod.fst (awaitFinished_rel hR m deadline) e.2 (d, true)
  unfold drainOne
  dsimp only
  split
  · exact hR.trans hwait (hR.tellOne _ rfl)
  · split <;> exact hR.trans hwait (hR.tellOne _ rfl)

theorem drain_rel (d : UnorderedDispatcher) (ps : List Partition) :
    ∃ d₁, R d d₁ ∧ (drain d m ps).1 = d₁.setMonitor (d₁.monitor.removeAll ps) := by
  have hstop : R d (ps.foldl (stopOne m) (d, [])).1 :=
    hR.foldl Prod.fst (stopOne_rel hR m) ps (d, [])
  unfold drain
  generalize ps.foldl (stopOne m) (d, []) = s at hstop ⊢
  obtain ⟨d₁, draining⟩ := s
  have hwait := hR.foldl Prod.fst
    (drainOne_rel hR m (Duration.after d₁.now d₁.settings.revokeDrainTimeout)) draining
    ({ d₁ with ledger := d₁.ledger.forget ps }, d₁.ledger.pendingOf ps)
  exact ⟨_, hR.trans (hR.trans hstop (hR.forget d₁ ps)) hwait, rfl⟩

end Drain

instance : Held.DrainsInSteps InFlight where
  drain_rel hR d m ps := drain_rel hR m d ps

variable (d : UnorderedDispatcher) (m : Meanwhile)

/-! ## The cycle -/

theorem still_awaitAll (deadline : Instant) (ids : List ProcessorId) :
    Still d (awaitAll m deadline d ids).1 := by
  induction ids generalizing d with
  | nil => exact .refl d
  | cons id ids ih =>
    unfold awaitAll
    dsimp only
    split
    · exact .refl d
    · have hwait : Still d (d.awaitProcessor m id (Duration.between d.now deadline)) :=
        .await d m _ _ _
      split
      · exact hwait.trans (ih _)
      · exact hwait

theorem still_settleOne (e : Partition × List ProcessorId) : Still d (settleOne d e) := by
  unfold settleOne
  split
  · exact .record d _ _
  · exact .refl d

theorem still_settle : Still d (settle d m).1 := by
  have hwait := still_awaitAll d m (Duration.after d.now d.settings.pollTimeout) (pending d)
  unfold settle
  split
  · next d' heq =>
    rw [heq] at hwait
    have hsettle := foldl_rel .refl .trans id still_settleOne d'.held.processors.entries d'
    exact (hwait.trans hsettle).trans (.hold _ _)
  · next d' heq =>
    rw [heq] at hwait
    exact hwait

theorem steady_startSingle (p : Partition) (single : Batch) :
    Steady d (startSingle p d single) :=
  (Steady.submit d single).trans (Still.hold _ _).toSteady

theorem steady_receive (batch : Batch) : Steady d (receive d batch) := by
  unfold receive
  split
  · exact .refl d
  · dsimp only
    have hbegin := (Still.noteTopic d batch).toSteady.trans (.tellOne _ (e := .startedSingles
      ((List.range batch.size).map (d.workers.nextId + ·)) batch) rfl)
    exact hbegin.trans
      (foldl_rel .refl .trans id (fun d => steady_startSingle d batch.partition) batch.singles _)

theorem steady_takeUp (batches : List Batch) : Steady d (takeUp d batches).1 := by
  have hreceive := foldl_rel .refl .trans id steady_receive batches (d.tell [.polled batches])
  have hpolled := (Still.tellOne d (e := .polled batches) rfl).toSteady.trans hreceive
  refine hpolled.trans (Still.toSteady ?_)
  exact ((Still.tellOne _ rfl).trans (.report _ rfl)).trans (.commit _ false)

/-! ## Statements about flow control -/

section Kept

variable {P : UnorderedDispatcher → Prop} {d : UnorderedDispatcher}

/-- A cycle pauses and resumes nothing for processors. -/
theorem cycle_keepsFlow (hk : SteadyKept P) (m : Meanwhile) (t : Duration)
    (h : P (d.elapse t).applyRequests) : P (cycle d m t).1 := by
  have hsettled := hk.still h (still_settle _ m)
  unfold cycle
  dsimp only
  split
  · next heq =>
    rw [heq] at hsettled
    exact hk.still hsettled ((Still.report _ rfl).trans (.commit _ false))
  · next heq =>
    rw [heq] at hsettled
    have hpolled := hk.poll hsettled m
    split
    · next heq =>
      rw [heq] at hpolled
      exact hk.still hpolled (.tellOne _ rfl)
    · next heq =>
      rw [heq] at hpolled
      exact hk.steady hpolled (steady_takeUp _ _)

theorem shutdown_keepsFlow (hk : FlowKept P) (m : Meanwhile) (t : Duration) (h : P d) :
    P (shutdown d m t) := by
  have hbegin := hk.still h ((Still.elapse d t).trans
    (.tellOne _ (e := .shuttingDown .unordered) rfl))
  have hsettled := hk.still hbegin (still_settle _ m)
  unfold shutdown
  dsimp only
  generalize settle ((d.elapse t).tell [.shuttingDown .unordered]) m = s at hsettled ⊢
  have hleft : P (if s.2 = true then s.1 else s.1.tell [.leftInFlight]) := by
    split
    · exact hsettled
    · exact hk.still hsettled (.tellOne _ rfl)
  exact hk.still (hk.close m (hk.still hleft (.commit _ true))) (still_terminate _ m)

end Kept

instance : Cycled.KeepsFlow InFlight where
  cycle hk _ m t h := cycle_keepsFlow hk.toSteadyKept m t h
  shutdown hk _ m t h := shutdown_keepsFlow hk m t h

end RecordDispatch.UnorderedDispatcher
