import RecordDispatch.Proofs.Processor.View

/-!
# The life of a processor

What becomes of a processor while its worker, those who stop it and those who
wait for it take turns in any order, as long as they may go on.

* The stage makes the four moves of `Stage.Moves` and no others, one at a time
  (`stage_step`).
* Once the processor is done nothing changes any more (`unchangedOnceDone_run`).
* If it is asked to stop before it is picked up, no record is handled
  (`StoppedBeforePickup`).
* `AccessInv.lifeInv` reads off the invariant what is so at every moment.
* `lives_in_order` is the result for all orders of turns.
-/

namespace RecordDispatch.Processor

/-- How the stage of a processor changes. -/
inductive Stage.Moves : Stage → Stage → Prop
  | start : Moves .created .running
  | finish : Moves .running .finished
  | stop : Moves .running .stopped
  | stopUnstarted : Moves .created .stopped

theorem Stage.Moves.not_terminal {a b : Stage} (h : a.Moves b) : a.isTerminal = false := by
  cases h <;> rfl

namespace Interleaved

variable {s s' s'' : Interleaved}

/-- The stage stays or makes one move. -/
theorem stage_step (h : s.AccessInv) (t : Turn) :
    (s.step t).cell.stage = s.cell.stage ∨ s.cell.stage.Moves (s.step t).cell.stage := by
  cases t with
  | worker =>
    have hplaced := h.placed
    unfold Placed at hplaced
    simp only [step, work]
    cases hw : s.worker with
    | arriving =>
      dsimp only
      split
      · next hc => exact .inr (hc ▸ .start)
      · exact .inl rfl
    | looking =>
      dsimp only
      split
      · exact .inl rfl
      · split <;> exact .inl rfl
    | ending stage =>
      simp only [hw] at hplaced
      obtain ⟨hrunning, ⟨rfl, -⟩ | ⟨rfl, -⟩⟩ := hplaced
      · exact .inr (hrunning ▸ .finish)
      · exact .inr (hrunning ▸ .stop)
    | _ => exact .inl rfl
  | call => exact .inl rfl
  | stopper i =>
    simp only [step]
    split
    · exact .inl rfl
    · next t hi =>
      have ht := h.stoppers t (List.mem_of_getElem? hi)
      cases t with
      | taking =>
        dsimp only [Stopper.step]
        split
        · next hc => exact .inr (hc ▸ .stopUnstarted)
        · exact .inl rfl
      | ending => exact .inl ht.1.symm
      | _ => exact .inl rfl

/-! ## At the end -/

/-- What no longer changes once a processor is done. -/
structure UnchangedOnceDone (s s' : Interleaved) : Prop where
  stage : s'.cell.stage = s.cell.stage
  next : s'.cell.next = s.cell.next
  count : s'.cell.count = s.cell.count
  handled : s'.handled = s.handled

theorem UnchangedOnceDone.trans (h : s.UnchangedOnceDone s') (h' : s'.UnchangedOnceDone s'') :
    s.UnchangedOnceDone s'' :=
  ⟨h'.stage.trans h.stage, h'.next.trans h.next, h'.count.trans h.count,
    h'.handled.trans h.handled⟩

/-- Who stops a processor leaves its counters alone. -/
theorem counters_stopper (c : Cell) (t : Stopper) :
    (t.step c).1.next = c.next ∧ (t.step c).1.count = c.count := by
  cases t with
  | taking => by_cases hc : c.stage = .created <;> simp [Stopper.step, hc]
  | _ => exact ⟨rfl, rfl⟩

/-- The worker leaves a processor that is done as it is. -/
theorem unchangedOnceDone_work (h : s.AccessInv) (hd : s.cell.stage.isTerminal = true) :
    s.UnchangedOnceDone s.work := by
  have hplaced := h.placed
  unfold Placed at hplaced
  unfold work
  cases hw : s.worker <;> simp only [hw] at hplaced
  case arriving =>
    have hc : s.cell.stage ≠ .created := fun hc => by simp [hc, Stage.isTerminal] at hd
    rw [if_neg hc]
    exact ⟨rfl, rfl, rfl, rfl⟩
  case turnedAway | signalling | gone => exact ⟨rfl, rfl, rfl, rfl⟩
  -- everywhere else the worker has a processor that is running
  all_goals simp [hplaced, Stage.isTerminal] at hd

theorem unchangedOnceDone_step (h : s.AccessInv) (hd : s.cell.stage.isTerminal = true) (t : Turn) :
    s.UnchangedOnceDone (s.step t) := by
  cases t with
  | worker => exact unchangedOnceDone_work h hd
  | call => exact ⟨rfl, rfl, rfl, rfl⟩
  | stopper i =>
    have hstage : (s.step (.stopper i)).cell.stage = s.cell.stage := by
      refine (stage_step h _).resolve_right fun hmove => ?_
      rw [hmove.not_terminal] at hd
      exact absurd hd Bool.false_ne_true
    simp only [step] at hstage ⊢
    split at hstage
    · exact ⟨rfl, rfl, rfl, rfl⟩
    · next t _ =>
      exact ⟨hstage, (counters_stopper s.cell t).1, (counters_stopper s.cell t).2, rfl⟩

theorem unchangedOnceDone_run (h : s.AccessInv) (hd : s.cell.stage.isTerminal = true)
    (turns : List Turn) :
    s.UnchangedOnceDone (s.run turns) := by
  induction turns generalizing s with
  | nil => exact ⟨rfl, rfl, rfl, rfl⟩
  | cons t turns ih =>
    have hstep := unchangedOnceDone_step h hd t
    exact hstep.trans (ih (h.step t) (hstep.stage ▸ hd))

/-! ## Asked to stop before the start -/

/-- A processor that was asked to stop before it was picked up. -/
structure StoppedBeforePickup (s : Interleaved) : Prop where
  requested : s.cell.stopRequested = true
  between : s.isBetween = true
  handled : s.handled = []

theorem requested_stopper (c : Cell) (t : Stopper) (h : c.stopRequested = true) :
    (t.step c).1.stopRequested = true := by
  cases t with
  | requesting => rfl
  | taking => by_cases hc : c.stage = .created <;> simp [Stopper.step, hc, h]
  | _ => exact h

theorem StoppedBeforePickup.work (h : s.StoppedBeforePickup) : s.work.StoppedBeforePickup := by
  obtain ⟨hrequested, hbetween, hhandled⟩ := h
  unfold isBetween at hbetween
  unfold Interleaved.work
  cases hw : s.worker <;> simp only [hw, Bool.false_eq_true] at hbetween
  case arriving =>
    dsimp only
    split <;> exact ⟨hrequested, rfl, hhandled⟩
  case looking =>
    dsimp only
    split
    · exact ⟨hrequested, rfl, hhandled⟩
    · rw [if_pos hrequested]
      exact ⟨hrequested, rfl, hhandled⟩
  case turnedAway | gone => exact ⟨hrequested, by rw [isBetween, hw], hhandled⟩
  case ending | signalling => exact ⟨hrequested, rfl, hhandled⟩

theorem StoppedBeforePickup.step (h : s.StoppedBeforePickup) (t : Turn) :
    (s.step t).StoppedBeforePickup := by
  cases t with
  | worker => exact h.work
  | call => exact ⟨h.requested, h.between, h.handled⟩
  | stopper i =>
    simp only [Interleaved.step]
    split
    · exact h
    · next t _ => exact ⟨requested_stopper s.cell t h.requested, h.between, h.handled⟩

theorem StoppedBeforePickup.run (h : s.StoppedBeforePickup) (turns : List Turn) :
    (s.run turns).StoppedBeforePickup := by
  induction turns generalizing s with
  | nil => exact h
  | cons t turns ih => exact ih (h.step t)

/-- A processor that nobody stops. -/
structure NeverStopped (s : Interleaved) : Prop where
  stoppers : s.stoppers = []
  requested : s.cell.stopRequested = false

theorem NeverStopped.step (h : s.NeverStopped) {t : Turn} (ht : t ≠ .call) :
    (s.step t).NeverStopped := by
  obtain ⟨hstoppers, hrequested⟩ := h
  cases t with
  | worker =>
    simp only [Interleaved.step, Interleaved.work]
    repeat' split
    all_goals exact ⟨hstoppers, hrequested⟩
  | call => exact absurd rfl ht
  | stopper i =>
    have hnone : s.stoppers[i]? = none := by rw [hstoppers, List.getElem?_nil]
    simp only [Interleaved.step, hnone]
    exact ⟨hstoppers, hrequested⟩

theorem NeverStopped.run (h : s.NeverStopped) {turns : List Turn} (hcall : .call ∉ turns) :
    (s.run turns).NeverStopped := by
  induction turns generalizing s with
  | nil => exact h
  | cons t turns ih =>
    rw [List.mem_cons, not_or] at hcall
    exact ih (h.step (Ne.symm hcall.1)) hcall.2

/-- Only a processor that someone was to stop is asked to stop. -/
theorem call_of_requested (batch : Batch) {turns : List Turn}
    (h : (run { batch } turns).cell.stopRequested = true) : .call ∈ turns := by
  refine Classical.byContradiction fun hcall => ?_
  have hnever : NeverStopped { batch } := ⟨rfl, rfl⟩
  rw [(hnever.run hcall).requested] at h
  cases h

/-! ## All orders of turns -/

/-- What can be read of a processor at every moment. -/
structure LifeInv (s : Interleaved) : Prop where
  /-- Records are handled in order, each once, and the one in hand is the next. -/
  handled : s.handled ++ s.inHand <+: s.batch.records
  /-- Between records the counters tell how much is handled. -/
  counters : s.isBetween = true →
    s.cell.count = s.handled.length ∧ s.cell.next = nextAfter s.handled
  finished : s.cell.stage = .finished → s.handled = s.batch.records
  stopped : s.cell.stage = .stopped → s.cell.stopRequested = true
  stoppedUnstarted : s.cell.stage = .stopped → s.isPickedUp = false → s.handled = []
  stoppedRunning : s.cell.stage = .stopped → s.isPickedUp = true →
    s.handled.length < s.batch.size

/-- Where the worker of a stopped processor can be. -/
theorem AccessInv.of_stopped (h : s.AccessInv) (hs : s.cell.stage = .stopped) :
    s.cell.stopRequested = true ∧
      (s.isPickedUp = false ∧ s.handled = [] ∨ s.isPickedUp = true ∧ s.left ≠ []) := by
  have hplaced := h.placed
  unfold Placed MayEnd at hplaced
  unfold isPickedUp
  cases hw : s.worker <;> simp_all

/-- Where the worker of a finished processor can be. -/
theorem AccessInv.of_finished (h : s.AccessInv) (hs : s.cell.stage = .finished) :
    s.inHand = [] ∧ s.left = [] := by
  have hplaced := h.placed
  unfold Placed MayEnd at hplaced
  unfold inHand
  cases hw : s.worker <;> simp_all

theorem AccessInv.lifeInv (h : s.AccessInv) : s.LifeInv where
  handled := ⟨s.left, (List.append_assoc _ _ _).trans h.records⟩
  counters hbetween := by
    have hcount := h.count
    have hnext := h.next
    unfold isBetween at hbetween
    unfold uncounted at hcount
    unfold written at hnext
    cases hw : s.worker <;> simp only [hw, Bool.false_eq_true] at hbetween hcount hnext
    all_goals exact ⟨hcount, hnext⟩
  finished hs := by
    obtain ⟨hhand, hleft⟩ := h.of_finished hs
    rw [← h.records, hhand, hleft, List.append_nil, List.append_nil]
  stopped hs := (h.of_stopped hs).1
  stoppedUnstarted hs hidle := by
    rcases (h.of_stopped hs).2 with ⟨-, hnone⟩ | ⟨hpicked, -⟩
    · exact hnone
    · rw [hidle] at hpicked
      cases hpicked
  stoppedRunning hs hpicked := by
    rcases (h.of_stopped hs).2 with ⟨hidle, -⟩ | ⟨-, hleft⟩
    · rw [hidle] at hpicked
      cases hpicked
    · rw [Batch.size, ← h.records, List.length_append, List.length_append]
      have := List.length_pos_iff.mpr hleft
      omega

theorem stoppedBeforePickup_of_requested (h : s.AccessInv) (hr : s.cell.stopRequested = true)
    (hidle : s.isPickedUp = false) : s.StoppedBeforePickup := by
  have hplaced := h.placed
  unfold Placed at hplaced
  unfold isPickedUp at hidle
  refine ⟨hr, ?_, ?_⟩
  · unfold isBetween
    cases hw : s.worker <;> simp_all
  · cases hw : s.worker <;> simp_all

/-- In whatever order a worker, any number of those who stop a processor and any
number of those who look at it take turns, access by access, the processor keeps
to its stages, handles records in order and once each, and tells how far it has
come.  What is seen of it at the end is final, and so is what a wait answers that
has found the processor done.  Turn by turn it is a processor that is picked up,
advanced and stopped at once. -/
theorem lives_in_order (h : Handler) (batch : Batch) (turns later : List Turn) :
    let s := run { batch } turns
    let s' := s.run later
    s.LifeInv ∧
      (∀ t, (s.step t).cell.stage = s.cell.stage ∨
        s.cell.stage.Moves (s.step t).cell.stage) ∧
      (s.cell.stopRequested = true → .call ∈ turns) ∧
      (s.cell.stopRequested = true → s.isPickedUp = false → s'.handled = []) ∧
      (s.cell.stage.isTerminal = true → s.UnchangedOnceDone s') ∧
      (answer s s' ≠ nothingProcessed → s.cell.stage.isTerminal = true ∧
        ∀ more, (s'.run more).cell.next = answer s s') ∧
      ∃ as, (({ batch } : Processor).acts h as).1 = s.view h ∧
        (({ batch } : Processor).acts h as).2.filterMap Event.handled? = s.written ∧
        (s.view h).nextOffset = s.cell.next := by
  intro s s'
  have hinv : s.AccessInv := (accessInv_initial batch).run turns
  refine ⟨hinv.lifeInv, stage_step hinv, call_of_requested batch,
    fun hr hidle => ((stoppedBeforePickup_of_requested hinv hr hidle).run later).handled,
    fun hd => unchangedOnceDone_run hinv hd later, fun hanswer => ?_, ?_⟩
  · have hdone : s.cell.done = true := by
      refine Classical.byContradiction fun hdone => hanswer ?_
      rw [answer, if_neg hdone]
    have hterminal := hinv.done hdone
    refine ⟨hterminal, fun more => ?_⟩
    have hstill := unchangedOnceDone_run hinv hterminal later
    rw [answer, if_pos hdone]
    exact (unchangedOnceDone_run (hinv.run later) (hstill.stage ▸ hterminal) more).next
  · obtain ⟨as, has⟩ := view_run (accessInv_initial batch) h turns
    refine ⟨as, has, ?_, hinv.nextOffset_view h⟩
    have hhandled := handled_acts h { batch } as
    change ((view h { batch }).acts h as).1.handled = _ at hhandled
    rw [has, hinv.handled_view h] at hhandled
    exact hhandled.symm

/-- A stop that is asked for while the worker picks the processor up comes too
late to take it, and in time for its first record. -/
example :
    let s := run { batch := ⟨⟨"t", 0⟩, [⟨5, none, none⟩]⟩ }
      [.call, .stopper 0, .worker, .stopper 0, .worker, .worker, .worker]
    s.cell.stage = .stopped ∧ s.isPickedUp = true ∧ s.handled = [] ∧ s.cell.next = -1 := by
  decide

/-- A stop that is asked for while the last record is in hand comes too late: both
records are handled and counted, and the processor finishes. -/
example :
    let s := run { batch := ⟨⟨"t", 0⟩, [⟨5, none, none⟩, ⟨7, none, none⟩]⟩ }
      (List.replicate 6 .worker ++ [.call, .stopper 0, .stopper 0] ++ List.replicate 6 .worker)
    s.cell.stage = .finished ∧ s.cell.done = true ∧ s.cell.stopRequested = true ∧
      s.handled = s.batch.records ∧ s.cell.count = 2 ∧ s.cell.next = 8 := by
  decide

end Interleaved
end RecordDispatch.Processor
