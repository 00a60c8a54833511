import RecordDispatch.Proofs.Pool.Counter
import RecordDispatch.Proofs.Pool.Lives

/-!
# How a pool comes to rest

When nothing more is submitted, every task ends, in whatever order the tasks get
their permits and whatever is stopped meanwhile, if each of them is given steps
again and again.  `effort` is what is left to do.  A step of a task that can move
lowers it, nothing raises it, and a task can move until something is done.
-/

namespace RecordDispatch

namespace Processor

/-- What is left to do with a processor. -/
def effort (q : Processor) : Nat :=
  if q.isDone then 0 else 2 * q.pending + if q.current.isSome then 1 else 2

theorem length_upcoming (q : Processor) : q.upcoming.length = q.pending :=
  List.length_drop

theorem effort_stop (q : Processor) : q.stop.effort ≤ q.effort := by
  cases hstage : q.stage <;> simp [effort, stop, isDone, hstage, Stage.isTerminal, pending, total]

theorem effort_claim {q : Processor} (hq : q.stage = .created) : q.claim.effort = q.effort := by
  simp [effort, claim, hq, isDone, Stage.isTerminal, pending, total]

/-- A step of a running processor is progress. -/
theorem effort_advance (h : Handler) {q : Processor} (hq : q.stage = .running) :
    (q.advance h).1.effort < q.effort := by
  have hbusy : q.isDone = false := by simp [isDone, hq, Stage.isTerminal]
  have hleft : q.effort = 2 * q.pending + if q.current.isSome then 1 else 2 := by
    rw [effort, if_neg (Bool.eq_false_iff.mp hbusy)]
  have hpos : 0 < q.effort := by
    rw [hleft]
    split <;> omega
  have hdone (stage : Stage) (hstage : stage.isTerminal = true) :
      (q.complete stage).1.effort = 0 := by simp [effort, complete, isDone, hstage]
  cases hu : q.upcoming with
  | nil =>
    rw [advance_of_upcoming_nil h hq hu, hdone .finished rfl]
    exact hpos
  | cons r rest =>
    have hpending : q.pending = rest.length + 1 := by
      rw [← q.length_upcoming, hu, List.length_cons]
    cases hc : q.current with
    | some t =>
      have hnext : (q.conclude h r t).1.effort = 2 * (q.pending - 1) + 2 := by
        simp [effort, conclude, isDone, hq, Stage.isTerminal, pending, total, Nat.sub_sub]
      rw [advance_of_begun h hq hu hc, hnext, hleft, hc, hpending]
      simp only [Option.isSome_some, if_true]
      omega
    | none =>
      cases hs : q.stopRequested with
      | true =>
        rw [advance_of_stopRequested h hq hu hc hs, hdone .stopped rfl]
        exact hpos
      | false =>
        have hnext : (q.begin h r).1.effort = 2 * q.pending + 1 := by
          simp [effort, begin, isDone, hq, Stage.isTerminal, pending, total]
        rw [advance_of_not_begun h hq hu hc hs, hnext, hleft, hc]
        simp

end Processor

namespace Workers

/-! ## What is left to do -/

/-- What is left to do with a task, its processor apart. -/
def Task.effort (t : Task) : Nat :=
  match t.phase with
  | .queued => 3
  | .permitted => 2
  | .running => 1
  | .ended => 0

/-- What is left to do. -/
def effort (w : Workers) : Nat :=
  (w.tasks.map Task.effort).sum + (w.processors.map Processor.effort).sum

section Effort

variable {w : Workers}

theorem effort_setPhase {i : Nat} {t : Task} (ht : w.tasks[i]? = some t) (phase : Phase) :
    (w.setPhase i phase).effort + t.effort = w.effort + ({ t with phase } : Task).effort := by
  have htasks := sum_map_modify Task.effort (fun t => { t with phase }) ht
  unfold effort setPhase
  dsimp only at htasks ⊢
  omega

theorem effort_modify {id : ProcessorId} {q : Processor} (hq : w.processor? id = some q)
    (f : Processor → Processor) : (w.modify id f).effort + q.effort = w.effort + (f q).effort := by
  have hprocessors := sum_map_modify Processor.effort f hq
  unfold effort modify
  dsimp only
  omega

/-- Asking a processor to stop makes no work. -/
theorem effort_stop (w : Workers) (id : ProcessorId) : (w.stop id).effort ≤ w.effort := by
  cases hq : w.processor? id with
  | none =>
    have hlength : w.processors.length ≤ id := List.getElem?_eq_none_iff.mp hq
    have hsame : w.stop id = w := by rw [stop, modify, List.modify_eq_self hlength]
    exact Nat.le_of_eq (congrArg effort hsame)
  | some q =>
    have hchange := effort_modify hq Processor.stop
    have hless := q.effort_stop
    rw [stop]
    omega

/-- A step of a task is progress, or nothing changes, and the task cannot
move. -/
theorem effort_step (h : w.PoolInv) (i : Nat) :
    (w.step i).1.effort < w.effort ∨ ¬ w.CanMove i ∧ (w.step i).1 = w := by
  have hprogress := step_progress w i
  generalize w.step i = r at hprogress
  cases hprogress with
  | idle hidle =>
    refine Or.inr ⟨fun hmove => ?_, rfl⟩
    obtain ⟨t, ht, -⟩ := id hmove
    exact hidle t ht (h.known i t ht) hmove
  | @permit t ht hphase =>
    have hchange := effort_setPhase ht .permitted
    simp only [Task.effort, hphase] at hchange
    exact Or.inl (by dsimp only; omega)
  | @claim t q ht hphase hq hstage =>
    have hchange := effort_setPhase (w := w.modify t.processor Processor.claim) ht .running
    have hclaim := effort_modify hq Processor.claim
    simp only [Task.effort, hphase] at hchange
    rw [Processor.effort_claim hstage] at hclaim
    exact Or.inl (by dsimp only; omega)
  | @pass t q ht hphase =>
    have hchange := effort_setPhase ht .ended
    simp only [Task.effort, hphase] at hchange
    exact Or.inl (by dsimp only [finish]; omega)
  | @advance t q ht hphase hq hbusy =>
    have hrun : q.stage = .running := by
      have hbegun := h.begun i t q ht hphase hq
      cases hstage : q.stage <;> simp_all [Processor.isDone, Processor.Stage.isTerminal]
    have hchange := effort_modify hq fun _ => (q.advance w.handler).1
    have hless := Processor.effort_advance w.handler hrun
    exact Or.inl (by dsimp only; omega)
  | @finish t q ht hphase =>
    have hchange := effort_setPhase ht .ended
    simp only [Task.effort, hphase] at hchange
    exact Or.inl (by dsimp only [finish]; omega)

end Effort

/-! ## Turns without submissions -/

theorem Progress.size {w : Workers} {i : Nat} {r : Workers × List Event} (h : Progress w i r) :
    r.1.size = w.size ∧ r.1.tasks.length = w.tasks.length := by
  cases h with
  | idle | advance => exact ⟨rfl, rfl⟩
  | permit | claim | pass | finish => exact ⟨rfl, List.length_modify _ _ _⟩

/-- A pool has as many workers as at its start. -/
theorem size_turns (n : Nat) (handler : Handler) (ts : List Turn) :
    ((ofSize n handler).turns ts).1.size = max n 1 := by
  refine turns_induction (w := ofSize n handler) (P := fun w _ => w.size = max n 1)
    (fun w _ t h => ?_) [] rfl ts
  cases t with
  | create | stop => exact h
  | submit id =>
    unfold turn
    dsimp only
    split <;> exact h
  | step i => exact (step_progress w i).size.1.trans h

/-- Whether a turn neither creates nor queues a processor. -/
def Turn.submitsNothing : Turn → Bool
  | .create _ => false
  | .submit _ => false
  | _ => true

/-- A turn after which no more is left to do, and after which the tasks are what
they were if as much is left. -/
structure LeavesNoMoreToDo (w w' : Workers) : Prop where
  size : w'.size = w.size
  length : w'.tasks.length = w.tasks.length
  effort : w'.effort ≤ w.effort
  inFlight : w'.inFlight ≤ w.inFlight
  tasks : w'.effort = w.effort → w'.tasks = w.tasks

theorem Progress.inFlight {w : Workers} {i : Nat} {r : Workers × List Event}
    (h : Progress w i r) : r.1.inFlight ≤ w.inFlight := by
  have ended {t : Task} (ht : w.tasks[i]? = some t) (hphase : t.phase ≠ .ended) :
      (w.setPhase i .ended).inFlight ≤ w.inFlight := by
    have hcount := inFlight_setPhase ht .ended
    simp [Task.isInFlight, hphase] at hcount
    omega
  cases h with
  | idle | advance => exact Nat.le_refl _
  | permit ht hphase =>
    exact Nat.le_of_eq (inFlight_setPhase_of_ne ht (by simp [hphase]) .permitted (by decide))
  | claim ht hphase =>
    exact Nat.le_of_eq (inFlight_setPhase_of_ne ht (by simp [hphase]) .running (by decide))
  | pass ht hphase | finish ht hphase => exact ended ht (by simp [hphase])

theorem leavesNoMoreToDo_turn {w : Workers} (h : w.PoolInv) {t : Turn}
    (ht : t.submitsNothing = true) :
    w.LeavesNoMoreToDo (w.turn t).1 := by
  cases t with
  | create | submit => cases ht
  | stop id => exact ⟨rfl, rfl, w.effort_stop id, Nat.le_refl _, fun _ => rfl⟩
  | step i =>
    have hprogress := step_progress w i
    obtain ⟨hsize, hlength⟩ := hprogress.size
    refine ⟨hsize, hlength, ?_, hprogress.inFlight, fun hsame => ?_⟩
    · rcases effort_step h i with hless | ⟨-, heq⟩
      · exact Nat.le_of_lt hless
      · exact Nat.le_of_eq (congrArg Workers.effort heq)
    · rcases effort_step h i with hless | ⟨-, heq⟩
      · exact absurd hsame (Nat.ne_of_lt hless)
      · exact congrArg Workers.tasks heq

/-! ## Schedules -/

/-- The workers after the first turns of a schedule. -/
def along (w : Workers) (schedule : Nat → Turn) : Nat → Workers
  | 0 => w
  | k + 1 => ((w.along schedule k).turn (schedule k)).1

theorem along_add (w : Workers) (schedule : Nat → Turn) (k m : Nat) :
    w.along schedule (k + m) = (w.along schedule k).along (fun j => schedule (k + j)) m := by
  induction m with
  | zero => rfl
  | succ m ih => rw [← Nat.add_assoc, along, ih, along]

/-- A schedule in which nothing is submitted and each of the tasks is given steps
again and again. -/
structure Fair (w : Workers) (schedule : Nat → Turn) : Prop where
  submitsNothing : ∀ k, (schedule k).submitsNothing = true
  steps : ∀ i, i < w.tasks.length → ∀ k, ∃ m, k ≤ m ∧ schedule m = .step i

section Schedule

variable {w : Workers} {schedule : Nat → Turn}

theorem LeavesNoMoreToDo.refl (w : Workers) : w.LeavesNoMoreToDo w :=
  ⟨rfl, rfl, Nat.le_refl _, Nat.le_refl _, fun _ => rfl⟩

theorem LeavesNoMoreToDo.trans {u v w : Workers} (huv : u.LeavesNoMoreToDo v)
    (hvw : v.LeavesNoMoreToDo w) : u.LeavesNoMoreToDo w := by
  refine ⟨hvw.size.trans huv.size, hvw.length.trans huv.length,
    Nat.le_trans hvw.effort huv.effort, Nat.le_trans hvw.inFlight huv.inFlight, fun hsame => ?_⟩
  have hle := huv.effort
  have hle' := hvw.effort
  exact (hvw.tasks (by omega)).trans (huv.tasks (by omega))

theorem leavesNoMoreToDo_along (h : w.PoolInv) (hq : ∀ k, (schedule k).submitsNothing = true)
    (k : Nat) :
    (w.along schedule k).PoolInv ∧ w.LeavesNoMoreToDo (w.along schedule k) := by
  induction k with
  | zero => exact ⟨h, .refl w⟩
  | succ k ih => exact ⟨ih.1.turn _, ih.2.trans (leavesNoMoreToDo_turn ih.1 (hq k))⟩

/-- As long as a task is in flight, one can move. -/
theorem exists_canMove (hsize : 0 < w.size) (hbusy : w.inFlight ≠ 0) :
    ∃ i, i < w.tasks.length ∧ w.CanMove i := by
  have canMove {t : Task} (ht : t ∈ w.tasks) (hphase : t.phase ≠ .ended)
      (hfree : t.phase = .queued → w.permitsHeld < w.size) :
      ∃ i, i < w.tasks.length ∧ w.CanMove i := by
    obtain ⟨i, ht⟩ := List.mem_iff_getElem?.mp ht
    exact ⟨i, (List.getElem?_eq_some_iff.mp ht).1, t, ht, hphase, hfree⟩
  by_cases hheld : w.permitsHeld = 0
  · obtain ⟨t, ht, hflight⟩ := List.countP_pos_iff.mp (Nat.pos_of_ne_zero hbusy)
    exact canMove ht (bne_iff_ne.mp hflight) fun _ => hheld ▸ hsize
  · obtain ⟨t, ht, hholds⟩ := List.countP_pos_iff.mp (Nat.pos_of_ne_zero hheld)
    refine canMove ht (fun hphase => ?_) fun hphase => ?_
    all_goals
      rw [Task.holdsPermit, hphase] at hholds
      cases hholds

/-- A task that can move can do so until something is done. -/
theorem effort_along (h : w.PoolInv) {i : Nat} (hmove : w.CanMove i)
    (hq : ∀ k, (schedule k).submitsNothing = true) {m : Nat} (hm : schedule m = .step i) :
    (w.along schedule (m + 1)).effort < w.effort := by
  obtain ⟨hinv, hquiet⟩ := leavesNoMoreToDo_along h hq m
  rcases Nat.lt_or_eq_of_le hquiet.effort with hless | hsame
  · exact Nat.lt_of_le_of_lt (leavesNoMoreToDo_turn hinv (hq m)).effort hless
  · have htasks := hquiet.tasks hsame
    have hstill : (w.along schedule m).CanMove i := by
      rw [CanMove, htasks, permitsHeld, htasks, hquiet.size]
      exact hmove
    have hstep := (effort_step hinv i).resolve_right fun hnot => hnot.1 hstill
    rw [along, hm, ← hsame]
    exact hstep

theorem permitsHeld_le_inFlight (w : Workers) : w.permitsHeld ≤ w.inFlight := by
  refine List.countP_mono_left fun t _ ht => ?_
  cases hphase : t.phase <;> simp_all [Task.holdsPermit, Task.isInFlight]

/-- What is left of a fair schedule is fair. -/
theorem Fair.later (h : w.PoolInv) (hfair : w.Fair schedule) (k : Nat) :
    (w.along schedule k).Fair fun j => schedule (k + j) := by
  obtain ⟨-, hquiet⟩ := leavesNoMoreToDo_along h hfair.submitsNothing k
  refine ⟨fun j => hfair.submitsNothing (k + j), fun i hi j => ?_⟩
  rw [hquiet.length] at hi
  obtain ⟨m, hm, hstep⟩ := hfair.steps i hi (k + j)
  refine ⟨m - k, by omega, ?_⟩
  rw [Nat.add_sub_cancel' (by omega)]
  exact hstep

/-- With a fair schedule all tasks end, and all permits are free then. -/
theorem comes_to_rest (h : w.PoolInv) (hsize : 0 < w.size) (hfair : w.Fair schedule) :
    ∃ k, ∀ m, k ≤ m →
      (w.along schedule m).inFlight = 0 ∧ (w.along schedule m).permitsHeld = 0 := by
  induction heffort : w.effort using Nat.strongRecOn generalizing w schedule with
  | ind n ih =>
    by_cases hbusy : w.inFlight = 0
    · refine ⟨0, fun m _ => ?_⟩
      obtain ⟨-, hquiet⟩ := leavesNoMoreToDo_along h hfair.submitsNothing m
      have hrest : (w.along schedule m).inFlight = 0 := Nat.le_zero.mp (hbusy ▸ hquiet.inFlight)
      exact ⟨hrest, Nat.le_zero.mp (hrest ▸ permitsHeld_le_inFlight _)⟩
    · obtain ⟨i, hi, hmove⟩ := exists_canMove hsize hbusy
      obtain ⟨m, -, hm⟩ := hfair.steps i hi 0
      have hless := effort_along h hmove hfair.submitsNothing hm
      obtain ⟨hinv, hquiet⟩ := leavesNoMoreToDo_along h hfair.submitsNothing (m + 1)
      obtain ⟨k, hk⟩ := ih _ (heffort ▸ hless) hinv (hquiet.size.symm ▸ hsize)
        (hfair.later h (m + 1)) rfl
      refine ⟨m + 1 + k, fun j hj => ?_⟩
      obtain ⟨j, rfl⟩ := Nat.exists_eq_add_of_le hj
      rw [Nat.add_assoc, along_add]
      exact hk (k + j) (Nat.le_add_right k j)

end Schedule

/-! ## The pool -/

/-- Whatever is created, queued, stopped and worked on in whatever order: no more
processors run at once than there are workers, and no more permits are taken.
The counter is the number of processors that were queued and whose tasks have
not ended.  A processor begins to run once at most, and the records that were
handled for it are those that it has behind it.  One that is stopped while it
waits for a worker handles no record then.  And once nothing more is submitted,
all tasks end, and all permits are free. -/
theorem pool_keeps_account (n : Nat) (handler : Handler) (ts : List Turn) :
    let w := ((ofSize n handler).turns ts).1
    let es := ((ofSize n handler).turns ts).2
    (w.processors.countP (fun q => q.stage = .running) ≤ max n 1 ∧ w.permitsHeld ≤ max n 1) ∧
      (Recounts 0 es w.inFlight ∧
        ((submissions es).Nodup →
          w.inFlight = ((submissions es).filter fun id => !(ends es).contains id).length)) ∧
      (∀ id, (ofSize n handler).starts id ts ≤ 1 ∧
        handledBy id es = ((w.processor? id).map Processor.handled).getD []) ∧
      (∀ id q, w.processor? id = some q → q.stage = .created → ∀ later,
        ((w.stop id).turns later).1.processor? id =
            some { batch := q.batch, stage := .stopped, stopRequested := true } ∧
          ∀ e ∈ ((w.stop id).turns later).2, e.acting? ≠ some id) ∧
      ∀ schedule, w.Fair schedule → ∃ k, ∀ m, k ≤ m →
        (w.along schedule m).inFlight = 0 ∧ (w.along schedule m).permitsHeld = 0 := by
  intro w es
  have hinv : w.PoolInv := (PoolInv.ofSize n handler).turns ts
  have hsize : w.size = max n 1 := size_turns n handler ts
  refine ⟨⟨hsize ▸ hinv.running_le, hsize ▸ hinv.permits⟩,
    ⟨recounts_turns n handler ts, (Registered.turns n handler ts).inFlight⟩,
    fun id => ⟨starts_le_one _ id ts, handled_turns n handler ts id⟩,
    fun id q hq hstage later => stopped_turns (fresh_turns n handler ts) hq hstage later,
    fun schedule hfair => comes_to_rest hinv (hsize ▸ Nat.le_max_right n 1) hfair⟩

/-- Two processors are queued for one worker, and the first of them runs. -/
def queuedSample : List Turn :=
  [.create ⟨⟨"t", 0⟩, [{ offset := 0 }]⟩, .create ⟨⟨"t", 1⟩, [{ offset := 0 }]⟩, .submit 0,
    .submit 1, .step 0, .step 0]

/-- The second one is stopped while it waits, and the tasks of both end if they
take turns. -/
theorem pool_keeps_account_sample :
    let w := ((ofSize 1 { execute := fun _ => .done }).turns queuedSample).1
    let stopped := ((ofSize 1 { execute := fun _ => .done }).turns (queuedSample ++ [.stop 1])).1
    w.inFlight = 2 ∧
      (((w.stop 1).turns [.step 0, .step 0, .step 0, .step 1, .step 1]).1.processor? 1).map
        (·.stage) = some .stopped ∧
      ∃ k, ∀ m, k ≤ m → (stopped.along (fun j => .step (j % 2)) m).inFlight = 0 := by
  intro w stopped
  obtain ⟨-, ⟨-, hflight⟩, -, hstopped, -⟩ :=
    pool_keeps_account 1 { execute := fun _ => .done } queuedSample
  obtain ⟨hsame, -⟩ := hstopped 1 { batch := ⟨⟨"t", 1⟩, [{ offset := 0 }]⟩ } rfl rfl
    [.step 0, .step 0, .step 0, .step 1, .step 1]
  obtain ⟨-, -, -, -, hrest⟩ :=
    pool_keeps_account 1 { execute := fun _ => .done } (queuedSample ++ [.stop 1])
  have hfair : stopped.Fair fun j => .step (j % 2) := by
    refine ⟨fun _ => rfl, fun i hi k => ⟨2 * k + i, by omega, ?_⟩⟩
    have hlt : i < 2 := hi
    rw [Nat.mul_add_mod, Nat.mod_eq_of_lt hlt]
  obtain ⟨k, hk⟩ := hrest _ hfair
  exact ⟨hflight (by decide), Option.map_eq_some_iff.mpr ⟨_, hsame, rfl⟩,
    k, fun m hm => (hk m hm).1⟩

end Workers
end RecordDispatch
