import RecordDispatch.Proofs.Sums
import RecordDispatch.Proofs.Workers

/-!
# The worker pool

Processors are created and queued, tasks take steps, and processors are asked
to stop, in any order: these are the `Turn`s of a pool.  `PoolInv` is what they
keep.  It says that the permits bound the tasks that hold one, and that a
processor runs only while a task runs it; so no more processors run at once than
there are permits.

`Progress` lists what a step of a task can do.
-/

namespace RecordDispatch

/-- A processor that advances was running, and does not wait for a worker
again. -/
theorem Processor.stage_advance (h : Handler) (q : Processor) :
    q.stage = .running ∧ (q.advance h).1.stage ≠ .created ∨ (q.advance h).1 = q := by
  by_cases hq : q.stage = .running
  · refine Or.inl ⟨hq, fun hcreated => ?_⟩
    rcases q.advance_cases h with heq | ⟨r?, hstep, -⟩
    · rw [heq, hq] at hcreated
      cases hcreated
    · generalize (q.advance h).1 = q' at hstep hcreated
      cases hstep <;> simp_all
  · exact Or.inr (by rw [advance, if_neg hq])

namespace Workers

/-! ## Turns -/

/-- What can happen to a pool. -/
inductive Turn
  | create (batch : Batch)
  /-- A processor is queued, if it is there. -/
  | submit (id : ProcessorId)
  | stop (id : ProcessorId)
  /-- A task takes a step. -/
  | step (task : Nat)

/-- The workers after a turn, and what is told. -/
def turn (w : Workers) : Turn → Workers × List Event
  | .create batch => (w.create batch, [])
  | .submit id => if id < w.nextId then w.submit id else (w, [])
  | .stop id => (w.stop id, [])
  | .step i => w.step i

/-- The workers after turns, one after another, and all that is told. -/
def turns (w : Workers) : List Turn → Workers × List Event
  | [] => (w, [])
  | t :: ts => (((w.turn t).1.turns ts).1, (w.turn t).2 ++ ((w.turn t).1.turns ts).2)

/-- What every turn keeps of the workers and of all that was told holds after
turns. -/
theorem turns_induction {P : Workers → List Event → Prop}
    (turn : ∀ w es t, P w es → P (w.turn t).1 (es ++ (w.turn t).2)) {w : Workers}
    (es : List Event) (h : P w es) (ts : List Turn) :
    P (w.turns ts).1 (es ++ (w.turns ts).2) := by
  induction ts generalizing w es with
  | nil => exact (List.append_nil es).symm ▸ h
  | cons t ts ih =>
    have hrest := ih _ (turn w es t h)
    rw [List.append_assoc] at hrest
    exact hrest

/-! ## What a step of a task can do -/

theorem tasks_setPhase (w : Workers) (i : Nat) (phase : Phase) (j : Nat) :
    (w.setPhase i phase).tasks[j]? =
      if j = i then (w.tasks[j]?).map fun t => { t with phase } else w.tasks[j]? := by
  rw [setPhase, List.getElem?_modify]
  simp only [eq_comm (a := i)]
  split <;> simp

/-- A task can move: it has a permit, or there is one left for it. -/
def CanMove (w : Workers) (i : Nat) : Prop :=
  ∃ t, w.tasks[i]? = some t ∧ t.phase ≠ .ended ∧ (t.phase = .queued → w.permitsHeld < w.size)

/-- The workers after a step of a task that changes the phase of the task, and
maybe its processor. -/
inductive Progress (w : Workers) (i : Nat) : Workers × List Event → Prop
  /-- The task cannot move. -/
  | idle (h : ∀ t, w.tasks[i]? = some t → t.processor < w.nextId → ¬ w.CanMove i) :
      Progress w i (w, [])
  /-- The task gets a permit. -/
  | permit {t : Task} (ht : w.tasks[i]? = some t) (hphase : t.phase = .queued)
      (hfree : w.permitsHeld < w.size) : Progress w i (w.setPhase i .permitted, [])
  /-- The task picks its processor up. -/
  | claim {t : Task} {q : Processor} (ht : w.tasks[i]? = some t) (hphase : t.phase = .permitted)
      (hq : w.processor? t.processor = some q) (hstage : q.stage = .created) :
      Progress w i ((w.modify t.processor Processor.claim).setPhase i .running, [])
  /-- The task passes its processor over. -/
  | pass {t : Task} {q : Processor} (ht : w.tasks[i]? = some t) (hphase : t.phase = .permitted)
      (hq : w.processor? t.processor = some q) (hstage : q.stage ≠ .created) :
      Progress w i ((w.finish i t.processor).1,
        .processor t.processor (.stoppedBeforeStart q.partition) :: (w.finish i t.processor).2)
  /-- The task advances its processor. -/
  | advance {t : Task} {q : Processor} (ht : w.tasks[i]? = some t) (hphase : t.phase = .running)
      (hq : w.processor? t.processor = some q) (hbusy : q.isDone = false) :
      Progress w i (w.modify t.processor fun _ => (q.advance w.handler).1,
        (q.advance w.handler).2.map (.processor t.processor))
  /-- The task ends with its processor. -/
  | finish {t : Task} {q : Processor} (ht : w.tasks[i]? = some t) (hphase : t.phase = .running)
      (hq : w.processor? t.processor = some q) (hdone : q.isDone = true) :
      Progress w i (w.finish i t.processor)

theorem step_progress (w : Workers) (i : Nat) : Progress w i (w.step i) := by
  unfold step
  split
  · next hnone =>
    refine .idle fun t ht => ?_
    rw [hnone] at ht
    cases ht
  · next t ht =>
    have idle (h : ¬ w.CanMove i) : Progress w i (w, []) := .idle fun _ _ _ => h
    split
    · next hnone =>
      refine .idle fun t' ht' hthere => ?_
      obtain rfl := Option.some.inj (ht.symm.trans ht')
      exact absurd (List.getElem?_eq_none_iff.mp hnone) (Nat.not_le.mpr hthere)
    · next q hq =>
      split
      · next hphase =>
        split
        · next hfree => exact .permit ht hphase hfree
        · next hfull =>
          refine idle ?_
          rintro ⟨t', ht', -, hfree⟩
          obtain rfl := Option.some.inj (ht.symm.trans ht')
          exact hfull (hfree hphase)
      · next hphase =>
        split
        · next hstage => exact .claim ht hphase hq hstage
        · next hstage => exact .pass ht hphase hq hstage
      · next hphase =>
        split
        · next hdone => exact .finish ht hphase hq hdone
        · next hbusy => exact .advance ht hphase hq (Bool.eq_false_iff.mpr hbusy)
      · next hphase =>
        refine idle ?_
        rintro ⟨t', ht', hended, -⟩
        obtain rfl := Option.some.inj (ht.symm.trans ht')
        exact hended hphase

/-! ## Permits -/

section Counts

variable {w : Workers} {i : Nat} {t : Task}

/-- A task whose phase changes counts as it does in the new phase. -/
theorem countP_setPhase (p : Task → Bool) (ht : w.tasks[i]? = some t) (phase : Phase) :
    (w.setPhase i phase).tasks.countP p + (if p t then 1 else 0) =
      w.tasks.countP p + if p { t with phase } then 1 else 0 := by
  rw [countP_eq_sum_map, countP_eq_sum_map]
  exact sum_map_modify _ _ ht

theorem permitsHeld_setPhase (ht : w.tasks[i]? = some t) (phase : Phase) :
    (w.setPhase i phase).permitsHeld + (if t.holdsPermit then 1 else 0) =
      w.permitsHeld + if ({ t with phase } : Task).holdsPermit then 1 else 0 :=
  countP_setPhase Task.holdsPermit ht phase

theorem inFlight_setPhase (ht : w.tasks[i]? = some t) (phase : Phase) :
    (w.setPhase i phase).inFlight + (if t.isInFlight then 1 else 0) =
      w.inFlight + if ({ t with phase } : Task).isInFlight then 1 else 0 :=
  countP_setPhase Task.isInFlight ht phase

end Counts

/-- Elements of a list are counted by their positions. -/
theorem countP_le_length {α : Type} {p : α → Bool} {l : List α} {positions : List Nat} {k : Nat}
    (h : ∀ i a, l[i]? = some a → p a = true → k + i ∈ positions) :
    l.countP p ≤ positions.length := by
  induction l generalizing k positions with
  | nil => exact Nat.zero_le _
  | cons a l ih =>
    rw [List.countP_cons]
    split
    · next ha =>
      have hk : k ∈ positions := h 0 a rfl ha
      have hrest : l.countP p ≤ (positions.erase k).length := by
        refine ih (k := k + 1) fun i b hb hp => ?_
        have hmem := h (i + 1) b hb hp
        rw [List.mem_erase_of_ne (by omega)]
        exact (by omega : k + (i + 1) = k + 1 + i) ▸ hmem
      rw [List.length_erase_of_mem hk] at hrest
      have hpos := List.length_pos_of_mem hk
      omega
    · refine ih (k := k + 1) fun i b hb hp => ?_
      exact (by omega : k + (i + 1) = k + 1 + i) ▸ h (i + 1) b hb hp

/-- Permits, tasks and processors of a pool fit together. -/
structure PoolInv (w : Workers) : Prop where
  permits : w.permitsHeld ≤ w.size
  /-- The processor of a task is there. -/
  known : ∀ (i : Nat) (t : Task), w.tasks[i]? = some t → t.processor < w.nextId
  /-- A task that runs its processor has picked it up. -/
  begun : ∀ (i : Nat) (t : Task) q, w.tasks[i]? = some t → t.phase = .running →
    w.processor? t.processor = some q → q.stage ≠ .created
  /-- A processor runs only while a task runs it. -/
  runByTask : ∀ id q, w.processor? id = some q → q.stage = .running →
    ∃ (i : Nat) (t : Task), w.tasks[i]? = some t ∧ t.processor = id ∧ t.phase = .running

namespace PoolInv

variable {w : Workers}

theorem ofSize (n : Nat) (handler : Handler) : (ofSize n handler).PoolInv := by
  refine ⟨Nat.zero_le _, ?_, ?_, ?_⟩ <;> intros <;> contradiction

/-- The phase of a task changes, and not because its processor begins to run. -/
theorem setPhase (h : w.PoolInv) {i : Nat} {t : Task} (ht : w.tasks[i]? = some t) {phase : Phase}
    (hphase : phase ≠ .running) (hpermits : (w.setPhase i phase).permitsHeld ≤ w.size)
    (hleft : t.phase = .running → ∀ q, w.processor? t.processor = some q → q.stage ≠ .running) :
    (w.setPhase i phase).PoolInv := by
  have hcases (j : Nat) (t' : Task) (ht' : (w.setPhase i phase).tasks[j]? = some t') :
      w.tasks[j]? = some t' ∨ t' = { t with phase } := by
    rw [tasks_setPhase] at ht'
    split at ht'
    · next hj =>
      rw [hj, ht] at ht'
      exact Or.inr (Option.some.inj ht').symm
    · exact Or.inl ht'
  refine ⟨hpermits, fun j t' ht' => ?_, fun j t' q ht' hrunning hq => ?_,
    fun id q hq hrunning => ?_⟩
  · rcases hcases j t' ht' with ht' | rfl
    · exact h.known j t' ht'
    · exact h.known i t ht
  · rcases hcases j t' ht' with ht' | rfl
    · exact h.begun j t' q ht' hrunning hq
    · exact absurd hrunning hphase
  · obtain ⟨j, t', ht', hid, hrun⟩ := h.runByTask id q hq hrunning
    refine ⟨j, t', ?_, hid, hrun⟩
    rw [tasks_setPhase, if_neg, ht']
    rintro rfl
    obtain rfl := Option.some.inj (ht.symm.trans ht')
    exact hleft hrun q (hid ▸ hq) hrunning

/-- A processor changes, but it does not begin to run. -/
theorem modify (h : w.PoolInv) (id : ProcessorId) {f : Processor → Processor}
    (hf : ∀ q, w.processor? id = some q →
      (q.stage ≠ .created → (f q).stage ≠ .created) ∧
        ((f q).stage = .running → q.stage = .running)) : (w.modify id f).PoolInv := by
  refine ⟨h.permits, fun i t ht => ?_, fun i t q' ht hphase hq' => ?_, fun i q' hq' hrun => ?_⟩
  · rw [nextId, Workers.modify, List.length_modify]
    exact h.known i t ht
  · rw [processor?_modify] at hq'
    split at hq'
    · next heq =>
      obtain ⟨q, hq, rfl⟩ := Option.map_eq_some_iff.mp hq'
      exact (hf q (heq ▸ hq)).1 (h.begun i t q ht hphase hq)
    · exact h.begun i t q' ht hphase hq'
  · rw [processor?_modify] at hq'
    split at hq'
    · next heq =>
      obtain ⟨q, hq, rfl⟩ := Option.map_eq_some_iff.mp hq'
      exact h.runByTask i q hq ((hf q (heq ▸ hq)).2 hrun)
    · exact h.runByTask i q' hq' hrun

/-- A task picks its processor up and runs it. -/
theorem claim (h : w.PoolInv) {i : Nat} {t : Task} {q : Processor} (ht : w.tasks[i]? = some t)
    (hphase : t.phase = .permitted) (hq : w.processor? t.processor = some q)
    (hstage : q.stage = .created) :
    ((w.modify t.processor Processor.claim).setPhase i .running).PoolInv := by
  have hclaimed : q.claim.stage = .running := by
    rw [Processor.claim, if_pos hstage]
  have hprocessors (id : ProcessorId) :
      ((w.modify t.processor Processor.claim).setPhase i .running).processor? id =
        if id = t.processor then some q.claim else w.processor? id :=
    processor?_modify_of_eq hq _ id
  refine ⟨?_, fun j t' ht' => ?_, fun j t' q' ht' hphase' hq' => ?_, fun id q' hq' hrun => ?_⟩
  · have hcount := permitsHeld_setPhase ht .running
    simp only [Task.holdsPermit, hphase, if_true] at hcount
    have hpermits := h.permits
    show (w.setPhase i .running).permitsHeld ≤ w.size
    omega
  · have hlength : ((w.modify t.processor Processor.claim).setPhase i .running).nextId =
        w.nextId := List.length_modify _ _ _
    rw [hlength]
    rw [tasks_setPhase] at ht'
    split at ht'
    · next hj =>
      obtain ⟨t₀, ht₀, rfl⟩ := Option.map_eq_some_iff.mp ht'
      exact h.known j t₀ ht₀
    · exact h.known j t' ht'
  · rw [hprocessors] at hq'
    split at hq'
    · rw [← Option.some.inj hq', hclaimed]
      decide
    · next hne =>
      rw [tasks_setPhase] at ht'
      split at ht'
      · next hj =>
        have heq : w.tasks[j]? = some t := hj ▸ ht
        obtain ⟨t₀, ht₀, rfl⟩ := Option.map_eq_some_iff.mp ht'
        obtain rfl := Option.some.inj (heq.symm.trans ht₀)
        exact absurd rfl hne
      · exact h.begun j t' q' ht' hphase' hq'
  · rw [hprocessors] at hq'
    split at hq'
    · next hid =>
      refine ⟨i, { t with phase := .running }, ?_, hid.symm, rfl⟩
      rw [tasks_setPhase, if_pos rfl]
      exact congrArg (Option.map _) ht
    · obtain ⟨j, t', ht', hid, hphase'⟩ := h.runByTask id q' hq' hrun
      refine ⟨j, t', ?_, hid, hphase'⟩
      rw [tasks_setPhase, if_neg]
      · exact ht'
      · rintro rfl
        obtain rfl := Option.some.inj (ht.symm.trans ht')
        exact absurd (hphase.symm.trans hphase') (by decide)

theorem step (h : w.PoolInv) (i : Nat) : (w.step i).1.PoolInv := by
  have hprogress := step_progress w i
  generalize w.step i = r at hprogress
  have hpermits := h.permits
  cases hprogress with
  | idle => exact h
  | @permit t ht hphase hfree =>
    have hcount := permitsHeld_setPhase ht .permitted
    simp only [Task.holdsPermit, hphase] at hcount
    refine h.setPhase ht (by decide) ?_ fun hrun => ?_
    · simp at hcount
      omega
    · exact absurd (hphase.symm.trans hrun) (by decide)
  | @claim t q ht hphase hq hstage => exact h.claim ht hphase hq hstage
  | @pass t q ht hphase hq hstage =>
    have hcount := permitsHeld_setPhase ht .ended
    simp only [Task.holdsPermit, hphase] at hcount
    refine h.setPhase ht (by decide) ?_ fun hrun => ?_
    · simp at hcount
      omega
    · exact absurd (hphase.symm.trans hrun) (by decide)
  | @advance t q ht hphase hq hbusy =>
    refine h.modify t.processor fun q' hq' => ?_
    obtain rfl := Option.some.inj (hq.symm.trans hq')
    rcases Processor.stage_advance w.handler q with ⟨hrun, hstage⟩ | heq
    · exact ⟨fun _ => hstage, fun _ => hrun⟩
    · rw [heq]
      exact ⟨id, id⟩
  | @finish t q ht hphase hq hdone =>
    have hcount := permitsHeld_setPhase ht .ended
    simp only [Task.holdsPermit, hphase] at hcount
    refine h.setPhase ht (by decide) ?_ fun _ q' hq' hrun => ?_
    · simp at hcount
      omega
    · obtain rfl := Option.some.inj (hq.symm.trans hq')
      rw [Processor.isDone, hrun] at hdone
      cases hdone

theorem submit (h : w.PoolInv) {id : ProcessorId} (hthere : id < w.nextId) :
    (w.submit id).1.PoolInv := by
  have htasks : (w.submit id).1.tasks = w.tasks ++ [{ processor := id }] := rfl
  have hcases (i : Nat) (t : Task) (ht : (w.submit id).1.tasks[i]? = some t) :
      w.tasks[i]? = some t ∨ t = { processor := id } := by
    rw [htasks, List.getElem?_append] at ht
    split at ht
    · exact Or.inl ht
    · exact Or.inr (List.mem_singleton.mp (List.mem_of_getElem? ht))
  refine ⟨?_, fun i t ht => ?_, fun i t q ht hphase hq => ?_, fun j q hq hrun => ?_⟩
  · have hnone : ({ processor := id } : Task).holdsPermit = false := rfl
    have hsame : (w.submit id).1.permitsHeld = w.permitsHeld := by
      simp [permitsHeld, htasks, hnone]
    rw [hsame]
    exact h.permits
  · rcases hcases i t ht with ht | rfl
    · exact h.known i t ht
    · exact hthere
  · rcases hcases i t ht with ht | rfl
    · exact h.begun i t q ht hphase hq
    · cases hphase
  · obtain ⟨i, t, ht, hid, hphase⟩ := h.runByTask j q hq hrun
    obtain ⟨hlt, -⟩ := List.getElem?_eq_some_iff.mp ht
    exact ⟨i, t, by rw [htasks, List.getElem?_append_left hlt, ht], hid, hphase⟩

theorem turn (h : w.PoolInv) (t : Turn) : (w.turn t).1.PoolInv := by
  cases t with
  | create batch =>
    have hadds : w.Adds (w.create batch) [batch] := rfl
    refine ⟨h.permits, fun i t ht => ?_, fun i t q ht hphase hq => ?_, fun id q hq hrun => ?_⟩
    · exact Nat.lt_of_lt_of_le (h.known i t ht) (by simp [Workers.turn, Workers.create, nextId])
    · have hne : t.processor ≠ w.nextId := Nat.ne_of_lt (h.known i t ht)
      have hq : (w.create batch).processor? t.processor = some q := hq
      rw [processor?_create, if_neg hne] at hq
      exact h.begun i t q ht hphase hq
    · rcases hadds.cases hq with hq | ⟨_, -, rfl⟩
      · exact h.runByTask id q hq hrun
      · cases hrun
  | submit id =>
    unfold Workers.turn
    dsimp only
    split
    · next hthere => exact h.submit hthere
    · exact h
  | stop id =>
    refine h.modify id fun q _ => ⟨fun hstage => ?_, fun hrun => ?_⟩
    · rw [Processor.stop]
      simp [hstage]
    · rw [Processor.stop] at hrun
      split at hrun
      · cases hrun
      · exact hrun
  | step i => exact h.step i

theorem turns (h : w.PoolInv) (ts : List Turn) : (w.turns ts).1.PoolInv :=
  turns_induction (P := fun w _ => w.PoolInv) (fun _ _ t h => h.turn t) [] h ts

/-- No more processors run than there are workers. -/
theorem running_le (h : w.PoolInv) :
    w.processors.countP (fun q => q.stage = .running) ≤ w.size := by
  let running : List Task := w.tasks.filter fun t => t.phase = .running
  have hrunning : w.processors.countP (fun q => q.stage = .running) ≤
      (running.map Task.processor).length := by
    refine countP_le_length (k := 0) fun id q hq hrun => ?_
    obtain ⟨i, t, ht, hid, hphase⟩ := h.runByTask id q hq (of_decide_eq_true hrun)
    refine List.mem_map.mpr ⟨t, List.mem_filter.mpr ⟨List.mem_of_getElem? ht, ?_⟩, ?_⟩
    · exact decide_eq_true hphase
    · rw [hid, Nat.zero_add]
  have hholding : running.length ≤ w.permitsHeld := by
    rw [← List.countP_eq_length_filter]
    refine List.countP_mono_left fun t _ hphase => ?_
    rw [Task.holdsPermit, of_decide_eq_true hphase]
  rw [List.length_map] at hrunning
  exact Nat.le_trans hrunning (Nat.le_trans hholding h.permits)

end PoolInv

end Workers
end RecordDispatch
