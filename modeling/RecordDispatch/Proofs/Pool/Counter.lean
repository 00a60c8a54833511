import RecordDispatch.Proofs.Pool.Turns

/-!
# How many tasks are in flight

The pool has a counter: it goes up with each submission and down with the end of
each task (`Recounts`).  What is told of both says how many tasks are in flight
(`Recounts`, `recounts_turns`), and which processors these are tasks of
(`Registered.inFlight`).
-/

namespace RecordDispatch.Workers

/-! ## The counter -/

/-- A counter goes from one number to another: up with each submission, down
with each end of a task, and each of these tells its new value. -/
def Recounts : Nat → List Event → Nat → Prop
  | n, [], m => n = m
  | n, .submitted _ told :: es, m => told = n + 1 ∧ Recounts (n + 1) es m
  | n, .ended _ told :: es, m => n = told + 1 ∧ Recounts told es m
  | n, _ :: es, m => Recounts n es m

theorem Recounts.append {n m k : Nat} {es fs : List Event} (hes : Recounts n es m)
    (hfs : Recounts m fs k) : Recounts n (es ++ fs) k := by
  induction es generalizing n with
  | nil =>
    obtain rfl : n = m := hes
    exact hfs
  | cons e es ih =>
    cases e with
    | submitted id told => exact ⟨hes.1, ih hes.2⟩
    | ended id told => exact ⟨hes.1, ih hes.2⟩
    | _ => exact ih hes

theorem recounts_processor (n : Nat) (id : ProcessorId) (es : List Processor.Event) :
    Recounts n (es.map (.processor id)) n := by
  induction es with
  | nil => rfl
  | cons e es ih => exact ih

/-- The counter is one lower when a task has ended. -/
theorem recounts_finish {w : Workers} {i : Nat} {t : Task} (ht : w.tasks[i]? = some t)
    (hphase : t.phase ≠ .ended) (id : ProcessorId) :
    Recounts w.inFlight (w.finish i id).2 (w.finish i id).1.inFlight := by
  have hcount := inFlight_setPhase ht .ended
  simp only [Task.isInFlight, bne_iff_ne.mpr hphase, if_true, bne_self_eq_false,
    Bool.false_eq_true, if_false] at hcount
  exact ⟨hcount.symm, rfl⟩

theorem inFlight_setPhase_of_ne {w : Workers} {i : Nat} {t : Task} (ht : w.tasks[i]? = some t)
    (hphase : t.phase ≠ .ended) (phase : Phase) (hne : phase ≠ .ended) :
    (w.setPhase i phase).inFlight = w.inFlight := by
  have hcount := inFlight_setPhase ht phase
  simp only [Task.isInFlight, bne_iff_ne.mpr hphase, bne_iff_ne.mpr hne, if_true] at hcount
  exact Nat.add_right_cancel hcount

theorem recounts_turn (w : Workers) (t : Turn) :
    Recounts w.inFlight (w.turn t).2 (w.turn t).1.inFlight := by
  cases t with
  | create | stop => rfl
  | submit id =>
    unfold turn
    dsimp only
    split
    · rw [inFlight_submit]
      exact ⟨inFlight_submit w id, rfl⟩
    · rfl
  | step i =>
    have hprogress := step_progress w i
    simp only [turn]
    generalize w.step i = r at hprogress
    cases hprogress with
    | idle => rfl
    | permit ht hphase =>
      exact (inFlight_setPhase_of_ne ht (by simp [hphase]) .permitted (by decide)).symm
    | claim ht hphase =>
      exact (inFlight_setPhase_of_ne ht (by simp [hphase]) .running (by decide)).symm
    | @pass t q ht hphase => exact recounts_finish ht (by simp [hphase]) t.processor
    | advance => exact recounts_processor _ _ _
    | finish ht hphase => exact recounts_finish ht (by simp [hphase]) _

/-- The counter of a new pool is the number of its tasks in flight. -/
theorem recounts_turns (n : Nat) (handler : Handler) (ts : List Turn) :
    Recounts 0 ((ofSize n handler).turns ts).2 ((ofSize n handler).turns ts).1.inFlight :=
  turns_induction (w := ofSize n handler) (P := fun w es => Recounts 0 es w.inFlight)
    (fun w _ t h => h.append (recounts_turn w t)) [] rfl ts

/-! ## Submissions -/

/-- The processor that is queued. -/
def Event.submitted? : Event → Option ProcessorId
  | .submitted id _ => some id
  | _ => none

/-- The processor whose task ends. -/
def Event.ended? : Event → Option ProcessorId
  | .ended id _ => some id
  | _ => none

/-- The processors that were queued. -/
def submissions (es : List Event) : List ProcessorId :=
  es.filterMap Event.submitted?

/-- The processors whose tasks have ended. -/
def ends (es : List Event) : List ProcessorId :=
  es.filterMap Event.ended?

/-- The task of a processor has ended. -/
def HasEnded (w : Workers) (id : ProcessorId) : Prop :=
  ∃ (i : Nat) (t : Task), w.tasks[i]? = some t ∧ t.processor = id ∧ t.phase = .ended

/-- Each submission has a task, and the tasks that have ended are those of which
this was told. -/
structure Registered (w : Workers) (es : List Event) : Prop where
  tasks : w.tasks.map Task.processor = submissions es
  ended : ∀ id, id ∈ ends es ↔ w.HasEnded id

theorem submissions_processor (id : ProcessorId) (es : List Processor.Event) :
    submissions (es.map (.processor id)) = [] := by
  rw [submissions, List.filterMap_map]
  exact List.filterMap_eq_nil_iff.mpr fun _ _ => rfl

theorem ends_processor (id : ProcessorId) (es : List Processor.Event) :
    ends (es.map (.processor id)) = [] := by
  rw [ends, List.filterMap_map]
  exact List.filterMap_eq_nil_iff.mpr fun _ _ => rfl

/-- A task that is new has not ended. -/
theorem hasEnded_submit (w : Workers) (id j : ProcessorId) :
    (w.submit id).1.HasEnded j ↔ w.HasEnded j := by
  have htasks : (w.submit id).1.tasks = w.tasks ++ [{ processor := id }] := rfl
  constructor
  · rintro ⟨i, t, ht, hid, hended⟩
    rw [htasks, List.getElem?_append] at ht
    split at ht
    · exact ⟨i, t, ht, hid, hended⟩
    · obtain rfl := List.mem_singleton.mp (List.mem_of_getElem? ht)
      cases hended
  · rintro ⟨i, t, ht, hid, hended⟩
    obtain ⟨hlt, -⟩ := List.getElem?_eq_some_iff.mp ht
    exact ⟨i, t, by rw [htasks, List.getElem?_append_left hlt, ht], hid, hended⟩

section Phases

variable {w : Workers} {i : Nat} {t : Task}

theorem map_processor_setPhase (w : Workers) (i : Nat) (phase : Phase) :
    (w.setPhase i phase).tasks.map Task.processor = w.tasks.map Task.processor := by
  refine List.ext_getElem? fun j => ?_
  rw [List.getElem?_map, List.getElem?_map, tasks_setPhase]
  split
  · rw [Option.map_map]
    rfl
  · rfl

/-- Of the tasks only the one whose phase changes may end. -/
theorem hasEnded_setPhase (ht : w.tasks[i]? = some t) (hphase : t.phase ≠ .ended)
    (phase : Phase) (id : ProcessorId) :
    (w.setPhase i phase).HasEnded id ↔ w.HasEnded id ∨ phase = .ended ∧ t.processor = id := by
  constructor
  · rintro ⟨j, t', ht', hid, hended⟩
    rw [tasks_setPhase] at ht'
    split at ht'
    · next hj =>
      rw [hj, ht] at ht'
      obtain rfl := Option.some.inj ht'
      exact Or.inr ⟨hended, hid⟩
    · exact Or.inl ⟨j, t', ht', hid, hended⟩
  · rintro (⟨j, t', ht', hid, hended⟩ | ⟨rfl, hid⟩)
    · refine ⟨j, t', ?_, hid, hended⟩
      rw [tasks_setPhase, if_neg, ht']
      rintro rfl
      obtain rfl := Option.some.inj (ht.symm.trans ht')
      exact hphase hended
    · refine ⟨i, { t with phase := .ended }, ?_, hid, rfl⟩
      rw [tasks_setPhase, if_pos rfl, ht]
      rfl

end Phases

namespace Registered

variable {w : Workers} {es : List Event}

theorem append (h : w.Registered es) {w' : Workers} {fs : List Event}
    (htasks : w'.tasks.map Task.processor = w.tasks.map Task.processor ++ submissions fs)
    (hended : ∀ id, w'.HasEnded id ↔ w.HasEnded id ∨ id ∈ ends fs) :
    w'.Registered (es ++ fs) := by
  refine ⟨?_, fun id => ?_⟩
  · rw [htasks, h.tasks, submissions, submissions, submissions, List.filterMap_append]
  · rw [hended, ← h.ended, ends, ends, ends, List.filterMap_append, List.mem_append]

/-- The phase of a task changes, and it is told if the task has ended. -/
theorem setPhase (h : w.Registered es) {i : Nat} {t : Task} (ht : w.tasks[i]? = some t)
    (hphase : t.phase ≠ .ended) {phase : Phase} {w' : Workers} {fs : List Event}
    (hw : w'.tasks = (w.setPhase i phase).tasks) (hs : submissions fs = [])
    (he : ∀ id, id ∈ ends fs ↔ phase = .ended ∧ t.processor = id) :
    w'.Registered (es ++ fs) := by
  refine h.append ?_ fun id => ?_
  · rw [hw, map_processor_setPhase, hs, List.append_nil]
  · rw [he, ← hasEnded_setPhase ht hphase, HasEnded, hw]
    rfl

theorem turn (h : w.Registered es) (t : Turn) :
    (w.turn t).1.Registered (es ++ (w.turn t).2) := by
  have quiet {w' : Workers} {fs : List Event} (hw : w'.tasks = w.tasks)
      (hs : submissions fs = []) (he : ends fs = []) : w'.Registered (es ++ fs) := by
    refine h.append ?_ fun id => ?_
    · rw [hw, hs, List.append_nil]
    · rw [he, HasEnded, hw]
      exact (or_iff_left List.not_mem_nil).symm
  cases t with
  | create | stop => exact quiet rfl rfl rfl
  | submit id =>
    unfold Workers.turn
    dsimp only
    split
    · exact h.append List.map_append fun id => by rw [hasEnded_submit]; simp [ends, submit,
        Event.ended?]
    · exact quiet rfl rfl rfl
  | step i =>
    have hprogress := step_progress w i
    simp only [Workers.turn]
    generalize w.step i = r at hprogress
    cases hprogress with
    | idle => exact quiet rfl rfl rfl
    | permit ht hphase =>
      exact h.setPhase ht (by simp [hphase]) rfl rfl fun id => by simp [ends]
    | claim ht hphase =>
      exact h.setPhase ht (by simp [hphase]) rfl rfl fun id => by simp [ends]
    | @pass t q ht hphase =>
      exact h.setPhase ht (by simp [hphase]) rfl rfl fun id => by
        simp [ends, finish, Event.ended?, eq_comm]
    | advance => exact quiet rfl (submissions_processor _ _) (ends_processor _ _)
    | @finish t q ht hphase hq hdone =>
      exact h.setPhase ht (by simp [hphase]) rfl rfl fun id => by
        simp [ends, finish, Event.ended?, eq_comm]

theorem turns (n : Nat) (handler : Handler) (ts : List Turn) :
    ((ofSize n handler).turns ts).1.Registered ((ofSize n handler).turns ts).2 := by
  refine turns_induction (w := ofSize n handler) (P := Registered)
    (fun w es t h => h.turn t) [] ⟨rfl, fun id => ⟨nofun, ?_⟩⟩ ts
  rintro ⟨i, t, ht, -⟩
  cases ht

/-- In flight are the processors that were queued and whose tasks have not
ended. -/
theorem inFlight (h : w.Registered es) (hd : (submissions es).Nodup) :
    w.inFlight = ((submissions es).filter fun id => !(ends es).contains id).length := by
  rw [← h.tasks] at hd ⊢
  rw [← List.countP_eq_length_filter, List.countP_map]
  refine List.countP_congr fun t ht => ?_
  have hended : t.processor ∈ ends es ↔ t.phase = .ended := by
    obtain ⟨i, ht⟩ := List.mem_iff_getElem?.mp ht
    rw [h.ended]
    constructor
    · rintro ⟨j, t', ht', hid, hphase⟩
      have hsame : (w.tasks.map Task.processor)[j]? = (w.tasks.map Task.processor)[i]? := by
        rw [List.getElem?_map, List.getElem?_map, ht, ht', Option.map_some, hid, Option.map_some]
      have hlt : j < (w.tasks.map Task.processor).length := by
        rw [List.length_map]
        exact (List.getElem?_eq_some_iff.mp ht').1
      obtain rfl := (List.getElem?_inj hlt hd).mp hsame
      obtain rfl := Option.some.inj (ht.symm.trans ht')
      exact hphase
    · exact fun hphase => ⟨i, t, ht, rfl, hphase⟩
  simp [Task.isInFlight, hended]

end Registered

end RecordDispatch.Workers
