import RecordDispatch.Proofs.Pool.Turns

/-!
# What a pool does to its processors

A processor begins to run once at most (`starts_le_one`), and the records that
were handled for it are those that it has behind it (`handledBy_turns`).  One that
is stopped while it waits for a worker stays as it is, and nothing is done for
it any more (`stopped_turns`).
-/

namespace RecordDispatch.Workers

/-- The records that were handled for a processor. -/
def handledBy (id : ProcessorId) (es : List Event) : List Record :=
  (es.filterMap Event.handled?).filterMap fun e => if e.1 = id then some e.2 else none

theorem handledBy_append (id : ProcessorId) (es fs : List Event) :
    handledBy id (es ++ fs) = handledBy id es ++ handledBy id fs := by
  rw [handledBy, List.filterMap_append, List.filterMap_append]
  rfl

theorem handledBy_of_none {es : List Event} (h : es.filterMap Event.handled? = [])
    (id : ProcessorId) : handledBy id es = [] := by
  rw [handledBy, h]
  rfl

/-! ## One turn -/

/-- What a turn does to a processor, with the record that is handled for it, if
one is. -/
inductive Turned (q : Processor) : Processor → List Record → Prop
  | same : Turned q q []
  | stop : Turned q q.stop []
  | step {q' : Processor} {r? : Option Record} (h : q.Step q' r?) : Turned q q' r?.toList

namespace Turned

variable {q q' : Processor} {rs : List Record}

theorem handled (h : Turned q q' rs) : q'.handled = q.handled ++ rs := by
  cases h with
  | same | stop => exact (List.append_nil _).symm
  | step h => exact h.handled

/-- Only processors that are new wait for a worker. -/
theorem stage_ne_created (h : Turned q q' rs) (hq : q.stage ≠ .created) :
    q'.stage ≠ .created := by
  cases h with
  | same => exact hq
  | stop => simp [Processor.stop, hq]
  | step h => cases h <;> simp_all

/-- Only a processor that was waiting for a worker begins to run. -/
theorem running (h : Turned q q' rs) (hrun : q'.stage = .running) :
    q.stage = .created ∨ q.stage = .running := by
  cases h with
  | same => exact Or.inr hrun
  | stop =>
    simp only [Processor.stop] at hrun
    split at hrun
    · cases hrun
    · exact Or.inr hrun
  | step h =>
    cases h with
    | claim hq => exact Or.inl hq
    | begin _ hq | handle hq _ | finish hq _ | stop hq _ => exact Or.inr hq

/-- A processor that still waits has not changed. -/
theorem eq_of_created (h : Turned q q' rs) (hq' : q'.stage = .created) : q' = q := by
  have hq : q.stage = .created := Decidable.byContradiction fun hq => h.stage_ne_created hq hq'
  cases h with
  | same => rfl
  | stop => simp [Processor.stop, hq] at hq'
  | step h => cases h <;> simp_all [Processor.claim]

end Turned

theorem turned_turn (w : Workers) (t : Turn) {id : ProcessorId} {q : Processor}
    (hq : w.processor? id = some q) :
    ∃ q' rs, (w.turn t).1.processor? id = some q' ∧ handledBy id (w.turn t).2 = rs ∧
      Turned q q' rs := by
  cases t with
  | create batch =>
    have hadds : w.Adds (w.create batch) [batch] := rfl
    exact ⟨q, [], hadds.processor? hq, rfl, .same⟩
  | submit i =>
    unfold turn
    dsimp only
    split <;> exact ⟨q, [], hq, rfl, .same⟩
  | stop i =>
    by_cases hi : id = i
    · obtain rfl := hi
      exact ⟨q.stop, [], by simp [turn, hq], rfl, .stop⟩
    · exact ⟨q, [], by simp [turn, hi, hq], rfl, .same⟩
  | step i =>
    simp only [turn]
    cases w.step_cases i with
    | none hp he => exact ⟨q, [], by rw [hp, hq], handledBy_of_none he id, .same⟩
    | one j q₀ q' r? hj hs hp he =>
      by_cases hid : id = j
      · obtain rfl := Option.some.inj (hq.symm.trans (hid ▸ hj))
        refine ⟨q', r?.toList, by rw [hp, if_pos hid], ?_, .step hs⟩
        rw [handledBy, he]
        cases r? <;> simp [hid]
      · refine ⟨q, [], by rw [hp, if_neg hid, hq], ?_, .same⟩
        rw [handledBy, he]
        cases r? <;> simp [Ne.symm hid]

/-- A processor that was not there before is new. -/
theorem new_turn (w : Workers) (t : Turn) {id : ProcessorId} (hq : w.processor? id = none) :
    handledBy id (w.turn t).2 = [] ∧
      ∀ q, (w.turn t).1.processor? id = some q → q = { batch := q.batch } := by
  cases t with
  | create batch =>
    have hadds : w.Adds (w.create batch) [batch] := rfl
    refine ⟨rfl, fun q hq' => ?_⟩
    rcases hadds.cases hq' with hq' | ⟨_, -, rfl⟩
    · exact absurd (hq.symm.trans hq') nofun
    · rfl
  | submit i =>
    unfold turn
    dsimp only
    split <;> exact ⟨rfl, fun q hq' => absurd (hq.symm.trans hq') nofun⟩
  | stop i =>
    refine ⟨rfl, fun q hq' => ?_⟩
    simp [turn, hq] at hq'
  | step i =>
    simp only [turn]
    cases w.step_cases i with
    | none hp he =>
      refine ⟨handledBy_of_none he id, fun q hq' => ?_⟩
      rw [hp, hq] at hq'
      cases hq'
    | one j q₀ q' r? hj hs hp he =>
      have hid : id ≠ j := by
        rintro rfl
        rw [hq] at hj
        cases hj
      refine ⟨?_, fun q hq' => ?_⟩
      · rw [handledBy, he]
        cases r? <;> simp [Ne.symm hid]
      · rw [hp, if_neg hid, hq] at hq'
        cases hq'

/-! ## Handled records -/

/-- The records that were handled for a processor are those that it has behind
it, and for others none was. -/
def Handled (w : Workers) (es : List Event) : Prop :=
  ∀ id, handledBy id es = ((w.processor? id).map Processor.handled).getD []

theorem Handled.turn {w : Workers} {es : List Event} (h : w.Handled es) (t : Turn) :
    (w.turn t).1.Handled (es ++ (w.turn t).2) := by
  intro id
  have hbefore := h id
  rw [handledBy_append, hbefore]
  cases hq : w.processor? id with
  | none =>
    obtain ⟨hnone, hnew⟩ := w.new_turn t hq
    rw [hnone]
    cases hq' : (w.turn t).1.processor? id with
    | none => rfl
    | some q' =>
      rw [hnew q' hq']
      rfl
  | some q =>
    obtain ⟨q', rs, hq', hrs, hturned⟩ := w.turned_turn t hq
    rw [hq', hrs]
    exact hturned.handled.symm

theorem handled_turns (n : Nat) (handler : Handler) (ts : List Turn) :
    ((ofSize n handler).turns ts).1.Handled ((ofSize n handler).turns ts).2 :=
  turns_induction (w := ofSize n handler) (P := Handled) (fun _ _ t h => h.turn t) []
    (fun _ => rfl) ts

/-! ## Processors that begin to run -/

/-- Whether a processor runs. -/
def isRunning (w : Workers) (id : ProcessorId) : Bool :=
  (w.processor? id).any fun q => q.stage = .running

theorem isRunning_iff {w : Workers} {id : ProcessorId} :
    w.isRunning id = true ↔ ∃ q, w.processor? id = some q ∧ q.stage = .running := by
  simp [isRunning, Option.any_eq_true]

/-- How often a processor begins to run. -/
def starts (w : Workers) (id : ProcessorId) : List Turn → Nat
  | [] => 0
  | t :: ts =>
    (if (w.turn t).1.isRunning id && !w.isRunning id then 1 else 0) + (w.turn t).1.starts id ts

/-- A processor that does not wait for a worker any more does not begin to run
again. -/
theorem starts_eq_zero {w : Workers} {id : ProcessorId} {q : Processor}
    (hq : w.processor? id = some q) (hstage : q.stage ≠ .created) (ts : List Turn) :
    w.starts id ts = 0 := by
  induction ts generalizing w q with
  | nil => rfl
  | cons t ts ih =>
    obtain ⟨q', rs, hq', -, hturned⟩ := w.turned_turn t hq
    have hnot : ((w.turn t).1.isRunning id && !w.isRunning id) = false := by
      cases hrun : (w.turn t).1.isRunning id with
      | false => rfl
      | true =>
        obtain ⟨q₁, hq₁, hrun⟩ := isRunning_iff.mp hrun
        obtain rfl := Option.some.inj (hq'.symm.trans hq₁)
        have hbefore := (hturned.running hrun).resolve_left hstage
        rw [isRunning_iff.mpr ⟨q, hq, hbefore⟩]
        rfl
    rw [starts, hnot, ih hq' (hturned.stage_ne_created hstage)]
    rfl

theorem starts_le_one (w : Workers) (id : ProcessorId) (ts : List Turn) :
    w.starts id ts ≤ 1 := by
  induction ts generalizing w with
  | nil => exact Nat.zero_le 1
  | cons t ts ih =>
    rw [starts]
    split
    · next hstart =>
      obtain ⟨hrun, -⟩ := Bool.and_eq_true_iff.mp hstart
      obtain ⟨q, hq, hrun⟩ := isRunning_iff.mp hrun
      exact Nat.add_le_add_left (Nat.le_of_eq (starts_eq_zero hq (hrun ▸ nofun) ts)) 1
    · rw [Nat.zero_add]
      exact ih _

/-! ## Processors that are stopped while they wait -/

/-- Nothing has been done with a processor that waits for a worker. -/
def Fresh (w : Workers) : Prop :=
  ∀ id q, w.processor? id = some q → q.stage = .created → q = { batch := q.batch }

theorem Fresh.turn {w : Workers} (h : w.Fresh) (t : Turn) : (w.turn t).1.Fresh := by
  intro id q' hq' hstage
  cases hq : w.processor? id with
  | none => exact (w.new_turn t hq).2 q' hq'
  | some q =>
    obtain ⟨q₁, rs, hq₁, -, hturned⟩ := w.turned_turn t hq
    obtain rfl := Option.some.inj (hq'.symm.trans hq₁)
    obtain rfl := hturned.eq_of_created hstage
    exact h id q' hq hstage

theorem fresh_turns (n : Nat) (handler : Handler) (ts : List Turn) :
    ((ofSize n handler).turns ts).1.Fresh :=
  turns_induction (w := ofSize n handler) (P := fun w _ => w.Fresh) (fun _ _ t h => h.turn t) []
    (fun _ _ hq => absurd hq nofun) ts

/-- A processor that is done does nothing. -/
theorem turn_acts (w : Workers) (t : Turn) {e : Event} (he : e ∈ (w.turn t).2)
    {id : ProcessorId} (hid : e.acting? = some id) : ¬ w.Done id := by
  cases t with
  | create | stop => exact absurd he List.not_mem_nil
  | submit i =>
    unfold turn at he
    dsimp only at he
    split at he
    · rw [List.mem_singleton.mp he] at hid
      cases hid
    · exact absurd he List.not_mem_nil
  | step i => exact step_acts w i he hid

/-- A processor that is stopped while it waits for a worker has handled nothing,
and it stays so. -/
theorem stopped_turns {w : Workers} (hw : w.Fresh) {id : ProcessorId} {q : Processor}
    (hq : w.processor? id = some q) (hstage : q.stage = .created) (ts : List Turn) :
    ((w.stop id).turns ts).1.processor? id =
        some { batch := q.batch, stage := .stopped, stopRequested := true } ∧
      ∀ e ∈ ((w.stop id).turns ts).2, e.acting? ≠ some id := by
  let stopped : Processor := { batch := q.batch, stage := .stopped, stopRequested := true }
  have hstop : (w.stop id).processor? id = some stopped := by
    rw [processor?_stop, if_pos rfl, hq, Option.map_some, hw id q hq hstage]
    rfl
  refine turns_induction (w := w.stop id) (P := fun w es => w.processor? id = some stopped ∧
    ∀ e ∈ es, e.acting? ≠ some id) (fun w es t h => ?_) [] ⟨hstop, List.forall_mem_nil _⟩ ts
  obtain ⟨hthere, hes⟩ := h
  obtain ⟨q', rs, hq', -, hturned⟩ := w.turned_turn t hthere
  refine ⟨?_, fun e he hid => ?_⟩
  · cases hturned with
    | same | stop => exact hq'
    | step hstep => exact absurd hstep.isDone_eq_false nofun
  · rcases List.mem_append.mp he with he | he
    · exact hes e he hid
    · exact w.turn_acts t he hid ⟨stopped, hthere, rfl⟩

end RecordDispatch.Workers
