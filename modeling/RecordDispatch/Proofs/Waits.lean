import RecordDispatch.Proofs.Flow

/-!
# Waits for partitions, one after another

A drain waits for the processors of its partitions, one partition after another,
and stages offsets by what it sees at the end of each wait.  `waited?` says what
it sees of a partition.  What is staged in the end for a partition depends on
that alone, and on what was staged before (`find?_waits`), since no partition is
waited for twice.

The two ways of dispatching differ in what they wait for and in what they see.
-/

namespace RecordDispatch.Dispatcher

open Dispatch

variable {ω α β : Type}

/-- What is seen of a partition at the end of the wait for it: each wait sees
something of its partition, and then the next one begins. -/
def waited? (see : Dispatcher ω → Partition × α → β)
    (next : Dispatcher ω → Partition × α → Dispatcher ω) (p : Partition) :
    Dispatcher ω → List (Partition × α) → Option β
  | _, [] => none
  | d, e :: es => if p = e.1 then some (see d e) else waited? see next p (next d e) es

section Waits

variable {see : Dispatcher ω → Partition × α → β}
  {next : Dispatcher ω → Partition × α → Dispatcher ω} {d : Dispatcher ω}
  {es : List (Partition × α)} {p : Partition}

theorem waited?_of_not_mem (hp : ∀ a, (p, a) ∉ es) : waited? see next p d es = none := by
  induction es generalizing d with
  | nil => rfl
  | cons e es ih =>
    have hne : p ≠ e.1 := by
      rintro rfl
      exact hp e.2 List.mem_cons_self
    rw [waited?, if_neg hne]
    exact ih fun a ha => hp a (List.mem_cons_of_mem e ha)

variable {R : Dispatcher ω → Dispatcher ω → Prop} (hR : DrainSteps R)
  (hnext : ∀ d e, R d (next d e)) (hes : (es.map Prod.fst).Nodup)
include hR hnext hes

/-- What is seen of a partition is seen after other waits, which keep what the
steps of a drain keep. -/
theorem waited?_of_mem (see : Dispatcher ω → Partition × α → β) {a : α} (ha : (p, a) ∈ es) :
    ∃ d', R d d' ∧ waited? see next p d es = some (see d' (p, a)) := by
  induction es generalizing d with
  | nil => exact absurd ha List.not_mem_nil
  | cons e es ih =>
    obtain ⟨hnew, hes⟩ := List.nodup_cons.mp hes
    rcases List.mem_cons.mp ha with rfl | ha
    · exact ⟨d, hR.refl d, if_pos rfl⟩
    · have hne : p ≠ e.1 := fun heq => hnew (heq ▸ List.mem_map_of_mem ha)
      obtain ⟨d', hd', hseen⟩ := ih hes ha
      exact ⟨d', hR.trans (hnext d e) hd', (if_neg hne).trans hseen⟩

/-- If each wait stages for its partition what is specified, by what is seen and
by what is staged already, and nothing for others, then so do all waits. -/
theorem find?_waits {f : Dispatcher ω × Offsets → Partition × α → Dispatcher ω × Offsets}
    {spec : β → Option Int → Option Int}
    (hfst : ∀ d staged e, (f (d, staged) e).1 = next d e)
    (hf : ∀ d', R d d' → ∀ e ∈ es, ∀ staged p, (f (d', staged) e).2.find? p =
      if p = e.1 then spec (see d' e) (staged.find? p) else staged.find? p)
    (staged : Offsets) (p : Partition) :
    (es.foldl f (d, staged)).2.find? p =
      ((waited? see next p d es).map (spec · (staged.find? p))).getD (staged.find? p) := by
  induction es generalizing d staged with
  | nil => rfl
  | cons e es ih =>
    obtain ⟨hnew, hes⟩ := List.nodup_cons.mp hes
    have hrest := ih hes (fun d' hd' e' he' =>
      hf d' (hR.trans (hnext d e) hd') e' (List.mem_cons_of_mem e he')) (f (d, staged) e).2
    rw [← hfst d staged e] at hrest
    rw [List.foldl_cons, hrest, hf d (hR.refl d) e List.mem_cons_self staged p, waited?, hfst]
    split
    · next heq =>
      have hlast : waited? see next p (next d e) es = none := by
        refine waited?_of_not_mem fun a ha => hnew ?_
        rw [← heq]
        exact List.mem_map_of_mem ha
      rw [hlast]
      rfl
    · rfl

end Waits

/-! ## Processors that are asked to stop -/

/-- A processor that was asked to stop still is after each step of a drain. -/
theorem drainSteps_stopping (i : ProcessorId) :
    DrainSteps fun d d' : Dispatcher ω => d.workers.Stopping i → d'.workers.Stopping i where
  refl _ := id
  trans h₁ h₂ := h₂ ∘ h₁
  hold _ _ := id
  forget _ _ := id
  stop _ j h := h.stop j
  work d steps h := h.later (d.work_later steps)
  elapse _ _ := id
  tellOne _ _ _ := id

/-- Well-formed processors still are after each step of a drain. -/
theorem drainSteps_wellFormed :
    DrainSteps fun d d' : Dispatcher ω => d.workers.WellFormed → d'.workers.WellFormed where
  refl _ := id
  trans h₁ h₂ := h₂ ∘ h₁
  hold _ _ := id
  forget _ _ := id
  stop _ j h := h.stop j
  work _ steps h := h.run steps
  elapse _ _ := id
  tellOne _ _ _ := id

end RecordDispatch.Dispatcher
