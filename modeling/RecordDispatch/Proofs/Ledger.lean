import RecordDispatch.Commit.Schedule
import RecordDispatch.Proofs.Journal

/-!
# What a ledger knows is true

A ledger holds two offsets of a partition, the pending one and the one last
handed out, and loses neither when a commit fails.  `Ledger.mark` is the higher
of the two, that is, the highest offset that was recorded since the partition
was last forgotten.  A commit does not change it, whatever becomes of it
(`mark_afterCommit`), and recording an offset raises it to that offset at least
(`record_cases`).

`Ledger.Backed` ties a ledger to the journal: its offsets are settled, and one
that was handed out and is not pending any more is the last that the broker
accepted.
-/

namespace RecordDispatch

open Dispatch

namespace Ledger

/-! ## The highest recorded offset -/

/-- The highest offset that was recorded for a partition. -/
def mark (l : Ledger) (p : Partition) : Option Int :=
  (l.get? p).or (l.flushed.find? p)

/-- No pending offset lies below the one last handed out. -/
def Ascending (l : Ledger) : Prop :=
  ∀ p c f, l.get? p = some c → l.flushed.find? p = some f → f ≤ c

theorem ascending_empty : ({} : Ledger).Ascending :=
  nofun

theorem mark_eq_some {l : Ledger} {p : Partition} {c : Int} (h : l.mark p = some c) :
    l.get? p = some c ∨ l.get? p = none ∧ l.flushed.find? p = some c := by
  unfold mark at h
  cases hg : l.get? p with
  | some c' => exact Or.inl (by simpa [hg] using h)
  | none => exact Or.inr ⟨rfl, by simpa [hg] using h⟩

theorem mark_record_of_ne (l : Ledger) {p q : Partition} (h : q ≠ p) (next : Int) :
    (l.record p next).mark q = l.mark q := by
  simp [mark, get?_record, h]

/-- An offset advances the ledger exactly if it lies above the mark. -/
theorem advances_iff {l : Ledger} (hl : l.Ascending) {p : Partition} {next : Int} :
    l.advances p next = true ↔ ∀ c, l.mark p = some c → c < next := by
  constructor
  · intro ha c hc
    rcases mark_eq_some hc with hg | ⟨-, hf⟩
    · exact lt_of_advances ha hg
    · exact flushed_lt_of_advances ha hf
  · intro h
    unfold advances isFlushed
    cases hg : l.get? p with
    | some c =>
      have hlt := h c (by simp [mark, hg])
      cases hf : l.flushed.find? p with
      | some f =>
        have := hl p c f hg hf
        simp only [Bool.and_eq_true, Bool.not_eq_true', decide_eq_false_iff_not,
          decide_eq_true_eq]
        omega
      | none => simpa using hlt
    | none =>
      cases hf : l.flushed.find? p with
      | some f => simpa using h f (by simp [mark, hg, hf])
      | none => rfl

/-- Recording an offset changes nothing if the mark has reached it.  Otherwise
the offset is pending then, and it is the mark. -/
theorem record_cases {l : Ledger} (hl : l.Ascending) (p : Partition) (next : Int) :
    (l.record p next = l ∧ ∃ c, l.mark p = some c ∧ next ≤ c) ∨
      ((l.record p next).get? p = some next ∧ (∀ c, l.mark p = some c → c < next) ∧
        ∀ f, l.flushed.find? p = some f → f < next) := by
  cases ha : l.advances p next with
  | true =>
    exact Or.inr ⟨by simp [get?_record, ha], (advances_iff hl).mp ha, fun f hf =>
      flushed_lt_of_advances ha hf⟩
  | false =>
    have hreached : ¬ ∀ c, l.mark p = some c → c < next := by
      rw [← advances_iff hl, ha]
      exact Bool.false_ne_true
    simp only [Classical.not_forall, Int.not_lt, exists_prop] at hreached
    exact Or.inl ⟨by simp [record, ha], hreached⟩

/-- A recorded offset is below the mark or at it. -/
theorem le_mark_record {l : Ledger} (hl : l.Ascending) (p : Partition) (next : Int) :
    ∃ c, (l.record p next).mark p = some c ∧ next ≤ c := by
  rcases record_cases hl p next with ⟨heq, c, hc, hle⟩ | ⟨hg, -, -⟩
  · exact ⟨c, by rw [heq, hc], hle⟩
  · exact ⟨next, by simp [mark, hg], Int.le_refl _⟩

/-- Recording an offset lowers no mark. -/
theorem mark_le_record {l : Ledger} (hl : l.Ascending) (p q : Partition) (next : Int) {c : Int}
    (hc : l.mark q = some c) : ∃ c', (l.record p next).mark q = some c' ∧ c ≤ c' := by
  by_cases hq : q = p
  · subst hq
    rcases record_cases hl q next with ⟨heq, -⟩ | ⟨hg, hlt, -⟩
    · exact ⟨c, by rw [heq, hc], Int.le_refl _⟩
    · exact ⟨next, by simp [mark, hg], Int.le_of_lt (hlt c hc)⟩
  · exact ⟨c, by rw [mark_record_of_ne l hq, hc], Int.le_refl _⟩

theorem Ascending.record {l : Ledger} (hl : l.Ascending) (p : Partition) (next : Int) :
    (l.record p next).Ascending := by
  intro q c f hc hf
  rw [flushed_record] at hf
  rcases record_cases hl p next with ⟨heq, -⟩ | ⟨hg, -, hlt⟩
  · exact hl q c f (heq ▸ hc) hf
  · by_cases hq : q = p
    · subst hq
      rw [hg] at hc
      exact Option.some.inj hc ▸ Int.le_of_lt (hlt f hf)
    · exact hl q c f (by simpa [get?_record, hq] using hc) hf

@[simp] theorem mark_forget (l : Ledger) (ps : List Partition) (p : Partition) :
    (l.forget ps).mark p = if p ∈ ps then none else l.mark p := by
  unfold mark
  rw [get?_forget, flushed_forget]
  split <;> rfl

theorem Ascending.forget {l : Ledger} (hl : l.Ascending) (ps : List Partition) :
    (l.forget ps).Ascending := by
  intro p c f hc hf
  rw [get?_forget] at hc
  rw [flushed_forget] at hf
  split at hc
  · exact absurd hc nofun
  · next hp => exact hl p c f hc (by rwa [if_neg hp] at hf)

/-! ## Commits -/

/-- The ledger after a commit of all pending offsets, which the broker has
accepted or not. -/
def afterCommit (l : Ledger) (accepted : Bool) : Ledger :=
  if accepted then l.drain else l.drain.restore l.pending

theorem get?_afterCommit (l : Ledger) (accepted : Bool) (p : Partition) :
    (l.afterCommit accepted).get? p = if accepted then none else l.get? p := by
  cases accepted with
  | true => rfl
  | false => exact l.get?_restore_drain p

theorem flushed_afterCommit (l : Ledger) (accepted : Bool) (p : Partition) :
    (l.afterCommit accepted).flushed.find? p = l.mark p := by
  cases accepted <;> simp [afterCommit, flushed_drain, mark]

@[simp] theorem mark_afterCommit (l : Ledger) (accepted : Bool) (p : Partition) :
    (l.afterCommit accepted).mark p = l.mark p := by
  rw [mark, get?_afterCommit, flushed_afterCommit, mark]
  cases accepted with
  | true => simp
  | false => cases l.get? p <;> simp

/-- After a commit the mark was handed out last. -/
theorem ascending_afterCommit (l : Ledger) (accepted : Bool) :
    (l.afterCommit accepted).Ascending := by
  intro p c f hc hf
  rw [get?_afterCommit] at hc
  rw [flushed_afterCommit] at hf
  split at hc
  · exact absurd hc nofun
  · rw [mark, hc, Option.some_or] at hf
    exact Int.le_of_eq (Option.some.inj hf).symm

end Ledger

namespace Dispatch

theorem requests_cons (e : Event) (journal : List Event) :
    requests (e :: journal) = e.request?.toList ++ requests journal := by
  unfold requests
  cases h : e.request? <;> simp [h]

/-- Events that stand for no commit add no request. -/
theorem requests_append_of_none {es : List Event} (h : ∀ e ∈ es, e.request? = none)
    (journal : List Event) : requests (es ++ journal) = requests journal := by
  rw [requests, List.filterMap_append, List.filterMap_eq_nil_iff.mpr h, List.nil_append]
  rfl

theorem lastCommitted_cons_of_none {e : Event} (h : e.request? = none) (p : Partition)
    (journal : List Event) : lastCommitted p (e :: journal) = lastCommitted p journal := by
  simp [lastCommitted, requests_cons, h]

/-- A commit that the broker accepts is the last one for its partitions, and no
other commit is. -/
theorem lastCommitted_cons_commit {e : Event} {mode : CommitMode} {offsets : Offsets}
    {accepted : Bool} (h : e.request? = some (.commit mode offsets accepted)) (p : Partition)
    (journal : List Event) :
    lastCommitted p (e :: journal) =
      if accepted then (offsets.find? p).or (lastCommitted p journal)
      else lastCommitted p journal := by
  cases accepted with
  | true =>
    simp only [lastCommitted, requests_cons, h, Option.toList_some, List.singleton_append,
      List.filterMap_cons, Broker.Request.committed?, List.findSome?_cons, if_true]
    cases offsets.find? p <;> rfl
  | false =>
    simp only [lastCommitted, requests_cons, h, Option.toList_some, List.singleton_append,
      List.filterMap_cons, Broker.Request.committed?]
    rfl

/-! ## A ledger and the journal -/

/-- What a ledger knows of partitions is true according to a journal. -/
structure Backed (l : Ledger) (journal : List Event) : Prop where
  pending : ∀ p c, l.get? p = some c → Settled (period p journal) c
  flushed : ∀ p c, l.flushed.find? p = some c → Settled (period p journal) c
  ascending : l.Ascending
  /-- What was handed out and did not come back was accepted. -/
  committed : ∀ p c, l.get? p = none → l.flushed.find? p = some c →
    lastCommitted p journal = some c

theorem backed_empty (journal : List Event) : Backed {} journal :=
  ⟨nofun, nofun, Ledger.ascending_empty, nofun⟩

namespace Backed

variable {l : Ledger} {journal : List Event}

theorem mark (h : Backed l journal) {p : Partition} {c : Int} (hc : l.mark p = some c) :
    Settled (period p journal) c := by
  rcases Ledger.mark_eq_some hc with hg | ⟨-, hf⟩
  · exact h.pending p c hg
  · exact h.flushed p c hf

/-- An event that ends no period and stands for no commit changes nothing. -/
theorem cons (h : Backed l journal) {e : Event} (hr : e.request? = none)
    (hend : ∀ ps n, e ≠ .revoked ps n) : Backed l (e :: journal) := by
  have hle (p : Partition) : (period p journal).Le (period p (e :: journal)) :=
    Period.le_next _ fun ps n heq => absurd heq (hend ps n)
  exact
    { pending := fun p c hc => (h.pending p c hc).mono (hle p)
      flushed := fun p c hc => (h.flushed p c hc).mono (hle p)
      ascending := h.ascending
      committed := fun p c hg hf => by
        rw [lastCommitted_cons_of_none hr, h.committed p c hg hf] }

theorem record (h : Backed l journal) {p : Partition} {next : Int}
    (hn : Settled (period p journal) next) : Backed (l.record p next) journal := by
  rcases Ledger.record_cases h.ascending p next with ⟨heq, -⟩ | ⟨hget, -, -⟩
  · rw [heq]
    exact h
  · have hother {q : Partition} (hq : q ≠ p) : (l.record p next).get? q = l.get? q := by
      simp [Ledger.get?_record, hq]
    refine ⟨fun q c hc => ?_, fun q c hc => ?_, h.ascending.record p next,
      fun q c hg hf => ?_⟩
    · by_cases hq : q = p
      · subst hq
        rw [hget] at hc
        exact Option.some.inj hc ▸ hn
      · exact h.pending q c (hother hq ▸ hc)
    · exact h.flushed q c (by rwa [Ledger.flushed_record] at hc)
    · rw [Ledger.flushed_record] at hf
      by_cases hq : q = p
      · subst hq
        simp [hget] at hg
      · exact h.committed q c (hother hq ▸ hg) hf

/-- A commit of all pending offsets. -/
theorem commit (h : Backed l journal) {e : Event} {mode : CommitMode} {accepted : Bool}
    (he : e.request? = some (.commit mode l.pending accepted)) :
    Backed (l.afterCommit accepted) (e :: journal) := by
  have hle (p : Partition) : (period p journal).Le (period p (e :: journal)) :=
    Period.le_next _ fun ps n heq => by simp [heq, Event.request?] at he
  refine ⟨fun p c hc => ?_, fun p c hc => ?_, l.ascending_afterCommit accepted,
    fun p c hg hf => ?_⟩
  · rw [Ledger.get?_afterCommit] at hc
    split at hc
    · exact absurd hc nofun
    · exact (h.pending p c hc).mono (hle p)
  · rw [Ledger.flushed_afterCommit] at hc
    exact (h.mark hc).mono (hle p)
  · rw [Ledger.get?_afterCommit] at hg
    rw [Ledger.flushed_afterCommit] at hf
    rw [lastCommitted_cons_commit he]
    change (if accepted then (l.get? p).or _ else _) = _
    rcases Ledger.mark_eq_some hf with hp | ⟨hp, hf⟩
    · cases accepted with
      | true => simp [hp]
      | false => simp [hp] at hg
    · rw [hp, Option.none_or, h.committed p c hp hf, ite_self]

/-- A commit of offsets of partitions of which the ledger knows nothing. -/
theorem commitOther (h : Backed l journal) {e : Event} {mode : CommitMode} {offsets : Offsets}
    {accepted : Bool} (he : e.request? = some (.commit mode offsets accepted))
    (ho : ∀ p c, offsets.find? p = some c → l.flushed.find? p = none) :
    Backed l (e :: journal) := by
  have hle (p : Partition) : (period p journal).Le (period p (e :: journal)) :=
    Period.le_next _ fun ps n heq => by simp [heq, Event.request?] at he
  refine ⟨fun p c hc => (h.pending p c hc).mono (hle p),
    fun p c hc => (h.flushed p c hc).mono (hle p), h.ascending, fun p c hg hf => ?_⟩
  rw [lastCommitted_cons_commit he, h.committed p c hg hf]
  cases hp : offsets.find? p with
  | none => simp
  | some c' =>
    rw [ho p c' hp] at hf
    exact absurd hf nofun

theorem forget (h : Backed l journal) (ps : List Partition) : Backed (l.forget ps) journal := by
  refine ⟨fun p c hc => ?_, fun p c hc => ?_, h.ascending.forget ps, fun p c hg hf => ?_⟩ <;>
    simp only [Ledger.get?_forget, Ledger.flushed_forget] at *
  · split at hc
    · exact absurd hc nofun
    · exact h.pending p c hc
  · split at hc
    · exact absurd hc nofun
    · exact h.flushed p c hc
  · split at hf
    · exact absurd hf nofun
    · next hp => exact h.committed p c (by rwa [if_neg hp] at hg) hf

/-- The periods of partitions may end once the ledger has forgotten them. -/
theorem revoked (h : Backed l journal) {ps : List Partition} (n : Nat)
    (hf : ∀ p ∈ ps, l.mark p = none) : Backed l (.revoked ps n :: journal) := by
  have hmark {p : Partition} {c : Int} (hc : l.mark p = some c) :
      Settled (period p (.revoked ps n :: journal)) c := by
    by_cases hp : p ∈ ps
    · rw [hf p hp] at hc
      exact absurd hc nofun
    · rw [period_cons, Period.next, if_neg hp]
      exact h.mark hc
  refine ⟨fun p c hc => hmark (by simp [Ledger.mark, hc]), fun p c hc => ?_, h.ascending,
    fun p c hg hc => by rw [lastCommitted_cons_of_none rfl, h.committed p c hg hc]⟩
  cases hg : l.get? p with
  | none => exact hmark (by simp [Ledger.mark, hg, hc])
  | some c' =>
    have hp : p ∉ ps := fun hp => by simpa [Ledger.mark, hg] using hf p hp
    rw [period_cons, Period.next, if_neg hp]
    exact h.flushed p c hc

end Backed
end Dispatch
end RecordDispatch
