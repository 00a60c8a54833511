import RecordDispatch.Proofs.JournalInvariant

/-!
# What the events of an ordered dispatcher promise

Each event is judged by the journal before it.  Besides that commits are settled,
as they are however records are dispatched, `KeepsPromise` has three promises.

* A processor starts with records that polls have returned in its period.
* When a revocation ends that drained a partition in time and whose commit did
  not fail, the broker has accepted the offset after the last handled record.
* A processor of a partition that was drained in time is retired: no record is
  handled by it any more.
-/

namespace RecordDispatch.Dispatch

/-! ## The last revocation -/

/-- The events since the last revocation began. -/
def recent (journal : List Event) : List Event :=
  journal.takeWhile fun e => !e.isRevoking

theorem recent_append {es : List Event} (h : ∀ e ∈ es, e.isRevoking = false)
    (journal : List Event) : recent (es ++ journal) = es ++ recent journal := by
  refine List.takeWhile_append_of_pos fun e he => ?_
  rw [h e he]
  rfl

/-- The partition whose processor was not done at the end of the wait for it, if
the event says so. -/
def Event.timedOut? : Event → Option Partition
  | .waited p false => some p
  | _ => none

/-- Whether the commit of a revocation has failed. -/
def Event.isRevokeFailure : Event → Bool
  | .revokeCommitFailed _ _ => true
  | _ => false

/-- The drain of a partition has not timed out in the last revocation. -/
def InTime (p : Partition) (journal : List Event) : Prop :=
  p ∉ (recent journal).filterMap Event.timedOut?

/-- No commit of the last revocation has failed. -/
def Accepted (journal : List Event) : Prop :=
  ∀ e ∈ recent journal, e.isRevokeFailure = false

theorem InTime.of_append {es journal : List Event} {p : Partition}
    (h : InTime p (es ++ journal)) (hes : ∀ e ∈ es, e.isRevoking = false) : InTime p journal := by
  intro hp
  refine h ?_
  rw [recent_append hes, List.filterMap_append]
  exact List.mem_append_right _ hp

theorem InTime.of_cons {e : Event} {journal : List Event} {p : Partition}
    (h : InTime p (e :: journal)) (he : e.isRevoking = false) : InTime p journal := by
  have happend : InTime p ([e] ++ journal) := h
  refine happend.of_append fun e' he' => ?_
  rw [List.mem_singleton.mp he', he]

/-- A processor was started in a period that a revocation has ended in time. -/
def Retired (journal : List Event) (id : ProcessorId) : Prop :=
  ∃ ps n older, .revoked ps n :: older <:+ journal ∧
    ∃ p ∈ ps, InTime p older ∧ id ∈ (period p older).started

theorem not_retired_nil (id : ProcessorId) : ¬ Retired [] id := by
  rintro ⟨ps, n, older, hs, -⟩
  simp at hs

/-- Processors retire at the end of revocations only. -/
theorem retired_of_cons {e : Event} {journal : List Event} {id : ProcessorId}
    (h : Retired (e :: journal) id) :
    Retired journal id ∨ ∃ ps n, e = .revoked ps n ∧
      ∃ p ∈ ps, InTime p journal ∧ id ∈ (period p journal).started := by
  obtain ⟨ps, n, older, hs, hp⟩ := h
  rcases List.suffix_cons_iff.mp hs with heq | hs
  · obtain ⟨rfl, rfl⟩ := List.cons.inj heq
    exact Or.inr ⟨ps, n, rfl, hp⟩
  · exact Or.inl ⟨ps, n, older, hs, hp⟩

theorem retired_of_cons_of_ne {e : Event} {journal : List Event} {id : ProcessorId}
    (h : Retired (e :: journal) id) (he : ∀ ps n, e ≠ .revoked ps n) : Retired journal id := by
  rcases retired_of_cons h with h | ⟨ps, n, heq, -⟩
  · exact h
  · exact absurd heq (he ps n)

theorem retired_of_append {es journal : List Event} {id : ProcessorId}
    (h : Retired (es ++ journal) id) (hes : ∀ e ∈ es, ∀ ps n, e ≠ .revoked ps n) :
    Retired journal id := by
  induction es with
  | nil => exact h
  | cons e es ih =>
    exact ih (retired_of_cons_of_ne h (hes e List.mem_cons_self))
      fun e' he' => hes e' (List.mem_cons_of_mem e he')

/-! ## Promises -/

/-- The broker has accepted the offset after the last handled record of
a partition. -/
def HandedOver (p : Partition) (journal : List Event) : Prop :=
  (period p journal).polled.Pairwise (·.offset < ·.offset) →
    (∀ r ∈ (period p journal).polled, 0 ≤ r.offset) →
      ∀ r, (period p journal).handled.getLast? = some r →
        lastCommitted p journal = some (r.offset + 1)

/-- An event keeps what it promises, given the journal before it. -/
structure KeepsPromise (e : Event) (older : List Event) : Prop where
  start : ∀ id batch, e = .started id batch →
    batch.records <:+: (period batch.partition older).polled
  handOver : ∀ ps n, e = .revoked ps n → ∀ p ∈ ps, InTime p older → Accepted older →
    HandedOver p older
  unretired : ∀ id r, e.handled? = some (id, r) → ¬ Retired older id

/-- Most events promise nothing. -/
theorem keepsPromise_of_none {e : Event} (older : List Event) (hh : e.handled? = none)
    (hs : ∀ id batch, e ≠ .started id batch) (he : ∀ ps n, e ≠ .revoked ps n) :
    KeepsPromise e older where
  start id batch h := absurd h (hs id batch)
  handOver ps n h := absurd h (he ps n)
  unretired := by
    intro id r h
    rw [hh] at h
    exact absurd h nofun

theorem keepsPromise_of_isQuiet {e : Event} (h : e.isQuiet = true) (older : List Event) :
    KeepsPromise e older := by
  refine keepsPromise_of_none older (Event.handled?_of_isQuiet h) (fun id batch heq => ?_)
    (Event.isPlain_of_isQuiet h).2
  rw [heq] at h
  exact absurd h Bool.false_ne_true

/-- A commit promises no more than that it is settled. -/
theorem keepsPromise_of_request? {e : Event} {r : Broker.Request} (he : e.request? = some r)
    (older : List Event) : KeepsPromise e older := by
  cases e with
  | commit | revokeCommitted | revokeCommitFailed =>
    exact keepsPromise_of_none older rfl nofun nofun
  | _ => exact absurd he nofun

/-- What workers tell keeps its promises if no processor that is retired handles
a record. -/
theorem Along.keepsPromise_workers {es : List Workers.Event} {journal : List Event}
    (h : Along KeepsPromise journal)
    (hes : ∀ x ∈ es.filterMap Workers.Event.handled?, ¬ Retired journal x.1) :
    Along KeepsPromise ((es.map Event.workers).reverse ++ journal) := by
  induction es generalizing journal with
  | nil => exact h
  | cons e es ih =>
    have hlist : ((e :: es).map Event.workers).reverse ++ journal =
        (es.map Event.workers).reverse ++ (.workers e :: journal) := by
      simp
    rw [hlist]
    refine ih (along_cons.mpr ⟨?_, h⟩) fun x hx hr => ?_
    · refine ⟨nofun, nofun, fun id r he => hes (id, r) ?_⟩
      exact List.mem_filterMap.mpr ⟨e, List.mem_cons_self, he⟩
    · refine hes x ?_ (retired_of_cons_of_ne hr nofun)
      obtain ⟨e', he', hx'⟩ := List.mem_filterMap.mp hx
      exact List.mem_filterMap.mpr ⟨e', List.mem_cons_of_mem e he', hx'⟩

end RecordDispatch.Dispatch
