import RecordDispatch.Proofs.Ordered.Flow
import RecordDispatch.Proofs.Waits

/-!
# What a drain of ordered dispatch comes to

`drain_exact` says what a drain stages for each partition and what it leaves of
the dispatcher, whatever the dispatcher holds and whatever workers do while they
are waited for.

Every processor that is active in one of the partitions has been asked to stop
before the first wait begins (`stopping_stopAll`).  What is staged then depends
on the processor as it is at the end of its wait (`drained?`) and on the offset
that was pending; `stagedFor` is the specification.
-/

namespace RecordDispatch.OrderedDispatcher

open Dispatch Dispatcher

/-! ## The specification -/

/-- What is staged for a partition, by its processor at the end of the wait and
by what was pending.  The progress of a processor that is done comes before what
was pending; one that is not done forbids to commit anything. -/
def stagedFor (q? : Option Processor) (pending : Option Int) : Option Int :=
  match q? with
  | none => pending
  | some q =>
    if q.isDone then
      match q.handled.getLast? with
      | some r => some (r.offset + 1)
      | none => pending
    else none

/-- The processor of a partition at the end of a wait for it. -/
def awaited? (m : Meanwhile) (d : OrderedDispatcher) (e : Partition × ProcessorId) :
    Option Processor :=
  (d.awaitProcessor m e.2 d.settings.revokeDrainTimeout).workers.processor? e.2

/-- The dispatcher after a wait.  It is the same whatever is staged. -/
def afterWait (m : Meanwhile) (d : OrderedDispatcher) (e : Partition × ProcessorId) :
    OrderedDispatcher :=
  (drainOne m (d, {}) e).1

/-- The dispatcher before the first wait of a drain. -/
def beforeWaits (d : OrderedDispatcher) (m : Meanwhile) (ps : List Partition) :
    OrderedDispatcher :=
  let (d, _) := stopAll d m ps
  { d with ledger := d.ledger.forget ps }

/-- The processor of a partition at the end of the wait for it in a drain. -/
def drained? (d : OrderedDispatcher) (m : Meanwhile) (ps : List Partition) (p : Partition) :
    Option Processor :=
  (waited? (awaited? m) (afterWait m) p (beforeWaits d m ps) (stopAll d m ps).2).join

/-- Nothing of some partitions is left, and everything of the others. -/
structure Cleared (ps : List Partition) (d d' : OrderedDispatcher) : Prop
    extends Forgotten ps d d' where
  active : ∀ p, d'.held.active.find? p = if p ∈ ps then none else d.held.active.find? p
  deferred : ∀ p, d'.held.deferred.find? p = if p ∈ ps then none else d.held.deferred.find? p

theorem cleared_drain (d : OrderedDispatcher) (m : Meanwhile) (ps : List Partition) :
    Cleared ps d (drain d m ps).1 := by
  obtain ⟨hactive, hdeferred, hledger⟩ := frame_drain d m ps
  exact ⟨forgotten_drain hledger, hactive, hdeferred⟩

/-! ## Stopping -/

section Stop

variable (m : Meanwhile)

/-- No partition is waited for twice, even if it is named twice. -/
theorem nodup_stopAll (d : OrderedDispatcher) (ps : List Partition) :
    ((stopAll d m ps).2.map Prod.fst).Nodup := by
  induction ps generalizing d with
  | nil => exact List.nodup_nil
  | cons p ps ih =>
    have hactive := (emptied_stop d m p).active p
    rw [if_pos (List.mem_singleton_self p)] at hactive
    simp only [stopAll, List.map_append]
    generalize hstop : stopActive (dropDeferred d p) m p = s at hactive ⊢
    obtain ⟨d', _ | id⟩ := s
    · exact ih d'
    · refine List.nodup_cons.mpr ⟨fun hmem => ?_, ih d'⟩
      obtain ⟨⟨q, id'⟩, he, rfl⟩ := List.mem_map.mp hmem
      rw [mem_stopAll] at he
      exact Option.some_ne_none id' (he.2.symm.trans hactive)

/-- Each processor of the partitions is asked to stop. -/
theorem stopping_stopAll (d : OrderedDispatcher) (ps : List Partition) {p : Partition}
    {i : ProcessorId} (hp : p ∈ ps) (hi : d.held.active.find? p = some i) :
    (stopAll d m ps).1.workers.Stopping i := by
  induction ps generalizing d with
  | nil => exact absurd hp List.not_mem_nil
  | cons p' ps ih =>
    by_cases heq : p = p'
    · subst heq
      have hfirst : (stopActive (dropDeferred d p) m p).1.workers.Stopping i := by
        unfold stopActive
        rw [active_dropDeferred, hi]
        exact ((dropDeferred d p).workers.stopping_stop i).later (Workers.run_later _ _)
      exact stopAll_rel (drainSteps_stopping i) m _ ps hfirst
    · have hkept : (stopActive (dropDeferred d p') m p').1.held.active.find? p = some i := by
        rw [(emptied_stop d m p').active, if_neg (mt List.mem_singleton.mp heq), hi]
      exact ih _ ((List.mem_cons.mp hp).resolve_left heq) hkept

end Stop

/-! ## Waiting -/

section Wait

variable {m : Meanwhile} {d : OrderedDispatcher} {p : Partition}

/-- The answer of a wait tells what the specification wants to know. -/
theorem stagedFor_some {q : Processor} (h0 : q.batch.Nonnegative) (pending : Option Int) :
    stagedFor (some q) pending =
      if 0 < q.awaited then some q.awaited else if q.isDone then pending else none := by
  cases hd : q.isDone with
  | false => simp [stagedFor, Processor.awaited, hd, Processor.nothingProcessed]
  | true =>
    cases hr : q.handled.getLast? with
    | none =>
      simp [stagedFor, Processor.awaited, hd, hr, Processor.nextOffset, Processor.nothingProcessed]
    | some r =>
      have hmem : r ∈ q.batch.records := List.mem_of_mem_take (List.mem_of_getLast? hr)
      have hpos : 0 < r.offset + 1 := Int.lt_add_one_of_le (h0 r hmem)
      simp [stagedFor, Processor.awaited, hd, hr, Processor.nextOffset_of_getLast? hr, hpos]

theorem fst_drainOne (m : Meanwhile) (d : OrderedDispatcher) (staged : Offsets)
    (e : Partition × ProcessorId) : (drainOne m (d, staged) e).1 = afterWait m d e := by
  unfold afterWait drainOne
  dsimp only
  split
  · rfl
  · split <;> rfl

theorem still_afterWait (m : Meanwhile) (d : OrderedDispatcher) (e : Partition × ProcessorId) :
    Still d (afterWait m d e) :=
  drainOne_rel drainSteps_still m (d, {}) e

/-- If nothing happens between the end of the wait and the check that follows,
the wait stages what is specified. -/
theorem find?_drainOne (hm : ∀ id w, (m (.answered id) w).steps = []) (staged : Offsets)
    (e : Partition × ProcessorId)
    (h0 : ∀ q, d.workers.processor? e.2 = some q → q.batch.Nonnegative) (p : Partition) :
    (drainOne m (d, staged) e).2.find? p =
      if p = e.1 then stagedFor (awaited? m d e) (staged.find? p) else staged.find? p := by
  have hbatch := (Still.await d m (.wait e.2) d.settings.revokeDrainTimeout (·.isDone e.2)).batches
  have hanswer : answer m e d =
      ((awaited? m d e).map Processor.awaited).getD Processor.nothingProcessed := rfl
  have hdone : (answered m e d).workers.isDone e.2 =
      ((awaited? m d e).map Processor.isDone).getD true := by
    unfold answered Dispatcher.pass
    dsimp only
    rw [hm]
    rfl
  rw [find?_staged, hanswer, hdone]
  congr 1
  cases hq : awaited? m d e with
  | none => rfl
  | some q => exact (stagedFor_some (Workers.forall_batch (hbatch e.2) h0 hq) _).symm

end Wait

/-! ## Drains -/

theorem still_beforeWaits (d : OrderedDispatcher) (m : Meanwhile) (ps : List Partition) :
    Still d (beforeWaits d m ps) :=
  (stopAll_rel drainSteps_still m d ps).trans (drainSteps_still.forget _ ps)

/-- A processor is waited for in a drain exactly if it is active in one of the
partitions, and it has its batch in the end. -/
theorem batch_drained? (d : OrderedDispatcher) (m : Meanwhile) (ps : List Partition)
    (p : Partition) :
    (drained? d m ps p).map (·.batch) =
      if p ∈ ps then
        (d.held.active.find? p).bind fun i => (d.workers.processor? i).map (·.batch)
      else none := by
  unfold drained?
  by_cases hwaited : ∃ i, p ∈ ps ∧ d.held.active.find? p = some i
  · obtain ⟨i, hp, hactive⟩ := hwaited
    obtain ⟨d', hstill, hseen⟩ := waited?_of_mem (d := beforeWaits d m ps) drainSteps_still
      (still_afterWait m) (nodup_stopAll m d ps) (awaited? m)
      ((mem_stopAll m d ps p i).mpr ⟨hp, hactive⟩)
    have hbefore := (still_beforeWaits d m ps).trans hstill
    rw [hseen, if_pos hp, hactive, Option.bind_some]
    exact (hbefore.trans (.await d' m (.wait i) _ _)).batches i
  · have hnone : ∀ i, (p, i) ∉ (stopAll d m ps).2 := fun i hi =>
      hwaited ⟨i, (mem_stopAll m d ps p i).mp hi⟩
    rw [waited?_of_not_mem hnone]
    split
    · next hp =>
      cases hactive : d.held.active.find? p with
      | none => rfl
      | some i => exact absurd ⟨i, hp, hactive⟩ hwaited
    · rfl

/-- What is staged by a drain, also for partitions that it is not about. -/
theorem find?_drain (d : OrderedDispatcher) {m : Meanwhile} (ps : List Partition)
    (hm : ∀ id w, (m (.answered id) w).steps = [])
    (h0 : ∀ p i q, d.held.active.find? p = some i → d.workers.processor? i = some q →
      q.batch.Nonnegative) (p : Partition) :
    (drain d m ps).2.find? p =
      stagedFor (drained? d m ps p) (if p ∈ ps then d.ledger.get? p else none) := by
  have hstaged : ((stopAll d m ps).1.ledger.pendingOf ps).find? p =
      if p ∈ ps then d.ledger.get? p else none := by
    rw [(emptied_stopAll m d ps).ledger, Ledger.find?_pendingOf]
  have hwait (d' : OrderedDispatcher) (hd' : Still (beforeWaits d m ps) d')
      (e : Partition × ProcessorId) (he : e ∈ (stopAll d m ps).2) (staged : Offsets)
      (p : Partition) : (drainOne m (d', staged) e).2.find? p =
        if p = e.1 then stagedFor (awaited? m d' e) (staged.find? p) else staged.find? p := by
    have hactive := ((mem_stopAll m d ps e.1 e.2).mp he).2
    have hbatch := ((still_beforeWaits d m ps).trans hd').batches e.2
    exact find?_drainOne hm staged e
      (fun q hq => Workers.forall_batch hbatch (fun q => h0 e.1 e.2 q hactive) hq) p
  have hwaits := find?_waits drainSteps_still (still_afterWait m) (nodup_stopAll m d ps)
    (fst_drainOne m) hwait ((stopAll d m ps).1.ledger.pendingOf ps) p
  rw [hstaged] at hwaits
  refine hwaits.trans ?_
  unfold drained?
  obtain _ | _ | q := waited? (awaited? m) (afterWait m) p (beforeWaits d m ps)
    (stopAll d m ps).2 <;> rfl

/-- What a drain comes to, if nothing happens between the end of a wait and the
check of completion that follows it, and no offset is negative.  Every processor
that is active in one of the partitions is asked to stop before the waits.  The
drain stages what is specified for its partitions, by their processors as they
are at the end of their waits, and nothing for others; and of its partitions
nothing is left. -/
theorem drain_exact (d : OrderedDispatcher) (m : Meanwhile) (ps : List Partition)
    (hm : ∀ id w, (m (.answered id) w).steps = [])
    (h0 : ∀ p i q, d.held.active.find? p = some i → d.workers.processor? i = some q →
      q.batch.Nonnegative) :
    (∀ p, (drain d m ps).2.find? p =
        if p ∈ ps then stagedFor (drained? d m ps p) (d.ledger.get? p) else none) ∧
      (∀ p, (drained? d m ps p).map (·.batch) =
        if p ∈ ps then
          (d.held.active.find? p).bind fun i => (d.workers.processor? i).map (·.batch)
        else none) ∧
      (∀ p ∈ ps, ∀ i, d.held.active.find? p = some i →
        (stopAll d m ps).1.workers.Stopping i) ∧
      Cleared ps d (drain d m ps).1 := by
  refine ⟨fun p => ?_, batch_drained? d m ps, fun p hp i hi => stopping_stopAll m d ps hp hi,
    cleared_drain d m ps⟩
  rw [find?_drain d ps hm h0]
  split
  · rfl
  · next hp =>
    have hnone := batch_drained? d m ps p
    rw [if_neg hp, Option.map_eq_none_iff] at hnone
    rw [hnone]
    rfl

namespace Sample

/-- Two partitions have an offset pending.  The processor of the first one has
handled one record of two. -/
def halfway : OrderedDispatcher :=
  let d : OrderedDispatcher :=
    (initial {} (Workers.ofSize 1 { execute := fun _ => .done }) { assigned := [partition] }).run
      [.broker (.push ⟨partition, [{ offset := 7 }, { offset := 8 }]⟩), .cycle .nothing 0,
        .work 0, .work 0, .work 0, .work 0]
  { d with ledger := (d.ledger.record partition 7).record ⟨"t", 1⟩ 30 }

/-- Workers go on during waits only. -/
def duringWaits : Meanwhile
  | .wait _, _ => { steps := [0] }
  | _, _ => {}

end Sample

/-- In the sample the progress of the stopped processor takes the place of what
was pending.  One partition is named twice, and one is not known. -/
theorem drain_exact_sample :
    let ps := [Sample.partition, ⟨"u", 5⟩, ⟨"t", 1⟩, Sample.partition]
    let s := drain Sample.halfway Sample.duringWaits ps
    s.2.find? Sample.partition = some 8 ∧ s.2.find? ⟨"t", 1⟩ = some 30 ∧
      s.2.find? ⟨"u", 5⟩ = none ∧ s.1.ledger.get? Sample.partition = none ∧
      s.1.held.active.find? Sample.partition = none := by
  intro ps s
  have h0 : ∀ q ∈ Sample.halfway.workers.processors, ∀ r ∈ q.batch.records, 0 ≤ r.offset := by
    decide +kernel
  obtain ⟨hstaged, -, -, hcleared⟩ := drain_exact Sample.halfway Sample.duringWaits ps
    (fun _ _ => rfl) fun _ _ q _ hq => h0 q (List.mem_of_getElem? hq)
  refine ⟨?_, ?_, ?_, ?_, ?_⟩
  · exact (hstaged Sample.partition).trans (by decide +kernel)
  · exact (hstaged ⟨"t", 1⟩).trans (by decide +kernel)
  · exact (hstaged ⟨"u", 5⟩).trans (by decide +kernel)
  · exact (hcleared.pending Sample.partition).trans (if_pos List.mem_cons_self)
  · exact (hcleared.active Sample.partition).trans (if_pos List.mem_cons_self)

end RecordDispatch.OrderedDispatcher
