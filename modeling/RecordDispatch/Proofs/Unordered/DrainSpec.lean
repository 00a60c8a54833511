import RecordDispatch.Proofs.Unordered.Flow
import RecordDispatch.Proofs.Unordered.Revocation
import RecordDispatch.Proofs.Waits

/-!
# What a drain of unordered dispatch comes to

`drain_stages_exactly` says what a drain stages for each partition and what it
leaves of the dispatcher, whatever the dispatcher holds and whatever workers do
while they are waited for.

All waits of a drain share one deadline, and each processor is looked at when
its own wait has ended (`drained`).  If all processors of a partition are
finished then, the highest offset of their records is staged, or what was
pending if that is higher; if one of them is not, only what was pending.  This
is `stagedFor`.
-/

namespace RecordDispatch.UnorderedDispatcher

open Dispatch Dispatcher

/-! ## The specification -/

/-- The highest offset after a record of some processors, if they have any. -/
def nextAfter (qs : List Processor) : Option Int :=
  ((qs.flatMap (·.batch.records)).map (·.offset + 1)).max?

/-- What is staged for a partition, by its processors at the ends of their waits
and by what was pending. -/
def stagedFor (qs : List Processor) (pending : Option Int) : Option Int :=
  if qs.all (·.stage == .finished) then Option.merge max pending (nextAfter qs) else pending

theorem stagedFor_nil (pending : Option Int) : stagedFor [] pending = pending :=
  Option.merge_none_right

/-- A partition that is not waited for keeps what was pending. -/
theorem stagedFor_getD (qs? : Option (List Processor)) (pending : Option Int) :
    (qs?.map (stagedFor · pending)).getD pending = stagedFor (qs?.getD []) pending := by
  cases qs? with
  | none => exact (stagedFor_nil pending).symm
  | some qs => rfl

/-- Processors that are waited for until a deadline, each as it is at the end of
its own wait. -/
def awaited (m : Meanwhile) (deadline : Instant) :
    UnorderedDispatcher → List ProcessorId → List Processor
  | _, [] => []
  | d, id :: ids =>
    let (d, _) := awaitFinished m deadline (d, true) id
    (d.workers.processor? id).toList ++ awaited m deadline d ids

/-- The dispatcher after the waits for a partition.  It is the same whatever is
staged. -/
def afterWait (m : Meanwhile) (deadline : Instant) (d : UnorderedDispatcher)
    (e : Partition × List ProcessorId) : UnorderedDispatcher :=
  (drainOne m deadline (d, {}) e).1

/-- The dispatcher before the first wait of a drain. -/
def beforeWaits (d : UnorderedDispatcher) (m : Meanwhile) (ps : List Partition) :
    UnorderedDispatcher :=
  let (d, _) := ps.foldl (stopOne m) (d, [])
  { d with ledger := d.ledger.forget ps }

/-- When the waits of a drain end. -/
def deadlineOf (d : UnorderedDispatcher) (m : Meanwhile) (ps : List Partition) : Instant :=
  let d := beforeWaits d m ps
  Duration.after d.now d.settings.revokeDrainTimeout

/-- The processors of a partition at the ends of the waits for them in
a drain. -/
def drained (d : UnorderedDispatcher) (m : Meanwhile) (ps : List Partition) (p : Partition) :
    List Processor :=
  let deadline := deadlineOf d m ps
  (waited? (fun d e => awaited m deadline d e.2) (afterWait m deadline) p (beforeWaits d m ps)
    (ps.foldl (stopOne m) (d, [])).2).getD []

/-- Nothing of some partitions is left, and everything of the others. -/
structure Cleared (ps : List Partition) (d d' : UnorderedDispatcher) : Prop
    extends Forgotten ps d d' where
  inFlight : ∀ p, d'.held.processors.find? p =
    if p ∈ ps then none else d.held.processors.find? p

/-! ## Offsets -/

/-- The progress of a processor that has finished is the highest offset after one
of its records. -/
theorem committable?_of_finished {q : Processor} (hw : q.WellFormed) (hf : q.stage = .finished)
    (hr : q.batch.Regular) :
    q.committable? = (q.batch.records.map (·.offset + 1)).max? := by
  have hall := hw.handled_of_finished hf
  cases hlast : q.batch.records.getLast? with
  | none =>
    have hnone : q.nextOffset = Processor.nothingProcessed := by
      rw [Processor.nextOffset, hall, hlast]
    rw [List.getLast?_eq_none_iff.mp hlast, Processor.committable?, hnone]
    rfl
  | some last =>
    have hmem := List.mem_of_getLast? hlast
    have hnext := Processor.nextOffset_of_getLast? (hall.symm ▸ hlast)
    have hmax : (q.batch.records.map (·.offset + 1)).max? = some (last.offset + 1) := by
      refine List.max?_eq_some_iff.mpr ⟨List.mem_map_of_mem hmem, fun c hc => ?_⟩
      obtain ⟨r, hmem', rfl⟩ := List.mem_map.mp hc
      have hle := offset_le_of_getLast? hr.inOrder hlast hmem'
      omega
    have hpos : 0 < last.offset + 1 := Int.lt_add_one_of_le (hr.nonnegative last hmem)
    rw [hmax]
    exact Processor.committable?_eq_some.mpr ⟨hpos, hnext⟩

theorem max?_append (xs ys : List Int) :
    (xs ++ ys).max? = Option.merge max xs.max? ys.max? := by
  induction xs with
  | nil => simp
  | cons x xs ih =>
    rw [List.cons_append, List.max?_cons, List.max?_cons, ih]
    cases xs.max? <;> cases ys.max? <;> simp [Int.max_assoc]

/-- The highest offset of processors is the highest after one of their records. -/
theorem max?_committable {qs : List Processor}
    (h : ∀ q ∈ qs, q.committable? = (q.batch.records.map (·.offset + 1)).max?) :
    (qs.filterMap Processor.committable?).max? = nextAfter qs := by
  unfold nextAfter
  induction qs with
  | nil => rfl
  | cons q qs ih =>
    have hrest := ih fun q' hq' => h q' (List.mem_cons_of_mem q hq')
    rw [List.flatMap_cons, List.map_append, max?_append, ← hrest, ← h q List.mem_cons_self]
    rw [List.filterMap_cons]
    cases q.committable? with
    | none => simp
    | some c =>
      rw [List.max?_cons]
      cases (qs.filterMap Processor.committable?).max? <;> rfl

/-! ## Waiting -/

section Wait

variable (m : Meanwhile) (deadline : Instant)

/-- Every processor has its batch at the end of its wait. -/
theorem batch_awaited (d : UnorderedDispatcher) (ids : List ProcessorId) :
    (awaited m deadline d ids).map (·.batch) =
      ids.filterMap fun id => (d.workers.processor? id).map (·.batch) := by
  induction ids generalizing d with
  | nil => rfl
  | cons id ids ih =>
    let d' := (awaitFinished m deadline (d, true) id).1
    have hall : awaited m deadline d (id :: ids) =
      (d'.workers.processor? id).toList ++ awaited m deadline d' ids := rfl
    have hbatch (i : ProcessorId) : (d'.workers.processor? i).map (·.batch) =
        (d.workers.processor? i).map (·.batch) :=
      (worked_awaitFinished m deadline (d, true) id).later.batches i
    rw [hall, List.map_append, ih, List.filterMap_cons]
    simp only [hbatch]
    rw [← hbatch id]
    cases d'.workers.processor? id <;> rfl

theorem wellFormed_awaited {d : UnorderedDispatcher} (hw : d.workers.WellFormed)
    (ids : List ProcessorId) : ∀ q ∈ awaited m deadline d ids, q.WellFormed := by
  induction ids generalizing d with
  | nil => exact List.forall_mem_nil _
  | cons id ids ih =>
    have hw' := awaitFinished_rel drainSteps_wellFormed m deadline (d, true) id hw
    intro q hq
    rcases List.mem_append.mp hq with hq | hq
    · exact hw' id q (Option.mem_toList.mp hq)
    · exact ih hw' q hq

/-- The waits say whether each processor was finished at the end of its own. -/
theorem finished_awaitAll (d : UnorderedDispatcher) (ids : List ProcessorId) (all : Bool) :
    (ids.foldl (awaitFinished m deadline) (d, all)).2 =
      (all && (awaited m deadline d ids).all (·.stage == .finished)) := by
  induction ids generalizing d all with
  | nil => exact (Bool.and_true all).symm
  | cons id ids ih =>
    let d' := (awaitFinished m deadline (d, true) id).1
    have hone : awaitFinished m deadline (d, all) id = (d', all && isFinished d'.workers id) := rfl
    have hall : awaited m deadline d (id :: ids) =
      (d'.workers.processor? id).toList ++ awaited m deadline d' ids := rfl
    rw [List.foldl_cons, hone, ih, hall, List.all_append, Bool.and_assoc, isFinished]
    cases d'.workers.processor? id with
    | none => rfl
    | some q => simp

/-- Processors that were finished at the ends of their waits have made no
progress since. -/
theorem committable?_awaitAll (d : UnorderedDispatcher) (ids : List ProcessorId) (all : Bool)
    (hf : (awaited m deadline d ids).all (·.stage == .finished) = true) :
    ids.filterMap (ids.foldl (awaitFinished m deadline) (d, all)).1.workers.committable? =
      (awaited m deadline d ids).filterMap Processor.committable? := by
  induction ids generalizing d all with
  | nil => rfl
  | cons id ids ih =>
    let d' := (awaitFinished m deadline (d, true) id).1
    have hone : awaitFinished m deadline (d, all) id = (d', all && isFinished d'.workers id) := rfl
    have hall : awaited m deadline d (id :: ids) =
      (d'.workers.processor? id).toList ++ awaited m deadline d' ids := rfl
    rw [hall, List.all_append, Bool.and_eq_true] at hf
    have hrest := ih d' (all && isFinished d'.workers id) hf.2
    have hlater := (worked_awaitAll m deadline ids (d', all && isFinished d'.workers id)).later
    rw [List.foldl_cons, hone, hall, List.filterMap_append, ← hrest, List.filterMap_cons]
    generalize (ids.foldl (awaitFinished m deadline) (d', _)).1.workers = w at hlater
    have hsame : w.committable? id = (d'.workers.processor? id).bind Processor.committable? := by
      cases hq : d'.workers.processor? id with
      | none => rw [Workers.committable?, hlater.processor?_none hq]
      | some q =>
        have hfinished : q.stage = .finished := by simpa [hq] using hf.1
        rw [Workers.committable?, hlater.done hq (Processor.isDone_of_finished hfinished)]
    rw [hsame]
    cases d'.workers.processor? id with
    | none => rfl
    | some q =>
      rw [Option.bind_some, Option.toList_some, List.filterMap_cons]
      cases q.committable? <;> rfl

theorem fst_drainOne (d : UnorderedDispatcher) (staged : Offsets)
    (e : Partition × List ProcessorId) :
    (drainOne m deadline (d, staged) e).1 = afterWait m deadline d e := by
  unfold afterWait drainOne
  dsimp only
  split
  · rfl
  · split <;> rfl

variable {m deadline} {d : UnorderedDispatcher}

/-- A processor that is finished at the end of its wait has come to the highest
offset after one of its records. -/
theorem committable?_awaited (hw : d.workers.WellFormed) {ids : List ProcessorId}
    (hr : ∀ id ∈ ids, ∀ q, d.workers.processor? id = some q → q.batch.Regular) {q : Processor}
    (hq : q ∈ awaited m deadline d ids) (hf : q.stage = .finished) :
    q.committable? = (q.batch.records.map (·.offset + 1)).max? := by
  have hmem : q.batch ∈ (awaited m deadline d ids).map (·.batch) := List.mem_map_of_mem hq
  rw [batch_awaited] at hmem
  obtain ⟨id, hid, hsome⟩ := List.mem_filterMap.mp hmem
  obtain ⟨q₀, hq₀, heq⟩ := Option.map_eq_some_iff.mp hsome
  exact committable?_of_finished (wellFormed_awaited m deadline hw ids q hq) hf
    (heq ▸ hr id hid q₀ hq₀)

/-- The waits for a partition stage what is specified. -/
theorem find?_drainOne (staged : Offsets) (e : Partition × List ProcessorId)
    (hw : d.workers.WellFormed)
    (hr : ∀ id ∈ e.2, ∀ q, d.workers.processor? id = some q → q.batch.Regular)
    (p : Partition) :
    (drainOne m deadline (d, staged) e).2.find? p =
      if p = e.1 then stagedFor (awaited m deadline d e.2) (staged.find? p)
      else staged.find? p := by
  rw [staged_drainOne]
  split
  · next hp =>
    obtain ⟨heq, hfinished⟩ := hp
    rw [finished_awaitAll, Bool.true_and] at hfinished
    have hhighest : highest? (e.2.foldl (awaitFinished m deadline) (d, true)).1.workers e.2 =
        nextAfter (awaited m deadline d e.2) := by
      rw [highest?, committable?_awaitAll m deadline d e.2 true hfinished]
      refine max?_committable fun q hq => committable?_awaited hw hr hq ?_
      exact beq_iff_eq.mp (List.all_eq_true.mp hfinished q hq)
    rw [if_pos heq, stagedFor, if_pos hfinished, hhighest]
  · next hp =>
    split
    · next heq =>
      have hunfinished := mt (And.intro heq) hp
      rw [finished_awaitAll, Bool.true_and] at hunfinished
      rw [stagedFor, if_neg hunfinished]
    · rfl

end Wait

/-! ## Drains -/

section Drain

variable (d : UnorderedDispatcher) (m : Meanwhile) (ps : List Partition)

/-- No partition is waited for twice, even if it is named twice. -/
theorem nodup_stopAll (draining : List (Partition × List ProcessorId))
    (hkeys : (draining.map Prod.fst).Nodup)
    (hfree : ∀ e ∈ draining, d.held.processors.find? e.1 = none) :
    ((ps.foldl (stopOne m) (d, draining)).2.map Prod.fst).Nodup := by
  induction ps generalizing d draining with
  | nil => exact hkeys
  | cons p ps ih =>
    have hstopped := stopped_stopOne m d draining p
    have hheld := (emptied_stopOne m d draining p).held
    rw [List.foldl_cons]
    generalize stopOne m (d, draining) p = s at hstopped hheld ⊢
    obtain ⟨d', draining'⟩ := s
    dsimp only at hstopped hheld
    refine ih d' draining' ?_ fun e he => ?_
    · rw [hstopped]
      cases hfind : d.held.processors.find? p with
      | none => simpa using hkeys
      | some ids =>
        have hnew : ∀ q ids', (q, ids') ∈ draining → q ≠ p := by
          rintro q ids' he rfl
          exact Option.some_ne_none ids (hfind.symm.trans (hfree (q, ids') he))
        simpa [List.nodup_append, hkeys] using hnew
    · rw [hheld]
      split
      · rfl
      · next hne =>
        rw [hstopped, List.mem_append, Option.mem_toList, Option.map_eq_some_iff] at he
        rcases he with he | ⟨ids, -, rfl⟩
        · exact hfree e he
        · exact absurd (List.mem_singleton_self p) hne

/-- The dispatcher after some steps of a drain: it is still, and its processors
are well-formed if they were before. -/
def Onward (d d' : UnorderedDispatcher) : Prop :=
  Still d d' ∧ (d.workers.WellFormed → d'.workers.WellFormed)

theorem drainSteps_onward : DrainSteps Onward :=
  drainSteps_still.and drainSteps_wellFormed

theorem onward_afterWait (deadline : Instant) (e : Partition × List ProcessorId) :
    Onward d (afterWait m deadline d e) :=
  drainOne_rel drainSteps_onward m deadline (d, {}) e

theorem onward_beforeWaits : Onward d (beforeWaits d m ps) :=
  drainSteps_onward.trans
    (drainSteps_onward.foldl Prod.fst (stopOne_rel drainSteps_onward m) ps (d, []))
    (drainSteps_onward.forget _ ps)

/-- The processors that are waited for in a drain are those in flight of its
partitions, and they have their batches in the end. -/
theorem batch_drained (p : Partition) :
    (drained d m ps p).map (·.batch) =
      if p ∈ ps then (flightOf d p).filterMap fun id => (d.workers.processor? id).map (·.batch)
      else [] := by
  have hmem (ids : List ProcessorId) :
      (p, ids) ∈ (ps.foldl (stopOne m) (d, [])).2 ↔
        p ∈ ps ∧ d.held.processors.find? p = some ids := by
    rw [mem_stopAll, or_iff_right List.not_mem_nil]
  have hnodup := nodup_stopAll d m ps [] List.nodup_nil (List.forall_mem_nil _)
  unfold drained flightOf
  dsimp only
  by_cases hwaited : ∃ ids, p ∈ ps ∧ d.held.processors.find? p = some ids
  · obtain ⟨ids, hp, hfind⟩ := hwaited
    obtain ⟨d', honward, hseen⟩ := waited?_of_mem (d := beforeWaits d m ps) drainSteps_onward
      (fun d' => onward_afterWait d' m (deadlineOf d m ps)) hnodup
      (fun d' e => awaited m (deadlineOf d m ps) d' e.2) ((hmem ids).mpr ⟨hp, hfind⟩)
    have hbatch := (drainSteps_onward.trans (onward_beforeWaits d m ps) honward).1.batches
    rw [hseen, Option.getD_some, batch_awaited, if_pos hp, hfind, Option.getD_some]
    simp only [hbatch]
  · have hnone : ∀ ids, (p, ids) ∉ (ps.foldl (stopOne m) (d, [])).2 := fun ids hids =>
      hwaited ⟨ids, (hmem ids).mp hids⟩
    rw [waited?_of_not_mem hnone]
    split
    · next hp =>
      cases hfind : d.held.processors.find? p with
      | none => rfl
      | some ids => exact absurd ⟨ids, hp, hfind⟩ hwaited
    · rfl

/-- What is staged by a drain, also for partitions that it is not about. -/
theorem find?_drain (hw : d.workers.WellFormed)
    (hr : ∀ p, ∀ id ∈ flightOf d p, ∀ q, d.workers.processor? id = some q → q.batch.Regular)
    (p : Partition) :
    (drain d m ps).2.find? p =
      stagedFor (drained d m ps p) (if p ∈ ps then d.ledger.get? p else none) := by
  have hstaged : ((ps.foldl (stopOne m) (d, [])).1.ledger.pendingOf ps).find? p =
      if p ∈ ps then d.ledger.get? p else none := by
    rw [(emptied_stopAll m d [] ps).ledger, Ledger.find?_pendingOf]
  have hwait (d' : UnorderedDispatcher) (hd' : Onward (beforeWaits d m ps) d')
      (e : Partition × List ProcessorId) (he : e ∈ (ps.foldl (stopOne m) (d, [])).2)
      (staged : Offsets) (p : Partition) :
      (drainOne m (deadlineOf d m ps) (d', staged) e).2.find? p =
        if p = e.1 then stagedFor (awaited m (deadlineOf d m ps) d' e.2) (staged.find? p)
        else staged.find? p := by
    obtain ⟨hstill, hkept⟩ := drainSteps_onward.trans (onward_beforeWaits d m ps) hd'
    have hfind := (((mem_stopAll m d [] ps e.1 e.2).mp he).resolve_left List.not_mem_nil).2
    refine find?_drainOne staged e (hkept hw) (fun id hid q hq => ?_) p
    rw [← held_flightOf d e.1 e.2 hfind] at hid
    exact Workers.forall_batch (hstill.batches id) (hr e.1 id hid) hq
  have hwaits := find?_waits drainSteps_onward
    (fun d' => onward_afterWait d' m (deadlineOf d m ps))
    (nodup_stopAll d m ps [] List.nodup_nil (List.forall_mem_nil _))
    (fst_drainOne m (deadlineOf d m ps)) hwait
    ((ps.foldl (stopOne m) (d, [])).1.ledger.pendingOf ps) p
  rw [hstaged] at hwaits
  exact hwaits.trans (stagedFor_getD _ _)

/-- Waiting for the processors of a partition changes neither the work that is
held nor the ledger. -/
theorem frame_drainOne (deadline : Instant) (s : UnorderedDispatcher × Offsets)
    (e : Partition × List ProcessorId) :
    (drainOne m deadline s e).1.held = s.1.held ∧
      (drainOne m deadline s e).1.ledger = s.1.ledger := by
  have hworked := worked_awaitAll m deadline e.2 (s.1, true)
  obtain ⟨result, htold⟩ := told_drainOne m deadline s e
  rw [htold]
  exact ⟨hworked.held, hworked.ledger⟩

theorem cleared_drain : Cleared ps d (drain d m ps).1 := by
  have hempty := emptied_stopAll m d [] ps
  obtain ⟨hheld, hledger⟩ := frame_foldl Prod.fst (frame_drainOne m (deadlineOf d m ps))
    (ps.foldl (stopOne m) (d, [])).2
    (beforeWaits d m ps, (ps.foldl (stopOne m) (d, [])).1.ledger.pendingOf ps)
  refine ⟨forgotten_drain ?_, fun p => ?_⟩
  · exact hledger.trans (congrArg (·.forget ps) hempty.ledger)
  · exact (congrArg (fun f : InFlight => f.processors.find? p) hheld).trans (hempty.held p)

end Drain

/-- What a drain comes to, if no offset is negative, each batch in flight is in
offset order, and processors are as their steps leave them.  The drain stages
what is specified for its partitions, by their processors as they are at the
ends of their waits, and nothing for others; and of its partitions nothing is
left. -/
theorem drain_stages_exactly (d : UnorderedDispatcher) (m : Meanwhile) (ps : List Partition)
    (hw : d.workers.WellFormed)
    (hr : ∀ p, ∀ id ∈ flightOf d p, ∀ q, d.workers.processor? id = some q → q.batch.Regular) :
    (∀ p, (drain d m ps).2.find? p =
        if p ∈ ps then stagedFor (drained d m ps p) (d.ledger.get? p) else none) ∧
      (∀ p, (drained d m ps p).map (·.batch) =
        if p ∈ ps then (flightOf d p).filterMap fun id => (d.workers.processor? id).map (·.batch)
        else []) ∧
      Cleared ps d (drain d m ps).1 := by
  refine ⟨fun p => ?_, batch_drained d m ps, cleared_drain d m ps⟩
  rw [find?_drain d m ps hw hr]
  split
  · rfl
  · next hp =>
    have hnone := batch_drained d m ps p
    rw [if_neg hp, List.map_eq_nil_iff] at hnone
    rw [hnone, stagedFor_nil]

namespace Sample

/-- Two partitions have an offset pending and records in flight.  The record at
7 of the first one is begun.  The second one's record at 3 is handled, the one
at 4 is not begun. -/
def underway : UnorderedDispatcher :=
  let d : UnorderedDispatcher :=
    (Dispatcher.initial {} (Workers.ofSize 2 { execute := fun _ => .done })
      { assigned := [⟨"t", 0⟩, ⟨"t", 1⟩]
        prefetched := [[⟨⟨"t", 0⟩, [{ offset := 7 }]⟩,
          ⟨⟨"t", 1⟩, [{ offset := 3 }, { offset := 4 }]⟩]] }).run
      [.cycle .nothing 0, .work 0, .work 0, .work 0, .work 1, .work 1, .work 1, .work 1, .work 1]
  { d with ledger := (d.ledger.record ⟨"t", 0⟩ 6).record ⟨"t", 1⟩ 3 }

/-- The first worker goes on during waits. -/
def firstWorking : Meanwhile
  | .wait _, _ => { steps := [0, 0, 0] }
  | _, _ => {}

end Sample

/-- In the sample the first partition is committed beyond what was pending for
it.  The second one is not: the record at 4 is never begun, although the one
at 3 is handled.  It is named twice, and one partition is not known. -/
theorem drain_stages_exactly_sample :
    let ps := [⟨"t", 1⟩, ⟨"u", 5⟩, ⟨"t", 0⟩, ⟨"t", 1⟩]
    let s := drain Sample.underway Sample.firstWorking ps
    s.2.find? ⟨"t", 0⟩ = some 8 ∧ s.2.find? ⟨"t", 1⟩ = some 3 ∧ s.2.find? ⟨"u", 5⟩ = none ∧
      s.1.ledger.get? ⟨"t", 1⟩ = none ∧ s.1.held.processors.find? ⟨"t", 1⟩ = none := by
  intro ps s
  have hw : ∀ q ∈ Sample.underway.workers.processors,
      (q.stage = .finished → q.upcoming = []) ∧
        (q.stage = .stopped → q.stopRequested = true) := by decide +kernel
  have hr : ∀ q ∈ Sample.underway.workers.processors, (∀ r ∈ q.batch.records, 0 ≤ r.offset) ∧
      q.batch.records.Pairwise (·.offset ≤ ·.offset) := by decide +kernel
  obtain ⟨hstaged, -, hcleared⟩ := drain_stages_exactly Sample.underway Sample.firstWorking ps
    (fun _ q hq => ⟨(hw q (List.mem_of_getElem? hq)).1, (hw q (List.mem_of_getElem? hq)).2⟩)
    fun _ _ _ q hq => ⟨(hr q (List.mem_of_getElem? hq)).1, (hr q (List.mem_of_getElem? hq)).2⟩
  refine ⟨?_, ?_, ?_, ?_, ?_⟩
  · exact (hstaged ⟨"t", 0⟩).trans (by decide +kernel)
  · exact (hstaged ⟨"t", 1⟩).trans (by decide +kernel)
  · exact (hstaged ⟨"u", 5⟩).trans (by decide +kernel)
  · exact (hcleared.pending ⟨"t", 1⟩).trans (if_pos List.mem_cons_self)
  · exact (hcleared.inFlight ⟨"t", 1⟩).trans (if_pos List.mem_cons_self)

end RecordDispatch.UnorderedDispatcher
