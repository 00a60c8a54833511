import RecordDispatch.Proofs.Ordered.Guarantees

/-!
# What a harvest reads

`harvest` visits the active processors one after another.  At each visit it
reads twice, first whether the processor is done and then how far it has come,
and workers go on before either read.  A `Reading` has the workers as they are
at both reads, and `readings` lists the visits of a harvest.

* A ledger reaches what is recorded and moves only forward: `Ledger.Reaches`
  and `Ledger.Raised`, for any ledger, with pending offsets that lie below the
  one last handed out as well.
* `Reading.note` is what one visit does to a ledger, and `noteAll` what several
  visits do.
* `foldl_harvestOne` shows that a harvest comes to its readings, and
  `later_of_mem_readings` that the workers have only gone on from one to the
  next.
* `harvest_keeps_progress` is the result.  A processor that is done at the first
  read has not moved at the second, and so what the ledger is told is final.

What is told is the offset after the last handled record, if that is positive.
In a batch that is not in offset order a negative offset may come last, and
then nothing is told (`harvest_skips_negative_end`).
-/

namespace RecordDispatch

open Dispatch

/-! ## Ledgers that move forward -/

namespace Ledger

/-- What is pending for a partition, or what was handed out last, is an offset
or lies above it. -/
def Reaches (l : Ledger) (p : Partition) (next : Int) : Prop :=
  ∃ c, (l.get? p = some c ∨ l.flushed.find? p = some c) ∧ next ≤ c

/-- Pending offsets have only moved forward, and none was handed out. -/
structure Raised (l l' : Ledger) : Prop where
  flushed : l'.flushed = l.flushed
  pending : ∀ p c, l.get? p = some c → ∃ c', l'.get? p = some c' ∧ c ≤ c'

variable {l l' l'' : Ledger}

theorem Raised.refl (l : Ledger) : l.Raised l :=
  ⟨rfl, fun _ c hc => ⟨c, hc, Int.le_refl c⟩⟩

theorem Raised.trans (h : l.Raised l') (h' : l'.Raised l'') : l.Raised l'' := by
  refine ⟨h'.flushed.trans h.flushed, fun p c hc => ?_⟩
  obtain ⟨c₁, hc₁, hle₁⟩ := h.pending p c hc
  obtain ⟨c₂, hc₂, hle₂⟩ := h'.pending p c₁ hc₁
  exact ⟨c₂, hc₂, Int.le_trans hle₁ hle₂⟩

theorem Reaches.raised {p : Partition} {next : Int} (hr : l.Reaches p next)
    (h : l.Raised l') : l'.Reaches p next := by
  obtain ⟨c, hc | hc, hle⟩ := hr
  · obtain ⟨c', hc', hle'⟩ := h.pending p c hc
    exact ⟨c', Or.inl hc', Int.le_trans hle hle'⟩
  · exact ⟨c, Or.inr (h.flushed ▸ hc), hle⟩

theorem raised_record (l : Ledger) (p : Partition) (next : Int) :
    l.Raised (l.record p next) := by
  refine ⟨flushed_record l p next, fun q c hc => ?_⟩
  rw [get?_record]
  split
  · next h =>
    obtain ⟨rfl, ha⟩ := h
    exact ⟨next, rfl, Int.le_of_lt (lt_of_advances ha hc)⟩
  · exact ⟨c, hc, Int.le_refl c⟩

/-- An offset is not taken up only if the ledger has reached it. -/
theorem reaches_of_not_advances {p : Partition} {next : Int}
    (h : l.advances p next = false) : l.Reaches p next := by
  simp only [advances, Bool.and_eq_false_iff, Bool.not_eq_false'] at h
  rcases h with hflushed | hpending
  · unfold isFlushed at hflushed
    split at hflushed
    · next c hc => exact ⟨c, Or.inr hc, of_decide_eq_true hflushed⟩
    · exact absurd hflushed Bool.false_ne_true
  · split at hpending
    · next c hc => exact ⟨c, Or.inl hc, Int.not_lt.mp (of_decide_eq_false hpending)⟩
    · exact absurd hpending.symm Bool.false_ne_true

theorem reaches_record (l : Ledger) (p : Partition) (next : Int) :
    (l.record p next).Reaches p next := by
  cases ha : l.advances p next with
  | true => exact ⟨next, Or.inl (by simp [get?_record, ha]), Int.le_refl next⟩
  | false => exact (reaches_of_not_advances ha).raised (l.raised_record p next)

end Ledger

/-! ## Processors whose last record has no negative offset -/

namespace Processor

/-- The progress of a processor is an offset to commit if the last handled
record has no negative offset. -/
theorem committable?_of_getLast? {q : Processor} {last : Record}
    (hlast : q.handled.getLast? = some last) (h0 : 0 ≤ last.offset) :
    q.committable? = some q.nextOffset := by
  refine committable?_eq_some.mpr ⟨?_, rfl⟩
  rw [nextOffset_of_getLast? hlast]
  exact Int.lt_add_one_of_le h0

/-- In a batch in offset order the last handled record has no negative offset
once some handled record has none. -/
theorem exists_getLast?_of_inOrder {q : Processor}
    (hs : q.batch.records.Pairwise (·.offset ≤ ·.offset)) (h : ∃ a ∈ q.handled, 0 ≤ a.offset) :
    ∃ last, q.handled.getLast? = some last ∧ 0 ≤ last.offset := by
  obtain ⟨a, ha, h0⟩ := h
  obtain ⟨last, hlast⟩ := Option.isSome_iff_exists.mp
    (List.getLast?_isSome.mpr (List.ne_nil_of_mem ha))
  have hhandled : q.handled.Pairwise (·.offset ≤ ·.offset) := hs.sublist (List.take_sublist _ _)
  exact ⟨last, hlast, Int.le_trans h0 (offset_le_of_getLast? hhandled hlast ha)⟩

end Processor

/-! ## Visits -/

/-- The workers after what they do at a point. -/
def Workers.during (w : Workers) (m : Meanwhile) (point : Point) : Workers :=
  (w.run (m point w).steps).1

theorem Workers.later_during (w : Workers) (m : Meanwhile) (point : Point) :
    w.Later (w.during m point) :=
  w.run_later _

namespace OrderedDispatcher

/-- A visit of a harvest to the processor of a partition. -/
structure Reading where
  partition : Partition
  id : ProcessorId
  /-- The workers when it is read whether the processor is done. -/
  atCompletion : Workers
  /-- The workers when it is read how far the processor has come. -/
  atProgress : Workers

namespace Reading

/-- The processor was done at the first read. -/
def isDone (r : Reading) : Bool :=
  r.atCompletion.isDone r.id

/-- The offset to commit that was there at the second read. -/
def offset? (r : Reading) : Option Int :=
  r.atProgress.committable? r.id

/-- Record what was read. -/
def note (l : Ledger) (r : Reading) : Ledger :=
  match r.offset? with
  | some next => l.record r.partition next
  | none => l

theorem raised_note (l : Ledger) (r : Reading) : l.Raised (r.note l) := by
  unfold note
  split
  · exact l.raised_record _ _
  · exact .refl l

theorem reaches_note (l : Ledger) (r : Reading) {next : Int} (h : r.offset? = some next) :
    (r.note l).Reaches r.partition next := by
  simp only [note, h]
  exact l.reaches_record r.partition next

/-- A visit changes what is pending for its partition only, and to what was
read. -/
theorem get?_note (l : Ledger) (r : Reading) (p : Partition) :
    (r.note l).get? p = l.get? p ∨
      r.partition = p ∧ ∃ next, r.offset? = some next ∧ (r.note l).get? p = some next := by
  cases hoffset : r.offset? with
  | none => exact Or.inl (by simp only [note, hoffset])
  | some next =>
    simp only [note, hoffset, Ledger.get?_record]
    split
    · next h => exact Or.inr ⟨h.1.symm, next, rfl, rfl⟩
    · exact Or.inl rfl

end Reading

/-- A visit to an active processor. -/
def visit (m : Meanwhile) (w : Workers) (e : Partition × ProcessorId) : Reading :=
  let atCompletion := w.during m (.completion e.2)
  { partition := e.1
    id := e.2
    atCompletion
    atProgress := atCompletion.during m (.progress e.2) }

/-- The visits to some active processors, one after another. -/
def readings (m : Meanwhile) (w : Workers) : List (Partition × ProcessorId) → List Reading
  | [] => []
  | e :: es => visit m w e :: readings m (visit m w e).atProgress es

/-- Record what was read at some visits. -/
def noteAll (l : Ledger) (rs : List Reading) : Ledger :=
  rs.foldl Reading.note l

theorem raised_noteAll (l : Ledger) (rs : List Reading) : l.Raised (noteAll l rs) := by
  induction rs generalizing l with
  | nil => exact .refl l
  | cons r rs ih => exact (r.raised_note l).trans (ih _)

theorem reaches_noteAll (l : Ledger) {rs : List Reading} {r : Reading} (hr : r ∈ rs)
    {next : Int} (h : r.offset? = some next) : (noteAll l rs).Reaches r.partition next := by
  induction rs generalizing l with
  | nil => exact absurd hr List.not_mem_nil
  | cons r' rs ih =>
    rcases List.mem_cons.mp hr with rfl | hr
    · exact (r.reaches_note l h).raised (raised_noteAll _ rs)
    · exact ih _ hr

/-- Visits change what is pending for their partitions only, and to what one of
them has read. -/
theorem get?_noteAll (l : Ledger) (rs : List Reading) (p : Partition) :
    (noteAll l rs).get? p = l.get? p ∨
      ∃ r ∈ rs, r.partition = p ∧
        ∃ next, r.offset? = some next ∧ (noteAll l rs).get? p = some next := by
  induction rs generalizing l with
  | nil => exact Or.inl rfl
  | cons r rs ih =>
    change (noteAll (r.note l) rs).get? p = _ ∨ _
    rcases ih (r.note l) with hkept | ⟨r', hr', hread⟩
    · rcases r.get?_note l p with hsame | ⟨hp, next, hnext, hget⟩
      · exact Or.inl (hkept.trans hsame)
      · exact Or.inr ⟨r, List.mem_cons_self, hp, next, hnext, hkept.trans hget⟩
    · exact Or.inr ⟨r', List.mem_cons_of_mem r hr', hread⟩

/-! ## A harvest and its visits -/

section Harvest

variable (m : Meanwhile) (s : OrderedDispatcher × List Partition)
  (e : Partition × ProcessorId) (es : List (Partition × ProcessorId))

theorem workers_harvestOne :
    (harvestOne m s e).1.workers = (visit m s.1.workers e).atProgress :=
  workers_recordProgress _ _ _

theorem ledger_harvestOne :
    (harvestOne m s e).1.ledger = (visit m s.1.workers e).note s.1.ledger := by
  change (recordProgress ((s.1.pass m (.completion e.2)).pass m (.progress e.2)) e.1 e.2).ledger = _
  unfold recordProgress
  split
  · next next hread =>
    have hoffset : (visit m s.1.workers e).offset? = some next := hread
    simp only [Reading.note, hoffset]
    rfl
  · next hread =>
    have hoffset : (visit m s.1.workers e).offset? = none := hread
    simp only [Reading.note, hoffset]
    rfl

theorem done_harvestOne :
    (harvestOne m s e).2 =
      s.2 ++ ([visit m s.1.workers e].filter Reading.isDone).map Reading.partition := by
  change (if (visit m s.1.workers e).isDone then s.2 ++ [e.1] else s.2) = _
  cases h : (visit m s.1.workers e).isDone with
  | true => simp [h]; rfl
  | false => simp [h]

/-- A harvest records what it reads, and reports the partitions whose processor
was done at the first read. -/
theorem foldl_harvestOne :
    (es.foldl (harvestOne m) s).1.ledger = noteAll s.1.ledger (readings m s.1.workers es) ∧
      (es.foldl (harvestOne m) s).2 =
        s.2 ++ ((readings m s.1.workers es).filter Reading.isDone).map Reading.partition := by
  induction es generalizing s with
  | nil => exact ⟨rfl, (List.append_nil s.2).symm⟩
  | cons e es ih =>
    obtain ⟨hledger, hdone⟩ := ih (harvestOne m s e)
    rw [workers_harvestOne] at hledger hdone
    refine ⟨?_, ?_⟩
    · rw [List.foldl_cons, hledger, ledger_harvestOne]
      rfl
    · rw [List.foldl_cons, hdone, done_harvestOne, List.append_assoc, ← List.map_append,
        ← List.filter_append]
      rfl

/-- The workers only go on while a harvest visits their processors. -/
theorem later_foldl_harvestOne : s.1.workers.Later (es.foldl (harvestOne m) s).1.workers := by
  induction es generalizing s with
  | nil => exact .refl _
  | cons e es ih =>
    have hone : s.1.workers.Later (harvestOne m s e).1.workers := by
      rw [workers_harvestOne]
      exact (s.1.workers.later_during m _).trans (Workers.later_during _ m _)
    exact hone.trans (ih _)

/-- What the workers do around a visit: they go on before either read, and after
both of them. -/
theorem later_of_mem_readings {r : Reading} (hr : r ∈ readings m s.1.workers es) :
    s.1.workers.Later r.atCompletion ∧ r.atCompletion.Later r.atProgress ∧
      r.atProgress.Later (es.foldl (harvestOne m) s).1.workers := by
  induction es generalizing s with
  | nil => exact absurd hr List.not_mem_nil
  | cons e es ih =>
    have hfirst : s.1.workers.Later (visit m s.1.workers e).atCompletion :=
      s.1.workers.later_during m _
    have hsecond : (visit m s.1.workers e).atCompletion.Later (visit m s.1.workers e).atProgress :=
      Workers.later_during _ m _
    rcases List.mem_cons.mp hr with rfl | hr
    · refine ⟨hfirst, hsecond, ?_⟩
      rw [← workers_harvestOne]
      exact later_foldl_harvestOne m (harvestOne m s e) es
    · rw [← workers_harvestOne] at hr hsecond
      obtain ⟨hbefore, hbetween, hafter⟩ := ih (harvestOne m s e) hr
      exact ⟨(hfirst.trans hsecond).trans hbefore, hbetween, hafter⟩

theorem visited_readings (w : Workers) :
    (readings m w es).map (fun r => (r.partition, r.id)) = es := by
  induction es generalizing w with
  | nil => rfl
  | cons e es ih => exact congrArg (e :: ·) (ih _)

end Harvest

/-! ## What a harvest keeps -/

/-- A harvest makes a dispatcher into another one and reports partitions, and no
progress is lost at its visits. -/
structure Gathers (d d' : OrderedDispatcher) (done : List Partition) (rs : List Reading) :
    Prop where
  /-- Every active processor is visited, in the order of the table. -/
  visited : rs.map (fun r => (r.partition, r.id)) = d.held.active.entries
  /-- Workers go on before either read and after both. -/
  later : ∀ r ∈ rs, d.workers.Later r.atCompletion ∧ r.atCompletion.Later r.atProgress ∧
    r.atProgress.Later d'.workers
  /-- Reported are the partitions whose processor was done at the first read. -/
  reported : done = (rs.filter Reading.isDone).map Reading.partition
  /-- Such a processor never changes again. -/
  final : ∀ r ∈ rs, ∀ q, r.atCompletion.processor? r.id = some q → q.isDone = true →
    ∀ steps, (d'.workers.run steps).1.processor? r.id = some q
  /-- The ledger reaches its last offset, if the last record that it has handled
  has no negative offset. -/
  recorded : ∀ r ∈ rs, ∀ q, r.atCompletion.processor? r.id = some q → q.isDone = true →
    ∀ last, q.handled.getLast? = some last → 0 ≤ last.offset →
      d'.ledger.Reaches r.partition q.nextOffset
  /-- In a batch in offset order any handled record will do for that. -/
  recordedInOrder : ∀ r ∈ rs, ∀ q, r.atCompletion.processor? r.id = some q →
    q.isDone = true → q.batch.records.Pairwise (·.offset ≤ ·.offset) →
      (∃ a ∈ q.handled, 0 ≤ a.offset) → d'.ledger.Reaches r.partition q.nextOffset
  /-- The ledger reaches the offset that was there to commit at the second read,
  of every processor. -/
  reached : ∀ r ∈ rs, ∀ next, r.offset? = some next → d'.ledger.Reaches r.partition next
  /-- What is pending for a partition is as before, or it is what was read of its
  own processor. -/
  own : ∀ p, d'.ledger.get? p = d.ledger.get? p ∨
    ∃ r ∈ rs, r.partition = p ∧
      ∃ next, r.offset? = some next ∧ d'.ledger.get? p = some next
  /-- Nothing that is pending decreases. -/
  raised : d.ledger.Raised d'.ledger

/-- A harvest loses no progress, whatever the workers do before and between its
reads and in whatever order the processors are visited.  A processor that is done
at the first read is the same at the second, since nothing moves it any more; one
that ends in between is not reported, and what is recorded of it is what it had
come to by then. -/
theorem harvest_keeps_progress (d : OrderedDispatcher) (m : Meanwhile) :
    Gathers d (harvest d m).1 (harvest d m).2
      (readings m d.workers d.held.active.entries) := by
  obtain ⟨hledger, hdone⟩ := foldl_harvestOne m (d, []) d.held.active.entries
  have hlater (r : Reading) (hr : r ∈ readings m d.workers d.held.active.entries) :=
    later_of_mem_readings m (d, []) d.held.active.entries hr
  change (harvest d m).1.ledger = noteAll d.ledger _ at hledger
  have hreached : ∀ r ∈ readings m d.workers d.held.active.entries, ∀ next,
      r.offset? = some next → (harvest d m).1.ledger.Reaches r.partition next := by
    intro r hr next hnext
    rw [hledger]
    exact reaches_noteAll _ hr hnext
  have hrecorded : ∀ r ∈ readings m d.workers d.held.active.entries, ∀ q,
      r.atCompletion.processor? r.id = some q → q.isDone = true →
      ∀ last, q.handled.getLast? = some last → 0 ≤ last.offset →
        (harvest d m).1.ledger.Reaches r.partition q.nextOffset := by
    intro r hr q hq hd last hlast h0
    refine hreached r hr _ ?_
    -- nothing moves a processor that is done, so both reads see the same one
    have hread : r.atProgress.processor? r.id = some q := (hlater r hr).2.1.done hq hd
    rw [Reading.offset?, Workers.committable?, hread, Option.bind_some,
      Processor.committable?_of_getLast? hlast h0]
  exact
    { visited := visited_readings m _ _
      later := hlater
      reported := hdone
      final := fun r hr q hq hd steps =>
        (((hlater r hr).2.1.trans (hlater r hr).2.2).trans
          ((harvest d m).1.workers.run_later steps)).done hq hd
      recorded := hrecorded
      recordedInOrder := fun r hr q hq hd hs h => by
        obtain ⟨last, hlast, h0⟩ := Processor.exists_getLast?_of_inOrder hs h
        exact hrecorded r hr q hq hd last hlast h0
      reached := hreached
      own := fun p => hledger ▸ get?_noteAll d.ledger _ p
      raised := hledger ▸ raised_noteAll d.ledger _ }

namespace Sample

/-- One worker and a processor of the partition, with records at some offsets,
whose task has taken some steps. -/
def working (offsets : List Int) (steps : Nat) : OrderedDispatcher :=
  let d : OrderedDispatcher := Dispatcher.initial {}
    (Workers.ofSize 1 { execute := fun _ => .done }) { assigned := [partition] }
  (start d ⟨partition, offsets.map fun offset => { offset }⟩).work (List.replicate steps 0)

/-- The task goes on between the two reads of a processor. -/
def betweenReads : Meanwhile
  | .progress _, _ => { steps := [0, 0, 0] }
  | _, _ => {}

end Sample

/-- A processor in the middle of its batch comes to its end between the reads.
It is not reported, and all that it has handled is recorded.  One that had ended
before is reported as well. -/
theorem harvest_keeps_progress_sample :
    (harvest (Sample.working [7, 8] 4) Sample.betweenReads).2 = [] ∧
      (harvest (Sample.working [7, 8] 4) Sample.betweenReads).1.ledger.Reaches
        Sample.partition 9 ∧
      (harvest (Sample.working [7, 8] 7) .nothing).2 = [Sample.partition] ∧
      (harvest (Sample.working [7, 8] 7) .nothing).1.ledger.Reaches Sample.partition 9 := by
  have hmidway := harvest_keeps_progress (Sample.working [7, 8] 4) Sample.betweenReads
  have hended := harvest_keeps_progress (Sample.working [7, 8] 7) .nothing
  have hread : ((visit .nothing (Sample.working [7, 8] 7).workers
      (Sample.partition, 0)).atCompletion.processor? 0).map
        (fun q => (q.isDone, q.handled.getLast?, q.nextOffset)) =
      some (true, some { offset := 8 }, 9) := by
    decide +kernel
  obtain ⟨q, hq, heq⟩ := Option.map_eq_some_iff.mp hread
  simp only [Prod.mk.injEq] at heq
  obtain ⟨hdone, hlast, hnext⟩ := heq
  refine ⟨hmidway.reported.trans (by decide +kernel), ?_,
    hended.reported.trans (by decide +kernel), ?_⟩
  · exact hmidway.reached _ List.mem_cons_self 9 (by decide +kernel)
  · exact hnext ▸ hended.recorded _ List.mem_cons_self q hq hdone _ hlast (by decide)

/-- A processor that is done has handled a record at 5 and then one at -3.  Its
partition is reported, and the ledger knows nothing of it. -/
theorem harvest_skips_negative_end :
    (harvest (Sample.working [5, -3] 7) .nothing).2 = [Sample.partition] ∧
      ∃ q, (Sample.working [5, -3] 7).workers.processor? 0 = some q ∧ q.isDone = true ∧
        (∃ a ∈ q.handled, 0 ≤ a.offset) ∧
        ¬ (harvest (Sample.working [5, -3] 7) .nothing).1.ledger.Reaches Sample.partition
          q.nextOffset := by
  have hread : ((Sample.working [5, -3] 7).workers.processor? 0).map
      (fun q => (q.isDone, q.handled)) = some (true, [{ offset := 5 }, { offset := -3 }]) := by
    decide +kernel
  have hpending : (harvest (Sample.working [5, -3] 7) .nothing).1.ledger.get? Sample.partition =
      none := by decide +kernel
  have hflushed : (harvest (Sample.working [5, -3] 7) .nothing).1.ledger.flushed.find?
      Sample.partition = none := by decide +kernel
  obtain ⟨q, hq, heq⟩ := Option.map_eq_some_iff.mp hread
  obtain ⟨hdone, hhandled⟩ := Prod.mk.inj heq
  refine ⟨by decide +kernel, q, hq, hdone, ?_, ?_⟩
  · exact ⟨{ offset := 5 }, hhandled ▸ List.mem_cons_self, by decide⟩
  · rintro ⟨c, hc | hc, -⟩
    · rw [hpending] at hc
      cases hc
    · rw [hflushed] at hc
      cases hc

end OrderedDispatcher
end RecordDispatch
