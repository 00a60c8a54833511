import RecordDispatch.Workers

/-!
# The steps of processors and workers

`Processor.claim`, `Processor.advance` and the phases of tasks say how workers
move.  A statement about whole runs does not look into them.  It needs to know
what a step can do to a processor, and which record it handles.

There are three groups.

* `Processor.WellFormed` is what every step keeps of a processor: one that has
  finished has handled its whole batch, and only one that was asked to stop is
  stopped.
* `Processor.Step` lists what a step can do to a processor.  `advance_cases`
  and `step_cases` say that a step of a processor, or of a task, is one of
  these or changes no processor.
* `Workers.Later` is what any number of steps keeps of all processors, and
  `run_acts` says that a processor that is done does nothing any more.
-/

namespace RecordDispatch

/-- The record that was handled, if the event says that one was. -/
def Processor.Event.handled? : Processor.Event → Option Record
  | .handler (.handled _ r _) => some r
  | _ => none

/-- No record has a negative offset. -/
def Batch.Nonnegative (b : Batch) : Prop :=
  ∀ r ∈ b.records, 0 ≤ r.offset

/-- No offset is negative, and none is lower than one before it. -/
structure Batch.Regular (b : Batch) : Prop where
  nonnegative : b.Nonnegative
  inOrder : b.records.Pairwise (·.offset ≤ ·.offset)

namespace Processor

/-! ## Processors that have come about -/

/-- What every processor keeps. -/
structure WellFormed (q : Processor) : Prop where
  /-- A processor that has finished has handled its whole batch. -/
  upcoming_of_finished : q.stage = .finished → q.upcoming = []
  /-- A processor stops only when it is asked to. -/
  stopRequested_of_stopped : q.stage = .stopped → q.stopRequested = true

theorem wellFormed_new (batch : Batch) : ({ batch } : Processor).WellFormed :=
  ⟨nofun, nofun⟩

theorem WellFormed.stop {q : Processor} (h : q.WellFormed) : q.stop.WellFormed := by
  refine ⟨fun hf => h.upcoming_of_finished ?_, fun _ => rfl⟩
  by_cases hc : q.stage = .created <;> simp_all [Processor.stop]

/-- A processor that is done and was not asked to stop has finished. -/
theorem WellFormed.finished {q : Processor} (h : q.WellFormed) (hd : q.isDone = true)
    (hs : q.stopRequested = false) : q.stage = .finished := by
  cases hq : q.stage with
  | created => simp [isDone, hq, Stage.isTerminal] at hd
  | running => simp [isDone, hq, Stage.isTerminal] at hd
  | finished => rfl
  | stopped =>
    have := h.stopRequested_of_stopped hq
    simp [hs] at this

/-- A processor that has finished has handled the records of its batch. -/
theorem WellFormed.handled_of_finished {q : Processor} (h : q.WellFormed)
    (hf : q.stage = .finished) : q.handled = q.batch.records := by
  have hsplit := q.handled_append_upcoming
  rwa [h.upcoming_of_finished hf, List.append_nil] at hsplit

theorem isDone_of_finished {q : Processor} (hf : q.stage = .finished) : q.isDone = true := by
  simp [isDone, hf, Stage.isTerminal]

theorem isDone_stop {q : Processor} (hd : q.isDone = true) : q.stop.isDone = true := by
  unfold isDone
  rw [stage_stop_of_isDone hd]
  exact hd

/-- The next offset belongs to the last handled record. -/
theorem nextOffset_of_getLast? {q : Processor} {r : Record} (h : q.handled.getLast? = some r) :
    q.nextOffset = r.offset + 1 := by
  simp [nextOffset, h]

/-- A processor with a positive next offset has handled a record. -/
theorem exists_getLast?_of_nextOffset_pos {q : Processor} (h : 0 < q.nextOffset) :
    ∃ r, q.handled.getLast? = some r ∧ q.nextOffset = r.offset + 1 := by
  cases hq : q.handled.getLast? with
  | none => simp [nextOffset, hq, nothingProcessed] at h
  | some r => exact ⟨r, rfl, nextOffset_of_getLast? hq⟩

/-! ## What a wait answers -/

/-- An answer that is an offset is the progress of a processor that is done. -/
theorem awaited_pos {q : Processor} (h : 0 < q.awaited) :
    q.isDone = true ∧ q.committable? = some q.awaited := by
  unfold awaited at h ⊢
  split
  · next hd =>
    rw [if_pos hd] at h
    exact ⟨hd, committable?_eq_some.mpr ⟨h, rfl⟩⟩
  · next hd =>
    rw [if_neg hd] at h
    exact absurd h (by decide)

/-- Otherwise a processor that is done has no progress to commit. -/
theorem committable?_of_awaited {q : Processor} (hd : q.isDone = true) (h : ¬ 0 < q.awaited) :
    q.committable? = none := by
  rw [awaited, if_pos hd] at h
  rw [committable?, if_neg h]

/-! ## What a step can do -/

/-- A step of a processor, with the record that it handles, if it handles
one. -/
inductive Step (q : Processor) : Processor → Option Record → Prop
  | claim (hq : q.stage = .created) : Step q q.claim none
  | begin (t : Handler.Triage) (hq : q.stage = .running) :
      Step q { q with current := some t } none
  | handle {r : Record} {rest : List Record} (hq : q.stage = .running)
      (hu : q.upcoming = r :: rest) :
      Step q { q with processed := q.processed + 1, current := none } (some r)
  | finish (hq : q.stage = .running) (hu : q.upcoming = []) :
      Step q { q with stage := .finished } none
  | stop (hq : q.stage = .running) (hs : q.stopRequested = true) :
      Step q { q with stage := .stopped } none

namespace Step

variable {q q' : Processor} {r? : Option Record}

@[simp] theorem batch (h : q.Step q' r?) : q'.batch = q.batch := by
  cases h <;> simp

theorem stopRequested (h : q.Step q' r?) : q'.stopRequested = q.stopRequested := by
  cases h with
  | claim hq => simp [Processor.claim, hq]
  | _ => rfl

/-- A processor that is done takes no step. -/
theorem isDone_eq_false (h : q.Step q' r?) : q.isDone = false := by
  cases h <;> simp [isDone, *, Stage.isTerminal]

theorem ne_finished (h : q.Step q' r?) : q.stage ≠ .finished := by
  intro hf
  have hdone := h.isDone_eq_false
  rw [isDone_of_finished hf] at hdone
  exact absurd hdone nofun

/-- A step adds the record that it handles to those that are handled. -/
theorem handled (h : q.Step q' r?) : q'.handled = q.handled ++ r?.toList := by
  cases h with
  | claim hq => simp [Processor.handled]
  | @handle r rest hq hu =>
    have hr : q.batch.records[q.processed]? = some r := by
      rw [upcoming] at hu
      rw [← List.head?_drop, hu, List.head?_cons]
    simp only [Processor.handled, List.take_add_one, hr]
  | _ => simp [Processor.handled]

/-- A step takes the record that it handles from the upcoming ones. -/
theorem upcoming (h : q.Step q' r?) : q.upcoming = r?.toList ++ q'.upcoming := by
  have hsplit := q'.handled_append_upcoming
  rw [h.batch, h.handled, List.append_assoc, ← q.handled_append_upcoming] at hsplit
  exact (List.append_cancel_left hsplit).symm

theorem wellFormed (h : q.Step q' r?) (hw : q.WellFormed) : q'.WellFormed := by
  cases h with
  | claim hq => exact ⟨by simp [Processor.claim, hq], by simp [Processor.claim, hq]⟩
  | begin t hq => exact ⟨hw.upcoming_of_finished, hw.stopRequested_of_stopped⟩
  | handle hq hu => exact ⟨fun hf => by simp [hq] at hf, hw.stopRequested_of_stopped⟩
  | finish hq hu => exact ⟨fun _ => hu, nofun⟩
  | stop hq hs => exact ⟨nofun, fun _ => hs⟩

end Step

/-- Taking up a record handles none. -/
theorem handled?_opening (h : Handler) (p : Partition) (r : Record) :
    ((h.triage p r).opening.map Event.handler).filterMap Event.handled? = [] := by
  unfold Handler.triage
  split
  · rfl
  · dsimp only
    split <;> rfl

/-- A processor's step is one of those listed, or leaves it as it is. -/
theorem advance_cases (h : Handler) (q : Processor) :
    q.advance h = (q, []) ∨
      ∃ r?, q.Step (q.advance h).1 r? ∧
        (q.advance h).2.filterMap Event.handled? = r?.toList := by
  unfold advance
  split
  · next hq =>
    refine Or.inr ?_
    split
    · next hu => exact ⟨none, .finish hq hu, rfl⟩
    · next r rest t hu _ =>
      refine ⟨some r, .handle hq hu, ?_⟩
      cases t <;> rfl
    · next r rest hu _ =>
      split
      · next hs => exact ⟨none, .stop hq hs, rfl⟩
      · exact ⟨none, .begin _ hq, handled?_opening h q.partition r⟩
  · exact Or.inl rfl

end Processor

/-- The processor and the record, if the event says that one was handled. -/
def Workers.Event.handled? : Workers.Event → Option (ProcessorId × Record)
  | .processor id e => e.handled?.map fun r => (id, r)
  | _ => none

namespace Workers

theorem lt_nextId {w : Workers} {id : ProcessorId} {q : Processor}
    (h : w.processor? id = some q) : id < w.nextId :=
  (List.getElem?_eq_some_iff.mp h).1

theorem isDone_of_processor? {w : Workers} {id : ProcessorId} {q : Processor}
    (h : w.processor? id = some q) : w.isDone id = q.isDone := by
  simp [isDone, h]

/-- What is so of the batch of a processor is so as long as the processor has
it. -/
theorem forall_batch {w w' : Workers} {id : ProcessorId}
    (hb : (w'.processor? id).map (·.batch) = (w.processor? id).map (·.batch))
    {P : Batch → Prop} (h : ∀ q, w.processor? id = some q → P q.batch) {q' : Processor}
    (hq' : w'.processor? id = some q') : P q'.batch := by
  rw [hq', Option.map_some, eq_comm, Option.map_eq_some_iff] at hb
  obtain ⟨q, hq, heq⟩ := hb
  exact heq ▸ h q hq

theorem filterMap_handled?_processor (id : ProcessorId) (events : List Processor.Event) :
    (events.map (Event.processor id)).filterMap Event.handled? =
      (events.filterMap Processor.Event.handled?).map fun r => (id, r) := by
  induction events with
  | nil => rfl
  | cons e es ih =>
    simp only [List.map_cons, List.filterMap_cons, ih, Event.handled?]
    cases e.handled? <;> rfl

/-- What a change of the workers does to processors: nothing, or it is a step
of one processor. -/
inductive Moved (w w' : Workers) (events : List Event) : Prop
  | none (hp : ∀ id, w'.processor? id = w.processor? id)
      (he : events.filterMap Event.handled? = [])
  | one (id : ProcessorId) (q q' : Processor) (r? : Option Record)
      (hq : w.processor? id = some q) (hs : q.Step q' r?)
      (hp : ∀ i, w'.processor? i = if i = id then some q' else w.processor? i)
      (he : events.filterMap Event.handled? = r?.toList.map fun r => (id, r))

theorem processor?_modify_of_eq {w : Workers} {id : ProcessorId} {q : Processor}
    (h : w.processor? id = some q) (f : Processor → Processor) (i : ProcessorId) :
    (w.modify id f).processor? i = if i = id then some (f q) else w.processor? i := by
  rw [processor?_modify]
  split
  · next hi => rw [hi, h, Option.map_some]
  · rfl

/-- A step of a task moves one processor at most. -/
theorem step_cases (w : Workers) (i : Nat) : w.Moved (w.step i).1 (w.step i).2 := by
  unfold step
  split
  · exact .none (fun _ => rfl) rfl
  · next t _ =>
    split
    · exact .none (fun _ => rfl) rfl
    · next q hq =>
      split
      · split <;> exact .none (fun _ => rfl) rfl
      · split
        · next hc =>
          exact .one t.processor q q.claim none hq (.claim hc)
            (fun i => processor?_modify_of_eq hq _ i) rfl
        · exact .none (fun _ => rfl) rfl
      · split
        · exact .none (fun _ => rfl) rfl
        · rcases q.advance_cases w.handler with ha | ⟨r?, hs, he⟩
          · refine .none (fun i => ?_) ?_
            · rw [ha, processor?_modify_of_eq hq]
              split
              · next hi => rw [hi, hq]
              · rfl
            · rw [ha]
              rfl
          · refine .one t.processor q _ r? hq hs (fun i => processor?_modify_of_eq hq _ i) ?_
            rw [filterMap_handled?_processor, he]
      · exact .none (fun _ => rfl) rfl

theorem nextId_step (w : Workers) (i : Nat) : (w.step i).1.nextId = w.nextId := by
  unfold step
  dsimp only [finish]
  repeat' split
  all_goals simp [nextId, setPhase, modify]

/-! ## Well-formed processors -/

/-- Every processor is well-formed. -/
def WellFormed (w : Workers) : Prop :=
  ∀ id q, w.processor? id = some q → q.WellFormed

namespace WellFormed

variable {w : Workers}

theorem step (h : w.WellFormed) (i : Nat) : (w.step i).1.WellFormed := by
  intro id q hq
  cases w.step_cases i with
  | none hp _ => exact h id q (hp id ▸ hq)
  | one j q₀ q' r? hj hs hp _ =>
    rw [hp] at hq
    split at hq
    · exact Option.some.inj hq ▸ hs.wellFormed (h j q₀ hj)
    · exact h id q hq

theorem run (h : w.WellFormed) (is : List Nat) : (w.run is).1.WellFormed := by
  induction is generalizing w with
  | nil => exact h
  | cons i is ih => exact ih (h.step i)

theorem stop (h : w.WellFormed) (id : ProcessorId) : (w.stop id).WellFormed := by
  intro j q hq
  rw [processor?_stop] at hq
  split at hq
  · obtain ⟨q₀, hq₀, rfl⟩ := Option.map_eq_some_iff.mp hq
    exact (h j q₀ hq₀).stop
  · exact h j q hq

end WellFormed

/-! ## Processors that are added -/

/-- New processors are there, one for each of some batches. -/
def Adds (w w' : Workers) (batches : List Batch) : Prop :=
  w'.processors = w.processors ++ batches.map fun batch => ({ batch } : Processor)

theorem adds_submit (w : Workers) (batch : Batch) (id : ProcessorId) :
    w.Adds ((w.create batch).submit id).1 [batch] := rfl

namespace Adds

variable {w w' : Workers} {batches : List Batch}

theorem processor? (h : w.Adds w' batches) {id : ProcessorId} {q : Processor}
    (hq : w.processor? id = some q) : w'.processor? id = some q := by
  rw [Workers.processor?, h, List.getElem?_append_left (lt_nextId hq)]
  exact hq

theorem processor?_eq (h : w.Adds w' batches) {id : ProcessorId}
    (hthere : ∃ q, w.processor? id = some q) : w'.processor? id = w.processor? id := by
  obtain ⟨q, hq⟩ := hthere
  rw [hq, h.processor? hq]

theorem processor?_new (h : w.Adds w' batches) {i : Nat} {batch : Batch}
    (hi : batches[i]? = some batch) : w'.processor? (w.nextId + i) = some { batch } := by
  have hright : w.processors.length ≤ w.processors.length + i := Nat.le_add_right _ _
  rw [Workers.processor?, h, nextId, List.getElem?_append_right hright,
    Nat.add_sub_cancel_left, List.getElem?_map, hi, Option.map_some]

/-- Each record of a batch has a new processor of its own. -/
theorem exists_id {batch : Batch} (h : w.Adds w' batch.singles) {r : Record}
    (hr : r ∈ batch.records) : ∃ id ∈ (List.range batch.size).map (w.nextId + ·),
      w'.processor? id = some { batch := ⟨batch.partition, [r]⟩ } := by
  obtain ⟨i, hi, rfl⟩ := List.mem_iff_getElem.mp hr
  refine ⟨w.nextId + i, List.mem_map.mpr ⟨i, List.mem_range.mpr hi, rfl⟩, h.processor?_new ?_⟩
  rw [Batch.singles, List.getElem?_map, List.getElem?_eq_getElem hi, Option.map_some]

/-- Each of these new processors has one record of the batch. -/
theorem exists_single {batch : Batch} (h : w.Adds w' batch.singles) {id : ProcessorId}
    (hid : id ∈ (List.range batch.size).map (w.nextId + ·)) :
    ∃ r ∈ batch.records, w'.processor? id = some { batch := ⟨batch.partition, [r]⟩ } := by
  obtain ⟨i, hi, rfl⟩ := List.mem_map.mp hid
  have hlt : i < batch.records.length := List.mem_range.mp hi
  refine ⟨batch.records[i], List.getElem_mem hlt, h.processor?_new ?_⟩
  rw [Batch.singles, List.getElem?_map, List.getElem?_eq_getElem hlt, Option.map_some]

/-- A processor was there before, or it is one of the new ones. -/
theorem cases_new (h : w.Adds w' batches) {id : ProcessorId} {q : Processor}
    (hq : w'.processor? id = some q) :
    w.processor? id = some q ∨
      ∃ i batch, batches[i]? = some batch ∧ id = w.nextId + i ∧ q = { batch } := by
  rw [Workers.processor?, h, List.getElem?_append] at hq
  split at hq
  · exact Or.inl hq
  · next hge =>
    rw [List.getElem?_map] at hq
    obtain ⟨batch, hbatch, rfl⟩ := Option.map_eq_some_iff.mp hq
    exact Or.inr ⟨_, batch, hbatch, (Nat.add_sub_cancel' (Nat.not_lt.mp hge)).symm, rfl⟩

theorem cases (h : w.Adds w' batches) {id : ProcessorId} {q : Processor}
    (hq : w'.processor? id = some q) :
    w.processor? id = some q ∨ ∃ batch ∈ batches, q = { batch } := by
  refine (h.cases_new hq).imp_right ?_
  rintro ⟨i, batch, hbatch, -, rfl⟩
  exact ⟨batch, List.mem_of_getElem? hbatch, rfl⟩

end Adds

/-! ## Processors that look the same -/

/-- Seen from the records of its batch, a processor is as it was before: batch
and progress are the same, and if it had finished, it still has. -/
def SameProgress (w w' : Workers) (id : ProcessorId) : Prop :=
  ∀ q, w.processor? id = some q →
    ∃ q', w'.processor? id = some q' ∧ q'.batch = q.batch ∧ q'.processed = q.processed ∧
      (q.stage = .finished → q'.stage = .finished)

theorem sameProgress_of_eq {w w' : Workers} {id : ProcessorId}
    (h : w'.processor? id = w.processor? id) : w.SameProgress w' id :=
  fun q hq => ⟨q, by rw [h, hq], rfl, rfl, fun hf => hf⟩

theorem sameProgress_stop (w : Workers) (i id : ProcessorId) : w.SameProgress (w.stop i) id := by
  by_cases hi : id = i
  · refine fun q hq => ⟨q.stop, ?_, rfl, rfl, fun hf => ?_⟩
    · rw [processor?_stop, if_pos hi, hq, Option.map_some]
    · rw [Processor.stage_stop_of_isDone (Processor.isDone_of_finished hf), hf]
  · exact sameProgress_of_eq (by rw [processor?_stop, if_neg hi])

theorem Adds.alike {w w' : Workers} {batches : List Batch} (h : w.Adds w' batches)
    (id : ProcessorId) : w.SameProgress w' id :=
  fun q hq => ⟨q, h.processor? hq, rfl, rfl, fun hf => hf⟩

/-! ## Processors that are done -/

/-- There is a processor, and it is done. -/
def Done (w : Workers) (id : ProcessorId) : Prop :=
  ∃ q, w.processor? id = some q ∧ q.isDone = true

theorem Done.stop {w : Workers} {id : ProcessorId} (h : w.Done id) (i : ProcessorId) :
    (w.stop i).Done id := by
  obtain ⟨q, hq, hd⟩ := h
  by_cases hi : id = i
  · exact ⟨q.stop, by rw [processor?_stop, if_pos hi, hq, Option.map_some],
      Processor.isDone_stop hd⟩
  · exact ⟨q, by rw [processor?_stop, if_neg hi, hq], hd⟩

theorem Done.add {w w' : Workers} {id : ProcessorId} {batches : List Batch} (h : w.Done id)
    (ha : w.Adds w' batches) : w'.Done id := by
  obtain ⟨q, hq, hd⟩ := h
  exact ⟨q, ha.processor? hq, hd⟩

/-! ## Processors that were not asked to stop -/

/-- A processor was not asked to stop, if it is there. -/
def Unstopped (w : Workers) (id : ProcessorId) : Prop :=
  ∀ q, w.processor? id = some q → q.stopRequested = false

theorem unstopped_of_nextId_le {w : Workers} {id : ProcessorId} (h : w.nextId ≤ id) :
    w.Unstopped id := by
  intro q hq
  exact absurd (lt_nextId hq) (Nat.not_lt.mpr h)

theorem Unstopped.stop {w : Workers} {id : ProcessorId} (h : w.Unstopped id) {i : ProcessorId}
    (hne : id ≠ i) : (w.stop i).Unstopped id := by
  intro q hq
  rw [processor?_stop, if_neg hne] at hq
  exact h q hq

theorem Unstopped.add {w w' : Workers} {id : ProcessorId} {batches : List Batch}
    (h : w.Unstopped id) (ha : w.Adds w' batches) : w'.Unstopped id := by
  intro q hq
  rcases ha.cases hq with hq | ⟨batch, -, rfl⟩
  · exact h q hq
  · rfl

/-- A processor was asked to stop, if it is there. -/
def Stopping (w : Workers) (id : ProcessorId) : Prop :=
  ∀ q, w.processor? id = some q → q.stopRequested = true

theorem stopping_stop (w : Workers) (id : ProcessorId) : (w.stop id).Stopping id := by
  intro q hq
  rw [processor?_stop, if_pos rfl, Option.map_eq_some_iff] at hq
  obtain ⟨q₀, -, rfl⟩ := hq
  exact q₀.stopRequested_stop

theorem Stopping.stop {w : Workers} {id : ProcessorId} (h : w.Stopping id) (i : ProcessorId) :
    (w.stop i).Stopping id := by
  by_cases hi : id = i
  · rw [hi]
    exact w.stopping_stop i
  · intro q hq
    rw [processor?_stop, if_neg hi] at hq
    exact h q hq

/-! ## What steps keep -/

/-- What any number of steps keeps of the processors: each has its batch and is
asked to stop or not as before, and one that is done stays as it is. -/
structure Later (w w' : Workers) : Prop where
  nextId : w'.nextId = w.nextId
  kept : ∀ id q, w.processor? id = some q →
    ∃ q', w'.processor? id = some q' ∧ q'.batch = q.batch ∧
      q'.stopRequested = q.stopRequested ∧ (q.isDone = true → q' = q)

theorem Later.refl (w : Workers) : w.Later w :=
  ⟨rfl, fun _ q hq => ⟨q, hq, rfl, rfl, fun _ => rfl⟩⟩

theorem Later.trans {u v w : Workers} (huv : u.Later v) (hvw : v.Later w) : u.Later w := by
  refine ⟨hvw.nextId.trans huv.nextId, fun id q hq => ?_⟩
  obtain ⟨q₁, h₁, hb₁, hs₁, hd₁⟩ := huv.kept id q hq
  obtain ⟨q₂, h₂, hb₂, hs₂, hd₂⟩ := hvw.kept id q₁ h₁
  refine ⟨q₂, h₂, hb₂.trans hb₁, hs₂.trans hs₁, fun hd => ?_⟩
  obtain rfl := hd₁ hd
  exact hd₂ hd

/-- A processor that is done is found unchanged later. -/
theorem Later.done {w w' : Workers} (h : w.Later w') {id : ProcessorId} {q : Processor}
    (hq : w.processor? id = some q) (hd : q.isDone = true) : w'.processor? id = some q := by
  obtain ⟨q', hq', -, -, heq⟩ := h.kept id q hq
  rw [hq', heq hd]

theorem Later.processor?_none {w w' : Workers} (h : w.Later w') {id : ProcessorId}
    (hq : w.processor? id = none) : w'.processor? id = none := by
  have hle : w'.nextId ≤ id := by
    rw [h.nextId]
    exact List.getElem?_eq_none_iff.mp hq
  exact List.getElem?_eq_none hle

/-- Every processor has its batch. -/
theorem Later.batches {w w' : Workers} (h : w.Later w') (id : ProcessorId) :
    (w'.processor? id).map (·.batch) = (w.processor? id).map (·.batch) := by
  cases hq : w.processor? id with
  | none => rw [h.processor?_none hq]
  | some q =>
    obtain ⟨q', hq', hb, -⟩ := h.kept id q hq
    rw [hq', Option.map_some, Option.map_some, hb]

theorem Later.isDone {w w' : Workers} (h : w.Later w') {id : ProcessorId}
    (hd : w.isDone id = true) : w'.isDone id = true := by
  cases hq : w.processor? id with
  | none => simp [Workers.isDone, h.processor?_none hq]
  | some q =>
    rw [isDone_of_processor? hq] at hd
    rw [isDone_of_processor? (h.done hq hd), hd]

/-- Every processor was there before. -/
theorem Later.exists_before {w w' : Workers} (h : w.Later w') {id : ProcessorId}
    {q' : Processor} (hq' : w'.processor? id = some q') :
    ∃ q, w.processor? id = some q ∧ q'.batch = q.batch ∧ q'.stopRequested = q.stopRequested := by
  have hlt : id < w.nextId := h.nextId ▸ lt_nextId hq'
  obtain ⟨q, hq⟩ : ∃ q, w.processor? id = some q := ⟨_, List.getElem?_eq_getElem hlt⟩
  obtain ⟨q₁, hq₁, hb, hs, -⟩ := h.kept id q hq
  obtain rfl := Option.some.inj (hq₁.symm.trans hq')
  exact ⟨q, hq, hb, hs⟩

theorem Unstopped.later {w w' : Workers} {id : ProcessorId} (h : w.Unstopped id)
    (hl : w.Later w') : w'.Unstopped id := by
  intro q' hq'
  obtain ⟨q, hq, -, hs⟩ := hl.exists_before hq'
  rw [hs]
  exact h q hq

theorem Stopping.later {w w' : Workers} {id : ProcessorId} (h : w.Stopping id)
    (hl : w.Later w') : w'.Stopping id := by
  intro q' hq'
  obtain ⟨q, hq, -, hs⟩ := hl.exists_before hq'
  rw [hs]
  exact h q hq

theorem Done.later {w w' : Workers} {id : ProcessorId} (h : w.Done id) (hl : w.Later w') :
    w'.Done id := by
  obtain ⟨q, hq, hd⟩ := h
  exact ⟨q, hl.done hq hd, hd⟩

theorem step_later (w : Workers) (i : Nat) : w.Later (w.step i).1 := by
  refine ⟨nextId_step w i, fun id q hq => ?_⟩
  cases step_cases w i with
  | none hp _ => exact ⟨q, by rw [hp, hq], rfl, rfl, fun _ => rfl⟩
  | one j q₀ q' r? hj hs hp _ =>
    by_cases hid : id = j
    · subst hid
      obtain rfl := Option.some.inj (hq.symm.trans hj)
      refine ⟨q', by rw [hp, if_pos rfl], hs.batch, hs.stopRequested, fun hd => ?_⟩
      rw [hs.isDone_eq_false] at hd
      exact absurd hd Bool.false_ne_true
    · exact ⟨q, by rw [hp, if_neg hid, hq], rfl, rfl, fun _ => rfl⟩

theorem run_later (w : Workers) (is : List Nat) : w.Later (w.run is).1 := by
  induction is generalizing w with
  | nil => exact .refl w
  | cons i is ih => exact (step_later w i).trans (ih _)

/-! ## Processors that act -/

/-- The processor that does something.  That a worker has found it stopped is
not its doing. -/
def Event.acting? : Event → Option ProcessorId
  | .processor _ (.stoppedBeforeStart _) => none
  | .processor id _ => some id
  | _ => none

theorem step_acts (w : Workers) (i : Nat) {e : Event} (he : e ∈ (w.step i).2)
    {id : ProcessorId} (hid : e.acting? = some id) : ¬ w.Done id := by
  unfold step at he
  split at he
  · exact absurd he List.not_mem_nil
  · next t _ =>
    split at he
    · exact absurd he List.not_mem_nil
    · next q hq =>
      split at he
      · split at he <;> exact absurd he List.not_mem_nil
      · split at he
        · exact absurd he List.not_mem_nil
        · rcases List.mem_cons.mp he with rfl | he
          · exact absurd hid nofun
          · rw [List.mem_singleton.mp he] at hid
            exact absurd hid nofun
      · split at he
        · rw [List.mem_singleton.mp he] at hid
          exact absurd hid nofun
        · next hbusy =>
          obtain ⟨e, -, rfl⟩ := List.mem_map.mp he
          have heq : t.processor = id := by
            cases e with
            | stoppedBeforeStart => exact absurd hid nofun
            | _ => exact Option.some.inj hid
          rintro ⟨q₀, hq₀, hdone⟩
          rw [← heq, hq] at hq₀
          obtain rfl := Option.some.inj hq₀
          exact hbusy hdone
      · exact absurd he List.not_mem_nil

/-- Only a processor that is not done does something. -/
theorem run_acts (w : Workers) (is : List Nat) {e : Event} (he : e ∈ (w.run is).2)
    {id : ProcessorId} (hid : e.acting? = some id) : ¬ w.Done id := by
  induction is generalizing w with
  | nil => exact absurd he List.not_mem_nil
  | cons i is ih =>
    rcases List.mem_append.mp he with he | he
    · exact step_acts w i he hid
    · exact fun hdone => ih _ he (hdone.later (step_later w i))

end Workers
end RecordDispatch
