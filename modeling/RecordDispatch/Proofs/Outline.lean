import RecordDispatch.Gate
import RecordDispatch.Broker.Change

/-!
# Outlines

The outline of something is what is left of it without the contents of records
and without what became of them.  A record keeps its offset only, a processor
still says that a record is begun but not what is done with it, and workers have
a handler of no consequence.

An operation that does not look at contents commutes with outlines: the outline
of its result is its result for the outline.  There is one lemma of this kind
for each operation, and one for each thing that is read.  A processor that
advances does look at contents; here only the outlines of the results agree
(`Processor.outline_advance`), since every record takes two steps whatever is in
it.
-/

namespace RecordDispatch

/-! ## Records and batches -/

/-- A record with its offset only. -/
def Record.outline (r : Record) : Record :=
  { offset := r.offset }

namespace Batch

/-- A batch with the offsets of its records only. -/
def outline (b : Batch) : Batch :=
  ⟨b.partition, b.records.map Record.outline⟩

@[simp] theorem partition_outline (b : Batch) : b.outline.partition = b.partition := rfl

@[simp] theorem records_outline (b : Batch) :
    b.outline.records = b.records.map Record.outline := rfl

@[simp] theorem outline_outline (b : Batch) : b.outline.outline = b.outline := by
  simp [outline, Function.comp_def, Record.outline]

@[simp] theorem isEmpty_outline (b : Batch) : b.outline.isEmpty = b.isEmpty := by
  simp [isEmpty]

section Same

variable {b b' : Batch} (h : b.outline = b'.outline)

include h

theorem partition_of_outline : b.partition = b'.partition := by
  rw [← b.partition_outline, h, partition_outline]

theorem isEmpty_of_outline : b.isEmpty = b'.isEmpty := by
  rw [← b.isEmpty_outline, h, isEmpty_outline]

end Same

theorem outline_append (b later : Batch) :
    (b.append later).outline = b.outline.append later.outline := by
  simp [outline, append]

theorem outline_singles (b : Batch) : b.outline.singles = b.singles.map outline := by
  simp [outline, singles, Function.comp_def]

end Batch

/-! ## Tables -/

namespace Table

variable {α β : Type} (f : α → β) (t : Table α)

/-- Change all values of a table. -/
def map : Table β where
  entries := t.entries.map fun e => (e.1, f e.2)
  distinct := by simpa [Function.comp_def] using t.distinct

@[simp] theorem find?_map (p : Partition) : (t.map f).find? p = (t.find? p).map f := by
  obtain ⟨es, hd⟩ := t
  simp only [map, find?]
  clear hd
  induction es with
  | nil => rfl
  | cons e es ih =>
    rw [List.map_cons, List.lookup_cons, List.lookup_cons]
    split
    · rfl
    · exact ih

theorem map_erase (p : Partition) : (t.erase p).map f = (t.map f).erase p := by
  simp [map, erase, filterKeys, List.filter_map, Function.comp_def]

theorem map_insert (p : Partition) (a : α) :
    (t.insert p a).map f = (t.map f).insert p (f a) := by
  simp [map, insert, erase, filterKeys, List.filter_map, Function.comp_def]

theorem map_modify {f : α → β} {g : α → α} {g' : β → β} (h : ∀ a, f (g a) = g' (f a))
    (p : Partition) : (t.modify p g).map f = (t.map f).modify p g' := by
  unfold modify
  rw [find?_map]
  cases t.find? p with
  | none => rfl
  | some a =>
    dsimp only [Option.map_some]
    rw [map_insert, h]

end Table

/-! ## Processors -/

/-- What stands for anything that is done with a record. -/
def Handler.Triage.blank : Handler.Triage :=
  .rejected .undecodable (.undecodable default 0 .missingPayload)

namespace Processor

/-- A processor with the offsets of its batch only. -/
def outline (p : Processor) : Processor :=
  { p with batch := p.batch.outline, current := p.current.map fun _ => .blank }

variable (p : Processor)

@[simp] theorem outline_outline : p.outline.outline = p.outline := by
  simp [outline, Function.comp_def]

@[simp] theorem upcoming_outline : p.outline.upcoming = p.upcoming.map Record.outline := by
  simp [outline, upcoming, Batch.outline]

@[simp] theorem nextOffset_outline : p.outline.nextOffset = p.nextOffset := by
  have hhandled : p.outline.handled = p.handled.map Record.outline := by
    simp [outline, handled, Batch.outline]
  unfold nextOffset
  rw [hhandled, List.getLast?_map]
  cases p.handled.getLast? <;> rfl

@[simp] theorem committable?_outline : p.outline.committable? = p.committable? := by
  simp [committable?]

@[simp] theorem isDone_outline : p.outline.isDone = p.isDone := rfl

@[simp] theorem awaited_outline : p.outline.awaited = p.awaited := by
  simp [awaited]

theorem outline_claim : p.claim.outline = p.outline.claim := by
  change _ = if p.stage = .created then _ else _
  unfold claim
  split <;> rfl

theorem outline_stop : p.stop.outline = p.outline.stop := rfl

/-- Whatever the handler makes of a record, a processor advances in the same
way. -/
theorem outline_advance (h h' : Handler) :
    (p.advance h).1.outline = (p.outline.advance h').1.outline := by
  have hstage : p.outline.stage = p.stage := rfl
  have hcurrent : p.outline.current = p.current.map fun _ => .blank := rfl
  unfold advance
  rw [hstage, hcurrent, upcoming_outline]
  split
  · cases p.upcoming with
    | nil => simp [complete, outline, Function.comp_def]
    | cons r rs =>
      cases p.current with
      | some t => simp [conclude, outline]
      | none =>
        rw [List.map_cons, Option.map_none]
        dsimp only
        change _ = (if p.stopRequested = true then _ else _ : Processor × List Event).1.outline
        split
        · simp [complete, outline, Function.comp_def]
        · simp [begin, outline]
  · simp

end Processor

/-! ## Workers -/

namespace Workers

/-- Workers with the outlines of their processors. -/
def outline (w : Workers) : Workers :=
  { w with handler := { execute := fun _ => .done }, processors := w.processors.map (·.outline) }

variable (w : Workers)

@[simp] theorem outline_outline : w.outline.outline = w.outline := by
  simp [outline, Function.comp_def]

@[simp] theorem processor?_outline (id : ProcessorId) :
    w.outline.processor? id = (w.processor? id).map (·.outline) :=
  List.getElem?_map

@[simp] theorem isDone_outline (id : ProcessorId) : w.outline.isDone id = w.isDone id := by
  simp [isDone, Function.comp_def]

@[simp] theorem committable?_outline (id : ProcessorId) :
    w.outline.committable? id = w.committable? id := by
  have hsame : Processor.committable? ∘ (·.outline) = Processor.committable? :=
    funext Processor.committable?_outline
  rw [committable?, processor?_outline, Option.bind_map, hsame, committable?]

@[simp] theorem nextId_outline : w.outline.nextId = w.nextId :=
  List.length_map _

@[simp] theorem inFlight_outline : w.outline.inFlight = w.inFlight := rfl

theorem outline_modify {f g : Processor → Processor} (id : ProcessorId)
    (h : ∀ p, (f p).outline = g p.outline) :
    (w.modify id f).outline = w.outline.modify id g := by
  have hsame : (w.processors.modify id f).map (·.outline) =
      (w.processors.map (·.outline)).modify id g := by
    refine List.ext_getElem? fun i => ?_
    rw [List.getElem?_map, List.getElem?_modify, List.getElem?_modify, List.getElem?_map]
    cases w.processors[i]? with
    | none => rfl
    | some p =>
      by_cases hi : id = i
      · simp [hi, h]
      · simp [hi]
  exact congrArg (fun ps => { w.outline with processors := ps }) hsame

/-- Of a processor that is put in the place of another the outline matters
only. -/
theorem outline_put (id : ProcessorId) {p p' : Processor} (h : p.outline = p'.outline) :
    (w.modify id fun _ => p).outline = (w.outline.modify id fun _ => p').outline := by
  have hright := w.outline.outline_modify id (f := fun _ => p') (g := fun _ => p'.outline)
    fun _ => rfl
  rw [outline_outline] at hright
  exact (w.outline_modify id fun _ => h).trans hright.symm

theorem outline_create (batch : Batch) :
    (w.create batch).outline = w.outline.create batch.outline := by
  simp [create, outline, Processor.outline]

theorem outline_submit (id : ProcessorId) : (w.submit id).1.outline = (w.outline.submit id).1 :=
  rfl

theorem outline_stop (id : ProcessorId) : (w.stop id).outline = w.outline.stop id :=
  w.outline_modify id Processor.outline_stop

/-- A step of a task does the same to workers with the same outline. -/
theorem outline_step (i : Nat) : (w.step i).1.outline = (w.outline.step i).1.outline := by
  have hsame (w : Workers) : w.outline = w.outline.outline := w.outline_outline.symm
  have htasks : w.outline.tasks = w.tasks := rfl
  unfold step
  rw [htasks]
  cases w.tasks[i]? with
  | none => exact hsame w
  | some t =>
    obtain ⟨id, phase⟩ := t
    dsimp only
    rw [processor?_outline]
    cases hp : w.processor? id with
    | none => exact hsame w
    | some p =>
      rw [Option.map_some]
      cases phase with
      | queued =>
        change _ = (if w.permitsHeld < w.size then _ else _ : Workers × List Event).1.outline
        dsimp only
        split
        · exact hsame (w.setPhase i .permitted)
        · exact hsame w
      | permitted =>
        change _ = (if p.stage = .created then _ else _ : Workers × List Event).1.outline
        dsimp only
        split
        · have hclaim := w.outline_modify id Processor.outline_claim
          have hrun := congrArg (setPhase · i .running) hclaim
          exact (hsame ((w.modify id Processor.claim).setPhase i .running)).trans
            (congrArg outline hrun)
        · exact hsame (w.setPhase i .ended)
      | running =>
        dsimp only
        rw [Processor.isDone_outline]
        split
        · exact hsame (w.setPhase i .ended)
        · exact w.outline_put id (p.outline_advance w.handler w.outline.handler)
      | ended => exact hsame w

/-- So do all that tasks do. -/
theorem outline_run (steps : List Nat) :
    (w.run steps).1.outline = (w.outline.run steps).1.outline := by
  induction steps generalizing w with
  | nil => exact w.outline_outline.symm
  | cons i is ih =>
    change ((w.step i).1.run is).1.outline = ((w.outline.step i).1.run is).1.outline
    rw [ih, outline_step, ← ih]

end Workers

/-! ## Brokers -/

namespace Broker

/-- The change of a broker that the outlines of its records make. -/
def Change.outline : Change → Change
  | .push batch => .push batch.outline
  | .prefetch batches => .prefetch (batches.map Batch.outline)
  | c => c

/-- A broker with the offsets of its records only. -/
def outline (b : Broker) : Broker :=
  { b with
    backlog := b.backlog.map (·.map Record.outline)
    prefetched := b.prefetched.map (·.map Batch.outline) }

variable (b : Broker) (ps : List Partition)

theorem pause_outline : b.outline.pause ps = ((b.pause ps).1.outline, (b.pause ps).2) := by
  unfold pause
  change (if b.pauseOutage.fails = true then _ else _) = _
  split <;> rfl

theorem resume_outline : b.outline.resume ps = ((b.resume ps).1.outline, (b.resume ps).2) := by
  unfold resume
  change (if b.resumeOutage.fails = true then _ else _) = _
  split <;> rfl

theorem assignment_outline :
    b.outline.assignment = (b.assignment.1.outline, b.assignment.2) := by
  unfold assignment
  change (if b.assignmentOutage.fails = true then _ else _) = _
  split <;> rfl

theorem commit_outline (mode : CommitMode) (offsets : Offsets) :
    b.outline.commit mode offsets =
      ((b.commit mode offsets).1.outline, (b.commit mode offsets).2) := by
  unfold commit
  change (if b.commitOutage.fails = true then _ else _) = _
  split <;> rfl

theorem outline_push (batch : Batch) : (b.push batch).outline = b.outline.push batch.outline := by
  have hlog (rs : Option (List Record)) :
      (rs.getD [] ++ batch.records).map Record.outline =
        (rs.map (·.map Record.outline)).getD [] ++ batch.outline.records := by
    rw [List.map_append]
    cases rs <;> rfl
  unfold push outline
  rw [Table.map_insert, Table.find?_map, hlog]
  rfl

theorem outline_apply (c : Change) : (b.apply c).outline = b.outline.apply c.outline := by
  cases c with
  | push batch => exact b.outline_push batch
  | prefetch batches => simp [apply, outline, Change.outline]
  | _ => rfl

theorem nextBatch_outline (p : Partition) :
    b.outline.nextBatch p = (b.nextBatch p).map Batch.outline := by
  have hnext : ((b.outline.backlog.find? p).getD []).take b.outline.perPoll =
      (((b.backlog.find? p).getD []).take b.perPoll).map Record.outline := by
    rw [outline, Table.find?_map, List.map_take]
    cases b.backlog.find? p <;> rfl
  unfold nextBatch
  rw [hnext]
  cases ((b.backlog.find? p).getD []).take b.perPoll <;> rfl

theorem read_outline :
    b.outline.read ps = ((b.read ps).1.outline, (b.read ps).2.map Batch.outline) := by
  have hlog : ps.foldl (fun t p => t.modify p fun rs => rs.drop b.perPoll)
      (b.backlog.map (·.map Record.outline)) =
        (ps.foldl (fun t p => t.modify p fun rs => rs.drop b.perPoll) b.backlog).map
          (·.map Record.outline) :=
    List.foldl_hom _ fun t p => (Table.map_modify t (fun _ => List.map_drop) p).symm
  have hbatches : ps.filterMap b.outline.nextBatch =
      (ps.filterMap b.nextBatch).map Batch.outline := by
    rw [List.map_filterMap]
    exact congrArg (List.filterMap · ps) (funext b.nextBatch_outline)
  exact Prod.ext (congrArg (fun backlog => { b.outline with backlog }) hlog) hbatches

/-- A poll returns the outlines of what it would return. -/
theorem fetch_outline :
    b.outline.fetch = (b.fetch.1.outline, b.fetch.2.map (·.map Batch.outline)) := by
  have hfields : b.outline.closed = b.closed ∧ b.outline.pollErrors = b.pollErrors ∧
      b.outline.prefetched = b.prefetched.map (·.map Batch.outline) := ⟨rfl, rfl, rfl⟩
  have hread := read_outline { b with requests := .poll :: b.requests } b.readable
  unfold fetch
  dsimp only
  rw [hfields.1, hfields.2.1, hfields.2.2]
  revert hread
  cases b.closed with
  | true => exact fun _ => rfl
  | false =>
    cases b.pollErrors with
    | cons text rest => exact fun _ => rfl
    | nil =>
      cases b.prefetched with
      | cons batches rest => exact fun _ => rfl
      | nil => exact fun hread => congrArg (fun r => (r.1, Except.ok r.2)) hread

end Broker

/-! ## The gate -/

namespace Gate

/-- The gate with the outline of its broker. -/
def outline (g : Gate) : Gate :=
  { g with broker := g.broker.outline }

variable (g : Gate)

theorem pause_outline (now : Instant) (p : Partition) (id : ProcessorId) :
    g.outline.pause now p id = ((g.pause now p id).1.outline, (g.pause now p id).2) := by
  have hpause : g.outline.broker.pause [p] = _ := g.broker.pause_outline [p]
  unfold pause
  rw [hpause]
  obtain ⟨b, e | u⟩ := g.broker.pause [p] <;>
  · change (if g.monitor.contains p = true then _ else _) = _
    split <;> rfl

theorem resume_outline (ps : List Partition) :
    g.outline.resume ps = ((g.resume ps).1.outline, (g.resume ps).2) := by
  have hresume : g.outline.broker.resume (ps.filter g.monitor.contains) = _ :=
    g.broker.resume_outline _
  have hfields : g.outline.globallyPaused = g.globallyPaused ∧ g.outline.monitor = g.monitor :=
    ⟨rfl, rfl⟩
  unfold resume
  rw [hfields.1, hfields.2]
  dsimp only
  rw [hresume]
  split
  · rfl
  · split
    · rfl
    · split
      · rfl
      · obtain ⟨b, e | u⟩ := g.broker.resume (ps.filter g.monitor.contains) <;> rfl

theorem pauseAll_outline (now : Instant) :
    g.outline.pauseAll now = ((g.pauseAll now).1.outline, (g.pauseAll now).2) := by
  have hassignment : g.outline.broker.assignment = _ := g.broker.assignment_outline
  have hmonitor : g.outline.monitor = g.monitor := rfl
  unfold pauseAll
  rw [hassignment, hmonitor]
  obtain ⟨b, e | assigned⟩ := g.broker.assignment
  · rfl
  · dsimp only
    cases assigned.filter fun p => !g.monitor.contains p with
    | nil => rfl
    | cons p ps =>
      dsimp only
      rw [b.pause_outline]
      obtain ⟨b, e | u⟩ := b.pause (p :: ps) <;> rfl

theorem resumeIdle_outline (scope : String) :
    g.outline.resumeIdle scope = ((g.resumeIdle scope).1.outline, (g.resumeIdle scope).2) := by
  have hfields : g.outline.monitor = g.monitor ∧ g.outline.broker = g.broker.outline :=
    ⟨rfl, rfl⟩
  unfold resumeIdle
  rw [hfields.1, hfields.2]
  cases g.monitor.idle with
  | nil => rfl
  | cons p ps =>
    dsimp only
    rw [g.broker.resume_outline]
    obtain ⟨b, e | u⟩ := g.broker.resume (p :: ps) <;> rfl

theorem apply_outline (now : Instant) :
    g.outline.apply now = ((g.apply now).1.outline, (g.apply now).2) := by
  have hpause : g.outline.applyPause now =
      ((g.applyPause now).1.outline, (g.applyPause now).2) := by
    unfold applyPause
    change (if g.pauseRequested = true then
      ({ g with pauseRequested := false } : Gate).outline.pauseAll now else _) = _
    rw [pauseAll_outline]
    split <;> rfl
  have hresume (g : Gate) : g.outline.applyResume = (g.applyResume.1.outline, g.applyResume.2) := by
    have hglobal := resumeIdle_outline
      { g with resumeRequested := false, globallyPaused := false } "global"
    have hretry := g.resumeIdle_outline "retry"
    have hfields : g.outline.resumeRequested = g.resumeRequested ∧
        g.outline.globallyPaused = g.globallyPaused := ⟨rfl, rfl⟩
    unfold applyResume
    rw [hfields.1, hfields.2]
    split
    · exact congrArg (fun r => (r.1, r.2.2 ++ [.globalResume r.2.1 r.1.monitor.size])) hglobal
    · split
      · rfl
      · exact congrArg (fun r => (r.1, r.2.2)) hretry
  unfold apply
  rw [hpause]
  dsimp only
  rw [hresume]

end Gate
end RecordDispatch
