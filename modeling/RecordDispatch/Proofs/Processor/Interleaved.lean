import RecordDispatch.Proofs.Workers

/-!
# A processor that is shared

A worker runs a processor while others stop it, wait for it and look at it.  In
`Processor.claim`, `Processor.advance` and `Processor.stop` each of them acts at
once.  Here they take turns at every single access to what they share
(`Cell`): the stage, the request to stop, the two counters and the signal that
the processor is done.  So a request to stop and the attempt to take the
processor from the worker are two steps, and so are the two counters, the last
stage and the signal.

An `Interleaved` processor has one worker and any number of stoppers, each with
the place at which it is.  Those who only look take no steps: they read the cell
of any moment.

* `AccessInv` is the invariant, and `step` keeps it.
* `stage_step` says how the stage moves, `UnchangedOnceDone` what no longer
  changes at the end, and `StoppedBeforePickup` what a stop before the start
  comes to.
* `view` is the `Processor` that the shared one stands for, and `view_step` says
  that each access is a list of the steps of that processor, most often none.
-/

namespace RecordDispatch.Processor

/-- What the worker of a processor shares with those who stop it or look at
it. -/
structure Cell where
  stage : Stage := .created
  stopRequested : Bool := false
  /-- The offset after the last handled record. -/
  next : Int := nothingProcessed
  count : Nat := 0
  /-- Whether it was signalled that the processor is done. -/
  done : Bool := false

/-- Where the worker is. -/
inductive Worker
  /-- Is about to pick the processor up. -/
  | arriving
  /-- Found the processor stopped when it was to pick it up. -/
  | turnedAway
  /-- Is about to look for a request to stop. -/
  | looking
  | handling (r : Record)
  /-- Has handled a record and is about to write its next offset. -/
  | writing (r : Record)
  /-- Is about to count the record. -/
  | counting
  /-- Is about to write the last stage. -/
  | ending (stage : Stage)
  | signalling
  | gone

/-- Where someone is who stops the processor. -/
inductive Stopper
  | requesting
  /-- Is about to take the processor if no worker has picked it up. -/
  | taking
  /-- Has taken the processor and is about to write its stage once more. -/
  | ending
  | signalling
  | gone

/-- A processor with its worker and all who stop it. -/
structure Interleaved where
  batch : Batch
  cell : Cell := {}
  worker : Worker := .arriving
  /-- The records that the worker has not taken up. -/
  left : List Record := batch.records
  stoppers : List Stopper := []
  /-- The records that were handled, in the order in which they were. -/
  handled : List Record := []

/-- Who moves next. -/
inductive Turn
  | worker
  /-- Someone more is to stop the processor. -/
  | call
  | stopper (i : Nat)

/-- One access of someone who stops the processor. -/
def Stopper.step (c : Cell) : Stopper → Cell × Stopper
  | .requesting => ({ c with stopRequested := true }, .taking)
  | .taking => if c.stage = .created then ({ c with stage := .stopped }, .ending) else (c, .gone)
  | .ending => ({ c with stage := .stopped }, .signalling)
  | .signalling => ({ c with done := true }, .gone)
  | .gone => (c, .gone)

namespace Interleaved

/-- One access of the worker. -/
def work (s : Interleaved) : Interleaved :=
  match s.worker with
  | .arriving =>
    if s.cell.stage = .created then
      { s with cell := { s.cell with stage := .running }, worker := .looking }
    else { s with worker := .turnedAway }
  | .looking =>
    match s.left with
    | [] => { s with worker := .ending .finished }
    | r :: rest =>
      if s.cell.stopRequested then { s with worker := .ending .stopped }
      else { s with worker := .handling r, left := rest }
  | .handling r => { s with worker := .writing r, handled := s.handled ++ [r] }
  | .writing r =>
    { s with cell := { s.cell with next := r.offset + 1 }, worker := .counting }
  | .counting =>
    { s with cell := { s.cell with count := s.cell.count + 1 }, worker := .looking }
  | .ending stage => { s with cell := { s.cell with stage }, worker := .signalling }
  | .signalling => { s with cell := { s.cell with done := true }, worker := .gone }
  | .turnedAway => s
  | .gone => s

/-- One turn. -/
def step (s : Interleaved) : Turn → Interleaved
  | .worker => s.work
  | .call => { s with stoppers := s.stoppers ++ [.requesting] }
  | .stopper i =>
    match s.stoppers[i]? with
    | none => s
    | some t =>
      { s with cell := (t.step s.cell).1, stoppers := s.stoppers.set i (t.step s.cell).2 }

/-- Turns in order. -/
def run (s : Interleaved) (turns : List Turn) : Interleaved :=
  turns.foldl step s

/-- Whether the worker has picked the processor up. -/
def isPickedUp (s : Interleaved) : Bool :=
  match s.worker with
  | .arriving => false
  | .turnedAway => false
  | _ => true

/-- Whether the worker is not at a record. -/
def isBetween (s : Interleaved) : Bool :=
  match s.worker with
  | .handling _ => false
  | .writing _ => false
  | .counting => false
  | _ => true

/-- What a wait answers that finds at one moment whether the processor is done,
and reads the offset at another. -/
def answer (found read : Interleaved) : Int :=
  if found.cell.done then read.cell.next else nothingProcessed

end Interleaved

/-! ## What every turn keeps -/

/-- The offset after the last of some records. -/
def nextAfter (records : List Record) : Int :=
  (records.getLast?.map (·.offset + 1)).getD nothingProcessed

/-- The processor of some handled records has their next offset. -/
theorem nextOffset_eq_nextAfter (q : Processor) : q.nextOffset = nextAfter q.handled := by
  unfold nextOffset nextAfter
  cases q.handled.getLast? <;> rfl

namespace Interleaved

/-- The record that is being handled, if there is one. -/
def inHand (s : Interleaved) : List Record :=
  match s.worker with
  | .handling r => [r]
  | _ => []

/-- The handled records whose next offset is written. -/
def written (s : Interleaved) : List Record :=
  match s.worker with
  | .writing _ => s.handled.dropLast
  | _ => s.handled

/-- How many handled records are not counted yet. -/
def uncounted (s : Interleaved) : Nat :=
  match s.worker with
  | .writing _ => 1
  | .counting => 1
  | _ => 0

/-- Whether a stage may be the last one: all records are taken up, or there is a
request to stop. -/
def MayEnd (s : Interleaved) (stage : Stage) : Prop :=
  stage = .finished ∧ s.left = [] ∨
    stage = .stopped ∧ s.left ≠ [] ∧ s.cell.stopRequested = true

/-- What the place of the worker says about the stage. -/
def Placed (s : Interleaved) : Prop :=
  match s.worker with
  | .arriving => s.handled = [] ∧
    (s.cell.stage = .created ∨ s.cell.stage = .stopped ∧ s.cell.stopRequested = true)
  | .turnedAway => s.handled = [] ∧ s.cell.stage = .stopped ∧ s.cell.stopRequested = true
  | .looking => s.cell.stage = .running
  | .handling _ => s.cell.stage = .running
  | .writing r => s.cell.stage = .running ∧ s.handled.getLast? = some r
  | .counting => s.cell.stage = .running
  | .ending stage => s.cell.stage = .running ∧ s.MayEnd stage
  | .signalling => s.MayEnd s.cell.stage
  | .gone => s.MayEnd s.cell.stage

/-- What the place of a stopper says. -/
def Allows (s : Interleaved) : Stopper → Prop
  | .requesting => True
  | .taking => s.cell.stopRequested = true
  | .ending => s.cell.stage = .stopped ∧ s.isPickedUp = false
  | .signalling => s.cell.stage = .stopped
  | .gone => True

/-- At every access the records, the counters, the stage and the places of the
worker and the stoppers fit together. -/
structure AccessInv (s : Interleaved) : Prop where
  records : s.handled ++ (s.inHand ++ s.left) = s.batch.records
  count : s.cell.count + s.uncounted = s.handled.length
  next : s.cell.next = nextAfter s.written
  placed : s.Placed
  stoppers : ∀ t ∈ s.stoppers, s.Allows t
  done : s.cell.done = true → s.cell.stage.isTerminal = true

variable {s s' : Interleaved}

theorem accessInv_initial (batch : Batch) : AccessInv { batch } where
  records := rfl
  count := rfl
  next := rfl
  placed := ⟨rfl, .inl rfl⟩
  stoppers := List.forall_mem_nil _
  done := nofun

/-- What the place of a stopper says stays so as long as a request is not taken
back, a stopped processor stays stopped, and no worker picks it up then. -/
theorem Allows.mono {t : Stopper} (h : s.Allows t)
    (hrequest : s.cell.stopRequested = true → s'.cell.stopRequested = true)
    (hstage : s.cell.stage = .stopped → s'.cell.stage = .stopped ∧
      (s.isPickedUp = false → s'.isPickedUp = false)) : s'.Allows t := by
  cases t with
  | requesting => trivial
  | taking => exact hrequest h
  | ending => exact ⟨(hstage h.1).1, (hstage h.1).2 h.2⟩
  | signalling => exact (hstage h).1
  | gone => trivial

/-- A stage that may be the last one is one. -/
theorem MayEnd.isTerminal {stage : Stage} (h : s.MayEnd stage) : stage.isTerminal = true := by
  rcases h with ⟨rfl, -⟩ | ⟨rfl, -⟩ <;> rfl

/-- The place of the worker still says so when there is a request to stop. -/
theorem Placed.request (h : s.Placed) (stoppers : List Stopper) :
    Placed { s with cell := { s.cell with stopRequested := true }, stoppers } := by
  unfold Placed MayEnd at h ⊢
  cases hw : s.worker <;> simp only [hw] at h ⊢ <;> grind

namespace AccessInv

/-- The worker does not change the stage of a stopped processor, nor does it pick
one up. -/
theorem stoppers_work (h : s.AccessInv) : ∀ t ∈ s.stoppers, s.work.Allows t := by
  intro t ht
  refine (h.stoppers t ht).mono (fun hs => ?_) fun hs => ?_
  · unfold work
    repeat' split
    all_goals exact hs
  · have hplaced := h.placed
    unfold Placed at hplaced
    unfold work isPickedUp
    cases hw : s.worker <;> simp_all

theorem work (h : s.AccessInv) : s.work.AccessInv := by
  have hstoppers := h.stoppers_work
  obtain ⟨batch, cell, worker, left, stoppers, handled⟩ := s
  obtain ⟨hrecords, hcount, hnext, hplaced, -, hdone⟩ := h
  cases worker with
  | arriving =>
    obtain ⟨hnone, hstage⟩ := hplaced
    unfold Interleaved.work at hstoppers ⊢
    dsimp only at hnone hstage hstoppers ⊢
    split at hstoppers
    · next hc =>
      rw [if_pos hc]
      refine ⟨hrecords, hcount, hnext, rfl, hstoppers, fun hd => ?_⟩
      have := hdone hd
      simp [hc, Stage.isTerminal] at this
    · next hc =>
      rw [if_neg hc]
      exact ⟨hrecords, hcount, hnext, ⟨hnone, hstage.resolve_left hc⟩, hstoppers, hdone⟩
  | turnedAway => exact ⟨hrecords, hcount, hnext, hplaced, hstoppers, hdone⟩
  | looking =>
    cases left with
    | nil => exact ⟨hrecords, hcount, hnext, ⟨hplaced, .inl ⟨rfl, rfl⟩⟩, hstoppers, hdone⟩
    | cons r rest =>
      unfold Interleaved.work at hstoppers ⊢
      dsimp only at hstoppers ⊢
      split at hstoppers
      · next hs =>
        rw [if_pos hs]
        exact ⟨hrecords, hcount, hnext, ⟨hplaced, .inr ⟨rfl, List.cons_ne_nil r rest, hs⟩⟩,
          hstoppers, hdone⟩
      · next hs =>
        rw [if_neg hs]
        exact ⟨hrecords, hcount, hnext, hplaced, hstoppers, hdone⟩
  | handling r =>
    -- offset and count are written once the record is handled, so they lag behind by it
    refine ⟨?_, ?_, ?_, ⟨hplaced, List.getLast?_concat⟩, hstoppers, hdone⟩
    · exact (List.append_assoc handled [r] left).trans hrecords
    · change cell.count + 1 = (handled ++ [r]).length
      rw [List.length_append, ← hcount]
      rfl
    · exact hnext.trans (congrArg nextAfter List.dropLast_concat.symm)
  | writing r =>
    refine ⟨hrecords, hcount, ?_, hplaced.1, hstoppers, hdone⟩
    change r.offset + 1 = nextAfter handled
    rw [nextAfter, hplaced.2]
    rfl
  | counting => exact ⟨hrecords, hcount, hnext, hplaced, hstoppers, hdone⟩
  | ending stage =>
    obtain ⟨-, hend⟩ := hplaced
    exact ⟨hrecords, hcount, hnext, hend, hstoppers, fun _ => hend.isTerminal⟩
  | signalling => exact ⟨hrecords, hcount, hnext, hplaced, hstoppers, fun _ => hplaced.isTerminal⟩
  | gone => exact ⟨hrecords, hcount, hnext, hplaced, hstoppers, hdone⟩

/-- A stopper that moves on while nothing is taken back that others rely on. -/
theorem allows_set (h : s.AccessInv) {t' : Stopper} (i : Nat) (ht' : s'.Allows t')
    (hmono : ∀ t, s.Allows t → s'.Allows t) : ∀ t ∈ s.stoppers.set i t', s'.Allows t := by
  intro t ht
  rcases List.mem_or_eq_of_mem_set ht with ht | rfl
  · exact hmono t (h.stoppers t ht)
  · exact ht'

/-- Only a processor that no worker has picked up is created. -/
theorem arriving_of_created (h : s.AccessInv) (hc : s.cell.stage = .created) :
    s.worker = .arriving := by
  have hplaced := h.placed
  unfold Placed MayEnd at hplaced
  cases hw : s.worker <;> simp_all

/-- One access of someone who stops the processor. -/
theorem stopper (h : s.AccessInv) (i : Nat) : (s.step (.stopper i)).AccessInv := by
  simp only [Interleaved.step]
  split
  · exact h
  · next t hi =>
    have ht := h.stoppers t (List.mem_of_getElem? hi)
    cases t with
    | requesting =>
      refine ⟨h.records, h.count, h.next, h.placed.request _, ?_, h.done⟩
      exact h.allows_set i rfl fun t h => h.mono (fun _ => rfl) fun hs => ⟨hs, id⟩
    | taking =>
      have hflag : s.cell.stopRequested = true := ht
      dsimp only [Stopper.step]
      split
      · next hc =>
        have harriving := h.arriving_of_created hc
        refine ⟨h.records, h.count, h.next, ?_, ?_, fun _ => rfl⟩
        · have hplaced := h.placed
          unfold Placed at hplaced ⊢
          rw [harriving] at hplaced ⊢
          exact ⟨hplaced.1, .inr ⟨rfl, hflag⟩⟩
        · have hidle : s.isPickedUp = false := by
            unfold isPickedUp
            rw [harriving]
          exact h.allows_set i ⟨rfl, hidle⟩ fun t h => h.mono id fun _ => ⟨rfl, id⟩
      · exact ⟨h.records, h.count, h.next, h.placed, h.allows_set i trivial fun _ => id, h.done⟩
    | ending =>
      have hsame : ({ s.cell with stage := .stopped } : Cell) = s.cell := by rw [← ht.1]
      dsimp only [Stopper.step]
      rw [hsame]
      exact ⟨h.records, h.count, h.next, h.placed, h.allows_set i ht.1 fun _ => id, h.done⟩
    | signalling =>
      have hstopped : s.cell.stage = .stopped := ht
      refine ⟨h.records, h.count, h.next, h.placed, h.allows_set i trivial fun _ => id, fun _ => ?_⟩
      change s.cell.stage.isTerminal = true
      rw [hstopped]
      rfl
    | gone =>
      exact ⟨h.records, h.count, h.next, h.placed, h.allows_set i trivial fun _ => id, h.done⟩

theorem step (h : s.AccessInv) (t : Turn) : (s.step t).AccessInv := by
  cases t with
  | worker => exact h.work
  | call =>
    refine ⟨h.records, h.count, h.next, h.placed, fun t ht => ?_, h.done⟩
    rcases List.mem_append.mp ht with ht | ht
    · exact h.stoppers t ht
    · rw [List.mem_singleton.mp ht]
      trivial
  | stopper i => exact h.stopper i

theorem run (h : s.AccessInv) (turns : List Turn) : (s.run turns).AccessInv := by
  induction turns generalizing s with
  | nil => exact h
  | cons t turns ih => exact ih (h.step t)

end AccessInv
end Interleaved
end RecordDispatch.Processor
