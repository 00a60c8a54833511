import RecordDispatch.Handler

/-!
# Batch processors

A processor works through one batch, record by record in offset order.  It is
created, then run by a worker until it has handled the whole batch or has
been asked to stop.

`claim`, `advance` and `stop` are the atomic steps of a processor.  How far it
has come is one number, the count of handled records, so that the records
handled are always the first ones of the batch.  A processor in the middle of
a record holds what the triage has made of it.
-/

namespace RecordDispatch

namespace Processor

/-- The stages of a processor's life. -/
inductive Stage
  | created
  | running
  | finished
  | stopped
deriving DecidableEq, Inhabited

/-- The name of a stage. -/
def Stage.name : Stage → String
  | .created => "Created"
  | .running => "Running"
  | .finished => "Finished"
  | .stopped => "Stopped"

/-- Whether no stage follows. -/
def Stage.isTerminal : Stage → Bool
  | .finished => true
  | .stopped => true
  | _ => false

/-- What running a processor tells. -/
inductive Event
  | handler (event : Handler.Event)
  /-- A worker picked up a processor that had been stopped before. -/
  | stoppedBeforeStart (p : Partition)
  /-- A processor saw the request to stop. -/
  | stoppedBefore (p : Partition) (offset : Int) (processed remaining : Nat)
  | completed (p : Partition) (processed : Nat) (lastOffset : Int)

open Report in
instance : Reported Event where
  line?
    | .handler e => Reported.line? e
    | .stoppedBeforeStart p => some
      { level := .debug
        source := "batch_processor"
        message := "Batch processor was stopped before it started"
        fields := partitionFields p }
    | .stoppedBefore p offset processed remaining => some
      { level := .info
        source := "batch_processor"
        message := "Batch processor stopped before offset " ++ toString offset
        fields := partitionFields p ++
          [("processed", .number processed), ("remaining", .number remaining)] }
    | .completed p processed lastOffset => some
      { level := .debug
        source := "batch_processor"
        message := "Batch processor completed"
        fields := partitionFields p ++ [("processed", .number processed),
          ("last_offset", .number lastOffset), ("duration_ms", .elapsed)] }
  measurements
    | .handler e => Reported.measurements e
    | .completed p _ _ =>
      [.observe (own "batch_duration_seconds" [("topic", p.topic)])]
    | _ => []

end Processor

/-- A processor of one batch. -/
structure Processor where
  batch : Batch
  stage : Processor.Stage := .created
  stopRequested : Bool := false
  /-- How many records are handled. -/
  processed : Nat := 0
  /-- What is being done with the next record, if that is begun. -/
  current : Option Handler.Triage := none

namespace Processor

/-- The partition of the batch. -/
def partition (p : Processor) : Partition :=
  p.batch.partition

/-- The number of records of the batch. -/
def total (p : Processor) : Nat :=
  p.batch.size

/-- The number of records that are not handled yet. -/
def pending (p : Processor) : Nat :=
  p.total - p.processed

/-- The records that are handled. -/
def handled (p : Processor) : List Record :=
  p.batch.records.take p.processed

/-- The records that are not handled yet. -/
def upcoming (p : Processor) : List Record :=
  p.batch.records.drop p.processed

/-- What stands for the next offset of a processor that has handled nothing. -/
def nothingProcessed : Int := -1

/-- The offset after the last handled record. -/
def nextOffset (p : Processor) : Int :=
  match p.handled.getLast? with
  | some r => r.offset + 1
  | none => nothingProcessed

/-- The offset to commit for the progress so far, if there is one. -/
def committable? (p : Processor) : Option Int :=
  if 0 < p.nextOffset then some p.nextOffset else none

/-- Whether a processor is finished or stopped. -/
def isDone (p : Processor) : Bool :=
  p.stage.isTerminal

/-- What a wait for a processor answers when it ends. -/
def awaited (p : Processor) : Int :=
  if p.isDone then p.nextOffset else nothingProcessed

/-- A worker picks the processor up.  One that is not waiting for a worker
stays as it is. -/
def claim (p : Processor) : Processor :=
  if p.stage = .created then { p with stage := .running } else p

/-- Ask the processor to stop before its next record.  One that no worker has
picked up is stopped at once. -/
def stop (p : Processor) : Processor :=
  { p with
    stopRequested := true
    stage := if p.stage = .created then .stopped else p.stage }

/-- Begin a record. -/
def begin (h : Handler) (p : Processor) (r : Record) : Processor × List Event :=
  let t := h.triage p.partition r
  ({ p with current := some t }, t.opening.map .handler)

/-- End the record that was begun. -/
def conclude (h : Handler) (p : Processor) (r : Record) (t : Handler.Triage) :
    Processor × List Event :=
  let (o, events) := h.conclude t
  ({ p with processed := p.processed + 1, current := none },
    (events ++ [Handler.Event.handled p.partition r o]).map .handler)

/-- End with a stage. -/
def complete (p : Processor) (stage : Stage) : Processor × List Event :=
  ({ p with stage := stage }, [.completed p.partition p.processed p.nextOffset])

/-- One step of a running processor: it ends the record that was begun, or
begins the next one, or ends.  Each record takes two steps, whatever becomes of
it. -/
def advance (h : Handler) (p : Processor) : Processor × List Event :=
  if p.stage = .running then
    match p.upcoming, p.current with
    | [], _ => p.complete .finished
    | r :: _, some t => p.conclude h r t
    | r :: _, none =>
      if p.stopRequested then
        let (q, events) := p.complete .stopped
        (q, .stoppedBefore p.partition r.offset p.processed p.pending :: events)
      else p.begin h r
  else (p, [])

/-- An upper bound on the steps that a processor still takes. -/
def stepsLeft (p : Processor) : Nat :=
  2 * p.pending + 1

/-! ## What each step does to a processor -/

/-- The handled records and those that follow are the batch. -/
@[simp] theorem handled_append_upcoming (p : Processor) :
    p.handled ++ p.upcoming = p.batch.records :=
  List.take_append_drop p.processed p.batch.records

@[simp] theorem batch_claim (p : Processor) : p.claim.batch = p.batch := by
  unfold claim
  split <;> rfl

@[simp] theorem processed_claim (p : Processor) : p.claim.processed = p.processed := by
  unfold claim
  split <;> rfl

@[simp] theorem batch_stop (p : Processor) : p.stop.batch = p.batch := rfl

@[simp] theorem processed_stop (p : Processor) : p.stop.processed = p.processed := rfl

@[simp] theorem stopRequested_stop (p : Processor) : p.stop.stopRequested = true := rfl

section Advance

variable (h : Handler) {p : Processor} {r : Record} {rest : List Record}

theorem advance_of_upcoming_nil (hp : p.stage = .running) (hu : p.upcoming = []) :
    p.advance h = p.complete .finished := by
  simp only [advance, hp, hu, if_true]

theorem advance_of_begun {t : Handler.Triage} (hp : p.stage = .running)
    (hu : p.upcoming = r :: rest) (hc : p.current = some t) :
    p.advance h = p.conclude h r t := by
  simp only [advance, hp, hu, hc, if_true]

theorem advance_of_stopRequested (hp : p.stage = .running) (hu : p.upcoming = r :: rest)
    (hc : p.current = none) (hs : p.stopRequested = true) :
    p.advance h = ((p.complete .stopped).1,
      .stoppedBefore p.partition r.offset p.processed p.pending ::
        (p.complete .stopped).2) := by
  simp only [advance, hp, hu, hc, hs, if_true]

theorem advance_of_not_begun (hp : p.stage = .running) (hu : p.upcoming = r :: rest)
    (hc : p.current = none) (hs : p.stopRequested = false) : p.advance h = p.begin h r := by
  simp only [advance, hp, hu, hc, hs, if_true, Bool.false_eq_true, if_false]

end Advance

/-- A processor that is done stays as it is. -/
theorem advance_of_isDone (h : Handler) {p : Processor} (hp : p.isDone = true) :
    p.advance h = (p, []) := by
  unfold advance
  rw [if_neg]
  intro hr
  simp [isDone, hr, Stage.isTerminal] at hp

/-- The stage of a processor that is done does not change on a stop. -/
theorem stage_stop_of_isDone {p : Processor} (hp : p.isDone = true) :
    p.stop.stage = p.stage := by
  unfold stop
  refine if_neg fun hc => ?_
  simp [isDone, hc, Stage.isTerminal] at hp

/-- An offset to commit lies above zero. -/
theorem committable?_eq_some {p : Processor} {offset : Int} :
    p.committable? = some offset ↔ 0 < offset ∧ p.nextOffset = offset := by
  unfold committable?
  split <;> simp <;> omega

end Processor
end RecordDispatch
