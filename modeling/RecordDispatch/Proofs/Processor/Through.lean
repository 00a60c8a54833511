import RecordDispatch.Processor
import RecordDispatch.Proofs.Metrics

/-!
# A batch from beginning to end

What a worker does with a processor that nobody stops.  The executor may answer
differently at each record, whatever it has answered before: the handler is
given anew for each record, by the number of records handled before it
(`advances`).

Two tables say what should become of a record: `handedOver?` is the unit of work
that should reach the executor, if one should, and `outcomeOf` the outcome.

* `BetweenRecords.next` is one record, and `BetweenRecords.through` the induction
  over the records: the processor handles each of them as `Handler.handle` does,
  one after the other, and finishes.
* `runs_through` reads off calls of the executor, outcomes and counters.
-/

namespace RecordDispatch

/-! ## What should become of a record -/

/-- The unit of work that should reach the executor.  The credential of the
record goes before the fallback, and without either the policy decides. -/
def Handler.handedOver? (fallback : Option Authentication) (policy : MissingCredentialPolicy)
    (p : Partition) (r : Record) : Option Work :=
  match Work.decode p r with
  | .error _ => none
  | .ok work =>
    match work.authentication, fallback, policy with
    | some _, _, _ => some work
    | none, some credential, _ => some { work with authentication := some credential }
    | none, none, .passThrough => some work
    | none, none, .drop => none

/-- The outcome that a record should have. -/
def Handler.outcomeOf (h : Handler) (p : Partition) (r : Record) : Handler.Outcome :=
  match Work.decode p r, handedOver? h.fallback h.policy p r with
  | .error _, _ => .undecodable
  | .ok _, none => .missingCredentials
  | .ok _, some work => if h.execute work = .done then .executed else .executorFailed

namespace Handler

/-- The unit of work that was handed to the executor, if the event says that one
was. -/
def Event.called? : Event → Option Work
  | .called work => some work
  | _ => none

/-- The record that was handled, with its outcome. -/
def Event.outcome? : Event → Option (Record × Outcome)
  | .handled _ r o => some (r, o)
  | _ => none

/-- The counter of an outcome. -/
def counterOf (topic : String) (o : Outcome) : Report.Series :=
  Report.own "records_processed_total" [("topic", topic), ("outcome", o.name)]

theorem Outcome.name_inj {o o' : Outcome} : o.name = o'.name ↔ o = o' := by
  cases o <;> cases o' <;> decide

theorem counterOf_inj {topic : String} {o o' : Outcome} :
    counterOf topic o = counterOf topic o' ↔ o = o' := by
  refine ⟨fun h => ?_, congrArg _⟩
  have hlabels := (Report.Series.mk.inj h).2
  simp only [List.cons.injEq, Prod.mk.injEq, and_true, true_and] at hlabels
  exact Outcome.name_inj.mp hlabels

variable (h : Handler) (p : Partition) (r : Record)

/-- A record is taken up for the executor exactly if it should reach it, and
then with the work that should. -/
theorem triage_cases :
    (∃ e, Work.decode p r = .error e ∧
        h.triage p r = .rejected .undecodable (.undecodable p r.offset e)) ∨
      (∃ w id, Work.decode p r = .ok w ∧ handedOver? h.fallback h.policy p r = none ∧
        h.triage p r = .rejected .missingCredentials (.unauthenticated p r.offset id)) ∨
      ∃ w work, Work.decode p r = .ok w ∧
        handedOver? h.fallback h.policy p r = some work ∧ h.triage p r = .accepted work := by
  unfold triage handedOver?
  cases hd : Work.decode p r with
  | error e => exact .inl ⟨e, rfl, rfl⟩
  | ok w =>
    obtain ⟨fallback, policy, execute⟩ := h
    obtain ⟨partition, offset, key, messageId, authentication, request⟩ := w
    refine .inr ?_
    cases authentication with
    | some a => exact .inr ⟨_, _, rfl, rfl, rfl⟩
    | none =>
      cases fallback with
      | some a => exact .inr ⟨_, _, rfl, rfl, rfl⟩
      | none =>
        cases policy with
        | drop => exact .inl ⟨_, _, rfl, rfl, rfl⟩
        | passThrough => exact .inr ⟨_, _, rfl, rfl, rfl⟩

theorem outcome_eq (reply : Reply) :
    outcome reply = if reply = .done then .executed else .executorFailed := by
  cases reply <;> rfl

/-- A record reaches the executor once if it should, has the outcome that it
should have, and is counted under it. -/
theorem handle_tells :
    (h.handle p r).2.filterMap Event.called? = (handedOver? h.fallback h.policy p r).toList ∧
      (h.handle p r).2.filterMap Event.outcome? = [(r, h.outcomeOf p r)] ∧
      (h.handle p r).2.flatMap Report.Reported.measurements =
        [.count (counterOf p.topic (h.outcomeOf p r)) 1] := by
  unfold handle outcomeOf
  rcases h.triage_cases p r with ⟨e, hd, ht⟩ | ⟨w, id, hd, hw, ht⟩ | ⟨w, work, hd, hw, ht⟩
  · have hnone : handedOver? h.fallback h.policy p r = none := by
      unfold handedOver?
      rw [hd]
    rw [ht, hd, hnone]
    exact ⟨rfl, rfl, rfl⟩
  · rw [ht, hd, hw]
    exact ⟨rfl, rfl, rfl⟩
  · rw [ht, hd, hw]
    have houtcome := outcome_eq (h.execute work)
    exact ⟨rfl, congrArg (fun o => [(r, o)]) houtcome,
      congrArg (fun o => [Report.Measurement.count (counterOf p.topic o) 1]) houtcome⟩

end Handler

namespace Processor

/-! ## A run without a stop -/

/-- Steps of a processor, each with the handler that is given for the record
that is its turn. -/
def advances (hs : Nat → Handler) : Nat → Processor → Processor × List Event
  | 0, p => (p, [])
  | n + 1, p =>
    let (p, events) := p.advance (hs p.processed)
    let (p, more) := advances hs n p
    (p, events ++ more)

/-- What handling records tells, the first of them with the handler of the given
number. -/
def handlings (hs : Nat → Handler) (p : Partition) : Nat → List Record → List Handler.Event
  | _, [] => []
  | i, r :: rest => ((hs i).handle p r).2 ++ handlings hs p (i + 1) rest

theorem advances_succ (hs : Nat → Handler) (n : Nat) (p : Processor) :
    advances hs (n + 1) p =
      ((advances hs n (p.advance (hs p.processed)).1).1,
        (p.advance (hs p.processed)).2 ++
          (advances hs n (p.advance (hs p.processed)).1).2) := rfl

theorem advances_of_isDone (hs : Nat → Handler) (n : Nat) {p : Processor}
    (hp : p.isDone = true) : advances hs n p = (p, []) := by
  induction n with
  | zero => rfl
  | succ n ih =>
    rw [advances_succ, advance_of_isDone _ hp, ih]
    rfl

/-- Between two records of a run that nobody stops. -/
structure BetweenRecords (p : Processor) (left : List Record) : Prop where
  running : p.stage = .running
  upcoming : p.upcoming = left
  current : p.current = none
  unstopped : p.stopRequested = false

theorem betweenRecords_claim (b : Batch) : BetweenRecords (claim { batch := b }) b.records :=
  ⟨rfl, rfl, rfl, rfl⟩

/-- Taking up a record and ending it is handling it. -/
theorem begin_conclude (h : Handler) (p : Processor) (r : Record) :
    (p.begin h r).2 ++ ((p.begin h r).1.conclude h r (h.triage p.partition r)).2 =
      (h.handle p.partition r).2.map .handler := by
  simp only [begin, conclude, Handler.handle, List.map_append, List.append_assoc]
  rfl

/-- The next record takes two steps, which together handle it. -/
theorem BetweenRecords.next {p : Processor} {r : Record} {left : List Record}
    (h : p.BetweenRecords (r :: left)) (hs : Nat → Handler) (n : Nat) :
    BetweenRecords { p with processed := p.processed + 1 } left ∧
      advances hs (n + 2) p =
        ((advances hs n { p with processed := p.processed + 1 }).1,
          ((hs p.processed).handle p.partition r).2.map .handler ++
            (advances hs n { p with processed := p.processed + 1 }).2) := by
  obtain ⟨hrunning, hupcoming, hcurrent, hunstopped⟩ := h
  have hnext : p.batch.records.drop (p.processed + 1) = left := by
    have htail := congrArg List.tail hupcoming
    rwa [Processor.upcoming, List.tail_drop] at htail
  refine ⟨⟨hrunning, hnext, hcurrent, hunstopped⟩, ?_⟩
  have hfirst := advance_of_not_begun (hs p.processed) hrunning hupcoming hcurrent hunstopped
  have hsecond : ((p.begin (hs p.processed) r).1).advance (hs p.processed) =
      (p.begin (hs p.processed) r).1.conclude (hs p.processed) r
        ((hs p.processed).triage p.partition r) :=
    advance_of_begun _ hrunning hupcoming rfl
  have hafter : ((p.begin (hs p.processed) r).1.conclude (hs p.processed) r
      ((hs p.processed).triage p.partition r)).1 =
        { p with processed := p.processed + 1 } := by
    cases p
    cases hcurrent
    rfl
  have hcount : (p.begin (hs p.processed) r).1.processed = p.processed := rfl
  rw [advances_succ, advances_succ, hfirst, hcount, hsecond, hafter]
  dsimp only
  rw [← List.append_assoc, begin_conclude]

/-- The processor handles the records that are left, one after the other, and
finishes.  Further steps change nothing. -/
theorem BetweenRecords.through {p : Processor} {left : List Record} (h : p.BetweenRecords left)
    (hs : Nat → Handler) (more : Nat) :
    advances hs (2 * left.length + 1 + more) p =
      ({ p with stage := .finished, processed := p.processed + left.length },
        (handlings hs p.partition p.processed left).map .handler ++
          [.completed p.partition (p.processed + left.length)
            (nextOffset { p with processed := p.processed + left.length })]) := by
  induction left generalizing p with
  | nil =>
    have hfinish := advance_of_upcoming_nil (hs p.processed) h.running h.upcoming
    have hdone : (p.complete .finished).1.isDone = true := rfl
    rw [List.length_nil, Nat.mul_zero, Nat.zero_add, Nat.add_comm 1 more, advances_succ, hfinish,
      advances_of_isDone hs more hdone]
    rfl
  | cons r left ih =>
    have hsteps : 2 * (r :: left).length + 1 + more = (2 * left.length + 1 + more) + 2 := by
      rw [List.length_cons]
      omega
    have hlength : p.processed + 1 + left.length = p.processed + (r :: left).length := by
      rw [List.length_cons]
      omega
    obtain ⟨hbetween, hnext⟩ := h.next hs (2 * left.length + 1 + more)
    rw [hsteps, hnext, ih hbetween]
    simp only [hlength, handlings, List.map_append, List.append_assoc]
    rfl

/-! ## What a run tells -/

/-- The unit of work that was handed to the executor, if the event says that one
was. -/
def Event.called? : Event → Option Work
  | .handler e => e.called?
  | _ => none

/-- The record that was handled, with its outcome. -/
def Event.outcome? : Event → Option (Record × Handler.Outcome)
  | .handler e => e.outcome?
  | _ => none

theorem filterMap_called? (events : List Handler.Event) :
    (events.map .handler).filterMap Event.called? = events.filterMap Handler.Event.called? :=
  List.filterMap_map

theorem filterMap_outcome? (events : List Handler.Event) :
    (events.map .handler).filterMap Event.outcome? = events.filterMap Handler.Event.outcome? :=
  List.filterMap_map

/-- The outcomes that records should have, the first of them with the handler of
the given number. -/
def outcomesOf (hs : Nat → Handler) (p : Partition) : Nat → List Record → List Handler.Outcome
  | _, [] => []
  | i, r :: rest => (hs i).outcomeOf p r :: outcomesOf hs p (i + 1) rest

section Handlings

variable {hs : Nat → Handler} {fallback : Option Authentication}
  {policy : MissingCredentialPolicy} (p : Partition) (i : Nat) (left : List Record)

theorem called_handlings (hf : ∀ i, (hs i).fallback = fallback)
    (hp : ∀ i, (hs i).policy = policy) :
    (handlings hs p i left).filterMap Handler.Event.called? =
      left.filterMap (Handler.handedOver? fallback policy p) := by
  induction left generalizing i with
  | nil => rfl
  | cons r left ih =>
    rw [handlings, List.filterMap_append, ((hs i).handle_tells p r).1, ih, hf, hp,
      List.filterMap_cons]
    cases Handler.handedOver? fallback policy p r <;> rfl

theorem outcome_handlings : (handlings hs p i left).filterMap Handler.Event.outcome? =
    left.zip (outcomesOf hs p i left) := by
  induction left generalizing i with
  | nil => rfl
  | cons r left ih =>
    rw [handlings, List.filterMap_append, ((hs i).handle_tells p r).2.1, ih]
    rfl

theorem measurements_handlings :
    (handlings hs p i left).flatMap Report.Reported.measurements =
      (outcomesOf hs p i left).map fun o => .count (Handler.counterOf p.topic o) 1 := by
  induction left generalizing i with
  | nil => rfl
  | cons r left ih =>
    rw [handlings, List.flatMap_append, ((hs i).handle_tells p r).2.2, ih]
    rfl

theorem length_outcomesOf : (outcomesOf hs p i left).length = left.length := by
  induction left generalizing i with
  | nil => rfl
  | cons r left ih => rw [outcomesOf, List.length_cons, ih, List.length_cons]

end Handlings

/-- Each outcome adds to its own counter. -/
theorem added_counterOf (topic : String) (o : Handler.Outcome) (os : List Handler.Outcome) :
    Report.added (Handler.counterOf topic o)
      (os.map fun o => .count (Handler.counterOf topic o) 1) = os.count o := by
  induction os with
  | nil => rfl
  | cons o' os ih =>
    rw [List.map_cons, Report.added, ih, List.count_cons, Nat.add_comm]
    by_cases ho : o' = o <;> simp [Report.Measurement.added, Handler.counterOf_inj, ho]

/-- Neither other outcomes nor the duration of the batch count. -/
theorem counter_counterOf (topic : String) (o : Handler.Outcome) (os : List Handler.Outcome) :
    (Report.Metrics.ofList ((os.map fun o => .count (Handler.counterOf topic o) 1) ++
      [.observe (Report.own "batch_duration_seconds" [("topic", topic)])])).counter
        (Handler.counterOf topic o) = os.count o := by
  rw [Report.Metrics.counter_ofList, Report.added_append, added_counterOf]
  · rfl
  · intro x hx
    rcases List.mem_append.mp hx with hx | hx
    · obtain ⟨o', -, rfl⟩ := List.mem_map.mp hx
      trivial
    · rw [List.mem_singleton.mp hx]
      exact fun h => absurd (Report.Series.mk.inj h).1 (by decide)

/-- Every outcome is one of four. -/
theorem count_outcomes (os : List Handler.Outcome) :
    os.count .executed + os.count .executorFailed + os.count .undecodable +
      os.count .missingCredentials = os.length := by
  induction os with
  | nil => rfl
  | cons o os ih =>
    cases o <;> simp <;> omega

/-- Whatever its records hold and however the executor answers at each of them,
a batch that nobody stops runs through.  Each record that should reach the
executor reaches it once and in order, with the credential that it should have,
each has the outcome that it should have, and each is counted once. -/
theorem runs_through (fallback : Option Authentication) (policy : MissingCredentialPolicy)
    (execute : Nat → Work → Reply) (b : Batch) (more : Nat) :
    let hs (i : Nat) : Handler := { fallback, policy, execute := execute i }
    let run := advances hs (2 * b.size + 1 + more) (claim { batch := b })
    let outcomes := outcomesOf hs b.partition 0 b.records
    let counter (o : Handler.Outcome) :=
      (Report.metrics run.2).counter (Handler.counterOf b.partition.topic o)
    run.1.stage = .finished ∧ run.1.processed = b.size ∧
      run.2.filterMap Event.called? =
        b.records.filterMap (Handler.handedOver? fallback policy b.partition) ∧
      run.2.filterMap Event.outcome? = b.records.zip outcomes ∧
      (∀ o, counter o = outcomes.count o) ∧
      counter .executed + counter .executorFailed + counter .undecodable +
        counter .missingCredentials = b.size := by
  intro hs run outcomes counter
  let told := handlings hs b.partition 0 b.records
  let q : Processor := { batch := b, stage := .finished, processed := 0 + b.records.length }
  have hrun : run = (q, told.map .handler ++ [.completed b.partition q.processed q.nextOffset]) :=
    (betweenRecords_claim b).through hs more
  have hcounter (o : Handler.Outcome) : counter o = outcomes.count o := by
    have hcounted : run.2.flatMap Report.Reported.measurements =
        (outcomes.map fun o => .count (Handler.counterOf b.partition.topic o) 1) ++
          [.observe (Report.own "batch_duration_seconds" [("topic", b.partition.topic)])] := by
      rw [hrun, List.flatMap_append, List.flatMap_map]
      exact congrArg (· ++ _) (measurements_handlings b.partition 0 b.records)
    rw [← counter_counterOf, ← hcounted]
    rfl
  refine ⟨?_, ?_, ?_, ?_, hcounter, ?_⟩
  · rw [hrun]
  · rw [hrun]
    exact Nat.zero_add _
  · have hcalled : told.filterMap Handler.Event.called? = _ :=
      called_handlings b.partition 0 b.records (fun _ => rfl) (fun _ => rfl)
    rw [hrun, List.filterMap_append, filterMap_called?, hcalled]
    exact List.append_nil _
  · rw [hrun, List.filterMap_append, filterMap_outcome?,
      outcome_handlings b.partition 0 b.records]
    exact List.append_nil _
  · have htotal := count_outcomes outcomes
    have hlength : outcomes.length = b.size := length_outcomesOf b.partition 0 b.records
    simp only [hcounter]
    omega

end Processor
end RecordDispatch
