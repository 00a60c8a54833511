import RecordDispatch.Dispatch.Loop
import RecordDispatch.Proofs.Metrics

/-!
# What a run of the dispatch loop comes to

A turn ends the loop if its cycle panics or if the loop is cancelled in its
course.  This may be during the cycle, or during the sleep after it if there is
one (`Turn.cancels`).  The turns that are made are therefore those up to the
first that ends the loop (`lt_length_made`).

`proceed_eq` is the run in closed form: each turn that is made tells its
`Turn.events`, and `closing` follows, which is the shutdown if the loop was
cancelled and no cycle has panicked.  `Orderly` says what this means for the
begun cycles, the shutdown, the result of the thread and the counters, and
`run_orderly` that every run is so.
-/

namespace RecordDispatch.Dispatch.Loop

/-! ## Turns -/

namespace Turn

variable (idleInterval : Duration) (t : Turn)

/-- Whether the cycle panics. -/
def panics : Bool :=
  t.outcome.isNone

/-- Whether the loop sleeps after the cycle.  It does so after a failed poll
only if it is not cancelled yet. -/
def sleeps : Bool :=
  match t.outcome with
  | some .idle => decide (idleInterval ≠ 0)
  | some .backoff => !t.cancelledInCycle
  | _ => false

/-- Whether the loop is cancelled in the course of the turn. -/
def cancels : Bool :=
  t.cancelledInCycle || (t.sleeps idleInterval && t.cancelledInSleep)

/-- Whether the loop makes no further turn. -/
def ends : Bool :=
  t.panics || t.cancels idleInterval

/-- What the turn tells. -/
def events : List Event :=
  match t.outcome with
  | none => [.begun, .panicked]
  | some o => .begun :: .cycled o :: (afterCycle idleInterval t o).1

variable {idleInterval t}

/-- The loop knows after the cycle, and the sleep after it, that it is
cancelled. -/
theorem cancelled_afterCycle {o : Outcome} (h : t.outcome = some o) :
    (afterCycle idleInterval t o).2 = t.cancels idleInterval := by
  unfold afterCycle cancels sleeps
  cases o with
  | busy => simp [h]
  | idle => by_cases h0 : idleInterval = 0 <;> simp [h, h0]
  | backoff => cases hc : t.cancelledInCycle <;> simp [h]

end Turn

/-- The outcome of a cycle, if the event tells it. -/
def Event.outcome? : Event → Option Outcome
  | .cycled o => some o
  | _ => none

namespace Turn

variable (idleInterval : Duration) (t : Turn)

/-- A turn begins one cycle, and tells its outcome if there is one.  It counts
as an idle sleep if there was nothing to do and such sleeps have a length.  It
never shuts the dispatcher down. -/
theorem events_cases :
    (t.events idleInterval).count .begun = 1 ∧
      (t.events idleInterval).filterMap Event.outcome? = t.outcome.toList ∧
      (t.events idleInterval).count .idled =
        (if idleInterval = 0 then 0 else t.outcome.toList.count .idle) ∧
      (.panicked ∈ t.events idleInterval ↔ t.panics = true) ∧
      .shutDown ∉ t.events idleInterval := by
  unfold events panics
  cases ho : t.outcome with
  | none => exact ⟨rfl, rfl, by simp, by simp, by simp⟩
  | some o =>
    cases o with
    | busy => exact ⟨rfl, rfl, by simp [afterCycle], by simp [afterCycle], by simp [afterCycle]⟩
    | idle =>
      by_cases h0 : idleInterval = 0 <;>
        simp [afterCycle, List.filterMap_cons, Event.outcome?, h0]
    | backoff =>
      by_cases hc : t.cancelledInCycle = true <;>
        simp [afterCycle, List.filterMap_cons, Event.outcome?, hc]

end Turn

/-! ## The turns that are made -/

/-- The turns that are made of a loop that is cancelled at first, or not. -/
def made (idleInterval : Duration) : Bool → List Turn → List Turn
  | true, _ => []
  | false, [] => []
  | false, t :: ts => t :: made idleInterval (t.ends idleInterval) ts

section Made

variable (idleInterval : Duration) (cancelled : Bool) (ts : List Turn)

theorem made_eq_take :
    made idleInterval cancelled ts = ts.take (made idleInterval cancelled ts).length := by
  induction ts generalizing cancelled with
  | nil => cases cancelled <;> rfl
  | cons t ts ih =>
    cases cancelled with
    | true => rfl
    | false => exact congrArg (t :: ·) (ih _)

/-- A turn is made exactly if the loop is not cancelled at first and no turn
before it ends the loop. -/
theorem lt_length_made {i : Nat} :
    i < (made idleInterval cancelled ts).length ↔
      i < ts.length ∧ cancelled = false ∧
        ∀ j t, j < i → ts[j]? = some t → t.ends idleInterval = false := by
  induction ts generalizing cancelled i with
  | nil => cases cancelled <;> simp [made]
  | cons t ts ih =>
    cases cancelled with
    | true => simp [made]
    | false =>
      cases i with
      | zero => simp [made]
      | succ i =>
        rw [made, List.length_cons, List.length_cons, Nat.succ_lt_succ_iff,
          Nat.succ_lt_succ_iff, ih]
        refine and_congr_right fun _ => ⟨fun ⟨hends, h⟩ => ⟨rfl, fun j u hj hu => ?_⟩,
          fun ⟨_, h⟩ => ⟨h 0 t (Nat.succ_pos i) rfl, fun j u hj hu => ?_⟩⟩
        · cases j with
          | zero => exact Option.some.inj hu ▸ hends
          | succ j => exact h j u (Nat.lt_of_succ_lt_succ hj) hu
        · exact h (j + 1) u (Nat.succ_lt_succ hj) hu

end Made

/-! ## Runs -/

/-- What follows the turns that are made, after a number of cycles before. -/
def closing (idleInterval : Duration) (cancelled : Bool) (cycles : Nat) (made : List Turn) :
    List Event :=
  if (∀ t ∈ made, t.panics = false) ∧
      (cancelled = true ∨ ∃ t ∈ made, t.cancels idleInterval = true) then
    ending (cycles + made.length)
  else []

section Closing

variable (idleInterval : Duration) (cancelled : Bool) (n : Nat) (ts : List Turn)

/-- A cycle that returns is one more before the others. -/
theorem closing_cons {t : Turn} (h : t.panics = false) :
    closing idleInterval false n (t :: ts) =
      closing idleInterval (t.cancels idleInterval) (n + 1) ts := by
  simp only [closing, List.mem_cons, forall_eq_or_imp, exists_eq_or_imp, h, true_and,
    Bool.false_eq_true, false_or, List.length_cons, Nat.add_assoc, Nat.add_comm 1]

/-- A cycle that panics is not followed by a shutdown. -/
theorem closing_of_panics (h : ∃ t ∈ ts, t.panics = true) :
    closing idleInterval cancelled n ts = [] := by
  obtain ⟨t, ht, hp⟩ := h
  exact if_neg fun hc => absurd (hp.symm.trans (hc.1 t ht)) (by decide)

theorem closing_of_not_cancelled (hc : cancelled = false)
    (hts : ∀ t ∈ ts, t.cancels idleInterval = false) :
    closing idleInterval cancelled n ts = [] := by
  refine if_neg fun ⟨_, hover⟩ => ?_
  rcases hover with hover | ⟨t, ht, hover⟩
  · exact absurd (hc.symm.trans hover) (by decide)
  · exact absurd ((hts t ht).symm.trans hover) (by decide)

/-- The end of a run begins no cycle and tells of none. -/
theorem closing_quiet :
    (closing idleInterval cancelled n ts).count .begun = 0 ∧
      (closing idleInterval cancelled n ts).filterMap Event.outcome? = [] ∧
      (closing idleInterval cancelled n ts).count .idled = 0 ∧
      .panicked ∉ closing idleInterval cancelled n ts := by
  unfold closing
  split
  · exact ⟨rfl, rfl, rfl, by simp [ending]⟩
  · exact ⟨rfl, rfl, rfl, List.not_mem_nil⟩

end Closing

/-- A run tells its turns, and then how it is closed. -/
theorem proceed_eq (idleInterval : Duration) (cancelled : Bool) (cycles : Nat)
    (ts : List Turn) :
    proceed idleInterval cancelled cycles ts =
      (made idleInterval cancelled ts).flatMap (Turn.events idleInterval) ++
        closing idleInterval cancelled cycles (made idleInterval cancelled ts) := by
  induction ts generalizing cancelled cycles with
  | nil => cases cancelled <;> simp [proceed, made, closing]
  | cons t ts ih =>
    cases cancelled with
    | true => simp [proceed, made, closing]
    | false =>
      rw [made, List.flatMap_cons, proceed]
      cases ho : t.outcome with
      | none =>
        have hpanics : t.panics = true := by rw [Turn.panics, ho]; rfl
        rw [closing_of_panics _ _ _ _ ⟨t, List.mem_cons_self, hpanics⟩]
        simp [Turn.ends, Turn.events, hpanics, ho, made]
      | some o =>
        have hpanics : t.panics = false := by rw [Turn.panics, ho]; rfl
        have hends : t.ends idleInterval = t.cancels idleInterval := by
          rw [Turn.ends, hpanics, Bool.false_or]
        rw [closing_cons _ _ _ hpanics, hends]
        simp only [Turn.cancelled_afterCycle ho, ih, Turn.events, ho, List.cons_append,
          List.append_assoc]

section Told

variable (idleInterval : Duration) (ts : List Turn)

theorem count_begun_told : (ts.flatMap (Turn.events idleInterval)).count .begun = ts.length := by
  induction ts with
  | nil => rfl
  | cons t ts ih =>
    rw [List.flatMap_cons, List.count_append, ih, (t.events_cases idleInterval).1,
      List.length_cons, Nat.add_comm]

theorem outcomes_told :
    (ts.flatMap (Turn.events idleInterval)).filterMap Event.outcome? =
      ts.filterMap (·.outcome) := by
  induction ts with
  | nil => rfl
  | cons t ts ih =>
    rw [List.flatMap_cons, List.filterMap_append, ih, (t.events_cases idleInterval).2.1,
      List.filterMap_cons]
    cases t.outcome <;> rfl

theorem count_idled_told :
    (ts.flatMap (Turn.events idleInterval)).count .idled =
      if idleInterval = 0 then 0 else (ts.filterMap (·.outcome)).count .idle := by
  induction ts with
  | nil => simp
  | cons t ts ih =>
    rw [List.flatMap_cons, List.count_append, ih, (t.events_cases idleInterval).2.2.1,
      List.filterMap_cons]
    by_cases h0 : idleInterval = 0
    · simp [h0]
    · cases t.outcome with
      | none => simp [h0]
      | some o => simp [h0, List.count_cons, Nat.add_comm]

theorem panicked_told :
    .panicked ∈ ts.flatMap (Turn.events idleInterval) ↔ ∃ t ∈ ts, t.panics = true := by
  rw [List.mem_flatMap]
  exact exists_congr fun t => and_congr_right fun _ => (t.events_cases idleInterval).2.2.2.1

theorem shutDown_told : .shutDown ∉ ts.flatMap (Turn.events idleInterval) := by
  rw [List.mem_flatMap]
  exact fun ⟨t, _, ht⟩ => (t.events_cases idleInterval).2.2.2.2 ht

end Told

/-! ## Counters -/

/-- The counter of cycles. -/
def pollCycles : Report.Series :=
  Report.own "poll_cycles_total"

/-- The counter of sleeps because there was nothing to do. -/
def idleSleeps : Report.Series :=
  Report.own "idle_sleeps_total"

/-- Each counter leaves the measurement of the other out. -/
theorem added_other :
    Report.added pollCycles [.count idleSleeps 1] = 0 ∧
      Report.added idleSleeps [.count pollCycles 1] = 0 := by
  decide

section Counters

variable (events : List Event)

/-- Everything that the loop measures is counted. -/
theorem counts_measurements (series : Report.Series) :
    ∀ x ∈ events.flatMap Report.Reported.measurements, x.Counts series := by
  intro x hx
  obtain ⟨e, -, he⟩ := List.mem_flatMap.mp hx
  cases e with
  | cycled o => rw [List.mem_singleton.mp he]; trivial
  | idled => rw [List.mem_singleton.mp he]; trivial
  | _ => exact absurd he List.not_mem_nil

theorem counter_pollCycles :
    (Report.metrics events).counter pollCycles =
      ((events.filterMap Event.outcome?).length : Int) := by
  rw [Report.metrics, Report.Metrics.counter_ofList _ (counts_measurements events pollCycles)]
  congr 1
  induction events with
  | nil => rfl
  | cons e es ih =>
    rw [List.flatMap_cons, Report.added_append, ih, List.filterMap_cons]
    cases e with
    | cycled o => exact Nat.add_comm _ _
    | idled => exact (congrArg (· + _) added_other.1).trans (Nat.zero_add _)
    | _ => exact Nat.zero_add _

theorem counter_idleSleeps :
    (Report.metrics events).counter idleSleeps = (events.count .idled : Int) := by
  rw [Report.metrics, Report.Metrics.counter_ofList _ (counts_measurements events idleSleeps)]
  congr 1
  induction events with
  | nil => rfl
  | cons e es ih =>
    rw [List.flatMap_cons, Report.added_append, ih, List.count_cons]
    cases e with
    | cycled o => exact (congrArg (· + _) added_other.2).trans (Nat.zero_add _)
    | idled => exact Nat.add_comm _ _
    | _ => exact Nat.zero_add _

end Counters

/-! ## What every run is -/

section Run

variable (idleInterval : Duration) (cancelled : Bool) (turns : List Turn)

theorem run_eq :
    run idleInterval cancelled turns =
      .started :: ((made idleInterval cancelled turns).flatMap (Turn.events idleInterval) ++
        closing idleInterval cancelled 0 (made idleInterval cancelled turns)) :=
  congrArg (Event.started :: ·) (proceed_eq idleInterval cancelled 0 turns)

theorem cycles_run :
    cycles (run idleInterval cancelled turns) = (made idleInterval cancelled turns).length := by
  rw [cycles, run_eq, List.count_cons_of_ne (by decide), List.count_append, count_begun_told,
    (closing_quiet _ _ _ _).1, Nat.add_zero]

/-- The turns that are made are those whose cycles are begun. -/
theorem take_cycles_run :
    turns.take (cycles (run idleInterval cancelled turns)) =
      made idleInterval cancelled turns := by
  rw [cycles_run, ← made_eq_take]

theorem outcomes_run :
    (run idleInterval cancelled turns).filterMap Event.outcome? =
      (made idleInterval cancelled turns).filterMap (·.outcome) := by
  rw [run_eq, List.filterMap_cons_none rfl, List.filterMap_append, outcomes_told,
    (closing_quiet _ _ _ _).2.1, List.append_nil]

theorem count_idled_run :
    (run idleInterval cancelled turns).count .idled =
      if idleInterval = 0 then 0
      else ((made idleInterval cancelled turns).filterMap (·.outcome)).count .idle := by
  rw [run_eq, List.count_cons_of_ne (by decide), List.count_append, count_idled_told,
    (closing_quiet _ _ _ _).2.2.1, Nat.add_zero]

/-- The thread panics exactly if a cycle does. -/
theorem joined_run :
    joined (run idleInterval cancelled turns) = true ↔
      ∀ t ∈ made idleInterval cancelled turns, t.panics = false := by
  have hquiet := (closing_quiet idleInterval cancelled 0 (made idleInterval cancelled turns)).2.2.2
  rw [joined, Bool.not_eq_true', List.contains_eq_mem, decide_eq_false_iff_not, run_eq,
    List.mem_cons, List.mem_append, panicked_told]
  simp [hquiet]

/-- The dispatcher is shut down in the end of a run only. -/
theorem shutdowns_run :
    shutdowns (run idleInterval cancelled turns) =
      shutdowns (closing idleInterval cancelled 0 (made idleInterval cancelled turns)) := by
  rw [shutdowns, run_eq, List.count_cons_of_ne (by decide), List.count_append,
    List.count_eq_zero.mpr (shutDown_told _ _), Nat.zero_add, shutdowns]

end Run

/-- What a run of the loop tells, with these turns.  The turns that are made are
as many as cycles were begun. -/
structure Orderly (idleInterval : Duration) (cancelled : Bool) (turns : List Turn)
    (events : List Event) : Prop where
  /-- A cycle is begun exactly if the loop was not cancelled at first, no earlier
  cycle has panicked, and the loop was not cancelled in the course of an earlier
  turn. -/
  begun : ∀ i, i < cycles events ↔ i < turns.length ∧ cancelled = false ∧
    ∀ j t, j < i → turns[j]? = some t → t.panics = false ∧ t.cancels idleInterval = false
  /-- The cycles that return do so with their outcomes, in order. -/
  returned : events.filterMap Event.outcome? =
    (turns.take (cycles events)).filterMap (·.outcome)
  /-- Once the loop is cancelled, and no cycle has panicked, the dispatcher is
  shut down once, and this is after all cycles. -/
  ended : (cancelled = true ∨
      ∃ t ∈ turns.take (cycles events), t.cancels idleInterval = true) →
    (∀ t ∈ turns.take (cycles events), t.panics = false) →
    shutdowns events = 1 ∧ joined events = true ∧
      ∃ before, events = before ++ ending (cycles events)
  /-- As long as it is not cancelled, the dispatcher is not shut down. -/
  unended : cancelled = false →
    (∀ t ∈ turns.take (cycles events), t.cancels idleInterval = false) →
    shutdowns events = 0
  /-- If a cycle panics, the dispatcher is not shut down, and the thread has
  panicked. -/
  panicked : (∃ t ∈ turns.take (cycles events), t.panics = true) →
    shutdowns events = 0 ∧ joined events = false
  /-- Every cycle that has returned is counted. -/
  polls : (Report.metrics events).counter pollCycles =
    (((turns.take (cycles events)).filterMap (·.outcome)).length : Int)
  /-- Every cycle with nothing to do is counted, unless the idle interval is
  zero. -/
  idles : (Report.metrics events).counter idleSleeps =
    if idleInterval = 0 then 0
    else (((turns.take (cycles events)).filterMap (·.outcome)).count .idle : Int)

/-- Whatever the cycles come to, and whenever the loop is cancelled, no cycle is
begun after that, and the dispatcher is shut down once after the last cycle,
unless that has panicked. -/
theorem run_orderly (idleInterval : Duration) (cancelled : Bool) (turns : List Turn) :
    Orderly idleInterval cancelled turns (run idleInterval cancelled turns) := by
  constructor
  case begun =>
    intro i
    rw [cycles_run, lt_length_made]
    simp only [Turn.ends, Bool.or_eq_false_iff]
  case returned =>
    rw [outcomes_run, take_cycles_run]
  case ended =>
    rw [take_cycles_run, cycles_run, joined_run, shutdowns_run, run_eq]
    intro hover hpanics
    have hclosing : closing idleInterval cancelled 0 (made idleInterval cancelled turns) =
        ending (made idleInterval cancelled turns).length :=
      (if_pos ⟨hpanics, hover⟩).trans (congrArg ending (Nat.zero_add _))
    rw [hclosing]
    exact ⟨rfl, hpanics, .started :: _, rfl⟩
  case unended =>
    rw [take_cycles_run, shutdowns_run]
    intro hc hts
    rw [closing_of_not_cancelled _ _ _ _ hc hts]
    rfl
  case panicked =>
    rw [take_cycles_run, shutdowns_run]
    intro hpanics
    rw [closing_of_panics _ _ _ _ hpanics, Bool.eq_false_iff, ne_eq, joined_run]
    obtain ⟨t, ht, hp⟩ := hpanics
    exact ⟨rfl, fun h => absurd (hp.symm.trans (h t ht)) (by decide)⟩
  case polls =>
    rw [counter_pollCycles, outcomes_run, take_cycles_run]
  case idles =>
    rw [counter_idleSleeps, count_idled_run, take_cycles_run]
    split <;> rfl

end RecordDispatch.Dispatch.Loop
