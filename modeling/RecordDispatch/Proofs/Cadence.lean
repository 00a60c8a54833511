import RecordDispatch.Commit.Schedule

/-!
# How often offsets are committed

`Commit.run` decides by the time that its schedule has noted last.  Here the
same is said by what calls have done.  A `Course` makes calls one after another,
each at any time, forced or not, with whatever the ledger and the broker have
become since the call before.  It keeps what each call was given and what came
of it.

A call has reached the broker if the broker has a request of it that it had not
before (`Trial.requests`).  `latestAttempt` is the time of the last call that
reached the broker.

* `Trial.Regular` says what one call does, given that time.
* `run_regular` is the step: a schedule that has noted that time acts so, and
  notes the right time again.
* `Course.regular` is the induction over all calls, and `cadence` the result.
-/

namespace RecordDispatch.Commit

/-! ## Calls one after another -/

/-- What happens before a call, and the call. -/
structure Turn where
  /-- What becomes of the ledger and the broker before the call. -/
  meanwhile : Ledger × Broker → Ledger × Broker
  now : Instant
  forced : Bool

/-- A call that was made: what it was given, and what came of it. -/
structure Trial where
  schedule : Schedule
  now : Instant
  forced : Bool
  ledger : Ledger
  broker : Broker
  result : Step

namespace Trial

/-- The requests of the call, newest first. -/
def requests (t : Trial) : List Broker.Request :=
  t.result.broker.requests.take (t.result.broker.requests.length - t.broker.requests.length)

/-- Whether the call has tried a commit. -/
def reached (t : Trial) : Bool :=
  t.requests.any Broker.Request.isCommit

end Trial

/-- Calls on one schedule, with the ledger and the broker after the last. -/
structure Course where
  schedule : Schedule
  ledger : Ledger
  broker : Broker
  /-- The calls so far, newest first. -/
  trials : List Trial := []

namespace Course

/-- The course after one more call. -/
def turn (c : Course) (t : Turn) : Course :=
  let (ledger, broker) := t.meanwhile (c.ledger, c.broker)
  let result := Commit.run c.schedule t.now t.forced ledger broker
  { schedule := result.schedule
    ledger := result.ledger
    broker := result.broker
    trials := ⟨c.schedule, t.now, t.forced, ledger, broker, result⟩ :: c.trials }

/-- The course after calls, one after another. -/
def run (c : Course) (turns : List Turn) : Course :=
  turns.foldl turn c

end Course

/-- When a commit was last tried, or else when the schedule was made. -/
def latestAttempt (made : Instant) (trials : List Trial) : Instant :=
  ((trials.find? (·.reached)).map (·.now)).getD made

theorem latestAttempt_cons (made : Instant) (t : Trial) (trials : List Trial) :
    latestAttempt made (t :: trials) =
      if t.reached then t.now else latestAttempt made trials := by
  unfold latestAttempt
  rw [List.find?_cons]
  cases t.reached <;> rfl

/-- Calls that tried nothing leave the latest attempt as it is. -/
theorem latestAttempt_append {made : Instant} {between : List Trial}
    (h : ∀ t ∈ between, t.reached = false) (trials : List Trial) :
    latestAttempt made (between ++ trials) = latestAttempt made trials := by
  induction between with
  | nil => rfl
  | cons t between ih =>
    obtain ⟨ht, hrest⟩ := List.forall_mem_cons.mp h
    rw [List.cons_append, latestAttempt_cons, ht, ih hrest]
    rfl

/-! ## What one call does -/

/-- What a call does, given when a commit was last tried. -/
structure Trial.Regular (interval : Duration) (mode : CommitMode) (latest : Instant)
    (t : Trial) : Prop where
  /-- A commit is tried exactly if an offset is pending and the call is forced or
  more than the interval has passed. -/
  reached_iff : t.reached = true ↔
    t.ledger.isEmpty = false ∧ (t.forced = true ∨ (interval : Int) < t.now - latest)
  /-- There is one request then, for everything that is pending, and the broker
  decides what comes of it. -/
  attempted : t.reached = true →
    t.requests = [.commit (if t.forced then .sync else mode) t.ledger.pending
      (!t.broker.commitOutage.fails)]
  accepted : t.reached = true → t.broker.commitOutage.fails = false →
    t.result.outcome = .committed t.ledger.size ∧ t.result.ledger.isEmpty = true
  refused : t.reached = true → t.broker.commitOutage.fails = true →
    t.result.outcome = .failed ∧ ∀ p, t.result.ledger.get? p = t.ledger.get? p
  /-- A call that tries nothing changes nothing. -/
  skipped : t.reached = false →
    t.result = ⟨t.schedule, t.ledger, t.broker, .skipped, []⟩

namespace Schedule

/-- More than the interval has passed, as a difference of times. -/
theorem isDue_iff {s : Schedule} {now : Instant} :
    s.isDue now = true ↔ (s.interval : Int) < now - s.lastAttempt := by
  unfold isDue Duration.between
  rw [decide_eq_true_iff]
  exact Int.lt_toNat

theorem attempts_iff {s : Schedule} {now : Instant} {forced : Bool} {l : Ledger} :
    s.attempts now forced l = true ↔
      l.isEmpty = false ∧ (forced = true ∨ (s.interval : Int) < now - s.lastAttempt) := by
  unfold attempts
  rw [Bool.and_eq_true, Bool.not_eq_true', Bool.or_eq_true, isDue_iff]

end Schedule

/-- A commit adds one request. -/
theorem requests_commit (b : Broker) (mode : CommitMode) (offsets : Offsets) :
    (b.commit mode offsets).1.requests =
      .commit mode offsets (!b.commitOutage.fails) :: b.requests := by
  unfold Broker.commit
  cases b.commitOutage.fails <;> rfl

section Run

variable (s : Schedule) (now : Instant) (forced : Bool) (l : Ledger) (b : Broker)

/-- The call as it is kept. -/
def Trial.of : Trial :=
  ⟨s, now, forced, l, b, run s now forced l b⟩

/-- A call that is to try nothing. -/
theorem run_of_idle (h : s.attempts now forced l = false) :
    run s now forced l b = ⟨s, l, b, .skipped, []⟩ := by
  unfold run
  rw [h]
  rfl

/-- What comes of a call that is to try a commit. -/
theorem run_of_attempts (h : s.attempts now forced l = true) :
    (run s now forced l b).schedule = { s with lastAttempt := now } ∧
      (run s now forced l b).broker = (b.commit (s.modeOf forced) l.pending).1 ∧
      (b.commitOutage.fails = false → (run s now forced l b).outcome = .committed l.size ∧
        (run s now forced l b).ledger = l.drain) ∧
      (b.commitOutage.fails = true → (run s now forced l b).outcome = .failed ∧
        (run s now forced l b).ledger = l.drain.restore l.pending) := by
  unfold run Broker.commit
  rw [h]
  cases b.commitOutage.fails
  · exact ⟨rfl, rfl, fun _ => ⟨rfl, rfl⟩, nofun⟩
  · exact ⟨rfl, rfl, nofun, fun _ => ⟨rfl, rfl⟩⟩

/-- Whether a call tries a commit can be seen at the broker. -/
theorem requests_of : (Trial.of s now forced l b).requests =
    if s.attempts now forced l then
      [.commit (s.modeOf forced) l.pending (!b.commitOutage.fails)] else [] := by
  unfold Trial.requests Trial.of
  cases h : s.attempts now forced l with
  | false => simp [run_of_idle s now forced l b h]
  | true =>
    obtain ⟨-, hbroker, -⟩ := run_of_attempts s now forced l b h
    simp [hbroker, requests_commit]

theorem reached_of : (Trial.of s now forced l b).reached = s.attempts now forced l := by
  unfold Trial.reached
  rw [requests_of]
  cases s.attempts now forced l <;> rfl

/-- A call acts by the time that the schedule has noted. -/
theorem run_regular :
    (Trial.of s now forced l b).Regular s.interval s.mode s.lastAttempt where
  reached_iff := by
    rw [reached_of]
    exact Schedule.attempts_iff
  attempted h := by
    rw [reached_of] at h
    rw [requests_of, h]
    rfl
  accepted h hb := by
    rw [reached_of] at h
    obtain ⟨-, -, haccepted, -⟩ := run_of_attempts s now forced l b h
    obtain ⟨houtcome, hledger⟩ := haccepted hb
    exact ⟨houtcome, congrArg Ledger.isEmpty hledger⟩
  refused h hb := by
    rw [reached_of] at h
    obtain ⟨-, -, -, hrefused⟩ := run_of_attempts s now forced l b h
    obtain ⟨houtcome, hledger⟩ := hrefused hb
    refine ⟨houtcome, fun p => ?_⟩
    exact (congrArg (Ledger.get? · p) hledger).trans (l.get?_restore_drain p)
  skipped h := by
    rw [reached_of] at h
    exact run_of_idle s now forced l b h

/-- The schedule notes the time of a call that tries a commit. -/
theorem schedule_run : (run s now forced l b).schedule =
    { s with lastAttempt := if (Trial.of s now forced l b).reached then now
      else s.lastAttempt } := by
  rw [reached_of]
  cases h : s.attempts now forced l with
  | false => exact congrArg Step.schedule (run_of_idle s now forced l b h)
  | true => exact (run_of_attempts s now forced l b h).1

end Run

/-! ## All calls -/

namespace Course

variable (s : Schedule)

/-- Every call did what it should, and the schedule has noted the latest
attempt. -/
structure Regular (c : Course) : Prop where
  schedule : c.schedule = { s with lastAttempt := latestAttempt s.lastAttempt c.trials }
  trials : ∀ later t earlier, c.trials = later ++ t :: earlier →
    t.Regular s.interval s.mode (latestAttempt s.lastAttempt earlier)

variable {s}

theorem Regular.turn {c : Course} (h : c.Regular s) (t : Turn) : (c.turn t).Regular s := by
  obtain ⟨hschedule, htrials⟩ := h
  generalize hmeanwhile : t.meanwhile (c.ledger, c.broker) = changed
  obtain ⟨l, b⟩ := changed
  have hturn : (c.turn t).trials = .of c.schedule t.now t.forced l b :: c.trials := by
    simp only [Course.turn, hmeanwhile, Trial.of]
  have hnext : (c.turn t).schedule = (Commit.run c.schedule t.now t.forced l b).schedule := by
    simp only [Course.turn, hmeanwhile]
  refine ⟨?_, fun later u earlier heq => ?_⟩
  · rw [hnext, hturn, latestAttempt_cons, schedule_run, hschedule]
    rfl
  · -- the new call is the first of the list, so no other has one more before it
    rw [hturn] at heq
    rcases List.cons_eq_append_iff.mp heq with ⟨-, hcons⟩ | ⟨later', -, hrest⟩
    · obtain ⟨rfl, rfl⟩ := List.cons.inj hcons
      have hregular := run_regular c.schedule t.now t.forced l b
      rw [hschedule] at hregular ⊢
      exact hregular
    · exact htrials later' u earlier hrest

theorem Regular.run {c : Course} (h : c.Regular s) (turns : List Turn) :
    (c.run turns).Regular s := by
  induction turns generalizing c with
  | nil => exact h
  | cons t turns ih => exact ih (h.turn t)

theorem regular_initial (s : Schedule) (ledger : Ledger) (broker : Broker) :
    ({ schedule := s, ledger, broker } : Course).Regular s :=
  ⟨rfl, fun later t earlier heq => absurd heq (by simp)⟩

end Course

/-- Whatever happens between calls and whatever the broker answers, each call
tries a commit exactly if an offset is pending and it is forced or comes more
than the interval after the latest attempt, forced or not, accepted or not.  The
attempt is one request for all that is pending, in the mode of the schedule
unless it is forced.  So an attempt that is not forced comes more than one
interval after the one before it.  Nothing is asked of the order of the times. -/
theorem cadence (s : Schedule) (ledger : Ledger) (broker : Broker) (turns : List Turn) :
    let trials := (Course.run { schedule := s, ledger, broker } turns).trials
    (∀ later t earlier, trials = later ++ t :: earlier →
      t.Regular s.interval s.mode (latestAttempt s.lastAttempt earlier)) ∧
    ∀ later t between t' earlier, trials = later ++ t :: (between ++ t' :: earlier) →
      t.reached = true → t.forced = false → t'.reached = true →
      (∀ u ∈ between, u.reached = false) → (s.interval : Int) < t.now - t'.now := by
  intro trials
  have hregular := ((Course.regular_initial s ledger broker).run turns).trials
  refine ⟨hregular, fun later t between t' earlier heq ht hforced ht' hbetween => ?_⟩
  have hcall := ((hregular later t _ heq).reached_iff.mp ht).2
  rw [hforced, latestAttempt_append hbetween, latestAttempt_cons, ht'] at hcall
  exact hcall.resolve_left Bool.false_ne_true

/-- A call at the very end of the interval tries nothing.  The one after it does,
and counts although it is refused. -/
example :
    let p : Partition := ⟨"t", 0⟩
    let broker : Broker := { commitOutage := { next := [true] } }
    let turn (now : Instant) : Turn := ⟨fun (l, b) => (l.record p now, b), now, false⟩
    let c := Course.run { schedule := { interval := 10, mode := .async }, ledger := {}, broker }
      [turn 10, turn 11, turn 21, turn 22]
    c.trials.map (·.result.outcome) = [.committed 1, .skipped, .failed, .skipped] := by
  decide

end RecordDispatch.Commit
