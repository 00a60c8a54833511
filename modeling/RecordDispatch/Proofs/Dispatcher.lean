import RecordDispatch.Dispatch.Run
import RecordDispatch.Proofs.JournalInvariant

/-!
# What the calls of a dispatcher leave alone

Most of what a dispatcher does concerns neither the records in its care nor the
offsets that it commits: flow control, reports, the bookkeeping of the broker.
`Dispatcher.Quiet` says that a change is of this kind.  A statement about
records and offsets then needs three proofs only, which `Dispatcher.Kept`
collects: it is kept by quiet changes, by the steps of workers, and by
a revocation.

* `work_induction` goes from single steps of tasks to all that the workers do
  at one point.
* `commit_cases` says what a commit can come to.
* `Kept.poll`, `Kept.close` and `Kept.terminate` are about the calls that both
  ways of dispatching share, and `Kept.run` is about whole runs.
-/

namespace RecordDispatch

open Dispatch

/-! ## Requests that are not commits -/

namespace Broker

/-- The commits that the broker was asked for, newest first. -/
def commitRequests (b : Broker) : List Request :=
  b.requests.filter Request.isCommit

variable (b : Broker) (ps : List Partition)

@[simp] theorem commitRequests_pause : (b.pause ps).1.commitRequests = b.commitRequests := by
  unfold pause
  split <;> rfl

@[simp] theorem commitRequests_resume : (b.resume ps).1.commitRequests = b.commitRequests := by
  unfold resume
  split <;> rfl

@[simp] theorem commitRequests_assignment :
    b.assignment.1.commitRequests = b.commitRequests := by
  unfold assignment
  split <;> rfl

@[simp] theorem commitRequests_fetch : b.fetch.1.commitRequests = b.commitRequests := by
  simp only [fetch, read]
  repeat' split
  all_goals rfl

@[simp] theorem commitRequests_apply (c : Change) :
    (b.apply c).commitRequests = b.commitRequests := by
  simp [commitRequests]

/-- The accepted commits are among the commits that were asked for. -/
theorem commits_eq : b.commits = b.commitRequests.filterMap Request.committed? := by
  unfold commits commitRequests
  rw [List.filterMap_filter]
  refine congrArg (List.filterMap · b.requests) (funext fun r => ?_)
  cases r <;> rfl

/-- A commit is a request, whether it is accepted or not. -/
theorem commit_cases (mode : CommitMode) (offsets : Offsets) :
    (∃ b', b.commit mode offsets = (b', .ok ()) ∧
        b'.commitRequests = .commit mode offsets true :: b.commitRequests) ∨
      ∃ b' e, b.commit mode offsets = (b', .error e) ∧
        b'.commitRequests = .commit mode offsets false :: b.commitRequests := by
  unfold commit
  split
  · exact Or.inr ⟨_, _, rfl, rfl⟩
  · exact Or.inl ⟨_, rfl, rfl⟩

end Broker

namespace Gate

variable (g : Gate)

theorem commitRequests_pauseAll (now : Instant) :
    (g.pauseAll now).1.broker.commitRequests = g.broker.commitRequests := by
  have ha := g.broker.commitRequests_assignment
  unfold pauseAll
  split
  · next heq => rw [heq] at ha; exact ha
  · next b assigned heq =>
    rw [heq] at ha
    split
    · exact ha
    · next p ps _ =>
      have hp := b.commitRequests_pause (p :: ps)
      split <;> next heq => rw [heq] at hp; exact hp.trans ha

theorem commitRequests_resumeIdle (scope : String) :
    (g.resumeIdle scope).1.broker.commitRequests = g.broker.commitRequests := by
  unfold resumeIdle
  split
  · rfl
  · next p ps _ =>
    have hr := g.broker.commitRequests_resume (p :: ps)
    split <;> next heq => rw [heq] at hr; exact hr

theorem commitRequests_apply (now : Instant) :
    (g.apply now).1.broker.commitRequests = g.broker.commitRequests := by
  have hpause : (g.applyPause now).1.broker.commitRequests = g.broker.commitRequests := by
    unfold applyPause
    split
    · exact commitRequests_pauseAll _ now
    · rfl
  have hresume (g : Gate) : g.applyResume.1.broker.commitRequests = g.broker.commitRequests := by
    unfold applyResume
    split
    · exact commitRequests_resumeIdle _ "global"
    · split
      · rfl
      · exact commitRequests_resumeIdle g "retry"
  exact (hresume _).trans hpause

theorem commitRequests_pause (now : Instant) (p : Partition) (id : ProcessorId) :
    (g.pause now p id).1.broker.commitRequests = g.broker.commitRequests := by
  have hp := g.broker.commitRequests_pause [p]
  unfold pause
  split
  · rfl
  · split <;> next heq => rw [heq] at hp; exact hp

theorem commitRequests_resume (ps : List Partition) :
    (g.resume ps).1.broker.commitRequests = g.broker.commitRequests := by
  have hr := g.broker.commitRequests_resume (ps.filter g.monitor.contains)
  unfold resume
  split
  · rfl
  · split
    · rfl
    · dsimp only
      split
      · rfl
      · split <;> next heq => rw [heq] at hr; exact hr

end Gate

namespace Commit

/-- What an attempted commit comes to. -/
structure Attempted (s : Schedule) (forced : Bool) (l : Ledger) (b : Broker) (accepted : Bool)
    (e : Event) (r : Step) : Prop where
  request : (Dispatch.Event.commit e).request? =
    some (.commit (s.modeOf forced) l.pending accepted)
  events : r.events = [e]
  ledger : r.ledger = l.afterCommit accepted
  broker : r.broker.commitRequests =
    .commit (s.modeOf forced) l.pending accepted :: b.commitRequests

/-- A commit is skipped or attempted. -/
theorem run_cases (s : Schedule) (now : Instant) (forced : Bool) (l : Ledger) (b : Broker) :
    run s now forced l b =
        { schedule := s, ledger := l, broker := b, outcome := .skipped, events := [] } ∨
      ∃ accepted e, Attempted s forced l b accepted e (run s now forced l b) := by
  unfold run
  split
  · refine Or.inr ?_
    rcases b.commit_cases (s.modeOf forced) l.pending with ⟨b', hb, hreq⟩ | ⟨b', err, hb, hreq⟩
    · exact ⟨true, .committed l.pending (s.modeOf forced) forced, by
        simpa only [hb] using ⟨rfl, rfl, rfl, hreq⟩⟩
    · exact ⟨false, .failed l.pending (s.modeOf forced) forced err, by
        simpa only [hb] using ⟨rfl, rfl, rfl, hreq⟩⟩
  · exact Or.inl rfl

end Commit

/-! ## Quiet changes -/

namespace Dispatcher

variable {ω : Type}

/-- A change that leaves the work, the offsets and the requests to commit as
they are, and tells nothing about them. -/
structure Quiet (d d' : Dispatcher ω) : Prop where
  workers : d'.workers = d.workers
  held : d'.held = d.held
  ledger : d'.ledger = d.ledger
  commits : d'.broker.commitRequests = d.broker.commitRequests
  journal : ∃ es, d'.journal = es ++ d.journal ∧ ∀ e ∈ es, e.isQuiet = true

namespace Quiet

/-- A change that tells nothing. -/
theorem ofSilent {d d' : Dispatcher ω} (hw : d'.workers = d.workers) (hh : d'.held = d.held)
    (hl : d'.ledger = d.ledger) (hc : d'.broker.commitRequests = d.broker.commitRequests)
    (hj : d'.journal = d.journal) : Quiet d d' :=
  ⟨hw, hh, hl, hc, [], hj, by simp⟩

theorem refl (d : Dispatcher ω) : Quiet d d :=
  ofSilent rfl rfl rfl rfl rfl

theorem trans {d₁ d₂ d₃ : Dispatcher ω} (h₁ : Quiet d₁ d₂) (h₂ : Quiet d₂ d₃) : Quiet d₁ d₃ := by
  obtain ⟨es₁, hj₁, hq₁⟩ := h₁.journal
  obtain ⟨es₂, hj₂, hq₂⟩ := h₂.journal
  refine ⟨h₂.workers.trans h₁.workers, h₂.held.trans h₁.held, h₂.ledger.trans h₁.ledger,
    h₂.commits.trans h₁.commits, es₂ ++ es₁, by rw [hj₂, hj₁, List.append_assoc], ?_⟩
  intro e he
  rcases List.mem_append.mp he with he | he
  · exact hq₂ e he
  · exact hq₁ e he

variable (d : Dispatcher ω)

theorem elapse (t : Duration) : Quiet d (d.elapse t) :=
  ofSilent rfl rfl rfl rfl rfl

theorem setMonitor (m : Monitor) : Quiet d (d.setMonitor m) :=
  ofSilent rfl rfl rfl rfl rfl

theorem setBroker {b : Broker} (h : b.commitRequests = d.broker.commitRequests) :
    Quiet d (d.setBroker b) :=
  ofSilent rfl rfl rfl h rfl

theorem tell {es : List Dispatch.Event} (h : ∀ e ∈ es, e.isQuiet = true) : Quiet d (d.tell es) :=
  ⟨rfl, rfl, rfl, rfl, es.reverse, rfl, fun e he => h e (List.mem_reverse.mp he)⟩

theorem tellOne {e : Dispatch.Event} (h : e.isQuiet = true) : Quiet d (d.tell [e]) :=
  tell d fun e' he' => by rw [List.mem_singleton.mp he', h]

theorem withGate {r : Gate × List Gate.Event}
    (h : r.1.broker.commitRequests = d.broker.commitRequests) : Quiet d (d.withGate r) := by
  refine ⟨rfl, rfl, rfl, h, (r.2.map .gate).reverse, rfl, fun e he => ?_⟩
  obtain ⟨e, -, rfl⟩ := List.mem_map.mp (List.mem_reverse.mp he)
  rfl

theorem noteTopic (batch : Batch) : Quiet d (d.noteTopic batch) :=
  ofSilent rfl rfl rfl rfl rfl

theorem applyRequests : Quiet d d.applyRequests :=
  withGate d (d.gate.commitRequests_apply d.now)

theorem report {shown : Dispatch.Event} (h : shown.isQuiet = true) : Quiet d (d.report shown) := by
  unfold Dispatcher.report
  split
  · refine ⟨rfl, rfl, rfl, rfl, _, rfl, fun e he => ?_⟩
    have he := List.mem_reverse.mp he
    rcases List.mem_cons.mp he with rfl | he
    · exact h
    · rw [List.mem_singleton.mp he]
      rfl
  · exact refl d

end Quiet

/-! ## Workers -/

section Work

variable (d : Dispatcher ω) (steps : List Nat)

@[simp] theorem held_work : (d.work steps).held = d.held := rfl

theorem work_later : d.workers.Later (d.work steps).workers :=
  d.workers.run_later steps

theorem work_cons (i : Nat) :
    d.work (i :: steps) = (d.withWorkers (d.workers.step i)).work steps := by
  simp [work, withWorkers, tell, Workers.run]

/-- What a step of a task keeps of workers and journal is kept by all that the
workers do at a point. -/
theorem work_induction {P : Workers → List Dispatch.Event → Prop}
    (step : ∀ w journal i, P w journal →
      P (w.step i).1 (((w.step i).2.map Event.workers).reverse ++ journal))
    (h : P d.workers d.journal) : P (d.work steps).workers (d.work steps).journal := by
  induction steps generalizing d with
  | nil => exact h
  | cons i steps ih =>
    rw [work_cons]
    exact ih _ (step d.workers d.journal i h)

end Work

/-- What waiting leaves as it is, and what may happen meanwhile. -/
structure Worked (d d' : Dispatcher ω) : Prop where
  held : d'.held = d.held
  ledger : d'.ledger = d.ledger
  later : d.workers.Later d'.workers
  journal : ∃ es : List Workers.Event,
    d'.journal = (es.map Dispatch.Event.workers).reverse ++ d.journal

namespace Worked

theorem refl (d : Dispatcher ω) : Worked d d :=
  ⟨rfl, rfl, .refl _, [], rfl⟩

theorem trans {d₁ d₂ d₃ : Dispatcher ω} (h₁ : Worked d₁ d₂) (h₂ : Worked d₂ d₃) :
    Worked d₁ d₃ := by
  obtain ⟨es₁, hj₁⟩ := h₁.journal
  obtain ⟨es₂, hj₂⟩ := h₂.journal
  refine ⟨h₂.held.trans h₁.held, h₂.ledger.trans h₁.ledger, h₁.later.trans h₂.later,
    es₁ ++ es₂, ?_⟩
  rw [hj₂, hj₁, List.map_append, List.reverse_append, List.append_assoc]

/-- Nothing is lost of a period. -/
theorem period_le {d d' : Dispatcher ω} (h : Worked d d') (p : Partition) :
    (period p d.journal).Le (period p d'.journal) := by
  obtain ⟨es, hj⟩ := h.journal
  rw [hj]
  exact period_le_append (fun e he => (Event.isPlain_workers he).2) p d.journal

theorem work (d : Dispatcher ω) (steps : List Nat) : Worked d (d.work steps) :=
  ⟨rfl, rfl, d.work_later steps, (d.workers.run steps).2, rfl⟩

end Worked

/-- Waiting is work and time that passes. -/
theorem await_cases (d : Dispatcher ω) (m : Meanwhile) (point : Point) (timeout : Duration)
    (isOver : Workers → Bool) :
    ∃ steps t, d.await m point timeout isOver = (d.work steps).elapse t := by
  unfold await
  split
  · exact ⟨[], 0, by simp [work, withWorkers, Workers.run, tell, elapse]⟩
  · exact ⟨_, _, rfl⟩

/-- What work and quiet changes keep is kept by waiting. -/
theorem await_keeps {P : Dispatcher ω → Prop} {d : Dispatcher ω}
    (quiet : ∀ {d d' : Dispatcher ω}, P d → Quiet d d' → P d')
    (work : ∀ {d : Dispatcher ω} (steps : List Nat), P d → P (d.work steps)) (h : P d)
    (m : Meanwhile) (point : Point) (timeout : Duration) (isOver : Workers → Bool) :
    P (d.await m point timeout isOver) := by
  obtain ⟨steps, t, heq⟩ := d.await_cases m point timeout isOver
  rw [heq]
  exact quiet (work steps h) (.elapse _ t)

theorem worked_await (d : Dispatcher ω) (m : Meanwhile) (point : Point) (timeout : Duration)
    (isOver : Workers → Bool) : Worked d (d.await m point timeout isOver) := by
  obtain ⟨steps, t, heq⟩ := d.await_cases m point timeout isOver
  rw [heq]
  exact ⟨rfl, rfl, d.work_later steps, (d.workers.run steps).2, rfl⟩

/-- What holds between the states of a fold from each to the next holds from the
first to the last. -/
theorem foldl_rel {σ α : Type} {R : Dispatcher ω → Dispatcher ω → Prop} (refl : ∀ d, R d d)
    (trans : ∀ {d₁ d₂ d₃}, R d₁ d₂ → R d₂ d₃ → R d₁ d₃) (dispatcher : σ → Dispatcher ω)
    {f : σ → α → σ} (step : ∀ s a, R (dispatcher s) (dispatcher (f s a))) (l : List α) (s : σ) :
    R (dispatcher s) (dispatcher (l.foldl f s)) := by
  induction l generalizing s with
  | nil => exact refl _
  | cons a l ih => exact trans (step s a) (ih (f s a))

/-- What every step of a fold keeps is kept by the fold. -/
theorem foldl_keeps {σ α : Type} {P : Dispatcher ω → Prop} (dispatcher : σ → Dispatcher ω)
    {f : σ → α → σ} (step : ∀ s a, P (dispatcher s) → P (dispatcher (f s a))) (l : List α) (s : σ)
    (h : P (dispatcher s)) : P (dispatcher (l.foldl f s)) :=
  foldl_rel (R := fun d d' => P d → P d') (fun _ h => h) (fun h₁ h₂ h => h₂ (h₁ h)) dispatcher
    step l s h

/-- A fold whose steps change neither the work that is held nor the ledger does
not either. -/
theorem frame_foldl {σ α : Type} (dispatcher : σ → Dispatcher ω) {f : σ → α → σ}
    (step : ∀ s a, (dispatcher (f s a)).held = (dispatcher s).held ∧
      (dispatcher (f s a)).ledger = (dispatcher s).ledger) (l : List α) (s : σ) :
    (dispatcher (l.foldl f s)).held = (dispatcher s).held ∧
      (dispatcher (l.foldl f s)).ledger = (dispatcher s).ledger :=
  foldl_rel (R := fun d d' => d'.held = d.held ∧ d'.ledger = d.ledger)
    (fun _ => ⟨rfl, rfl⟩) (fun h₁ h₂ => ⟨h₂.1.trans h₁.1, h₂.2.trans h₁.2⟩) dispatcher step l s

/-! ## Commits -/

/-- A commit is not attempted, or it hands the pending offsets to the broker,
and the ledger is the one after this. -/
theorem commit_cases (d : Dispatcher ω) (forced : Bool) :
    d.commit forced = d ∨
      ∃ accepted e,
        e.request? = some (.commit (d.schedule.modeOf forced) d.ledger.pending accepted) ∧
        (d.commit forced).workers = d.workers ∧
        (d.commit forced).held = d.held ∧
        (d.commit forced).ledger = d.ledger.afterCommit accepted ∧
        (d.commit forced).journal = e :: d.journal ∧
        (d.commit forced).broker.commitRequests =
          .commit (d.schedule.modeOf forced) d.ledger.pending accepted ::
            d.broker.commitRequests := by
  unfold commit
  rcases Commit.run_cases d.schedule d.now forced d.ledger d.broker with hr | ⟨a, e, hr⟩
  · rw [hr]
    exact Or.inl rfl
  · exact Or.inr ⟨a, .commit e, hr.request, rfl, rfl, hr.ledger, by simp [tell, hr.events,
      setBroker], hr.broker⟩

/-- The offsets of revoked partitions are committed if there are any. -/
theorem commitRevoked_cases (d : Dispatcher ω) (offsets : Offsets) :
    offsets.isEmpty = true ∧ d.commitRevoked offsets = d ∨
      ∃ accepted e,
        e.request? = some (.commit .sync offsets accepted) ∧
        (accepted = true ∨ ∃ error, e = .revokeCommitFailed offsets error) ∧
        (d.commitRevoked offsets).workers = d.workers ∧
        (d.commitRevoked offsets).held = d.held ∧
        (d.commitRevoked offsets).ledger = d.ledger ∧
        (d.commitRevoked offsets).journal = e :: d.journal ∧
        (d.commitRevoked offsets).broker.commitRequests =
          .commit .sync offsets accepted :: d.broker.commitRequests := by
  unfold commitRevoked
  split
  · next hempty => exact Or.inl ⟨hempty, rfl⟩
  · refine Or.inr ?_
    rcases d.broker.commit_cases .sync offsets with ⟨b, hb, hreq⟩ | ⟨b, err, hb, hreq⟩
    · rw [hb]
      exact ⟨true, .revokeCommitted offsets, rfl, Or.inl rfl, rfl, rfl, rfl, rfl, hreq⟩
    · rw [hb]
      exact ⟨false, .revokeCommitFailed offsets err, rfl, Or.inr ⟨err, rfl⟩, rfl, rfl, rfl, rfl,
        hreq⟩

/-- The commit of a revocation changes neither work nor ledger, and no
period. -/
theorem commitRevoked_frame (d : Dispatcher ω) (offsets : Offsets) :
    (d.commitRevoked offsets).held = d.held ∧ (d.commitRevoked offsets).ledger = d.ledger ∧
      ∀ p, period p (d.commitRevoked offsets).journal = period p d.journal := by
  rcases d.commitRevoked_cases offsets with ⟨-, heq⟩ | ⟨accepted, e, he, -, -, hh, hl, hj, -⟩
  · rw [heq]
    exact ⟨rfl, rfl, fun _ => rfl⟩
  · refine ⟨hh, hl, fun p => ?_⟩
    rw [hj, period_cons, Period.next_of_request? he]

/-! ## What the broker was asked for -/

/-- The broker was asked to commit what the journal says, and before that for
the commits in `base`. -/
def Linked (base : List Broker.Request) (d : Dispatcher ω) : Prop :=
  d.broker.commitRequests = requests d.journal ++ base

namespace Linked

variable {base : List Broker.Request} {d d' : Dispatcher ω}

theorem append (h : Linked base d) {es : List Dispatch.Event}
    (hb : d'.broker.commitRequests = d.broker.commitRequests)
    (hj : d'.journal = es ++ d.journal) (hes : ∀ e ∈ es, e.request? = none) :
    Linked base d' := by
  rw [Linked, hb, hj, requests_append_of_none hes]
  exact h

theorem quiet (h : Linked base d) (hq : Quiet d d') : Linked base d' := by
  obtain ⟨es, hj, hes⟩ := hq.journal
  exact h.append hq.commits hj fun e he => Event.request?_of_isQuiet (hes e he)

theorem work (h : Linked base d) (steps : List Nat) : Linked base (d.work steps) :=
  h.append rfl rfl fun _ he => (Event.isPlain_workers he).1

theorem request (h : Linked base d) {e : Dispatch.Event} {r : Broker.Request}
    (he : e.request? = some r) (hb : d'.broker.commitRequests = r :: d.broker.commitRequests)
    (hj : d'.journal = e :: d.journal) : Linked base d' := by
  rw [Linked, hb, hj, requests_cons, he, h]
  rfl

end Linked

/-! ## The calls that every dispatcher has -/

/-- A statement that is kept by quiet changes, by the steps of workers, and by
a revocation. -/
structure Kept [Held ω] (P : Dispatcher ω → Prop) : Prop where
  quiet : ∀ {d d' : Dispatcher ω}, P d → Quiet d d' → P d'
  work : ∀ {d : Dispatcher ω} (steps : List Nat), P d → P (d.work steps)
  revoke : ∀ {d : Dispatcher ω} (m : Meanwhile) (ps : List Partition), P d → P (d.revoke m ps)

namespace Kept

variable [Held ω] {P : Dispatcher ω → Prop} {d : Dispatcher ω}

theorem deliver (hk : Kept P) (h : P d) (m : Meanwhile) (r : Broker.Rebalance) :
    P (Dispatcher.deliver m d r) := by
  cases r with
  | revoke ps => exact hk.quiet (hk.revoke m ps h) (.setBroker _ rfl)
  | assign ps =>
    have hbroker : Quiet d (d.setBroker (d.broker.assign ps)) := .setBroker d rfl
    exact hk.quiet h (hbroker.trans (.tellOne _ rfl))

theorem deliverAll (hk : Kept P) (h : P d) (m : Meanwhile) : P (d.deliverAll m) := by
  unfold Dispatcher.deliverAll
  have hstart : P (d.setBroker { d.broker with rebalances := [] }) :=
    hk.quiet h (.setBroker d rfl)
  generalize d.setBroker { d.broker with rebalances := [] } = d' at hstart
  induction d.broker.rebalances generalizing d' with
  | nil => exact hstart
  | cons r rs ih => exact ih _ (hk.deliver hstart m r)

theorem poll (hk : Kept P) (h : P d) (m : Meanwhile) : P (d.poll m).1 := by
  unfold Dispatcher.poll
  split
  · exact hk.quiet h (.setBroker d rfl)
  · exact hk.quiet (hk.deliverAll h m) (.setBroker _ (Broker.commitRequests_fetch _))

theorem close (hk : Kept P) (h : P d) (m : Meanwhile) : P (d.close m) := by
  unfold Dispatcher.close
  split
  · exact h
  · exact hk.quiet (hk.revoke m _ h) (.setBroker _ rfl)

theorem terminate (hk : Kept P) (h : P d) (m : Meanwhile) : P (d.terminate m) := by
  have hwait : P (d.awaitWorkers m d.settings.shutdownTimeout) :=
    await_keeps hk.quiet hk.work h m _ _ _
  unfold Dispatcher.terminate
  dsimp only
  split <;> exact hk.quiet hwait (.tellOne _ rfl)

end Kept

/-- What every move keeps holds after every run. -/
theorem Kept.run [Cycled ω] {P : Dispatcher ω → Prop} {d : Dispatcher ω} (hk : Kept P)
    (cycle : ∀ {d} m t, P d → P (Cycled.cycle d m t).1)
    (shutdown : ∀ {d} m t, P d → P (Cycled.shutdown d m t)) (h : P d) (moves : List Move) :
    P (d.run moves) := by
  refine run_induction h fun d move _ hd => ?_
  cases move with
  | cycle m t => exact cycle m t hd
  | revoke m t ps => exact hk.revoke m ps (hk.quiet hd (.elapse d t))
  | shutdown m t => exact shutdown m t hd
  | work task => exact hk.work [task] hd
  | pauseAll => exact hk.quiet hd (.ofSilent rfl rfl rfl rfl rfl)
  | resumeAll => exact hk.quiet hd (.ofSilent rfl rfl rfl rfl rfl)
  | broker change => exact hk.quiet hd (.setBroker d (Broker.commitRequests_apply _ change))

end Dispatcher
end RecordDispatch
