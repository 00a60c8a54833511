import RecordDispatch.Proofs.Operator
import RecordDispatch.Proofs.Override

/-!
# The operator's requests and calls that fail

A request of the operator is taken up once, at the beginning of the next cycle.
If the broker fails then, the two requests fare differently.  To lift the
override needs no answer of the broker, and partitions that it does not resume
are resumed by a later cycle.  A pause takes effect only if the broker grants
it, and nothing remembers one that it refuses (`pause_lost_to_refusal`).

So if requests do not meet in one cycle, the last one decides, however often
calls have failed by then: a resumption counts, and a pause does if it was
granted or the override was in effect already (`last_request_decides`).
-/

namespace RecordDispatch

open Dispatch

/-! ## Moves that ask and moves that take up -/

namespace Dispatch

/-- The move by which the operator issues a trigger. -/
def Move.issue : Gate.Trigger → Move
  | .pause => .pauseAll
  | .resume => .resumeAll

/-- What a move asks for. -/
def Move.trigger? : Move → Option Gate.Trigger
  | .pauseAll => some .pause
  | .resumeAll => some .resume
  | _ => none

/-- Whether a move takes up what was asked for. -/
def Move.isCycle : Move → Bool
  | .cycle _ _ => true
  | _ => false

/-- Whether each cycle takes up at most one trigger, and none is left in the end.
One may be waiting at the beginning. -/
def requestsApart (waiting : Bool) : List Move → Bool
  | [] => !waiting
  | move :: moves =>
    match move.trigger? with
    | some _ => !waiting && requestsApart true moves
    | none => requestsApart (waiting && !move.isCycle) moves

end Dispatch

/-- Whether a request of the operator waits. -/
def Gate.isAsked (g : Gate) : Bool :=
  g.control.pauseRequested || g.control.resumeRequested

/-- Without a request, taking up the requests leaves the override as it is. -/
theorem Gate.control_apply_of_not_asked {g : Gate} (h : g.isAsked = false) (now : Instant) :
    (g.apply now).1.control = g.control := by
  obtain ⟨hpause, hresume⟩ := Bool.or_eq_false_iff.mp h
  have hpause' : g.pauseRequested = false := hpause
  have hresume' : g.resumeRequested = false := hresume
  rw [g.control_apply now, control, hpause', hresume']
  simp

/-- Without a request, partitions that no processor works on are resumed outside
the override, if the broker resumes. -/
theorem Gate.idle_apply_of_not_asked {g : Gate} (h : g.isAsked = false) (now : Instant)
    (hb : g.broker.resumeOutage.fails = false)
    (hoff : (g.apply now).1.globallyPaused = false) : (g.apply now).1.monitor.idle = [] := by
  have hpause : g.pauseRequested = false := (Bool.or_eq_false_iff.mp h).1
  have hfirst : g.applyPause now = (g, []) := by
    rw [applyPause, hpause]
    rfl
  have happly : (g.apply now).1 = g.applyResume.1 := by
    rw [apply, hfirst]
  rw [happly] at hoff ⊢
  exact g.idle_applyResume hb hoff

namespace Dispatcher

variable {ω : Type}

/-! ## What the operator has set -/

section Control

variable [Held ω] [Held.LeavesFlow ω]

/-- Only taking up requests changes what the operator has set. -/
theorem flowKept_control (c : Gate.Control) :
    FlowKept fun d : Dispatcher ω => d.gate.control = c where
  steady h hs := hs.control.trans h
  adjust h hr := hr.control.trans h
  deliver {d} m r h := by
    cases r with
    | revoke ps => exact (d.control_revoke m ps).trans h
    | assign ps => exact h
  close {d} m h := by
    unfold close
    split
    · exact h
    · exact (d.control_revoke m _).trans h

end Control

theorem control_issue [Cycled ω] (d : Dispatcher ω) (trigger : Gate.Trigger) :
    (d.move (.issue trigger)).gate.control = (d.gate.issue trigger).control := by
  cases trigger <;> rfl

variable [Cycled ω] [Held.LeavesFlow ω] [Cycled.KeepsFlow ω] {d : Dispatcher ω}

theorem control_cycle (d : Dispatcher ω) (m : Meanwhile) (t : Duration) :
    (d.move (.cycle m t)).gate.control = (d.elapse t).applyRequests.gate.control :=
  Cycled.KeepsFlow.cycle (flowKept_control _) m t rfl

/-- A move that neither asks nor takes up. -/
theorem control_move {move : Move} (ht : move.trigger? = none) (hc : move.isCycle = false) :
    (d.move move).gate.control = d.gate.control := by
  cases move with
  | cycle => cases hc
  | pauseAll | resumeAll => cases ht
  | revoke m t ps => exact (d.elapse t).control_revoke m ps
  | shutdown m t => exact Cycled.KeepsFlow.shutdown (flowKept_control _) m t rfl
  | work | broker => rfl

theorem isAsked_cycle (d : Dispatcher ω) (m : Meanwhile) (t : Duration) :
    (d.move (.cycle m t)).gate.isAsked = false := by
  have hcontrol : (d.move (.cycle m t)).gate.control = (d.gate.apply (d.elapse t).now).1.control :=
    d.control_cycle m t
  rw [Gate.isAsked, hcontrol, Gate.control_apply]
  rfl

/-- After moves in which no two requests meet in a cycle none is waiting. -/
theorem isAsked_run {waiting : Bool} {moves : List Move} (h : requestsApart waiting moves = true)
    (hd : waiting = false → d.gate.isAsked = false) : (d.run moves).gate.isAsked = false := by
  induction moves generalizing d waiting with
  | nil => exact hd (by simpa [requestsApart] using h)
  | cons move moves ih =>
    unfold requestsApart at h
    cases ht : move.trigger? with
    | some trigger =>
      simp only [ht, Bool.and_eq_true] at h
      exact ih h.2 nofun
    | none =>
      simp only [ht] at h
      refine ih h ?_
      intro hwaiting
      cases hc : move.isCycle with
      | true =>
        cases move with
        | cycle m t => exact d.isAsked_cycle m t
        | _ => cases hc
      | false =>
        rw [hc, Bool.not_false, Bool.and_true] at hwaiting
        rw [Gate.isAsked, control_move ht hc]
        exact hd hwaiting

/-- Moves without requests, while none waits. -/
theorem control_run {moves : List Move} (h : ∀ move ∈ moves, move.trigger? = none)
    (hd : d.gate.isAsked = false) : (d.run moves).gate.control = d.gate.control := by
  induction moves generalizing d with
  | nil => rfl
  | cons move moves ih =>
    have hmove : (d.move move).gate.control = d.gate.control := by
      cases hc : move.isCycle with
      | true =>
        cases move with
        | cycle m t => exact (d.control_cycle m t).trans (Gate.control_apply_of_not_asked hd _)
        | _ => cases hc
      | false => exact control_move (h move List.mem_cons_self) hc
    have hasked : (d.move move).gate.isAsked = false := by
      rw [Gate.isAsked, hmove]
      exact hd
    exact (ih (fun m hm => h m (List.mem_cons_of_mem move hm)) hasked).trans hmove

/-- Moves that neither ask nor take up, while a request may wait. -/
theorem control_between {moves : List Move}
    (h : ∀ move ∈ moves, move.trigger? = none ∧ move.isCycle = false) :
    (d.run moves).gate.control = d.gate.control := by
  induction moves generalizing d with
  | nil => rfl
  | cons move moves ih =>
    obtain ⟨ht, hc⟩ := h move List.mem_cons_self
    exact (ih fun m hm => h m (List.mem_cons_of_mem move hm)).trans (control_move ht hc)

/-! ## The last request -/

/-- What becomes of a trigger after which no other one is issued: from the
dispatcher that is about to take it up, and one that is about to take up nothing
at some later time. -/
structure TriggerOutcome (trigger : Gate.Trigger) (asked last : Dispatcher ω) : Prop where
  /-- The override is lifted.  When the broker resumes partitions again, none
  stays paused without a processor. -/
  resumed : trigger = .resume → last.applyRequests.gate.globallyPaused = false ∧
    (last.broker.resumeOutage.fails = false → last.applyRequests.monitor.idle = [])
  /-- The override is in effect if it was before or the broker granted it. -/
  paused : trigger = .pause → (last.applyRequests.gate.globallyPaused = true ↔
    asked.gate.globallyPaused = true ∨ asked.gate.refusesPause = false)
  /-- In a group, the override holds every assigned partition that is not late. -/
  held : last.applyRequests.gate.globallyPaused = true → last.broker.closed = false →
    ∀ p ∈ last.broker.assigned, p ∉ late last.applyRequests.journal →
      p ∈ last.applyRequests.broker.paused

section TriggerOutcome

variable {trigger : Gate.Trigger} {between rest : List Move}

/-- What is set once a trigger is taken up and no other one was issued. -/
theorem control_of_last (hd : d.gate.isAsked = false)
    (hbetween : ∀ move ∈ between, move.trigger? = none ∧ move.isCycle = false)
    (hrest : ∀ move ∈ rest, move.trigger? = none) (m : Meanwhile) (t : Duration) :
    let asked := d.run (.issue trigger :: between)
    (asked.run (.cycle m t :: rest)).gate.control =
      ⟨false, false, decide (trigger = .pause) &&
        (!asked.gate.refusesPause || asked.gate.globallyPaused)⟩ := by
  intro asked
  have hasked : asked.gate.control = (d.gate.issue trigger).control :=
    (control_between hbetween).trans (d.control_issue trigger)
  have hcycle : (asked.move (.cycle m t)).gate.control =
      (asked.gate.apply (asked.elapse t).now).1.control := asked.control_cycle m t
  obtain ⟨hpause, hresume⟩ := Bool.or_eq_false_iff.mp hd
  have hpause' : d.gate.pauseRequested = false := hpause
  have hresume' : d.gate.resumeRequested = false := hresume
  rw [run_cons, control_run hrest (asked.isAsked_cycle m t), hcycle, Gate.control_apply]
  cases trigger with
  | pause =>
    have hwaiting : asked.gate.pauseRequested = true ∧ asked.gate.resumeRequested = false := by
      simpa [Gate.control, Gate.issue, Gate.requestPause, hresume'] using
        And.intro (congrArg Gate.Control.pauseRequested hasked)
          (congrArg Gate.Control.resumeRequested hasked)
    simp [hwaiting.1, hwaiting.2]
  | resume =>
    have hwaiting : asked.gate.resumeRequested = true :=
      congrArg Gate.Control.resumeRequested hasked
    simp [hwaiting]

theorem triggerOutcome (h : OverrideInv d) (hd : d.gate.isAsked = false)
    (hbetween : ∀ move ∈ between, move.trigger? = none ∧ move.isCycle = false)
    (hrest : ∀ move ∈ rest, move.trigger? = none) (m : Meanwhile) (t t' : Duration) :
    let asked := d.run (.issue trigger :: between)
    TriggerOutcome trigger asked ((asked.run (.cycle m t :: rest)).elapse t') := by
  intro asked
  have hset : ((asked.run (.cycle m t :: rest)).elapse t').gate.control =
      ⟨false, false, decide (trigger = .pause) &&
        (!asked.gate.refusesPause || asked.gate.globallyPaused)⟩ :=
    control_of_last hd hbetween hrest m t
  have hlast : OverrideInv ((asked.run (.cycle m t :: rest)).elapse t') :=
    ((h.run _).run _).still (.elapse _ t')
  generalize (asked.run (.cycle m t :: rest)).elapse t' = last at hset hlast ⊢
  have hidle : last.gate.isAsked = false := by
    rw [Gate.isAsked, hset]
    rfl
  have hkept : last.applyRequests.gate.control = last.gate.control :=
    Gate.control_apply_of_not_asked hidle last.now
  have hoverride : last.applyRequests.gate.globallyPaused = (decide (trigger = .pause) &&
      (!asked.gate.refusesPause || asked.gate.globallyPaused)) :=
    congrArg Gate.Control.globallyPaused (hkept.trans hset)
  refine ⟨?_, ?_, ?_⟩
  · rintro rfl
    exact ⟨hoverride, fun hb => Gate.idle_apply_of_not_asked hidle last.now hb hoverride⟩
  · rintro rfl
    rw [hoverride]
    simp [or_comm]
  · intro hpaused hopen p hassigned hearly
    have hserved := (last.gate.applied_apply last.now).inStep.served
    have hready := hlast.applyRequests (hserved.closed.trans hopen)
    exact hready.held hpaused p (hserved.assigned.symm ▸ hassigned) hearly

end TriggerOutcome

/-- In a run in which no two requests meet in a cycle, and whatever calls have
failed, the last request decides once it is taken up and nothing is left to be
taken up. -/
theorem last_request_decides (settings : Settings) (size : Nat) (handler : Handler)
    (broker : Broker) (before between rest : List Move) (trigger : Gate.Trigger)
    (hbefore : requestsApart false before = true)
    (hbetween : ∀ move ∈ between, move.trigger? = none ∧ move.isCycle = false)
    (hrest : ∀ move ∈ rest, move.trigger? = none) (m : Meanwhile) (t t' : Duration) :
    let ordered : OrderedDispatcher :=
      (initial settings (Workers.ofSize size handler) broker).run
        (before ++ .issue trigger :: between)
    let unordered : UnorderedDispatcher :=
      (initial settings (Workers.ofSize size handler) broker).run
        (before ++ .issue trigger :: between)
    TriggerOutcome trigger ordered ((ordered.run (.cycle m t :: rest)).elapse t') ∧
      TriggerOutcome trigger unordered ((unordered.run (.cycle m t :: rest)).elapse t') := by
  intro ordered unordered
  have hordered : ordered = ((initial settings (Workers.ofSize size handler) broker).run before).run
      (.issue trigger :: between) := run_append _ _ _
  have hunordered : unordered =
      ((initial settings (Workers.ofSize size handler) broker).run before).run
        (.issue trigger :: between) := run_append _ _ _
  rw [hordered, hunordered]
  exact ⟨triggerOutcome (overrideInv_run _ _ _ before) (isAsked_run hbefore fun _ => rfl)
      hbetween hrest m t t',
    triggerOutcome (overrideInv_run _ _ _ before) (isAsked_run hbefore fun _ => rfl)
      hbetween hrest m t t'⟩

namespace Sample

/-- The broker does not resume a partition when a global pause is lifted. -/
def unresumed : List Move :=
  [.broker (.resumeOutage ⟨[true], false⟩), .pauseAll, .cycle .nothing 0]

/-- An ordered dispatcher with one partition, after moves. -/
def after (moves : List Move) : OrderedDispatcher :=
  (initial {} (Workers.ofSize 1 { execute := fun _ => .done }) { assigned := [⟨"t", 0⟩] }).run moves

end Sample

/-- In the first sample the resumption is refused and tried again.  In the second
one the pause is granted, and later calls fail. -/
theorem last_request_decides_sample :
    (((Sample.after (Sample.unresumed ++ [.resumeAll])).run
        [.cycle .nothing 0]).elapse 0).applyRequests.monitor.idle = [] ∧
      (((Sample.after [.pauseAll]).run [.cycle .nothing 0, .broker (.pauseOutage ⟨[], true⟩),
        .cycle .nothing 0]).elapse 0).applyRequests.gate.globallyPaused = true := by
  have hresumed := (last_request_decides {} 1 { execute := fun _ => .done }
    { assigned := [⟨"t", 0⟩] } Sample.unresumed [] [] .resume (by decide) (List.forall_mem_nil _)
    (List.forall_mem_nil _) .nothing 0 0).1.resumed rfl
  have hpaused := (last_request_decides {} 1 { execute := fun _ => .done }
    { assigned := [⟨"t", 0⟩] } [] [] [.broker (.pauseOutage ⟨[], true⟩), .cycle .nothing 0] .pause
    (by decide) (List.forall_mem_nil _) (by simp [Move.trigger?]) .nothing 0 0).1.paused rfl
  exact ⟨hresumed.2 (by decide +kernel), hpaused.mpr (Or.inr (by decide +kernel))⟩

/-- The broker refuses a pause once.  Later every call would succeed, but nothing
is paused. -/
theorem pause_lost_to_refusal :
    let moves := [.broker (.pauseOutage ⟨[true], false⟩), .pauseAll, .cycle .nothing 0]
    let d := Sample.after moves
    requestsApart false moves = true ∧ d.broker.pauseOutage.fails = false ∧
      d.broker.resumeOutage.fails = false ∧ d.broker.assignmentOutage.fails = false ∧
      d.broker.assigned = [⟨"t", 0⟩] ∧ d.applyRequests.gate.globallyPaused = false ∧
      d.applyRequests.broker.paused = [] := by
  decide +kernel

end Dispatcher
end RecordDispatch
