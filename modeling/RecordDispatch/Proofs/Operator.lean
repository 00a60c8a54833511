import RecordDispatch.Proofs.Gate
import RecordDispatch.Server.Routes

/-!
# What the operator's commands come to

The operator asks for a global pause or for its end, by a call or over HTTP, and
the gate takes these requests up from time to time.  A history lists what
happens to a gate, newest first: requests and applications in any order, with
any other use of broker and monitor in between.

Two requests of different kinds that wait at the same time are not told apart by
their order: the resumption counts.  So the last trigger decides whether the
override is in effect after an application, except that a request to pause is
lost if a resumption was issued before it and is not taken up yet
(`globallyPaused_of_last_trigger`).
-/

namespace RecordDispatch

namespace Gate

/-- What an operator may ask for. -/
inductive Trigger
  | pause
  | resume
deriving DecidableEq

/-- The gate after the operator has asked for something. -/
def issue (g : Gate) : Trigger → Gate
  | .pause => g.requestPause
  | .resume => g.requestResume

end Gate

/-! ## Requests over HTTP -/

namespace Server

/-- What a request to the server asks of the gate. -/
def asked? (method target : String) : Option Gate.Trigger :=
  if method = "POST" then
    if pathOf target = "/_pause" then some .pause
    else if pathOf target = "/_resume" then some .resume
    else none
  else none

/-- What a route asks of the gate. -/
def Route.trigger? : Route → Option Gate.Trigger
  | .pause => some .pause
  | .resume => some .resume
  | _ => none

theorem Route.effect_gate (r : Route) (g : Gate) :
    (r.effect g).1 = (r.trigger?.map g.issue).getD g := by
  cases r <;> rfl

/-- Only a `POST` has an effect on the gate. -/
theorem Route.respond_gate (r : Route) (metrics method : String) (g : Gate) :
    (r.respond metrics method g).1 = if method = "POST" then (r.effect g).1 else g := by
  unfold respond
  cases hpost : r.isPost with
  | true =>
    by_cases hmethod : method = "POST"
    · simp [hmethod]
    · simp [hmethod]
  | false =>
    have hnone : (r.effect g).1 = g := by
      cases r with
      | pause | resume => exact absurd hpost nofun
      | _ => rfl
    by_cases hmethod : method = "GET"
    · simp [hmethod, hnone]
    · by_cases hhead : method = "HEAD" <;> simp [hmethod, hhead, hnone]

theorem find?_trigger (withMetrics : Bool) (path : String) :
    ((routes withMetrics).find? fun r => r.path = path).bind Route.trigger? =
      if path = "/_pause" then some .pause
      else if path = "/_resume" then some .resume
      else none := by
  split
  · next hpause =>
    subst hpause
    cases withMetrics <;> rfl
  · next hpause =>
    split
    · next hresume =>
      subst hresume
      cases withMetrics <;> rfl
    · next hresume =>
      rw [Option.bind_eq_none_iff]
      intro r hfind
      have hpath : r.path = path := by simpa using List.find?_some hfind
      cases r with
      | pause => exact absurd hpath.symm hpause
      | resume => exact absurd hpath.symm hresume
      | _ => rfl

/-- A request acts on the gate through what it asks for, and otherwise not at
all. -/
theorem respond_gate (withMetrics : Bool) (metrics method target : String) (g : Gate) :
    (respond withMetrics metrics method target g).1 =
      ((asked? method target).map g.issue).getD g := by
  have hfound := find?_trigger withMetrics (pathOf target)
  unfold respond asked?
  rw [← hfound]
  dsimp only
  cases (routes withMetrics).find? fun r => r.path = pathOf target with
  | none => simp
  | some r =>
    simp only [Route.respond_gate, Route.effect_gate, Option.bind_some]
    split <;> rfl

end Server

/-! ## Histories of a gate -/

namespace Gate

/-- What may happen to a gate. -/
inductive Command
  | issue (trigger : Trigger)
  /-- A request to the server. -/
  | request (withMetrics : Bool) (metrics method target : String)
  /-- The requests are taken up, with the broker and the monitor as they are
  then. -/
  | apply (now : Instant) (broker : Broker) (monitor : Monitor)

namespace Command

/-- What a command asks for. -/
def trigger? : Command → Option Trigger
  | .issue t => some t
  | .request _ _ method target => Server.asked? method target
  | .apply _ _ _ => none

/-- Whether the requests are taken up. -/
def isApply : Command → Bool
  | .apply _ _ _ => true
  | _ => false

/-- The broker refuses no call. -/
def IsObliged : Command → Prop
  | .apply _ broker _ => broker.Obliging
  | _ => True

end Command

/-- The gate after a command. -/
def obey (g : Gate) : Command → Gate
  | .issue t => g.issue t
  | .request withMetrics metrics method target =>
    (Server.respond withMetrics metrics method target g).1
  | .apply now broker monitor => (Gate.apply { g with broker, monitor } now).1

/-- The gate after a history. -/
def after (g : Gate) : List Command → Gate
  | [] => g
  | c :: earlier => (g.after earlier).obey c

/-- The commands since the requests were taken up last. -/
def waiting (history : List Command) : List Command :=
  history.takeWhile fun c => !c.isApply

/-- Whether the override is in effect as soon as the requests are taken up. -/
def isDue (g : Gate) : Bool :=
  !g.resumeRequested && (g.pauseRequested || g.globallyPaused)

variable {g : Gate} {c : Command} {history : List Command}

theorem after_append (g : Gate) (later earlier : List Command) :
    g.after (later ++ earlier) = (g.after earlier).after later := by
  induction later with
  | nil => rfl
  | cons c later ih => exact congrArg (·.obey c) ih

theorem isDue_eq_control (g : Gate) :
    g.isDue =
      (!g.control.resumeRequested && (g.control.pauseRequested || g.control.globallyPaused)) :=
  rfl

/-- A command that is no application acts through its trigger. -/
theorem obey_eq (h : c.isApply = false) (g : Gate) :
    g.obey c = (c.trigger?.map g.issue).getD g := by
  cases c with
  | issue t => rfl
  | request withMetrics metrics method target =>
    exact Server.respond_gate withMetrics metrics method target g
  | apply => exact absurd h nofun

theorem control_obey_apply {now : Instant} {broker : Broker} {monitor : Monitor}
    (h : broker.Obliging) (g : Gate) :
    (g.obey (.apply now broker monitor)).control = ⟨false, false, g.isDue⟩ := by
  have hgranted : Gate.refusesPause { g with broker, monitor } = false := refusesPause_of_obliging h
  have hcontrol := control_apply { g with broker, monitor } now
  rw [hgranted, Bool.not_false, Bool.and_true] at hcontrol
  exact hcontrol

/-- Without a trigger nothing changes of what is due. -/
theorem isDue_obey (h : c.IsObliged) (hc : c.trigger? = none) (g : Gate) :
    (g.obey c).isDue = g.isDue := by
  cases c with
  | apply now broker monitor => rw [isDue_eq_control, control_obey_apply h]; simp
  | issue t => cases hc
  | request withMetrics metrics method target => rw [obey_eq rfl, hc]; rfl

theorem isDue_after (h : ∀ c ∈ history, c.IsObliged) (hc : ∀ c ∈ history, c.trigger? = none)
    (g : Gate) : (g.after history).isDue = g.isDue := by
  induction history with
  | nil => rfl
  | cons c earlier ih =>
    have hrest := ih (fun c' hc' => h c' (List.mem_cons_of_mem c hc'))
      fun c' hc' => hc c' (List.mem_cons_of_mem c hc')
    exact (isDue_obey (h c List.mem_cons_self) (hc c List.mem_cons_self) _).trans hrest

/-- A resumption is requested if one was issued since the requests were taken up
last. -/
theorem resumeRequested_after (broker : Broker) (h : ∀ c ∈ history, c.IsObliged) :
    (Gate.after { broker } history).resumeRequested = true ↔
      ∃ c ∈ waiting history, c.trigger? = some .resume := by
  induction history with
  | nil => simp [after, waiting]
  | cons c earlier ih =>
    have hrest := ih fun c' hc' => h c' (List.mem_cons_of_mem c hc')
    have hobliged := h c List.mem_cons_self
    cases hc : c.isApply with
    | true =>
      cases c with
      | apply now b m =>
        have hfalse : (Gate.after { broker } (.apply now b m :: earlier)).resumeRequested = false :=
          congrArg Control.resumeRequested (control_obey_apply hobliged _)
        have hnone : waiting (.apply now b m :: earlier) = [] := rfl
        rw [hfalse, hnone]
        simp
      | issue | request => cases hc
    | false =>
      have hwaiting : waiting (c :: earlier) = c :: waiting earlier := by
        simp [waiting, hc]
      rw [hwaiting]
      simp only [List.mem_cons, exists_eq_or_imp]
      rw [← hrest, after, obey_eq hc]
      cases c.trigger? with
      | none => simp
      | some t => cases t <;> simp [issue, requestPause, requestResume]

/-- After an application the override is not in effect if no trigger was issued
or the last one was a resumption.  If the last one was a pause, it is in effect
exactly if no resumption was issued before it that was still to be taken up. -/
theorem globallyPaused_of_last_trigger (broker : Broker) (history : List Command)
    (h : ∀ c ∈ history, c.IsObliged) (now : Instant) (b : Broker) (m : Monitor)
    (hb : b.Obliging) :
    let isPaused := (Gate.after { broker } (.apply now b m :: history)).globallyPaused
    ((∀ c ∈ history, c.trigger? = none) → isPaused = false) ∧
      ∀ later c earlier, history = later ++ c :: earlier →
        (∀ c' ∈ later, c'.trigger? = none) →
        (c.trigger? = some .resume → isPaused = false) ∧
        (c.trigger? = some .pause →
          (isPaused = true ↔ ∀ c' ∈ waiting earlier, c'.trigger? ≠ some .resume)) := by
  intro isPaused
  have hpaused : isPaused = (Gate.after { broker } history).isDue :=
    congrArg Control.globallyPaused (control_obey_apply hb _)
  rw [hpaused]
  refine ⟨fun hnone => isDue_after h hnone _, ?_⟩
  rintro later c earlier rfl hlater
  have hobliged : ∀ c' ∈ earlier, c'.IsObliged := fun c' hc' =>
    h c' (List.mem_append_right _ (List.mem_cons_of_mem c hc'))
  have hdue : (Gate.after { broker } (later ++ c :: earlier)).isDue =
      ((Gate.after { broker } earlier).obey c).isDue := by
    rw [after_append]
    exact isDue_after (fun c' hc' => h c' (List.mem_append_left _ hc')) hlater _
  have hissue {t : Trigger} (ht : c.trigger? = some t) :
      (Gate.after { broker } earlier).obey c = (Gate.after { broker } earlier).issue t := by
    have hc : c.isApply = false := by
      cases c with
      | apply => exact absurd ht nofun
      | _ => rfl
    rw [obey_eq hc, ht, Option.map_some, Option.getD_some]
  rw [hdue]
  refine ⟨fun ht => ?_, fun ht => ?_⟩
  · rw [hissue ht]
    rfl
  · have hresume := resumeRequested_after broker hobliged
    rw [hissue ht]
    simp only [issue, isDue, requestPause, Bool.true_or, Bool.and_true, Bool.not_eq_true']
    rw [← Bool.not_eq_true, hresume]
    simp

/-- A resumption that is taken up before the pause is issued does not stand in
its way. -/
theorem globallyPaused_of_last_trigger_sample :
    (Gate.after { broker := {} }
      [.apply 0 {} {}, .issue .pause, .apply 0 {} {}, .issue .resume]).globallyPaused = true := by
  have hobliging : ({} : Broker).Obliging := ⟨⟨rfl, nofun⟩, ⟨rfl, nofun⟩, ⟨rfl, nofun⟩⟩
  have hhistory : ∀ c ∈ [Command.issue .pause, .apply 0 {} {}, .issue .resume], c.IsObliged := by
    intro c hc
    simp only [List.mem_cons, List.not_mem_nil, or_false] at hc
    rcases hc with rfl | rfl | rfl
    · exact trivial
    · exact hobliging
    · exact trivial
  have hlast := (globallyPaused_of_last_trigger {} _ hhistory 0 {} {} hobliging).2
    [] (.issue .pause) _ rfl (List.forall_mem_nil _)
  exact (hlast.2 rfl).mpr (List.forall_mem_nil _)

/-- The pause is the last trigger, and it is lost: a resumption waits beside
it. -/
theorem pause_lost_beside_resume :
    ([.issue .pause, .issue .resume] : List Command).findSome? Command.trigger? = some .pause ∧
      (Gate.after { broker := { assigned := [⟨"t", 0⟩] } }
        [.apply 0 { assigned := [⟨"t", 0⟩] } {}, .issue .pause,
          .issue .resume]).globallyPaused = false := by
  decide +kernel

end Gate
end RecordDispatch
