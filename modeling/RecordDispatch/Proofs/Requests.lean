import RecordDispatch.Proofs.Gate

/-!
# What the gate asks of the broker

Every operation of the gate asks the broker for at most one change of the
paused partitions, and taking up the operator's requests asks for at most two,
one after the other.  `Broker.Asks` says for which.

The history of requests tells what is paused (`Broker.pausedAfter`), and which
partitions the broker was asked to resume (`Broker.resumptions`).
-/

namespace RecordDispatch

/-! ## Requests and what they come to -/

namespace Broker

namespace Request

/-- A request to pause partitions, all of which satisfy a condition. -/
def IsPauseOf (which : Partition → Prop) (r : Request) : Prop :=
  ∃ ps accepted, r = .pause ps accepted ∧ ∀ p ∈ ps, which p

/-- A request to resume partitions, all of which satisfy a condition. -/
def IsResumeOf (which : Partition → Prop) (r : Request) : Prop :=
  ∃ ps accepted, r = .resume ps accepted ∧ ∀ p ∈ ps, which p

/-- The partitions that a request to resume names. -/
def resumption? : Request → Option (List Partition)
  | .resume ps _ => some ps
  | _ => none

/-- The paused partitions after a request.  One that is refused has no effect. -/
def effect : Request → List Partition → List Partition
  | .pause ps true, paused => union paused ps
  | .resume ps true, paused => without paused ps
  | _, paused => paused

/-- A request to pause is for partitions that are not paused, and one to resume
is for partitions that are. -/
def NotRedundant : Request → List Partition → Prop
  | .pause ps _, paused => ∀ p ∈ ps, p ∉ paused
  | .resume ps _, paused => ∀ p ∈ ps, p ∈ paused
  | _, _ => True

theorem IsPauseOf.notRedundant {which : Partition → Prop} {r : Request} (h : r.IsPauseOf which)
    {paused : List Partition} (hwhich : ∀ p, which p → p ∉ paused) : r.NotRedundant paused := by
  obtain ⟨ps, accepted, rfl, hps⟩ := h
  exact fun p hp => hwhich p (hps p hp)

theorem IsResumeOf.notRedundant {which : Partition → Prop} {r : Request} (h : r.IsResumeOf which)
    {paused : List Partition} (hwhich : ∀ p, which p → p ∈ paused) : r.NotRedundant paused := by
  obtain ⟨ps, accepted, rfl, hps⟩ := h
  exact fun p hp => hwhich p (hps p hp)

theorem NotRedundant.of_resumption? {r : Request} {paused ps : List Partition}
    (h : r.NotRedundant paused)
    (hr : r.resumption? = some ps) : ∀ p ∈ ps, p ∈ paused := by
  cases r with
  | resume qs accepted => exact Option.some.inj hr ▸ h
  | _ => cases hr

end Request

/-- The partitions that are paused after requests, newest first, if none was
paused before them. -/
def pausedAfter (requests : List Request) : List Partition :=
  requests.foldr Request.effect []

/-- The partitions of each request to resume, newest first. -/
def resumptions (b : Broker) : List (List Partition) :=
  b.requests.filterMap Request.resumption?

/-- A broker is asked for nothing, or once, and for something of a kind. -/
def Asks (kind : Request → Prop) (b b' : Broker) : Prop :=
  (b'.requests = b.requests ∧ b'.paused = b.paused) ∨
    ∃ r, kind r ∧ b'.requests = r :: b.requests ∧ b'.paused = r.effect b.paused

namespace Asks

variable {kind : Request → Prop} {b b' b'' : Broker}

theorem refl (kind : Request → Prop) (b : Broker) : Asks kind b b :=
  Or.inl ⟨rfl, rfl⟩

/-- What is asked after a call that asks for nothing. -/
theorem after (h : Asks kind b' b'') (hr : b'.requests = b.requests)
    (hp : b'.paused = b.paused) : Asks kind b b'' := by
  rw [Asks, hr, hp] at h
  exact h

end Asks

variable (b : Broker) (ps : List Partition) {which : Partition → Prop}

theorem asks_pause (h : ∀ p ∈ ps, which p) : Asks (Request.IsPauseOf which) b (b.pause ps).1 := by
  unfold pause
  cases b.pauseOutage.fails <;> exact Or.inr ⟨_, ⟨ps, _, rfl, h⟩, rfl, rfl⟩

theorem asks_resume (h : ∀ p ∈ ps, which p) :
    Asks (Request.IsResumeOf which) b (b.resume ps).1 := by
  unfold resume
  cases b.resumeOutage.fails <;> exact Or.inr ⟨_, ⟨ps, _, rfl, h⟩, rfl, rfl⟩

theorem requests_assignment : b.assignment.1.requests = b.requests := by
  unfold assignment
  cases b.assignmentOutage.fails <;> rfl

theorem resumptions_of_eq {b b' : Broker} (h : b'.requests = b.requests) :
    b'.resumptions = b.resumptions :=
  congrArg (List.filterMap Request.resumption?) h

/-- A broker that is asked only to pause is not asked to resume. -/
theorem Asks.resumptions_of_pause {b b' : Broker} {which : Partition → Prop}
    (h : Asks (Request.IsPauseOf which) b b') : b'.resumptions = b.resumptions := by
  rcases h with ⟨hsame, -⟩ | ⟨r, ⟨ps, accepted, rfl, -⟩, hnew, -⟩
  · exact resumptions_of_eq hsame
  · rw [resumptions, hnew]
    rfl

/-- A broker that is asked at most to resume has one more of these requests, or
none. -/
theorem Asks.resumptions {b b' : Broker} {which : Partition → Prop}
    (h : Asks (Request.IsResumeOf which) b b') :
    ∃ new, b'.resumptions = new ++ b.resumptions ∧ ∀ ps ∈ new, ∀ p ∈ ps, which p := by
  rcases h with ⟨hsame, -⟩ | ⟨r, ⟨ps, accepted, rfl, hps⟩, hnew, -⟩
  · exact ⟨[], resumptions_of_eq hsame, List.forall_mem_nil _⟩
  · refine ⟨[ps], ?_, List.forall_mem_singleton.mpr hps⟩
    rw [Broker.resumptions, hnew]
    rfl

/-- The partitions of each request to resume that a broker got after another
state of it, newest first. -/
def resumptionsSince (b b' : Broker) : List (List Partition) :=
  b'.resumptions.take (b'.resumptions.length - b.resumptions.length)

theorem resumptionsSince_of_append {b b' : Broker} {new : List (List Partition)}
    (h : b'.resumptions = new ++ b.resumptions) : b.resumptionsSince b' = new := by
  simp [resumptionsSince, h]

theorem resumptions_commit (mode : CommitMode) (offsets : Offsets) :
    (b.commit mode offsets).1.resumptions = b.resumptions := by
  unfold commit
  cases b.commitOutage.fails <;> rfl

theorem resumptions_fetch : b.fetch.1.resumptions = b.resumptions := by
  simp only [fetch, read]
  repeat' split
  all_goals rfl

end Broker

/-! ## Requests of the gate -/

namespace Gate

open Broker (Asks Request)

variable (g : Gate)

/-- A partition is paused for a processor unless it has an entry. -/
theorem asks_pause (now : Instant) (p : Partition) (id : ProcessorId) :
    Asks (Request.IsPauseOf fun q => q = p ∧ g.monitor.contains q = false) g.broker
      (g.pause now p id).1.broker := by
  unfold pause
  split
  · exact .refl _ _
  · next hentry =>
    rw [Bool.not_eq_true] at hentry
    have hask : Asks (Request.IsPauseOf fun q => q = p ∧ g.monitor.contains q = false) g.broker
        (g.broker.pause [p]).1 :=
      g.broker.asks_pause [p] (by simp [hentry])
    split <;>
    · next heq =>
      rw [heq] at hask
      exact hask

/-- Partitions are resumed that are named and have an entry. -/
theorem asks_resume (ps : List Partition) :
    Asks (Request.IsResumeOf fun q => q ∈ ps ∧ g.monitor.contains q = true) g.broker
      (g.resume ps).1.broker := by
  unfold resume
  split
  · exact .refl _ _
  · split
    · exact .refl _ _
    · dsimp only
      split
      · exact .refl _ _
      · have hask := g.broker.asks_resume (ps.filter g.monitor.contains)
          fun q hq => List.mem_filter.mp hq
        split <;>
        · next heq =>
          rw [heq] at hask
          exact hask

/-- For a global pause partitions are paused that have no entry. -/
theorem asks_pauseAll (now : Instant) :
    Asks (Request.IsPauseOf fun q => g.monitor.contains q = false) g.broker
      (g.pauseAll now).1.broker := by
  have hpaused := g.broker.paused_assignment
  have hrequests := g.broker.requests_assignment
  unfold pauseAll
  split
  · next heq =>
    rw [heq] at hpaused hrequests
    exact Or.inl ⟨hrequests, hpaused⟩
  · next b assigned heq =>
    rw [heq] at hpaused hrequests
    split
    · exact Or.inl ⟨hrequests, hpaused⟩
    · next p ps hfree =>
      have hnew (q : Partition) (hq : q ∈ p :: ps) : g.monitor.contains q = false := by
        rw [← hfree] at hq
        simpa using (List.mem_filter.mp hq).2
      have hask := (b.asks_pause _ hnew).after hrequests hpaused
      split <;>
      · next heq =>
        rw [heq] at hask
        exact hask

/-- Partitions are resumed that no processor works on. -/
theorem asks_resumeIdle (scope : String) :
    Asks (Request.IsResumeOf (· ∈ g.monitor.idle)) g.broker (g.resumeIdle scope).1.broker := by
  unfold resumeIdle
  split
  · exact .refl _ _
  · next p ps hidle =>
    rw [hidle]
    have hask := g.broker.asks_resume (p :: ps) fun q hq => hq
    split <;>
    · next heq =>
      rw [heq] at hask
      exact hask

theorem asks_applyPause (now : Instant) :
    Asks (Request.IsPauseOf fun q => g.monitor.contains q = false) g.broker
      (g.applyPause now).1.broker := by
  unfold applyPause
  split
  · exact asks_pauseAll { g with pauseRequested := false } now
  · exact .refl _ _

theorem asks_applyResume :
    Asks (Request.IsResumeOf (· ∈ g.monitor.idle)) g.broker g.applyResume.1.broker := by
  unfold applyResume
  split
  · exact asks_resumeIdle { g with resumeRequested := false, globallyPaused := false } "global"
  · split
    · exact .refl _ _
    · exact g.asks_resumeIdle "retry"

/-- Taking up the operator's requests resumes partitions that no processor works
on. -/
theorem resumptions_apply (now : Instant) :
    ∃ new, (g.apply now).1.broker.resumptions = new ++ g.broker.resumptions ∧
      ∀ ps ∈ new, ∀ p ∈ ps, g.monitor.attached? p = none := by
  have hpause := (g.asks_applyPause now).resumptions_of_pause
  obtain ⟨new, hnew, hidle⟩ := (g.applyPause now).1.asks_applyResume.resumptions
  rw [hpause] at hnew
  refine ⟨new, hnew, ?_⟩
  intro ps hps p hp
  rw [← (g.applied_applyPause now).attached p]
  exact (Monitor.mem_idle_iff.mp (hidle ps hps p hp)).2

end Gate
end RecordDispatch
