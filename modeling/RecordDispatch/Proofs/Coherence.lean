import RecordDispatch.Proofs.Requests

/-!
# Coherence of broker and monitor

The gate asks the broker only for what is not so yet: it pauses partitions that
are not paused and resumes ones that are (`Request.NotRedundant`).  So the paused
partitions are those of which the monitor has an entry, whatever calls fail:
a call that fails changes neither of the two, and it is tried again or given up
in a way that keeps them in step (`coherent_after`).

The invariant is `Accountable`.  It is about any calls of the gate, with and
without a dispatcher behind them.
-/

namespace RecordDispatch.Gate

open Broker (Asks Request)

/-! ## Histories of calls -/

/-- A call of the gate, or what happens between its calls. -/
inductive Call
  | pause (now : Instant) (p : Partition) (id : ProcessorId)
  | resume (ps : List Partition)
  | requestPause
  | requestResume
  /-- The operator's requests are taken up. -/
  | apply (now : Instant)
  /-- Other partitions are assigned, and calls of the broker begin to fail or
  cease to. -/
  | broker (assigned : List Partition) (pauses resumes assignments : Broker.Outage)

/-- The gate after a call. -/
def call (g : Gate) : Call → Gate
  | .pause now p id => (g.pause now p id).1
  | .resume ps => (g.resume ps).1
  | .requestPause => g.requestPause
  | .requestResume => g.requestResume
  | .apply now => (g.apply now).1
  | .broker assigned pauses resumes assignments =>
    { g with
      broker :=
        { g.broker with
          assigned
          pauseOutage := pauses
          resumeOutage := resumes
          assignmentOutage := assignments } }

/-- The gate after calls, one after another. -/
def calls (g : Gate) (cs : List Call) : Gate :=
  cs.foldl call g

/-- Broker and monitor agree.  Nothing that was asked since the requests in `base`
was redundant when it was asked, and together it explains what is paused. -/
structure Accountable (base : List Request) (g : Gate) : Prop where
  coherent : g.Coherent
  asked : ∃ asked, g.broker.requests = asked ++ base ∧
    g.broker.paused = Broker.pausedAfter asked ∧
    ∀ r older, r :: older <:+ asked → r.NotRedundant (Broker.pausedAfter older)

namespace Accountable

variable {base : List Request} {g g' : Gate}

/-- One more request, which is not redundant. -/
theorem ask {kind : Request → Prop} (h : Accountable base g) (hstep : g.InStep g')
    (hask : Asks kind g.broker g'.broker) (hkind : ∀ r, kind r → r.NotRedundant g.broker.paused) :
    Accountable base g' := by
  obtain ⟨asked, hrequests, hpaused, hapt⟩ := h.asked
  refine ⟨h.coherent.inStep hstep, ?_⟩
  rcases hask with ⟨hsame, hkept⟩ | ⟨r, hr, hnew, heffect⟩
  · exact ⟨asked, hsame.trans hrequests, hkept.trans hpaused, hapt⟩
  · refine ⟨r :: asked, by rw [hnew, hrequests, List.cons_append], ?_, fun r' older hs => ?_⟩
    · rw [heffect, hpaused]
      rfl
    · rcases List.suffix_cons_iff.mp hs with heq | hs
      · obtain ⟨rfl, rfl⟩ := List.cons.inj heq
        exact hpaused ▸ hkind r' hr
      · exact hapt r' older hs

/-- A call that asks the broker for nothing. -/
theorem of_eq (h : Accountable base g) (hm : g'.monitor = g.monitor)
    (hr : g'.broker.requests = g.broker.requests) (hp : g'.broker.paused = g.broker.paused) :
    Accountable base g' := by
  constructor
  · intro p
    rw [hp, hm]
    exact h.coherent p
  · rw [hr, hp]
    exact h.asked

/-- A partition without an entry is not paused. -/
theorem not_paused (h : Accountable base g) {p : Partition}
    (hp : g.monitor.contains p = false) : p ∉ g.broker.paused := by
  rw [h.coherent p, hp]
  exact Bool.false_ne_true

theorem pause (h : Accountable base g) (now : Instant) (p : Partition) (id : ProcessorId) :
    Accountable base (g.pause now p id).1 :=
  h.ask (g.pausedFor_pause now p id).inStep (g.asks_pause now p id) fun _ hr =>
    hr.notRedundant fun _ hq => h.not_paused hq.2

theorem resume (h : Accountable base g) (ps : List Partition) :
    Accountable base (g.resume ps).1 :=
  h.ask (g.resumedFor_resume ps).inStep (g.asks_resume ps) fun _ hr =>
    hr.notRedundant fun q hq => (h.coherent q).mpr hq.2

theorem applyPause (h : Accountable base g) (now : Instant) :
    Accountable base (g.applyPause now).1 :=
  h.ask (g.applied_applyPause now).inStep (g.asks_applyPause now) fun _ hr =>
    hr.notRedundant fun _ hq => h.not_paused hq

theorem applyResume (h : Accountable base g) : Accountable base g.applyResume.1 :=
  h.ask g.applied_applyResume.inStep g.asks_applyResume fun _ hr =>
    hr.notRedundant fun q hq => (h.coherent q).mpr (Monitor.mem_idle_iff.mp hq).1

theorem call (h : Accountable base g) (c : Call) : Accountable base (g.call c) := by
  cases c with
  | pause now p id => exact h.pause now p id
  | resume ps => exact h.resume ps
  | requestPause => exact h.of_eq rfl rfl rfl
  | requestResume => exact h.of_eq rfl rfl rfl
  | apply now => exact (h.applyPause now).applyResume
  | broker assigned pauses resumes assignments => exact h.of_eq rfl rfl rfl

theorem calls (h : Accountable base g) (cs : List Call) : Accountable base (g.calls cs) := by
  induction cs generalizing g with
  | nil => exact h
  | cons c cs ih => exact ih (h.call c)

end Accountable

/-- Whatever calls of the broker fail, after any calls of the gate the paused
partitions are those with an entry.  They are what the requests come to, and
no request to pause or resume was redundant when it was made. -/
theorem coherent_after (broker : Broker) (hp : broker.paused = []) (cs : List Call) :
    let g := calls { broker } cs
    (∀ p, p ∈ g.broker.paused ↔ g.monitor.contains p = true) ∧
      ∃ asked, g.broker.requests = asked ++ broker.requests ∧
        g.broker.paused = Broker.pausedAfter asked ∧
        ∀ r older, r :: older <:+ asked → r.NotRedundant (Broker.pausedAfter older) := by
  intro g
  have hstart : Accountable broker.requests { broker } :=
    ⟨fun p => iff_of_false (hp ▸ List.not_mem_nil) Bool.false_ne_true,
      [], rfl, hp, fun r older hs => absurd hs (by simp)⟩
  have h : Accountable broker.requests g := hstart.calls cs
  exact ⟨h.coherent, h.asked⟩

namespace Sample

/-- The broker refuses to pause a partition for a processor, and again for
a global pause, which takes effect when it is asked for once more.  Another
partition is paused for a processor.  To lift the pause is refused as well, and
it is tried again. -/
def refused : List Call :=
  [.broker [⟨"t", 0⟩] ⟨[true, true], false⟩ ⟨[true], false⟩ {},
    .pause 0 ⟨"t", 0⟩ 0, .requestPause, .apply 1, .requestPause, .apply 2, .pause 2 ⟨"t", 1⟩ 1,
    .requestResume, .apply 3, .apply 4]

end Sample

/-- In the sample only the partition with a processor stays paused, and the last
request was to resume the other one, which had been paused until then. -/
theorem coherent_after_refused :
    let g := calls { broker := {} } Sample.refused
    g.broker.paused = [⟨"t", 1⟩] ∧ g.monitor.contains ⟨"t", 1⟩ = true ∧
      ∃ r older, g.broker.requests = r :: older ∧ r.resumption? = some [⟨"t", 0⟩] ∧
        ⟨"t", 0⟩ ∈ Broker.pausedAfter older := by
  intro g
  obtain ⟨hcoherent, asked, hrequests, -, hapt⟩ := coherent_after {} rfl Sample.refused
  have hpaused : g.broker.paused = [⟨"t", 1⟩] := by decide +kernel
  have hentry := (hcoherent ⟨"t", 1⟩).mp (hpaused ▸ List.mem_singleton_self _)
  have hlast : g.broker.requests.head?.bind Request.resumption? = some [⟨"t", 0⟩] := by
    decide +kernel
  obtain ⟨r, hhead, hr⟩ := Option.bind_eq_some_iff.mp hlast
  obtain ⟨older, hfirst⟩ := List.head?_eq_some_iff.mp hhead
  have hasked : r :: older <:+ asked := by
    rw [← hfirst, ← List.append_nil asked]
    exact hrequests ▸ List.suffix_refl _
  exact ⟨hpaused, hentry, r, older, hfirst, hr,
    (hapt r older hasked).of_resumption? hr _ (List.mem_singleton_self _)⟩

end RecordDispatch.Gate
