import RecordDispatch.Broker.Change
import RecordDispatch.Gate

/-!
# What the gate keeps in step

The gate pauses and resumes partitions at the broker, and it notes this in the
monitor.  Each of its operations puts a partition into both, takes it out of
both, or leaves both as they are, and this is so whatever calls the broker
refuses (`Gate.InStep`).

* `Broker.Obliging` is a broker that refuses none of the gate's calls, and
  `Broker.Served` is what every call leaves alone.
* `Monitor.attached?` is the processor to which the entry of a partition refers.
  For each operation there is a lemma that says what becomes of it.
* `Gate.globallyPaused_apply` says when the operator's override is in effect
  after the requests are taken up, and `Gate.override_cases` how it comes to be.
-/

namespace RecordDispatch

/-! ## Calls of the broker -/

namespace Broker

/-- No call of a kind fails. -/
def Outage.Never (o : Outage) : Prop :=
  o.later = false ∧ ∀ fails ∈ o.next, fails = false

theorem Outage.Never.fails {o : Outage} (h : o.Never) : ¬ o.fails = true := by
  obtain ⟨next, later⟩ := o
  rw [Bool.not_eq_true]
  cases next with
  | nil => exact h.1
  | cons first rest => exact h.2 first List.mem_cons_self

theorem Outage.Never.afterCall {o : Outage} (h : o.Never) : o.afterCall.Never :=
  ⟨h.1, fun fails hmem => h.2 fails (List.mem_of_mem_tail hmem)⟩

/-- A broker that refuses neither to pause and to resume partitions nor to say
which ones are assigned. -/
structure Obliging (b : Broker) : Prop where
  pause : b.pauseOutage.Never
  resume : b.resumeOutage.Never
  assignment : b.assignmentOutage.Never

/-- What the calls of a member leave as it is. -/
structure Served (b b' : Broker) : Prop where
  assigned : b'.assigned = b.assigned
  closed : b'.closed = b.closed
  perPoll : b'.perPoll = b.perPoll
  prefetched : b.prefetched = [] → b'.prefetched = []
  obliging : b.Obliging → b'.Obliging

namespace Served

theorem refl (b : Broker) : b.Served b :=
  ⟨rfl, rfl, rfl, id, id⟩

theorem trans {b₁ b₂ b₃ : Broker} (h₁ : b₁.Served b₂) (h₂ : b₂.Served b₃) : b₁.Served b₃ :=
  ⟨h₂.assigned.trans h₁.assigned, h₂.closed.trans h₁.closed, h₂.perPoll.trans h₁.perPoll,
    h₂.prefetched ∘ h₁.prefetched, h₂.obliging ∘ h₁.obliging⟩

/-- A change that has to do neither with the assignment nor with outages. -/
theorem of_eq {b b' : Broker} (ha : b'.assigned = b.assigned) (hc : b'.closed = b.closed)
    (hl : b'.perPoll = b.perPoll) (hf : b.prefetched = [] → b'.prefetched = [])
    (hp : b'.pauseOutage = b.pauseOutage) (hr : b'.resumeOutage = b.resumeOutage)
    (hs : b'.assignmentOutage = b.assignmentOutage) : b.Served b' :=
  ⟨ha, hc, hl, hf, fun h => ⟨hp ▸ h.pause, hr ▸ h.resume, hs ▸ h.assignment⟩⟩

end Served

variable (b : Broker) (ps : List Partition)

/-- Partitions are paused, or the broker refuses. -/
theorem pause_cases :
    (∃ b', b.pause ps = (b', .ok ()) ∧ b'.paused = union b.paused ps ∧ b.Served b' ∧
        b.pauseOutage.fails = false) ∨
      ∃ b' e, b.pause ps = (b', .error e) ∧ b'.paused = b.paused ∧ b.Served b' ∧
        b.pauseOutage.fails = true := by
  unfold pause
  cases b.pauseOutage.fails with
  | false =>
    refine Or.inl ⟨_, rfl, rfl, ⟨rfl, rfl, rfl, id, fun h => ?_⟩, rfl⟩
    exact ⟨h.pause.afterCall, h.resume, h.assignment⟩
  | true =>
    refine Or.inr ⟨_, _, rfl, rfl, ⟨rfl, rfl, rfl, id, fun h => ?_⟩, rfl⟩
    exact ⟨h.pause.afterCall, h.resume, h.assignment⟩

/-- Partitions are resumed, or the broker refuses. -/
theorem resume_cases :
    (∃ b', b.resume ps = (b', .ok ()) ∧ b'.paused = without b.paused ps ∧ b.Served b' ∧
        b.resumeOutage.fails = false) ∨
      ∃ b' e, b.resume ps = (b', .error e) ∧ b'.paused = b.paused ∧ b.Served b' ∧
        b.resumeOutage.fails = true := by
  unfold resume
  cases b.resumeOutage.fails with
  | false =>
    refine Or.inl ⟨_, rfl, rfl, ⟨rfl, rfl, rfl, id, fun h => ?_⟩, rfl⟩
    exact ⟨h.pause, h.resume.afterCall, h.assignment⟩
  | true =>
    refine Or.inr ⟨_, _, rfl, rfl, ⟨rfl, rfl, rfl, id, fun h => ?_⟩, rfl⟩
    exact ⟨h.pause, h.resume.afterCall, h.assignment⟩

/-- The broker says which partitions are assigned, or it refuses. -/
theorem assignment_cases :
    (∃ b', b.assignment = (b', .ok (Partition.sort b.assigned)) ∧ b'.paused = b.paused ∧
        b'.pauseOutage = b.pauseOutage ∧ b.Served b' ∧ b.assignmentOutage.fails = false) ∨
      ∃ b' e, b.assignment = (b', .error e) ∧ b'.paused = b.paused ∧ b.Served b' ∧
        b.assignmentOutage.fails = true := by
  unfold assignment
  cases b.assignmentOutage.fails with
  | false =>
    refine Or.inl ⟨_, rfl, rfl, rfl, ⟨rfl, rfl, rfl, id, fun h => ?_⟩, rfl⟩
    exact ⟨h.pause, h.resume, h.assignment.afterCall⟩
  | true =>
    refine Or.inr ⟨_, _, rfl, rfl, ⟨rfl, rfl, rfl, id, fun h => ?_⟩, rfl⟩
    exact ⟨h.pause, h.resume, h.assignment.afterCall⟩

@[simp] theorem without_nil (ps : List Partition) : without ps [] = ps :=
  List.filter_eq_self.mpr fun _ _ => rfl

theorem served_commit (mode : CommitMode) (offsets : Offsets) :
    b.Served (b.commit mode offsets).1 := by
  unfold commit
  split <;> exact .of_eq rfl rfl rfl id rfl rfl rfl

theorem served_fetch : b.Served b.fetch.1 := by
  unfold fetch
  dsimp only
  split
  · exact .of_eq rfl rfl rfl id rfl rfl rfl
  · split
    · exact .of_eq rfl rfl rfl id rfl rfl rfl
    · split
      · next heq =>
        exact .of_eq rfl rfl rfl (fun hnone => absurd (heq.symm.trans hnone) (List.cons_ne_nil _ _))
          rfl rfl rfl
      · exact .of_eq rfl rfl rfl id rfl rfl rfl

end Broker

/-! ## Entries of the monitor -/

namespace Monitor

/-- The processor to which the entry of a partition refers. -/
def attached? (m : Monitor) (p : Partition) : Option ProcessorId :=
  (m.find? p).bind (·.processor)

variable (m : Monitor) (p q : Partition)

theorem contains_eq_isSome : m.contains p = (m.find? p).isSome := rfl

/-- A partition without an entry has no processor in the monitor. -/
theorem attached?_of_not_contains {m : Monitor} {p : Partition} (h : m.contains p = false) :
    m.attached? p = none := by
  rw [contains_eq_isSome, Option.isSome_eq_false_iff, Option.isNone_iff_eq_none] at h
  rw [attached?, h, Option.bind_none]

theorem mem_idle_iff {m : Monitor} {p : Partition} :
    p ∈ m.idle ↔ m.contains p = true ∧ m.attached? p = none := by
  rw [mem_idle, contains_iff, attached?]
  cases m.find? p <;> simp

theorem idle_eq_nil_iff {m : Monitor} :
    m.idle = [] ↔ ∀ p, m.contains p = true → m.attached? p ≠ none := by
  simp only [List.eq_nil_iff_forall_not_mem, mem_idle_iff, not_and, ne_eq]

@[simp] theorem contains_recordPause (since : Instant) (id? : Option ProcessorId) :
    (m.recordPause p since id?).contains q = (m.contains q || decide (q = p)) := by
  rw [contains_eq_isSome, contains_eq_isSome, find?_recordPause]
  by_cases hq : q = p
  · simp [hq]
  · simp [hq]

theorem attached?_recordPause (since : Instant) (id? : Option ProcessorId) :
    (m.recordPause p since id?).attached? q =
      if q = p ∧ m.contains p = false then id? else m.attached? q := by
  rw [attached?, attached?, find?_recordPause, contains_eq_isSome]
  by_cases hq : q = p
  · subst hq
    cases m.find? q <;> simp
  · simp [hq]

@[simp] theorem contains_attach (id : ProcessorId) : (m.attach p id).contains q = m.contains q := by
  rw [contains_eq_isSome, contains_eq_isSome, find?_attach]
  split <;> simp

theorem attached?_attach {m : Monitor} {p : Partition} (h : m.contains p = true)
    (id : ProcessorId) (q : Partition) :
    (m.attach p id).attached? q = if q = p then some id else m.attached? q := by
  obtain ⟨e, he⟩ := contains_iff.mp h
  rw [attached?, attached?, find?_attach]
  by_cases hq : q = p
  · subst hq
    simp [he]
  · simp [hq]

@[simp] theorem contains_detachAll (ps : List Partition) :
    (m.detachAll ps).contains q = m.contains q := by
  rw [contains_eq_isSome, contains_eq_isSome, find?_detachAll]
  split <;> simp

@[simp] theorem attached?_detachAll (ps : List Partition) :
    (m.detachAll ps).attached? q = if q ∈ ps then none else m.attached? q := by
  rw [attached?, attached?, find?_detachAll]
  split
  · cases m.find? q <;> rfl
  · rfl

@[simp] theorem contains_removeAll (ps : List Partition) :
    (m.removeAll ps).contains q = (m.contains q && decide (q ∉ ps)) := by
  rw [contains_eq_isSome, contains_eq_isSome, find?_removeAll]
  by_cases hq : q ∈ ps <;> simp [hq]

@[simp] theorem attached?_removeAll (ps : List Partition) :
    (m.removeAll ps).attached? q = if q ∈ ps then none else m.attached? q := by
  rw [attached?, attached?, find?_removeAll]
  split <;> rfl

/-- No entry becomes idle because others are forgotten. -/
theorem idle_removeAll {m : Monitor} (h : m.idle = []) (ps : List Partition) :
    (m.removeAll ps).idle = [] := by
  rw [idle_eq_nil_iff] at h ⊢
  intro q hentry
  rw [contains_removeAll, Bool.and_eq_true, decide_eq_true_eq] at hentry
  rw [attached?_removeAll, if_neg hentry.2]
  exact h q hentry.1

/-- No idle entry is left once these are forgotten. -/
theorem idle_removeAll_idle : (m.removeAll m.idle).idle = [] := by
  rw [idle_eq_nil_iff]
  intro q hentry
  rw [contains_removeAll, Bool.and_eq_true, decide_eq_true_eq] at hentry
  obtain ⟨hcontains, hbusy⟩ := hentry
  rw [attached?_removeAll, if_neg hbusy]
  exact fun hnone => hbusy (mem_idle_iff.mpr ⟨hcontains, hnone⟩)

/-- The monitor with entries for partitions that no processor works on. -/
def holdAll (m : Monitor) (now : Instant) (ps : List Partition) : Monitor :=
  ps.foldl (fun m p => m.recordPause p now none) m

theorem contains_holdAll (now : Instant) (ps : List Partition) :
    (m.holdAll now ps).contains q = (m.contains q || decide (q ∈ ps)) := by
  unfold holdAll
  induction ps generalizing m with
  | nil => simp
  | cons p ps ih =>
    rw [List.foldl_cons, ih, contains_recordPause]
    simp [Bool.or_assoc]

/-- Entries that are there keep their processors, and the others get none. -/
theorem attached?_holdAll (now : Instant) (ps : List Partition) :
    (m.holdAll now ps).attached? q = m.attached? q := by
  unfold holdAll
  induction ps generalizing m with
  | nil => rfl
  | cons p ps ih =>
    rw [List.foldl_cons, ih, attached?_recordPause]
    split
    · next h => rw [h.1, attached?_of_not_contains h.2]
    · rfl

end Monitor

/-! ## Operations of the gate -/

namespace Gate

/-- Broker and monitor change alike: each partition is in both as before, or is
in both now, or is in neither. -/
structure InStep (g g' : Gate) : Prop where
  served : g.broker.Served g'.broker
  partition : ∀ p,
    ((p ∈ g'.broker.paused ↔ p ∈ g.broker.paused) ∧
        g'.monitor.contains p = g.monitor.contains p) ∨
      (p ∈ g'.broker.paused ∧ g'.monitor.contains p = true) ∨
        (p ∉ g'.broker.paused ∧ g'.monitor.contains p = false)

namespace InStep

variable {g g₁ g₂ : Gate}

/-- A call that changes neither of the two. -/
theorem of_eq (hs : g.broker.Served g₁.broker) (hp : g₁.broker.paused = g.broker.paused)
    (hm : ∀ p, g₁.monitor.contains p = g.monitor.contains p) : g.InStep g₁ :=
  ⟨hs, fun p => Or.inl ⟨by rw [hp], hm p⟩⟩

theorem trans (h₁ : g.InStep g₁) (h₂ : g₁.InStep g₂) : g.InStep g₂ := by
  refine ⟨h₁.served.trans h₂.served, fun p => ?_⟩
  rcases h₂.partition p with ⟨hp, hm⟩ | h
  · rw [hp, hm]
    exact h₁.partition p
  · exact Or.inr h

end InStep

/-- A partition is paused exactly if the monitor has an entry of it. -/
def AgreesOn (g : Gate) (p : Partition) : Prop :=
  p ∈ g.broker.paused ↔ g.monitor.contains p = true

/-- Every entry of the monitor is of a paused partition. -/
def EntriesPaused (g : Gate) : Prop :=
  ∀ p, g.monitor.contains p = true → p ∈ g.broker.paused

/-- The partitions that are paused are those with an entry. -/
def Coherent (g : Gate) : Prop :=
  ∀ p, p ∈ g.broker.paused ↔ g.monitor.contains p = true

theorem EntriesPaused.inStep {g g' : Gate} (h : g.EntriesPaused) (hs : g.InStep g') :
    g'.EntriesPaused := by
  intro p hp
  rcases hs.partition p with ⟨hpaused, hm⟩ | ⟨hpaused, -⟩ | ⟨-, hm⟩
  · exact hpaused.mpr (h p (hm ▸ hp))
  · exact hpaused
  · rw [hm] at hp
    exact absurd hp Bool.false_ne_true

theorem AgreesOn.inStep {g g' : Gate} {p : Partition} (h : g.AgreesOn p) (hs : g.InStep g') :
    g'.AgreesOn p := by
  rcases hs.partition p with ⟨hpaused, hm⟩ | ⟨hpaused, hm⟩ | ⟨hpaused, hm⟩
  · rw [AgreesOn, hpaused, hm]
    exact h
  · exact iff_of_true hpaused hm
  · exact iff_of_false hpaused (by rw [hm]; exact Bool.false_ne_true)

theorem Coherent.inStep {g g' : Gate} (h : g.Coherent) (hs : g.InStep g') : g'.Coherent :=
  fun p => AgreesOn.inStep (h p) hs

/-- The requests of the operator, and whether the override is in effect. -/
structure Control where
  pauseRequested : Bool
  resumeRequested : Bool
  globallyPaused : Bool
deriving DecidableEq

/-- What the operator has set of the gate. -/
def control (g : Gate) : Control :=
  ⟨g.pauseRequested, g.resumeRequested, g.globallyPaused⟩

/-- Whether a global pause takes effect. -/
def Event.isGlobalPause : Event → Bool
  | .globalPause _ _ => true
  | _ => false

/-- A change of the gate for the sake of processors.  The operator's requests
wait, the override is in effect or not as before, and while it is, nothing is
resumed. -/
structure Adjusted (g : Gate) (r : Gate × List Event) : Prop where
  inStep : g.InStep r.1
  control : r.1.control = g.control
  paused : g.globallyPaused = true → ∀ q ∈ g.broker.paused, q ∈ r.1.broker.paused
  events : ∀ e ∈ r.2, e.isGlobalPause = false

theorem Adjusted.globallyPaused {g : Gate} {r : Gate × List Event} (h : g.Adjusted r) :
    r.1.globallyPaused = g.globallyPaused :=
  congrArg Control.globallyPaused h.control

/-- What pausing a partition for a processor does. -/
structure PausedFor (g : Gate) (p : Partition) (id : ProcessorId) (r : Gate × List Event) : Prop
    extends Adjusted g r where
  /-- The entry refers to the processor, unless the broker refuses. -/
  attached : r.1.monitor.attached? p = some id ∨ ∃ e, r.2 = [.pausing p, .pauseFailed p e]
  others : ∀ q, q ≠ p → r.1.monitor.attached? q = g.monitor.attached? q
  entry : g.broker.Obliging → ∀ q,
    r.1.monitor.contains q = (g.monitor.contains q || decide (q = p)) ∧
      r.1.monitor.attached? q = if q = p then some id else g.monitor.attached? q

/-- What resuming partitions whose batches are done does. -/
structure ResumedFor (g : Gate) (ps : List Partition) (r : Gate × List Event) : Prop
    extends Adjusted g r where
  attached : ∀ q, r.1.monitor.attached? q = if q ∈ ps then none else g.monitor.attached? q
  entry : g.broker.Obliging → g.globallyPaused = false → ∀ q,
    r.1.monitor.contains q = (g.monitor.contains q && decide (q ∉ ps))

variable (g : Gate)

theorem pausedFor_pause (now : Instant) (p : Partition) (id : ProcessorId) :
    g.PausedFor p id (g.pause now p id) := by
  unfold pause
  split
  · next hentry =>
    have hcontains (q : Partition) := g.monitor.contains_attach p q id
    have hattached (q : Partition) := Monitor.attached?_attach hentry id q
    refine ⟨⟨.of_eq (.refl _) rfl hcontains, rfl, fun _ _ hq => hq, List.forall_mem_nil _⟩,
      Or.inl ?_, fun q hq => ?_, fun _ q => ⟨?_, hattached q⟩⟩
    · rw [hattached, if_pos rfl]
    · rw [hattached, if_neg hq]
    · rw [hcontains]
      by_cases hq : q = p <;> simp [hq, hentry]
  · next hentry =>
    rw [Bool.not_eq_true] at hentry
    rcases g.broker.pause_cases [p] with
      ⟨b, hb, hpaused, hs, -⟩ | ⟨b, e, hb, hpaused, hs, hfails⟩
    · rw [hb]
      have hcontains (q : Partition) := g.monitor.contains_recordPause p q now (some id)
      have hattached (q : Partition) : (g.monitor.recordPause p now (some id)).attached? q =
          if q = p then some id else g.monitor.attached? q := by
        simp [Monitor.attached?_recordPause, hentry]
      refine ⟨⟨⟨hs, fun q => ?_⟩, rfl, fun _ q hq => ?_, by simp [Event.isGlobalPause]⟩,
        Or.inl ?_, fun q hq => ?_, fun _ q => ⟨hcontains q, hattached q⟩⟩
      · rw [hpaused, hcontains]
        by_cases hq : q = p <;> simp [hq]
      · rw [hpaused, Broker.mem_union]
        exact Or.inl hq
      · rw [hattached, if_pos rfl]
      · rw [hattached, if_neg hq]
    · rw [hb]
      exact ⟨⟨.of_eq hs hpaused fun _ => rfl, rfl, fun _ q hq => hpaused ▸ hq,
        by simp [Event.isGlobalPause]⟩, Or.inr ⟨e, rfl⟩, fun _ _ => rfl,
        fun h => absurd hfails h.pause.fails⟩

theorem resumedFor_resume (ps : List Partition) : g.ResumedFor ps (g.resume ps) := by
  -- Entries that are not there have no processor to lose.
  have hheld (q : Partition) :
      (if q ∈ ps.filter g.monitor.contains then none else g.monitor.attached? q) =
        if q ∈ ps then none else g.monitor.attached? q := by
    cases hq : g.monitor.contains q with
    | true => simp [hq]
    | false => simp [hq, Monitor.attached?_of_not_contains hq]
  unfold resume
  split
  · next hnil =>
    rw [List.isEmpty_iff.mp hnil]
    exact ⟨⟨.of_eq (.refl _) rfl fun _ => rfl, rfl, fun _ _ hq => hq, List.forall_mem_nil _⟩,
      by simp, by simp⟩
  · split
    · next hoverride =>
      refine ⟨⟨.of_eq (.refl _) rfl fun q => g.monitor.contains_detachAll q ps, rfl,
        fun _ _ hq => hq, by simp [Event.isGlobalPause]⟩,
        fun q => g.monitor.attached?_detachAll q ps, fun _ hnot => ?_⟩
      rw [hoverride] at hnot
      exact absurd hnot nofun
    · next hoverride =>
      dsimp only
      have hmem (q : Partition) :
          q ∈ ps.filter g.monitor.contains ↔ q ∈ ps ∧ g.monitor.contains q = true :=
        List.mem_filter
      generalize ps.filter g.monitor.contains = held at hheld hmem
      have hgone (q : Partition) : (g.monitor.contains q && decide (q ∉ held)) =
          (g.monitor.contains q && decide (q ∉ ps)) := by
        cases hq : g.monitor.contains q <;> simp [hmem, hq]
      split
      · next hnil =>
        rw [List.isEmpty_iff] at hnil
        subst hnil
        exact ⟨⟨.of_eq (.refl _) rfl fun _ => rfl, rfl, fun _ _ hq => hq, List.forall_mem_nil _⟩,
          hheld, fun _ _ q => by rw [← hgone]; simp⟩
      · rcases g.broker.resume_cases held with
          ⟨b, hb, hpaused, hs, -⟩ | ⟨b, e, hb, hpaused, hs, hfails⟩
        · rw [hb]
          have hcontains (q : Partition) := g.monitor.contains_removeAll q held
          refine ⟨⟨⟨hs, fun q => ?_⟩, rfl, fun h => absurd h hoverride,
            by simp [Event.isGlobalPause]⟩, fun q => ?_, fun _ _ q => ?_⟩
          · rw [hpaused, hcontains]
            by_cases hq : q ∈ held <;> simp [hq]
          · rw [Monitor.attached?_removeAll, hheld]
          · rw [hcontains, hgone]
        · rw [hb]
          refine ⟨⟨.of_eq hs hpaused fun q => g.monitor.contains_detachAll q held, rfl,
            fun _ q hq => hpaused ▸ hq, by simp [Event.isGlobalPause]⟩, fun q => ?_,
            fun h => absurd hfails h.resume.fails⟩
          rw [Monitor.attached?_detachAll, hheld]

/-! ### The operator's override -/

/-- Whether the broker is about to refuse one of the calls that a global pause
makes.  It is not asked to pause anything if every assigned partition is
paused. -/
def refusesPause (g : Gate) : Bool :=
  g.broker.assignmentOutage.fails ||
    (g.broker.pauseOutage.fails && g.broker.assigned.any fun p => !g.monitor.contains p)

theorem refusesPause_of_obliging {g : Gate} (h : g.broker.Obliging) : g.refusesPause = false := by
  have hassignment := Bool.not_eq_true _ ▸ h.assignment.fails
  have hpause := Bool.not_eq_true _ ▸ h.pause.fails
  rw [refusesPause, hassignment, hpause]
  rfl

/-- A global pause takes effect for all partitions that are assigned, or the
broker refuses and it does not take effect. -/
theorem pauseAll_cases (now : Instant) :
    (∃ b free es new total,
        g.pauseAll now =
          ({ g with broker := b, monitor := g.monitor.holdAll now free, globallyPaused := true },
            es ++ [.globalPause new total]) ∧
        (∀ p, p ∈ free ↔ p ∈ g.broker.assigned ∧ g.monitor.contains p = false) ∧
        b.paused = Broker.union g.broker.paused free ∧ g.broker.Served b ∧
        g.refusesPause = false) ∨
      ∃ b e, g.pauseAll now = ({ g with broker := b }, [e]) ∧ e.isGlobalPause = false ∧
        b.paused = g.broker.paused ∧ g.broker.Served b ∧ g.refusesPause = true := by
  have hfree (p : Partition) :
      p ∈ (Partition.sort g.broker.assigned).filter (fun p => !g.monitor.contains p) ↔
        p ∈ g.broker.assigned ∧ g.monitor.contains p = false := by
    simp
  have hany {free : List Partition} (hfree : ∀ p, p ∈ free ↔ p ∈ g.broker.assigned ∧
      g.monitor.contains p = false) :
      (g.broker.assigned.any fun p => !g.monitor.contains p) = !free.isEmpty := by
    rw [Bool.eq_iff_iff]
    simp [List.eq_nil_iff_forall_not_mem, hfree]
  unfold pauseAll
  rcases g.broker.assignment_cases with
    ⟨b, hb, hpaused, hsame, hs, hknown⟩ | ⟨b, e, hb, hpaused, hs, hfails⟩
  · rw [hb]
    dsimp only
    generalize (Partition.sort g.broker.assigned).filter (fun p => !g.monitor.contains p) = free
      at hfree
    have hrefuses : g.refusesPause = (b.pauseOutage.fails && !free.isEmpty) := by
      rw [refusesPause, hknown, hany hfree, hsame, Bool.false_or]
    cases free with
    | nil => exact Or.inl ⟨b, [], [], _, _, rfl, hfree, hpaused, hs, by simp [hrefuses]⟩
    | cons p ps =>
      rcases b.pause_cases (p :: ps) with
        ⟨b', hb', hpaused', hs', hfails⟩ | ⟨b', e, hb', hpaused', hs', hfails⟩
      · simp only [hb']
        exact Or.inl ⟨b', p :: ps, [_], _, _, rfl, hfree, by rw [hpaused', hpaused], hs.trans hs',
          by rw [hrefuses, hfails, Bool.false_and]⟩
      · simp only [hb']
        exact Or.inr ⟨b', _, rfl, rfl, by rw [hpaused', hpaused], hs.trans hs',
          by simp [hrefuses, hfails]⟩
  · rw [hb]
    exact Or.inr ⟨b, _, rfl, rfl, hpaused, hs, by rw [refusesPause, hfails, Bool.true_or]⟩

/-- Every partition without a processor is resumed, or the broker refuses. -/
theorem resumeIdle_cases (scope : String) :
    (∃ b n es,
        g.resumeIdle scope =
          ({ g with broker := b, monitor := g.monitor.removeAll g.monitor.idle }, n, es) ∧
        (∀ e ∈ es, e.isGlobalPause = false) ∧
        b.paused = Broker.without g.broker.paused g.monitor.idle ∧ g.broker.Served b) ∨
      ∃ b e, g.resumeIdle scope = ({ g with broker := b }, 0, [e]) ∧ e.isGlobalPause = false ∧
        b.paused = g.broker.paused ∧ g.broker.Served b ∧ g.broker.resumeOutage.fails = true := by
  unfold resumeIdle
  cases g.monitor.idle with
  | nil =>
    exact Or.inl ⟨g.broker, 0, [], rfl, List.forall_mem_nil _, by rw [Broker.without_nil],
      .refl _⟩
  | cons p ps =>
    rcases g.broker.resume_cases (p :: ps) with
      ⟨b, hb, hpaused, hs, -⟩ | ⟨b, e, hb, hpaused, hs, hfails⟩
    · simp only [hb]
      exact Or.inl ⟨b, _, _, rfl, by simp [Event.isGlobalPause], hpaused, hs⟩
    · simp only [hb]
      exact Or.inr ⟨b, _, rfl, rfl, hpaused, hs, hfails⟩

/-- What taking up the operator's requests does. -/
structure Applied (g g' : Gate) : Prop where
  inStep : g.InStep g'
  attached : ∀ q, g'.monitor.attached? q = g.monitor.attached? q

namespace Applied

variable {g g₁ g₂ : Gate}

/-- A change of the requests and of the override. -/
theorem of_eq (hb : g₁.broker = g.broker) (hm : g₁.monitor = g.monitor) : g.Applied g₁ :=
  ⟨.of_eq (hb ▸ .refl _) (by rw [hb]) fun p => by rw [hm], fun q => by rw [hm]⟩

theorem trans (h₁ : g.Applied g₁) (h₂ : g₁.Applied g₂) : g.Applied g₂ :=
  ⟨h₁.inStep.trans h₂.inStep, fun q => (h₂.attached q).trans (h₁.attached q)⟩

end Applied

theorem applied_pauseAll (now : Instant) : g.Applied (g.pauseAll now).1 := by
  rcases g.pauseAll_cases now with
    ⟨b, free, es, new, total, heq, hfree, hpaused, hs, -⟩ | ⟨b, e, heq, -, hpaused, hs, -⟩
  · rw [heq]
    have hcontains (q : Partition) := g.monitor.contains_holdAll q now free
    refine ⟨⟨hs, fun q => ?_⟩, fun q => g.monitor.attached?_holdAll q now free⟩
    rw [hpaused, hcontains]
    by_cases hq : q ∈ free <;> simp [hq]
  · rw [heq]
    exact ⟨.of_eq hs hpaused fun _ => rfl, fun _ => rfl⟩

theorem applied_resumeIdle (scope : String) : g.Applied (g.resumeIdle scope).1 := by
  rcases g.resumeIdle_cases scope with
    ⟨b, n, es, heq, -, hpaused, hs⟩ | ⟨b, e, heq, -, hpaused, hs, -⟩
  · rw [heq]
    have hcontains (q : Partition) := g.monitor.contains_removeAll q g.monitor.idle
    refine ⟨⟨hs, fun q => ?_⟩, fun q => ?_⟩
    · rw [hpaused, hcontains]
      by_cases hq : q ∈ g.monitor.idle <;> simp [hq]
    · rw [Monitor.attached?_removeAll]
      split
      · next hidle => exact (Monitor.mem_idle_iff.mp hidle).2.symm
      · rfl
  · rw [heq]
    exact ⟨.of_eq hs hpaused fun _ => rfl, fun _ => rfl⟩

theorem applied_applyPause (now : Instant) : g.Applied (g.applyPause now).1 := by
  unfold applyPause
  split
  · have htaken : g.Applied { g with pauseRequested := false } := .of_eq rfl rfl
    exact htaken.trans (applied_pauseAll _ now)
  · exact .of_eq rfl rfl

theorem applied_applyResume : g.Applied g.applyResume.1 := by
  unfold applyResume
  split
  · have htaken : g.Applied { g with resumeRequested := false, globallyPaused := false } :=
      .of_eq rfl rfl
    exact htaken.trans (applied_resumeIdle _ "global")
  · split
    · exact .of_eq rfl rfl
    · exact applied_resumeIdle g "retry"

theorem applied_apply (now : Instant) : g.Applied (g.apply now).1 :=
  (g.applied_applyPause now).trans (applied_applyResume _)

theorem control_resumeIdle (scope : String) : (g.resumeIdle scope).1.control = g.control := by
  rcases g.resumeIdle_cases scope with ⟨b, n, es, heq, -⟩ | ⟨b, e, heq, -⟩ <;> rw [heq] <;> rfl

theorem control_applyResume :
    g.applyResume.1.control =
      ⟨g.pauseRequested, false, !g.resumeRequested && g.globallyPaused⟩ := by
  unfold applyResume
  cases hrequest : g.resumeRequested with
  | true => exact control_resumeIdle _ "global"
  | false =>
    cases hoverride : g.globallyPaused with
    | true => simp [control, hrequest, hoverride]
    | false =>
      have hsame := g.control_resumeIdle "retry"
      simp only [control, hrequest, hoverride] at hsame ⊢
      exact hsame

theorem control_applyPause (now : Instant) :
    (g.applyPause now).1.control =
      ⟨false, g.resumeRequested, (g.pauseRequested && !g.refusesPause) || g.globallyPaused⟩ := by
  unfold applyPause
  cases hrequest : g.pauseRequested with
  | true =>
    have hrefuses : Gate.refusesPause { g with pauseRequested := false } = g.refusesPause := rfl
    rcases Gate.pauseAll_cases { g with pauseRequested := false } now with
      ⟨b, free, es, new, total, heq, -, -, -, hgranted⟩ | ⟨b, e, heq, -, -, -, hrefused⟩
    · rw [if_pos rfl, heq, ← hrefuses, hgranted]
      rfl
    · rw [if_pos rfl, heq, ← hrefuses, hrefused]
      rfl
  | false => simp [control, hrequest]

/-- Once the requests are taken up, the override is in effect if a pause was
requested and granted, or it was before, and no resumption was requested. -/
theorem control_apply (now : Instant) :
    (g.apply now).1.control =
      ⟨false, false,
        !g.resumeRequested && ((g.pauseRequested && !g.refusesPause) || g.globallyPaused)⟩ := by
  have hpause := g.control_applyPause now
  have hresume := (g.applyPause now).1.control_applyResume
  simp only [control, Control.mk.injEq] at hpause
  obtain ⟨hfirst, hsecond, hthird⟩ := hpause
  rw [hfirst, hsecond, hthird] at hresume
  exact hresume

theorem idle_resumeIdle (h : g.broker.resumeOutage.fails = false) (scope : String) :
    (g.resumeIdle scope).1.monitor.idle = [] := by
  rcases g.resumeIdle_cases scope with ⟨b, n, es, heq, -⟩ | ⟨b, e, heq, -, -, -, hfails⟩
  · rw [heq]
    exact g.monitor.idle_removeAll_idle
  · rw [h] at hfails
    cases hfails

/-- Outside the override no partition stays paused that no processor works on. -/
theorem idle_applyResume (h : g.broker.resumeOutage.fails = false)
    (hoff : g.applyResume.1.globallyPaused = false) : g.applyResume.1.monitor.idle = [] := by
  unfold applyResume at hoff ⊢
  split
  · exact idle_resumeIdle { g with resumeRequested := false, globallyPaused := false } h "global"
  · next hrequest =>
    rw [if_neg hrequest] at hoff
    split
    · next hoverride =>
      rw [if_pos hoverride, hoverride] at hoff
      cases hoff
    · exact idle_resumeIdle _ h "retry"

theorem idle_apply (h : g.broker.Obliging) (now : Instant)
    (hoff : (g.apply now).1.globallyPaused = false) : (g.apply now).1.monitor.idle = [] := by
  have hobliging := (g.applied_applyPause now).inStep.served.obliging h
  exact idle_applyResume _ (Bool.not_eq_true _ ▸ hobliging.resume.fails) hoff

/-- While the override stays in effect, nothing is resumed. -/
theorem applyResume_of_globallyPaused (h : g.applyResume.1.globallyPaused = true) :
    g.applyResume = (g, []) := by
  have hcontrol := congrArg Control.globallyPaused g.control_applyResume
  rw [control, h] at hcontrol
  obtain ⟨hrequest, hoverride⟩ := Bool.and_eq_true _ _ ▸ hcontrol.symm
  unfold applyResume
  rw [if_neg (by simpa using hrequest), if_pos hoverride]

/-- If the override is in effect once the requests are taken up, it has taken
effect just now, for every partition that is assigned; or it was in effect
before, and nothing was paused or resumed. -/
theorem override_cases (now : Instant) (h : (g.apply now).1.globallyPaused = true) :
    ((∃ es new total, (g.apply now).2 = es ++ [.globalPause new total]) ∧
        ∀ p ∈ g.broker.assigned, (g.apply now).1.monitor.contains p = true) ∨
      g.globallyPaused = true ∧ (g.apply now).1.broker.paused = g.broker.paused ∧
        ∀ e ∈ (g.apply now).2, e.isGlobalPause = false := by
  have happly : g.apply now = g.applyPause now := by
    have hresume := applyResume_of_globallyPaused (g.applyPause now).1 h
    unfold apply
    simp only [hresume, List.append_nil]
  rw [happly] at h ⊢
  unfold applyPause at h ⊢
  split
  · next hrequest =>
    rw [if_pos hrequest] at h
    rcases Gate.pauseAll_cases { g with pauseRequested := false } now with
      ⟨b, free, es, new, total, heq, hfree, -⟩ | ⟨b, e, heq, he, hpaused, -⟩
    · refine Or.inl ⟨⟨es, new, total, by rw [heq]⟩, fun p hp => ?_⟩
      rw [heq, Monitor.contains_holdAll]
      cases hentry : g.monitor.contains p with
      | true => rfl
      | false => simp [(hfree p).mpr ⟨hp, hentry⟩]
    · rw [heq] at h ⊢
      refine Or.inr ⟨h, hpaused, fun e' he' => ?_⟩
      rw [List.mem_singleton.mp he', he]
  · next hrequest =>
    rw [if_neg hrequest] at h
    exact Or.inr ⟨h, rfl, List.forall_mem_nil _⟩

end Gate
end RecordDispatch
