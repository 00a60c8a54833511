import RecordDispatch.Proofs.Unordered.Marks

/-!
# What the ledger was told in unordered dispatch

`RecordedInv` says that the processors that are not in flight have finished, and
that the ledger was told of their progress.  What it was told is pending, or it
was handed out for a commit (`Passed`).

A cycle keeps `RecordedInv`, for it polls only when nothing is in flight: the
rebalances that a poll delivers then find nothing to drain.  They hand over what
is pending and forget it.
-/

namespace RecordDispatch

open Dispatch Dispatcher

/-- The offset of a partition in a request to commit. -/
def Broker.Request.offset? (p : Partition) : Broker.Request → Option Int
  | .commit _ offsets _ => offsets.find? p
  | _ => none

/-- The highest offset to commit for the progress of all processors of
a partition. -/
def Workers.progress? (w : Workers) (p : Partition) : Option Int :=
  ((w.processors.filter fun q => q.partition = p).filterMap Processor.committable?).max?

namespace Dispatch

/-! ## What a ledger was told -/

/-- The broker was asked to commit an offset of a partition. -/
def Requested (journal : List Event) (p : Partition) (c : Int) : Prop :=
  ∃ r ∈ requests journal, r.offset? p = some c

/-- A ledger was told of an offset: it is pending, or it was handed out for
a commit. -/
def Passed (l : Ledger) (journal : List Event) (p : Partition) (c : Int) : Prop :=
  l.get? p = some c ∨ Requested journal p c

/-- A ledger was told of an offset or of a higher one. -/
def Reached (l : Ledger) (journal : List Event) (p : Partition) (c : Int) : Prop :=
  ∃ c', Passed l journal p c' ∧ c ≤ c'

/-- A processor has finished, and a ledger was told of its progress. -/
structure FinishedAndPassed (l : Ledger) (journal : List Event) (q : Processor) : Prop where
  finished : q.stage = .finished
  reached : ∀ c, q.committable? = some c → Reached l journal q.partition c

theorem FinishedAndPassed.mono {l l' : Ledger} {journal journal' : List Event} {q : Processor}
    (h : FinishedAndPassed l journal q)
    (hr : ∀ p c, Reached l journal p c → Reached l' journal' p c) :
    FinishedAndPassed l' journal' q :=
  ⟨h.finished, fun c hc => hr q.partition c (h.reached c hc)⟩

theorem Reached.mono {l l' : Ledger} {journal journal' : List Event} {p : Partition} {c : Int}
    (h : Reached l journal p c) (hp : ∀ c, Passed l journal p c → Passed l' journal' p c) :
    Reached l' journal' p c := by
  obtain ⟨c', hc', hle⟩ := h
  exact ⟨c', hp c' hc', hle⟩

section Passed

variable {l : Ledger} {journal : List Event} {p : Partition} {c : Int}

theorem requested_append {es : List Event} (h : ∀ e ∈ es, e.request? = none) :
    Requested (es ++ journal) p c ↔ Requested journal p c := by
  rw [Requested, requests_append_of_none h]
  rfl

theorem requested_cons_commit {e : Event} {mode : CommitMode} {offsets : Offsets} {accepted : Bool}
    (he : e.request? = some (.commit mode offsets accepted)) :
    Requested (e :: journal) p c ↔ offsets.find? p = some c ∨ Requested journal p c := by
  rw [Requested, requests_cons, he]
  simp [Requested, Broker.Request.offset?]

theorem passed_append {es : List Event} (h : ∀ e ∈ es, e.request? = none) :
    Passed l (es ++ journal) p c ↔ Passed l journal p c :=
  or_congr_right (requested_append h)

/-- A commit of what is pending, whether it is accepted or not. -/
theorem passed_commit {e : Event} {mode : CommitMode} {accepted : Bool}
    (he : e.request? = some (.commit mode l.pending accepted)) :
    Passed (l.afterCommit accepted) (e :: journal) p c ↔ Passed l journal p c := by
  have hpending : l.pending.find? p = l.get? p := rfl
  rw [Passed, Passed, Ledger.get?_afterCommit, requested_cons_commit he, hpending]
  cases accepted <;> simp

/-- What is pending is handed over and forgotten. -/
theorem passed_handOver {e : Event} {mode : CommitMode} {ps : List Partition} {accepted : Bool}
    (he : e.request? = some (.commit mode (l.pendingOf ps) accepted)) :
    Passed (l.forget ps) (e :: journal) p c ↔ Passed l journal p c := by
  rw [Passed, Passed, Ledger.get?_forget, requested_cons_commit he, Ledger.find?_pendingOf]
  by_cases hp : p ∈ ps <;> simp [hp]

/-- Nothing is pending of partitions that are forgotten. -/
theorem passed_forget {ps : List Partition} (h : (l.pendingOf ps).isEmpty = true) :
    Passed (l.forget ps) journal p c ↔ Passed l journal p c := by
  have hnone := Table.isEmpty_iff.mp h p
  rw [Ledger.find?_pendingOf] at hnone
  rw [Passed, Passed, Ledger.get?_forget]
  by_cases hp : p ∈ ps
  · rw [if_pos hp] at hnone
    rw [if_pos hp, hnone]
  · rw [if_neg hp]

/-! ### Recording an offset -/

variable {q : Partition} {next : Int}

theorem passed_of_record (h : Passed (l.record p next) journal q c) :
    Passed l journal q c ∨ q = p ∧ c = next := by
  rw [Passed, Ledger.get?_record] at h
  rcases h with h | h
  · split at h
    · next hcond => exact Or.inr ⟨hcond.1, (Option.some.inj h).symm⟩
    · exact Or.inl (Or.inl h)
  · exact Or.inl (Or.inr h)

/-- Offsets only move forward. -/
theorem Reached.record (hl : l.Ascending) (h : Reached l journal q c) :
    Reached (l.record p next) journal q c := by
  obtain ⟨c', hpending | hrequested, hle⟩ := h
  · have hmark : l.mark q = some c' := by simp [Ledger.mark, hpending]
    rcases Ledger.record_cases hl p next with ⟨heq, -⟩ | ⟨hget, hlt, -⟩
    · exact ⟨c', Or.inl (by rw [heq, hpending]), hle⟩
    · by_cases hq : q = p
      · subst hq
        exact ⟨next, Or.inl hget, Int.le_trans hle (Int.le_of_lt (hlt c' hmark))⟩
      · exact ⟨c', Or.inl (by simpa [Ledger.get?_record, hq] using hpending), hle⟩
  · exact ⟨c', Or.inr hrequested, hle⟩

/-- An offset that is ignored was reached before. -/
theorem reached_record (hl : l.Ascending)
    (hf : ∀ c, l.flushed.find? p = some c → Requested journal p c) :
    Reached (l.record p next) journal p next := by
  rcases Ledger.record_cases hl p next with ⟨heq, c, hc, hle⟩ | ⟨hget, -, -⟩
  · rw [heq]
    rcases Ledger.mark_eq_some hc with hpending | ⟨-, hflushed⟩
    · exact ⟨c, Or.inl hpending, hle⟩
    · exact ⟨c, Or.inr (hf c hflushed), hle⟩
  · exact ⟨next, Or.inl hget, Int.le_refl next⟩

end Passed
end Dispatch

namespace UnorderedDispatcher

/-! ## The invariant -/

/-- Processors that are not in flight have finished, and the ledger was told of
their progress. -/
structure RecordedInv (d : UnorderedDispatcher) : Prop where
  /-- What was handed out was requested. -/
  handed : ∀ p c, d.ledger.flushed.find? p = some c → Requested d.journal p c
  ended : ∀ id q, d.workers.processor? id = some q →
    id ∈ flightOf d q.partition ∨ FinishedAndPassed d.ledger d.journal q
  /-- The ledger was told of nothing else. -/
  backed : ∀ p c, Passed d.ledger d.journal p c → ∃ id q, d.workers.processor? id = some q ∧
    q.partition = p ∧ q.stage = .finished ∧ q.committable? = some c

variable {base : List Broker.Request} {d d' : UnorderedDispatcher}

theorem recordedInv_initial (settings : Settings) (size : Nat) (handler : Handler)
    (broker : Broker) :
    RecordedInv (initial settings (Workers.ofSize size handler) broker) := by
  refine ⟨nofun, fun id q hq => absurd hq nofun, ?_⟩
  intro p c hc
  obtain hpending | ⟨r, hr, -⟩ := hc
  · exact absurd hpending nofun
  · exact absurd hr List.not_mem_nil

namespace RecordedInv

/-- Workers go on, and what the ledger was told is the same. -/
theorem same (h : RecordedInv d) (hw : d.workers.Later d'.workers) (hheld : d'.held = d.held)
    (hhanded : ∀ p c, d'.ledger.flushed.find? p = some c → Requested d'.journal p c)
    (hpassed : ∀ p c, Passed d'.ledger d'.journal p c ↔ Passed d.ledger d.journal p c) :
    RecordedInv d' := by
  refine ⟨hhanded, ?_, ?_⟩
  · intro id q' hq'
    obtain ⟨q, hq, hbatch, -⟩ := hw.exists_before hq'
    rw [Processor.partition, hbatch, flightOf, hheld]
    rcases h.ended id q hq with hflying | htold
    · exact Or.inl hflying
    · have hkept := hw.done hq (Processor.isDone_of_finished htold.finished)
      obtain rfl := Option.some.inj (hkept.symm.trans hq')
      exact Or.inr (htold.mono fun p c hc => hc.mono fun c => (hpassed p c).mpr)
  · intro p c hc
    obtain ⟨id, q, hq, hp, hfinished, hcommittable⟩ := h.backed p c ((hpassed p c).mp hc)
    exact ⟨id, q, hw.done hq (Processor.isDone_of_finished hfinished), hp, hfinished,
      hcommittable⟩

/-- Nothing is told of commits, and the ledger is the same. -/
theorem append (h : RecordedInv d) {es : List Event} (hw : d.workers.Later d'.workers)
    (hheld : d'.held = d.held) (hl : d'.ledger = d.ledger) (hj : d'.journal = es ++ d.journal)
    (hes : ∀ e ∈ es, e.request? = none) : RecordedInv d' := by
  refine h.same hw hheld ?_ ?_
  · intro p c hc
    rw [hl] at hc
    rw [hj, requested_append hes]
    exact h.handed p c hc
  · intro p c
    rw [hl, hj, passed_append hes]

theorem quiet (h : RecordedInv d) (hq : Quiet d d') : RecordedInv d' := by
  obtain ⟨es, hj, hes⟩ := hq.journal
  exact h.append (hq.workers ▸ .refl _) hq.held hq.ledger hj fun e he =>
    Event.request?_of_isQuiet (hes e he)

theorem worked (h : RecordedInv d) (hw : Worked d d') : RecordedInv d' := by
  obtain ⟨es, hj⟩ := hw.journal
  exact h.append hw.later hw.held hw.ledger hj fun e he => (Event.isPlain_workers he).1

theorem commit (h : RecordedInv d) (forced : Bool) : RecordedInv (d.commit forced) := by
  rcases d.commit_cases forced with heq | ⟨accepted, e, he, hw, hh, hl, hj, -⟩
  · rw [heq]
    exact h
  · refine h.same (hw ▸ .refl _) hh ?_ ?_
    · intro p c hc
      rw [hl, Ledger.flushed_afterCommit] at hc
      rw [hj, requested_cons_commit he]
      rcases Ledger.mark_eq_some hc with hpending | ⟨-, hflushed⟩
      · exact Or.inl hpending
      · exact Or.inr (h.handed p c hflushed)
    · intro p c
      rw [hl, hj]
      exact passed_commit he

/-! ## Settling -/

/-- Of the offset that is recorded the ledger was told then, or of a higher
one. -/
theorem settleOne (h : RecordedInv d) (hs : FlightInv base [] d) (hl : Landed d)
    {e : Partition × List ProcessorId} (he : d.held.processors.find? e.1 = some e.2) :
    RecordedInv (settleOne d e) ∧
      (∀ p c, Reached d.ledger d.journal p c →
        Reached (settleOne d e).ledger (settleOne d e).journal p c) ∧
      ∀ id ∈ e.2, ∀ c, d.workers.committable? id = some c →
        Reached (settleOne d e).ledger (settleOne d e).journal e.1 c := by
  have hflight := held_flightOf d e.1 e.2 he
  have hascending := hs.tallies.backed.ascending
  unfold UnorderedDispatcher.settleOne
  split
  · next offset hoffset =>
    have hes : ∀ ev ∈ ((d.ledger.recordEvents e.1 offset).map Event.ledger).reverse,
        ev.request? = none := by
      intro ev hev
      obtain ⟨ev, -, rfl⟩ := List.mem_map.mp (List.mem_reverse.mp hev)
      rfl
    have hreached (p : Partition) (c : Int) :
        Reached (d.record e.1 offset).ledger (d.record e.1 offset).journal p c ↔
          Reached (d.ledger.record e.1 offset) d.journal p c :=
      exists_congr fun c' => and_congr_left' (passed_append hes)
    have hkept (p : Partition) (c : Int) (hc : Reached d.ledger d.journal p c) :
        Reached (d.record e.1 offset).ledger (d.record e.1 offset).journal p c :=
      (hreached p c).mpr (hc.record hascending)
    refine ⟨⟨?_, ?_, ?_⟩, hkept, ?_⟩
    · intro p c hc
      exact (requested_append hes).mpr (h.handed p c (by rwa [← Ledger.flushed_record]))
    · intro id q hq
      exact (h.ended id q hq).imp_right fun htold => htold.mono hkept
    · intro p c hc
      rcases passed_of_record ((passed_append hes).mp hc) with hold | ⟨rfl, rfl⟩
      · exact h.backed p c hold
      · obtain ⟨id, hid, hcommittable⟩ := List.mem_filterMap.mp (List.max?_mem hoffset)
        rw [← hflight] at hid
        obtain ⟨q, hq, hp⟩ := (hs.tallies.tally e.1).exists_processor hid
        rw [Workers.committable?, hq, Option.bind_some] at hcommittable
        exact ⟨id, q, hq, hp, hl e.1 id hid q hq, hcommittable⟩
    · intro id hid c hc
      obtain ⟨offset', hoffset', hle⟩ := committable?_le_highest hid hc
      obtain rfl := Option.some.inj (hoffset.symm.trans hoffset')
      obtain ⟨c', hc', hle'⟩ := (hreached e.1 offset).mpr (reached_record hascending (h.handed e.1))
      exact ⟨c', hc', Int.le_trans hle hle'⟩
  · next hnone =>
    refine ⟨h, fun p c hc => hc, ?_⟩
    intro id hid c hc
    obtain ⟨offset, hoffset, -⟩ := committable?_le_highest hid hc
    rw [hnone] at hoffset
    cases hoffset

theorem settleAll (es : List (Partition × List ProcessorId)) (h : RecordedInv d)
    (hs : FlightInv base [] d) (hl : Landed d)
    (hes : ∀ e ∈ es, d.held.processors.find? e.1 = some e.2) :
    let d' := es.foldl UnorderedDispatcher.settleOne d
    RecordedInv d' ∧ (∀ p c, Reached d.ledger d.journal p c → Reached d'.ledger d'.journal p c) ∧
      ∀ e ∈ es, ∀ id ∈ e.2, ∀ c, d.workers.committable? id = some c →
        Reached d'.ledger d'.journal e.1 c := by
  induction es generalizing d with
  | nil => exact ⟨h, fun p c hc => hc, nofun⟩
  | cons e es ih =>
    have he := hes e List.mem_cons_self
    obtain ⟨hrecorded, hkept, hnew⟩ := h.settleOne hs hl he
    have hworkers := workers_settleOne d e
    have hheld := held_settleOne d e
    obtain ⟨hrest, hkepts, hnews⟩ := ih hrecorded (hs.settleOne hl he) (hl.settleOne e)
      fun e' he' => hheld ▸ hes e' (List.mem_cons_of_mem e he')
    refine ⟨hrest, fun p c hc => hkepts p c (hkept p c hc), ?_⟩
    intro e' he' id hid c hc
    rcases List.mem_cons.mp he' with rfl | he'
    · exact hkepts e'.1 c (hnew id hid c hc)
    · exact hnews e' he' id hid c (hworkers ▸ hc)

/-- Work in flight that has finished is recorded and forgotten. -/
theorem forget (h : RecordedInv d) (hs : FlightInv base [] d) (hl : Landed d) :
    RecordedInv ((d.held.processors.entries.foldl UnorderedDispatcher.settleOne d).hold {}) := by
  obtain ⟨hrecorded, hkept, hnews⟩ := h.settleAll d.held.processors.entries hs hl
    fun e he => Table.mem_entries.mp he
  have hworkers := (journal_settleAll d.held.processors.entries d).1
  refine ⟨hrecorded.handed, fun id q hq => Or.inr ?_, hrecorded.backed⟩
  have hq' : d.workers.processor? id = some q := hworkers ▸ hq
  rcases h.ended id q hq' with hflying | htold
  · refine ⟨hl q.partition id hflying q hq', ?_⟩
    intro c hc
    refine hnews _ (mem_entries_flightOf hflying) id hflying c ?_
    rw [Workers.committable?, hq', Option.bind_some, hc]
  · exact htold.mono hkept

/-- After a wait that has come to its end nothing is in flight. -/
theorem settle (h : RecordedInv d) (hs : FlightInv base [] d) (m : Meanwhile) :
    RecordedInv (settle d m).1 ∧ ((settle d m).2 = true → (settle d m).1.held = {}) := by
  obtain ⟨d', hflightInv, hworked, heq | ⟨hlanded, heq⟩⟩ := hs.settle_cases m
  · rw [heq]
    exact ⟨h.worked hworked, fun htrue => absurd htrue Bool.false_ne_true⟩
  · rw [heq]
    exact ⟨(h.worked hworked).forget hflightInv hlanded, fun _ => rfl⟩

/-- With nothing in flight all processors have finished, and the ledger was told
of the highest offset of every partition. -/
theorem of_idle (h : RecordedInv d) (hidle : d.held = {}) :
    (∀ q ∈ d.workers.processors, q.stage = .finished) ∧
      ∀ p c, d.workers.progress? p = some c → Passed d.ledger d.journal p c := by
  have htold {id : ProcessorId} {q : Processor} (hq : d.workers.processor? id = some q) :
      FinishedAndPassed d.ledger d.journal q := by
    refine (h.ended id q hq).resolve_left ?_
    intro hflying
    rw [flightOf, hidle] at hflying
    exact absurd hflying List.not_mem_nil
  constructor
  · intro q hq
    obtain ⟨id, hid⟩ := List.mem_iff_getElem?.mp hq
    exact (htold hid).finished
  · intro p c hc
    obtain ⟨hmem, hmax⟩ := List.max?_eq_some_iff.mp hc
    obtain ⟨q, hq, hcommittable⟩ := List.mem_filterMap.mp hmem
    obtain ⟨hq, hp⟩ := List.mem_filter.mp hq
    obtain ⟨id, hid⟩ := List.mem_iff_getElem?.mp hq
    obtain ⟨c', hpassed, hle⟩ := (htold hid).reached c hcommittable
    rw [of_decide_eq_true hp] at hpassed
    -- What was passed is the progress of some processor, and so it is not higher.
    obtain ⟨id', q', hq', hp', -, hcommittable'⟩ := h.backed p c' hpassed
    have hle' : c' ≤ c := by
      refine hmax c' (List.mem_filterMap.mpr ⟨q', List.mem_filter.mpr ⟨?_, ?_⟩, hcommittable'⟩)
      · exact List.mem_of_getElem? hq'
      · exact decide_eq_true hp'
    exact Int.le_antisymm hle hle' ▸ hpassed

end RecordedInv

/-! ## Rebalances -/

/-- With nothing in flight a drain stops nothing and waits for nothing. -/
theorem drain_of_idle (hidle : d.held = {}) (m : Meanwhile) (ps : List Partition) :
    ∃ d' : UnorderedDispatcher, drain d m ps = (d', d.ledger.pendingOf ps) ∧
      d'.workers = d.workers ∧ d'.held = {} ∧ d'.ledger = d.ledger.forget ps ∧
      d'.journal = d.journal := by
  have hone (p : Partition) : stopOne m (d, []) p = (d, []) := by
    unfold stopOne
    dsimp only
    rw [hidle]
    rfl
  have hall : ps.foldl (stopOne m) (d, []) = (d, []) := by
    induction ps with
    | nil => rfl
    | cons p ps ih => rw [List.foldl_cons, hone, ih]
  unfold drain
  rw [hall]
  exact ⟨_, rfl, rfl, hidle, rfl, rfl⟩

namespace RecordedInv

/-- What is pending of the partitions is handed over. -/
theorem revoke (h : RecordedInv d) (hidle : d.held = {}) (m : Meanwhile) (ps : List Partition) :
    RecordedInv (d.revoke m ps) ∧ (d.revoke m ps).held = {} := by
  unfold Dispatcher.revoke
  split
  · exact ⟨h, hidle⟩
  · obtain ⟨d₁, hdrain, hw₁, hh₁, hl₁, hj₁⟩ :=
      drain_of_idle (d := d.tell [.revoking ps]) hidle m ps
    change Held.drain (d.tell [.revoking ps]) m ps = _ at hdrain
    have hforgotten {p : Partition} {c : Int}
        (hc : (d.ledger.forget ps).flushed.find? p = some c) : Requested d.journal p c := by
      rw [Ledger.flushed_forget] at hc
      split at hc
      · cases hc
      · exact h.handed p c hc
    rw [hdrain]
    dsimp only [Dispatcher.tell] at hw₁ hl₁ hj₁ ⊢
    rcases d₁.commitRevoked_cases (d.ledger.pendingOf ps) with
      ⟨hempty, heq⟩ | ⟨accepted, e, he, -, hw, hh, hl, hj, -⟩
    · rw [heq]
      refine ⟨h.same (hw₁ ▸ .refl _) (hh₁.trans hidle.symm) ?_ ?_, hh₁⟩
      · intro p c hc
        rw [hl₁] at hc
        rw [hj₁]
        exact hforgotten hc
      · intro p c
        rw [hl₁, hj₁]
        exact passed_forget hempty
    · have hheld := hh.trans hh₁
      refine ⟨h.same ((hw.trans hw₁) ▸ .refl _) (hheld.trans hidle.symm) ?_ ?_, hheld⟩
      · intro p c hc
        rw [hl, hl₁] at hc
        rw [hj, hj₁]
        have hrequested : Requested (e :: .revoking ps :: d.journal) p c ↔ _ :=
          requested_cons_commit he
        exact hrequested.mpr (Or.inr (hforgotten hc))
      · intro p c
        rw [hl, hl₁, hj, hj₁]
        have hpassed : Passed (d.ledger.forget ps) (e :: .revoking ps :: d.journal) p c ↔ _ :=
          passed_handOver he
        exact hpassed

end RecordedInv

/-- A dispatcher with nothing in flight. -/
def Rested (d : UnorderedDispatcher) : Prop :=
  RecordedInv d ∧ d.held = {}

theorem kept_rested : Kept Rested where
  quiet h hq := ⟨h.1.quiet hq, hq.held.trans h.2⟩
  work steps h := ⟨h.1.worked (.work _ steps), h.2⟩
  revoke m ps h := h.1.revoke h.2 m ps

/-! ## Cycles -/

namespace RecordedInv

/-- A processor that starts is in flight. -/
theorem receive (h : RecordedInv d) (batch : Batch) : RecordedInv (receive d batch) := by
  by_cases hempty : batch.isEmpty = true
  · unfold UnorderedDispatcher.receive
    rw [if_pos hempty]
    exact h
  · have hlaunched := launched_receive d hempty
    generalize UnorderedDispatcher.receive d batch = d' at hlaunched ⊢
    have hadds : d.workers.Adds d'.workers batch.singles := hlaunched.adds
    have hflight := hlaunched.flight_singles
    have hledger : d'.ledger = d.ledger := hlaunched.ledger
    obtain ⟨es, hj, hes⟩ := hlaunched.journal
    have hrequested {p : Partition} {c : Int} :
        Requested d'.journal p c ↔ Requested d.journal p c := by
      rw [hj]
      exact requested_append fun e he => Event.request?_of_isQuiet (hes e he)
    have hpassed {p : Partition} {c : Int} :
        Passed d'.ledger d'.journal p c ↔ Passed d.ledger d.journal p c := by
      rw [hledger]
      exact or_congr_right hrequested
    refine ⟨?_, ?_, ?_⟩
    · intro p c hc
      exact hrequested.mpr (h.handed p c (hledger ▸ hc))
    · intro id q hq
      rcases hadds.cases_new hq with hold | ⟨i, single, hi, rfl, rfl⟩
      · rcases h.ended id q hold with hflying | htold
        · refine Or.inl ?_
          rw [hflight]
          exact List.mem_append_left _ hflying
        · exact Or.inr (htold.mono fun p c hc => hc.mono fun c => hpassed.mpr)
      · refine Or.inl ?_
        rw [Batch.singles, List.getElem?_map] at hi
        obtain ⟨r, hr, rfl⟩ := Option.map_eq_some_iff.mp hi
        obtain ⟨hlt, -⟩ := List.getElem?_eq_some_iff.mp hr
        rw [hflight]
        refine List.mem_append_right _ ?_
        rw [Processor.partition, if_pos rfl]
        exact List.mem_map.mpr ⟨i, List.mem_range.mpr hlt, rfl⟩
    · intro p c hc
      obtain ⟨id, q, hq, hp, hend⟩ := h.backed p c (hpassed.mp hc)
      exact ⟨id, q, hadds.processor? hq, hp, hend⟩

theorem takeUp (h : RecordedInv d) (batches : List Batch) : RecordedInv (takeUp d batches).1 := by
  have hpolled : RecordedInv (d.tell [.polled batches]) := by
    refine h.append (.refl _) rfl rfl rfl ?_
    intro e he
    rw [List.mem_singleton.mp he]
    rfl
  have hreceived : RecordedInv (batches.foldl UnorderedDispatcher.receive
      (d.tell [.polled batches])) :=
    foldl_keeps id (fun d batch h => RecordedInv.receive h batch) batches _ hpolled
  exact ((hreceived.quiet (.tellOne _ rfl)).quiet (.report _ rfl)).commit false

/-- Once nothing is in flight the broker is polled, and what it returns is taken
up. -/
theorem cycle (h : RecordedInv d) (hs : FlightInv base [] d) (m : Meanwhile) (t : Duration) :
    RecordedInv (cycle d m t).1 := by
  have hquiet : Quiet d (d.elapse t).applyRequests :=
    (Quiet.elapse d t).trans (.applyRequests _)
  obtain ⟨hsettled, hidle⟩ := (h.quiet hquiet).settle (hs.quiet hquiet) m
  unfold UnorderedDispatcher.cycle
  dsimp only
  generalize UnorderedDispatcher.settle (d.elapse t).applyRequests m = s at hsettled hidle ⊢
  obtain ⟨d₁, isSettled⟩ := s
  cases isSettled with
  | false => exact (hsettled.quiet (.report _ rfl)).commit false
  | true =>
    have hpolled := (kept_rested.poll ⟨hsettled, hidle rfl⟩ m).1
    dsimp only
    split
    · next heq =>
      rw [heq] at hpolled
      exact hpolled.quiet (.tellOne _ rfl)
    · next heq =>
      rw [heq] at hpolled
      exact hpolled.takeUp _

end RecordedInv

end UnorderedDispatcher
end RecordDispatch
