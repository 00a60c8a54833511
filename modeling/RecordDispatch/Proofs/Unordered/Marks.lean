import RecordDispatch.Proofs.Unordered.Flow
import RecordDispatch.Proofs.Unordered.Guarantees

/-!
# Where the mark of a partition stands in unordered dispatch

A record is open while it waits for a processor or is in the batch of one that
is in flight.  `MarkBetween` says that the mark of a partition separates the
records that polls have returned: those below it are settled, and those that are
open are not below it.  Each processor in flight has one record, so that its
progress covers its batch once it has finished.

The mark moves only when all work in flight has finished, and then nothing is
open any more (`MarkBetween.land`).  `MarksInv` says this of all partitions of
a dispatcher, with one lemma for each part of a cycle and one for revocations.
-/

namespace RecordDispatch

open Dispatch Dispatcher

namespace Dispatch

/-! ## One partition -/

/-- The record waits for a processor or is in the batch of one in flight. -/
def Open (w : Workers) (flying : List ProcessorId) (waiting : List Record) (r : Record) : Prop :=
  r ∈ waiting ∨ ∃ id ∈ flying, ∃ q, w.processor? id = some q ∧ r ∈ q.batch.records

/-- The mark of a partition stands between the records that are settled and
those that are open. -/
structure MarkBetween (w : Workers) (polled : List Record) (flying : List ProcessorId)
    (waiting : List Record) (mark : Option Int) : Prop where
  single : ∀ id ∈ flying, ∀ q, w.processor? id = some q → ∃ r, q.batch.records = [r]
  below : ∀ r ∈ polled, 0 ≤ r.offset →
    Open w flying waiting r ∨ ∃ m, mark = some m ∧ r.offset + 1 ≤ m
  above : polled.Pairwise (·.offset < ·.offset) → ∀ m, mark = some m →
    ∀ r, Open w flying waiting r → m ≤ r.offset

theorem markBetween_nothing (w : Workers) : MarkBetween w [] [] [] none :=
  ⟨nofun, nofun, fun _ _ hm => absurd hm nofun⟩

section MarkBetween

variable {w w' : Workers} {polled : List Record} {flying : List ProcessorId}
  {waiting : List Record} {mark : Option Int}

theorem Open.congr {r : Record} (h : Open w flying waiting r)
    (hw : ∀ id ∈ flying, (w'.processor? id).map (·.batch) = (w.processor? id).map (·.batch)) :
    Open w' flying waiting r := by
  rcases h with hwait | ⟨id, hid, q, hq, hr⟩
  · exact Or.inl hwait
  · have hbatch := hw id hid
    rw [hq, Option.map_some] at hbatch
    obtain ⟨q', hq', hb⟩ := Option.map_eq_some_iff.mp hbatch
    exact Or.inr ⟨id, hid, q', hq', hb ▸ hr⟩

/-- The same records are open after those of a batch have got processors. -/
theorem open_launch {batch : Batch} {rest : List Record} (hw : w.Adds w' batch.singles)
    (hthere : ∀ id ∈ flying, ∃ q, w.processor? id = some q) (r : Record) :
    Open w' (flying ++ (List.range batch.size).map (w.nextId + ·)) rest r ↔
      Open w flying (batch.records ++ rest) r := by
  constructor
  · rintro (hrest | ⟨id, hid, q, hq, hr⟩)
    · exact Or.inl (List.mem_append_right _ hrest)
    · rcases List.mem_append.mp hid with hid | hid
      · exact Or.inr ⟨id, hid, q, (hw.processor?_eq (hthere id hid)) ▸ hq, hr⟩
      · obtain ⟨r', hr', hnew⟩ := hw.exists_single hid
        obtain rfl := Option.some.inj (hnew.symm.trans hq)
        rw [List.mem_singleton.mp hr]
        exact Or.inl (List.mem_append_left _ hr')
  · rintro (hwait | ⟨id, hid, q, hq, hr⟩)
    · rcases List.mem_append.mp hwait with hfirst | hrest
      · obtain ⟨id, hid, hnew⟩ := hw.exists_id hfirst
        exact Or.inr ⟨id, List.mem_append_right _ hid, _, hnew, List.mem_singleton.mpr rfl⟩
      · exact Or.inl hrest
    · exact Or.inr ⟨id, List.mem_append_left _ hid, q, hw.processor? hq, hr⟩

namespace MarkBetween

/-- Of workers the batches of the processors in flight matter only. -/
theorem congr (h : MarkBetween w polled flying waiting mark)
    (hw : ∀ id ∈ flying, (w'.processor? id).map (·.batch) = (w.processor? id).map (·.batch)) :
    MarkBetween w' polled flying waiting mark := by
  refine ⟨fun id hid q' hq' => ?_, fun r hr h0 => ?_, fun hs m hm r hopen => ?_⟩
  · have hbatch := hw id hid
    rw [hq', Option.map_some] at hbatch
    obtain ⟨q, hq, hb⟩ := Option.map_eq_some_iff.mp hbatch.symm
    rw [← hb]
    exact h.single id hid q hq
  · exact (h.below r hr h0).imp_left (·.congr hw)
  · exact h.above hs m hm r (hopen.congr fun id hid => (hw id hid).symm)

/-- A poll returns records.  The mark stands behind one that was returned
before. -/
theorem poll (h : MarkBetween w polled flying waiting mark) (rs : List Record)
    (hmark : ∀ m, mark = some m → ∃ r ∈ polled, r.offset + 1 = m) :
    MarkBetween w (polled ++ rs) flying (waiting ++ rs) mark := by
  refine ⟨h.single, fun r hr h0 => ?_, fun hs m hm r hopen => ?_⟩
  · rcases List.mem_append.mp hr with hold | hnew
    · exact (h.below r hold h0).imp_left (·.imp_left (List.mem_append_left rs))
    · exact Or.inl (Or.inl (List.mem_append_right waiting hnew))
  · obtain ⟨hbefore, -, hacross⟩ := List.pairwise_append.mp hs
    rcases hopen with hwait | hflying
    · rcases List.mem_append.mp hwait with hold | hnew
      · exact h.above hbefore m hm r (Or.inl hold)
      · obtain ⟨r', hr', heq⟩ := hmark m hm
        have := hacross r' hr' r hnew
        omega
    · exact h.above hbefore m hm r (Or.inr hflying)

/-- The records of a batch get processors. -/
theorem launch {batch : Batch} {rest : List Record}
    (h : MarkBetween w polled flying (batch.records ++ rest) mark) (hw : w.Adds w' batch.singles)
    (hthere : ∀ id ∈ flying, ∃ q, w.processor? id = some q) :
    MarkBetween w' polled (flying ++ (List.range batch.size).map (w.nextId + ·)) rest mark := by
  have hopen (r : Record) : Open w' (flying ++ (List.range batch.size).map (w.nextId + ·)) rest r ↔
      Open w flying (batch.records ++ rest) r := open_launch hw hthere r
  refine ⟨fun id hid q hq => ?_, fun r hr h0 => ?_, fun hs m hm r hr => ?_⟩
  · rcases List.mem_append.mp hid with hid | hid
    · exact h.single id hid q ((hw.processor?_eq (hthere id hid)) ▸ hq)
    · obtain ⟨r, -, hnew⟩ := hw.exists_single hid
      obtain rfl := Option.some.inj (hnew.symm.trans hq)
      exact ⟨r, rfl⟩
  · exact (h.below r hr h0).imp_left (hopen r).mpr
  · exact h.above hs m hm r ((hopen r).mp hr)

/-- All work in flight has come to an end, and the mark has moved behind it. -/
theorem land {mark' : Option Int} (h : MarkBetween w polled flying [] mark)
    (hmark : ∀ m, mark = some m → ∃ m', mark' = some m' ∧ m ≤ m')
    (hopen : ∀ r, Open w flying [] r → 0 ≤ r.offset → ∃ m, mark' = some m ∧ r.offset + 1 ≤ m) :
    MarkBetween w polled [] [] mark' := by
  refine ⟨nofun, fun r hr h0 => Or.inr ?_, fun _ _ _ r hr => ?_⟩
  · rcases h.below r hr h0 with hr | ⟨m, hm, hle⟩
    · exact hopen r hr h0
    · obtain ⟨m', hm', hle'⟩ := hmark m hm
      exact ⟨m', hm', Int.le_trans hle hle'⟩
  · rcases hr with hr | ⟨id, hid, -⟩
    · exact absurd hr List.not_mem_nil
    · exact absurd hid List.not_mem_nil

end MarkBetween
end MarkBetween
end Dispatch

namespace UnorderedDispatcher

/-! ## All partitions -/

/-- The mark of every partition stands between what is settled and what is
open. -/
def MarksInv (incoming : List Batch) (d : UnorderedDispatcher) : Prop :=
  ∀ p, MarkBetween d.workers (period p d.journal).polled (flightOf d p) (recordsOf p incoming)
    (d.ledger.mark p)

variable {base : List Broker.Request} {incoming : List Batch} {d d' : UnorderedDispatcher}

theorem marksInv_initial (settings : Settings) (workers : Workers) (broker : Broker) :
    MarksInv [] (initial settings workers broker) :=
  fun _ => markBetween_nothing workers

namespace MarksInv

/-! ### What changes nothing -/

/-- A change after which polled records, batches, processors in flight and marks
are the same. -/
theorem same (h : MarksInv incoming d)
    (hpolled : ∀ p, (period p d'.journal).polled = (period p d.journal).polled)
    (hbatches : ∀ id, (d'.workers.processor? id).map (·.batch) =
      (d.workers.processor? id).map (·.batch))
    (hheld : d'.held = d.held) (hmark : ∀ p, d'.ledger.mark p = d.ledger.mark p) :
    MarksInv incoming d' := by
  intro p
  rw [hpolled, hmark, flightOf, hheld]
  exact (h p).congr fun id _ => hbatches id

theorem quiet (h : MarksInv incoming d) (hq : Quiet d d') : MarksInv incoming d' := by
  obtain ⟨es, hj, hes⟩ := hq.journal
  refine h.same (fun p => ?_) (fun id => by rw [hq.workers]) hq.held fun p => by rw [hq.ledger]
  rw [hj, period_append_quiet hes]

theorem worked (h : MarksInv incoming d) (hw : Worked d d') : MarksInv incoming d' := by
  have htells : Tells (fun e => e.isMinor = true) d d' := by
    obtain ⟨es, hj⟩ := hw.journal
    refine ⟨_, hj, fun e he => ?_⟩
    obtain ⟨e, -, rfl⟩ := List.mem_map.mp (List.mem_reverse.mp he)
    rfl
  exact h.same htells.polled hw.later.batches hw.held fun p => by rw [hw.ledger]

theorem work (h : MarksInv incoming d) (steps : List Nat) : MarksInv incoming (d.work steps) :=
  h.worked (.work d steps)

theorem commit (h : MarksInv incoming d) (forced : Bool) : MarksInv incoming (d.commit forced) := by
  rcases d.commit_cases forced with heq | ⟨accepted, e, he, hw, hh, hl, hj, -⟩
  · rw [heq]
    exact h
  · refine h.same (fun p => ?_) (fun id => by rw [hw]) hh fun p => ?_
    · rw [hj, period_cons, Period.next_of_request? he]
    · rw [hl, Ledger.mark_afterCommit]

end MarksInv

/-! ### Settling -/

/-- Recording the offset of the processors of a partition lowers no mark, and
moves the mark of the partition behind it. -/
theorem mark_settleOne (hl : d.ledger.Ascending) (e : Partition × List ProcessorId) :
    (settleOne d e).ledger.Ascending ∧
      (∀ p m, d.ledger.mark p = some m →
        ∃ m', (settleOne d e).ledger.mark p = some m' ∧ m ≤ m') ∧
      ∀ offset, highest? d.workers e.2 = some offset →
        ∃ m, (settleOne d e).ledger.mark e.1 = some m ∧ offset ≤ m := by
  unfold settleOne
  split
  · next offset hoffset =>
    refine ⟨hl.record e.1 offset, fun p m hm => Ledger.mark_le_record hl e.1 p offset hm,
      fun offset' hoffset' => ?_⟩
    obtain rfl := Option.some.inj (hoffset.symm.trans hoffset')
    exact Ledger.le_mark_record hl e.1 offset
  · next hnone =>
    refine ⟨hl, fun p m hm => ⟨m, hm, Int.le_refl m⟩, fun offset hoffset => ?_⟩
    rw [hnone] at hoffset
    cases hoffset

/-- So does recording the offsets of all processors in flight. -/
theorem mark_settleAll (es : List (Partition × List ProcessorId)) (hl : d.ledger.Ascending) :
    (∀ p m, d.ledger.mark p = some m →
      ∃ m', (es.foldl settleOne d).ledger.mark p = some m' ∧ m ≤ m') ∧
    ∀ e ∈ es, ∀ offset, highest? d.workers e.2 = some offset →
      ∃ m, (es.foldl settleOne d).ledger.mark e.1 = some m ∧ offset ≤ m := by
  induction es generalizing d with
  | nil => exact ⟨fun p m hm => ⟨m, hm, Int.le_refl m⟩, fun e he => absurd he List.not_mem_nil⟩
  | cons e es ih =>
    have hworkers := workers_settleOne d e
    obtain ⟨hascending, hkept, hreached⟩ := mark_settleOne hl e
    rw [List.foldl_cons]
    generalize settleOne d e = d₁ at hworkers hascending hkept hreached ⊢
    obtain ⟨hkepts, hreacheds⟩ := ih hascending
    -- What is reached by one step is kept by the steps that follow.
    refine ⟨fun p m hm => ?_, fun e' he' offset hoffset => ?_⟩
    · obtain ⟨m₁, hm₁, hle₁⟩ := hkept p m hm
      obtain ⟨m₂, hm₂, hle₂⟩ := hkepts p m₁ hm₁
      exact ⟨m₂, hm₂, Int.le_trans hle₁ hle₂⟩
    · rcases List.mem_cons.mp he' with rfl | he'
      · obtain ⟨m₁, hm₁, hle₁⟩ := hreached offset hoffset
        obtain ⟨m₂, hm₂, hle₂⟩ := hkepts e'.1 m₁ hm₁
        exact ⟨m₂, hm₂, Int.le_trans hle₁ hle₂⟩
      · exact hreacheds e' he' offset (hworkers ▸ hoffset)

theorem journal_settleAll (es : List (Partition × List ProcessorId)) (d : UnorderedDispatcher) :
    (es.foldl settleOne d).workers = d.workers ∧
      Tells (fun e => e.isMinor = true) d (es.foldl settleOne d) := by
  induction es generalizing d with
  | nil => exact ⟨rfl, .refl d⟩
  | cons e es ih =>
    obtain ⟨hworkers, htells⟩ := ih (settleOne d e)
    refine ⟨hworkers.trans (workers_settleOne d e), .trans ?_ htells⟩
    unfold settleOne
    split
    · refine Tells.trans (.ofSilent rfl) (.tell _ fun e he => ?_)
      obtain ⟨e, -, rfl⟩ := List.mem_map.mp he
      rfl
    · exact .refl d

/-- No progress of some processors lies above the highest one. -/
theorem committable?_le_highest {w : Workers} {ids : List ProcessorId} {id : ProcessorId} {c : Int}
    (hid : id ∈ ids) (hc : w.committable? id = some c) :
    ∃ offset, highest? w ids = some offset ∧ c ≤ offset := by
  have hmem : c ∈ ids.filterMap w.committable? := List.mem_filterMap.mpr ⟨id, hid, hc⟩
  cases hhighest : highest? w ids with
  | none =>
    rw [highest?, List.max?_eq_none_iff] at hhighest
    rw [hhighest] at hmem
    exact absurd hmem List.not_mem_nil
  | some offset => exact ⟨offset, rfl, (List.max?_eq_some_iff.mp hhighest).2 _ hmem⟩

/-- The offset after the record of a processor that has finished is not above
the highest one. -/
theorem le_highest {w : Workers} {ids : List ProcessorId} {id : ProcessorId} {q : Processor}
    {r : Record} (hid : id ∈ ids) (hq : w.processor? id = some q) (hw : q.WellFormed)
    (hf : q.stage = .finished) (hr : q.batch.records = [r]) (h0 : 0 ≤ r.offset) :
    ∃ offset, highest? w ids = some offset ∧ r.offset + 1 ≤ offset := by
  have hlast : q.handled.getLast? = some r := by
    rw [hw.handled_of_finished hf, hr]
    rfl
  have hnext := Processor.nextOffset_of_getLast? hlast
  have hcommittable : w.committable? id = some (r.offset + 1) := by
    rw [Workers.committable?, hq, Option.bind_some]
    exact Processor.committable?_eq_some.mpr ⟨by omega, hnext⟩
  exact committable?_le_highest hid hcommittable

/-- Work that has finished is recorded and forgotten. -/
theorem MarksInv.forget (h : MarksInv [] d) (hs : FlightInv base [] d) (hl : Landed d) :
    MarksInv [] ((d.held.processors.entries.foldl settleOne d).hold {}) := by
  obtain ⟨hkept, hreached⟩ := mark_settleAll d.held.processors.entries hs.tallies.backed.ascending
  obtain ⟨hworkers, htells⟩ := journal_settleAll d.held.processors.entries d
  intro p
  have hpolled := htells.polled p
  dsimp only [Dispatcher.hold]
  rw [hworkers, hpolled]
  refine (h p).land (hkept p) fun r hr h0 => ?_
  obtain ⟨id, hid, q, hq, hrecord⟩ := hr.resolve_left List.not_mem_nil
  obtain ⟨r', hr'⟩ := (h p).single id hid q hq
  rw [hr', List.mem_singleton] at hrecord
  subst hrecord
  obtain ⟨offset, hoffset, hle⟩ :=
    le_highest hid hq (hs.tallies.wellFormed id q hq) (hl p id hid q hq) hr' h0
  obtain ⟨m, hm, hle'⟩ := hreached _ (mem_entries_flightOf hid) offset hoffset
  exact ⟨m, hm, Int.le_trans hle hle'⟩

theorem MarksInv.settle (h : MarksInv [] d) (hs : FlightInv base [] d) (m : Meanwhile) :
    MarksInv [] (settle d m).1 := by
  obtain ⟨d', hflightInv, hworked, heq | ⟨hlanded, heq⟩⟩ := hs.settle_cases m
  · rw [heq]
    exact h.worked hworked
  · rw [heq]
    exact (h.worked hworked).forget hflightInv hlanded

/-! ### Polled batches -/

theorem MarksInv.polled (h : MarksInv [] d) (hs : FlightInv base [] d) (batches : List Batch) :
    MarksInv batches (d.tell [.polled batches]) := by
  intro p
  refine (h p).poll (recordsOf p batches) fun m hm => ?_
  obtain ⟨done, hpre, -, r, hr, heq⟩ := hs.tallies.backed.mark hm
  exact ⟨r, hpre.subset hr, heq⟩

theorem MarksInv.receive {batch : Batch} (h : MarksInv (batch :: incoming) d)
    (hs : FlightInv base (batch :: incoming) d) : MarksInv incoming (receive d batch) := by
  by_cases hempty : batch.isEmpty = true
  · intro p
    unfold UnorderedDispatcher.receive
    rw [if_pos hempty, ← recordsOf_cons_of_isEmpty hempty]
    exact h p
  · have hlaunched := launched_receive d hempty
    generalize UnorderedDispatcher.receive d batch = d' at hlaunched ⊢
    have hadds : d.workers.Adds d'.workers batch.singles := hlaunched.adds
    obtain ⟨es, hj, hes⟩ := hlaunched.journal
    intro p
    have hrank := h p
    have hthere : ∀ id ∈ flightOf d p, ∃ q, d.workers.processor? id = some q := by
      intro id hid
      obtain ⟨q, hq, -⟩ := (hs.tallies.tally p).exists_processor hid
      exact ⟨q, hq⟩
    have hpolled : (period p d'.journal).polled = (period p d.journal).polled := by
      rw [hj, period_append_quiet hes]
      change ((period p d.journal).next p (.startedSingles _ batch)).polled = _
      simp only [Period.next]
      split <;> rfl
    have hflight : flightOf d' p = flightOf d p ++ if p = batch.partition then
        (List.range batch.size).map (d.workers.nextId + ·) else [] := hlaunched.flight_singles p
    have hledger : d'.ledger = d.ledger := hlaunched.ledger
    rw [recordsOf_cons] at hrank
    rw [hpolled, hledger, hflight]
    split
    · next hp =>
      rw [if_pos hp] at hrank
      exact hrank.launch hadds hthere
    · next hp =>
      rw [if_neg hp, List.nil_append] at hrank
      rw [List.append_nil]
      exact hrank.congr fun id hid => by rw [hadds.processor?_eq (hthere id hid)]

theorem marksInv_receiveAll {batches : List Batch} (hs : FlightInv base batches d)
    (h : MarksInv batches d) : MarksInv [] (batches.foldl UnorderedDispatcher.receive d) := by
  induction batches generalizing d with
  | nil => exact h
  | cons batch batches ih => exact ih hs.receive (h.receive hs)

theorem MarksInv.takeUp (h : MarksInv [] d) (hs : FlightInv base [] d) (batches : List Batch) :
    MarksInv [] (takeUp d batches).1 := by
  have hreceived := marksInv_receiveAll (hs.polled batches) (h.polled hs batches)
  refine MarksInv.commit (MarksInv.quiet ?_ (.report _ rfl)) false
  exact hreceived.quiet (.tellOne _ rfl)

/-! ### Revocations -/

/-- What a revocation leaves of a dispatcher. -/
structure Revoked (ps : List Partition) (d d' : UnorderedDispatcher) : Prop where
  held : ∀ p, d'.held.processors.find? p =
    if p ∈ ps then none else d.held.processors.find? p
  mark : ∀ p, d'.ledger.mark p = if p ∈ ps then none else d.ledger.mark p
  polled : ∀ p, (period p d'.journal).polled =
    if p ∈ ps then [] else (period p d.journal).polled
  batches : ∀ id, (d'.workers.processor? id).map (·.batch) =
    (d.workers.processor? id).map (·.batch)

theorem FlightInv.revoked (h : FlightInv base [] d) (m : Meanwhile) (ps : List Partition) :
    Revoked ps d (d.revoke m ps) := by
  obtain ⟨d₁, hbefore, hafter⟩ := still_revoke d m ps
  have hbatches (id : ProcessorId) := (hafter.batches id).trans (hbefore.batches id)
  unfold Dispatcher.revoke at hbatches ⊢
  split
  · next hnil =>
    obtain rfl := List.isEmpty_iff.mp hnil
    exact ⟨fun _ => rfl, fun _ => rfl, fun _ => rfl, fun _ => rfl⟩
  · next hne =>
    rw [if_neg hne] at hbatches
    have hbegin : FlightInv base [] (d.tell [.revoking ps]) := h.quiet (.tellOne _ rfl)
    obtain ⟨held, hheld, hstaging⟩ := hbegin.drain m ps
    have hpolled := (tells_drain (d.tell [.revoking ps]) m ps).polled
    change DrainWaitInv base _ _ ps held (Held.drain (d.tell [.revoking ps]) m ps).1 _ at hstaging
    generalize Held.drain (d.tell [.revoking ps]) m ps = s at hstaging hpolled hbatches ⊢
    obtain ⟨d₂, offsets⟩ := s
    obtain ⟨hh, hl, hperiod⟩ := d₂.commitRevoked_frame offsets
    refine ⟨fun p => ?_, fun p => ?_, fun p => ?_, hbatches⟩
    · dsimp only [Dispatcher.tell]
      rw [hh, hstaging.held, hheld]
      rfl
    · dsimp only [Dispatcher.tell]
      rw [hl, hstaging.ledger, Ledger.mark_forget]
      rfl
    · change ((period p (d₂.commitRevoked offsets).journal).next p (.revoked ps _)).polled = _
      rw [Period.next]
      split
      · rfl
      · rw [hperiod, hpolled]
        rfl

/-- Nothing is polled, in flight or recorded of partitions that are revoked. -/
theorem MarksInv.revoke (h : MarksInv [] d) (hs : FlightInv base [] d) (m : Meanwhile)
    (ps : List Partition) : MarksInv [] (d.revoke m ps) := by
  have hrevoked := hs.revoked m ps
  intro p
  rw [hrevoked.polled, hrevoked.mark, flightOf, hrevoked.held]
  split
  · exact markBetween_nothing _
  · exact (h p).congr fun id _ => hrevoked.batches id

end UnorderedDispatcher
end RecordDispatch
