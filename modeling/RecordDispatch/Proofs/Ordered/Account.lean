import RecordDispatch.Proofs.Journal

/-!
# The account of a partition in ordered dispatch

An ordered dispatcher owes every record that a poll returned to exactly one
place: it has been handled, or it is upcoming in the processor of its partition,
or it waits for a processor.  `Share` is what a dispatcher holds of a partition,
and `Account` says that the share and the period of the partition agree.

* `balance` is conservation: no record is lost, doubled or moved.
* `covered` says that the ledger has the progress of every processor that is
  gone.  Only that of the present processor may be missing in it.
* The lemmas say what becomes of an account when a processor takes a step, when
  a poll returns records, when a processor starts, and when it is forgotten.
-/

namespace RecordDispatch

namespace Workers

/-- The records that a processor has handled, if there is a processor. -/
def handledOf (w : Workers) (id? : Option ProcessorId) : List Record :=
  ((id?.bind w.processor?).map Processor.handled).getD []

/-- The records that a processor has not handled yet, if there is
a processor. -/
def upcomingOf (w : Workers) (id? : Option ProcessorId) : List Record :=
  ((id?.bind w.processor?).map Processor.upcoming).getD []

variable {w : Workers} {id : ProcessorId} {q : Processor}

@[simp] theorem handledOf_none : w.handledOf none = [] := rfl

@[simp] theorem upcomingOf_none : w.upcomingOf none = [] := rfl

theorem handledOf_some (h : w.processor? id = some q) : w.handledOf (some id) = q.handled := by
  simp [handledOf, h]

theorem upcomingOf_some (h : w.processor? id = some q) :
    w.upcomingOf (some id) = q.upcoming := by
  simp [upcomingOf, h]

end Workers

namespace Dispatch

/-- What an ordered dispatcher holds of a partition. -/
structure Share where
  /-- The processor of the partition. -/
  processor : Option ProcessorId := none
  /-- The records that no processor has got yet. -/
  waiting : List Record := []
  /-- The highest offset that is recorded. -/
  mark : Option Int := none

/-- What a dispatcher holds of a partition agrees with what has happened. -/
structure Account (w : Workers) (s : Period) (p : Partition) (a : Share) : Prop where
  /-- Every polled record is in one place, and in order. -/
  balance : s.handled ++ w.upcomingOf a.processor ++ a.waiting = s.polled
  /-- The processor has handled what was handled last. -/
  suffix : w.handledOf a.processor <:+ s.handled
  member : ∀ id, a.processor = some id → id ∈ s.started
  /-- Of the processors that were started only the present one may still be at
  work. -/
  started : ∀ id ∈ s.started, ∃ q, w.processor? id = some q ∧ q.partition = p ∧
    (a.processor = some id ∨ q.stage = .finished)
  /-- What earlier processors have handled is recorded. -/
  covered : ∀ done r, s.handled = done ++ r :: w.handledOf a.processor → 0 ≤ r.offset →
    ∃ c, a.mark = some c ∧ r.offset + 1 ≤ c

theorem account_nothing (w : Workers) (p : Partition) : Account w {} p {} :=
  ⟨rfl, List.suffix_rfl, nofun, nofun, by simp⟩

namespace Account

variable {w w' : Workers} {s : Period} {p : Partition} {a : Share}

/-- The processor of a partition works on a batch of this partition. -/
theorem exists_processor (h : Account w s p a) {id : ProcessorId} (ha : a.processor = some id) :
    ∃ q, w.processor? id = some q ∧ q.partition = p := by
  obtain ⟨q, hq, hp, -⟩ := h.started id (h.member id ha)
  exact ⟨q, hq, hp⟩

/-- The handled records are the first ones of those polled. -/
theorem polled_starts_with_handled (h : Account w s p a) : s.handled <+: s.polled :=
  ⟨w.upcomingOf a.processor ++ a.waiting, by rw [← List.append_assoc, h.balance]⟩

/-! ### Steps of processors -/

/-- An account looks at processors that were started in its period only, and of
these at the batch, the progress, and whether they have finished. -/
theorem congr (h : Account w s p a)
    (hw : ∀ id ∈ s.started, w.SameProgress w' id) :
    Account w' s p a := by
  have hsame : w'.handledOf a.processor = w.handledOf a.processor ∧
      w'.upcomingOf a.processor = w.upcomingOf a.processor := by
    cases ha : a.processor with
    | none => exact ⟨rfl, rfl⟩
    | some id =>
      obtain ⟨q, hq, -⟩ := h.exists_processor ha
      obtain ⟨q', hq', hb, hn, -⟩ := hw id (h.member id ha) q hq
      rw [Workers.handledOf_some hq, Workers.handledOf_some hq', Workers.upcomingOf_some hq,
        Workers.upcomingOf_some hq']
      simp only [Processor.handled, Processor.upcoming, hb, hn, and_self]
  refine ⟨?_, ?_, h.member, fun id hid => ?_, ?_⟩
  · rw [hsame.2]
    exact h.balance
  · rw [hsame.1]
    exact h.suffix
  · obtain ⟨q, hq, hp, hcase⟩ := h.started id hid
    obtain ⟨q', hq', hb, -, hf⟩ := hw id hid q hq
    refine ⟨q', hq', ?_, hcase.imp_right hf⟩
    rw [Processor.partition, hb]
    exact hp
  · rw [hsame.1]
    exact h.covered

/-- A step of a processor. -/
theorem step (h : Account w s p a) {id : ProcessorId} {q q' : Processor} {r? : Option Record}
    (hq : w.processor? id = some q) (hs : q.Step q' r?)
    (hw : ∀ i, w'.processor? i = if i = id then some q' else w.processor? i) :
    Account w' (s.handleAll (r?.toList.map fun r => (id, r))) p a := by
  have hkeep {i : ProcessorId} (hi : i ≠ id) : w'.processor? i = w.processor? i := by
    rw [hw, if_neg hi]
  by_cases hid : id ∈ s.started
  · have hperiod := Period.handleAll_of_mem hid r?
    have hactive : a.processor = some id := by
      obtain ⟨q₀, hq₀, -, hcase⟩ := h.started id hid
      obtain rfl := Option.some.inj (hq.symm.trans hq₀)
      exact hcase.resolve_right hs.ne_finished
    have hq' : w'.processor? id = some q' := by
      rw [hw, if_pos rfl]
    have hbalance := h.balance
    have hsuffix := h.suffix
    have hcovered := h.covered
    rw [hactive, Workers.handledOf_some hq] at hsuffix hcovered
    rw [hactive, Workers.upcomingOf_some hq, hs.upcoming] at hbalance
    rw [hperiod]
    refine ⟨?_, ?_, h.member, fun i hi => ?_, fun done r hd => ?_⟩
    · rw [hactive, Workers.upcomingOf_some hq', ← hbalance]
      simp only [List.append_assoc]
    · rw [hactive, Workers.handledOf_some hq', hs.handled]
      obtain ⟨before, hb⟩ := hsuffix
      exact ⟨before, by rw [← List.append_assoc, hb]⟩
    · obtain ⟨q₀, hq₀, hp, hcase⟩ := h.started i hi
      by_cases heq : i = id
      · subst heq
        obtain rfl := Option.some.inj (hq.symm.trans hq₀)
        refine ⟨q', hq', ?_, Or.inl hactive⟩
        rw [Processor.partition, hs.batch]
        exact hp
      · exact ⟨q₀, by rw [hkeep heq, hq₀], hp, hcase⟩
    · rw [hactive, Workers.handledOf_some hq', hs.handled, ← List.cons_append,
        ← List.append_assoc] at hd
      exact hcovered done r (List.append_cancel_right hd)
  · -- The processor belongs to another partition or to an earlier period.
    rw [Period.handleAll_of_notMem hid]
    exact h.congr fun i hi => Workers.sameProgress_of_eq (hkeep fun heq => hid (heq ▸ hi))

/-- A processor is asked to stop. -/
theorem stop (h : Account w s p a) (i : ProcessorId) : Account (w.stop i) s p a :=
  h.congr fun id _ => w.sameProgress_stop i id

/-- Other processors are added. -/
theorem add {batches : List Batch} (h : Account w s p a) (hw : w.Adds w' batches) :
    Account w' s p a :=
  h.congr fun id _ => hw.alike id

/-! ### Records that come and go -/

/-- A poll returns records. -/
theorem poll (h : Account w s p a) (rs : List Record) :
    Account w { s with polled := s.polled ++ rs } p { a with waiting := a.waiting ++ rs } := by
  refine ⟨?_, h.suffix, h.member, h.started, h.covered⟩
  have hb := h.balance
  rw [← hb, List.append_assoc, List.append_assoc, List.append_assoc]

/-- A processor is added for records that wait. -/
theorem start {batch : Batch} {rest : List Record} (h : Account w s p a)
    (hw : w.Adds w' [batch]) (hidle : a.processor = none)
    (hwaiting : a.waiting = batch.records ++ rest) (hp : batch.partition = p) :
    Account w' { s with started := s.started ++ [w.nextId] } p
      { a with processor := some w.nextId, waiting := rest } := by
  have hnew : w'.processor? w.nextId = some { batch } := hw.processor?_new (i := 0) rfl
  have hbalance := h.balance
  rw [hidle, hwaiting, Workers.upcomingOf_none, List.append_nil] at hbalance
  refine ⟨?_, ?_, fun id hid => ?_, fun id hid => ?_, fun done r hd => ?_⟩
  · rw [Workers.upcomingOf_some hnew, ← hbalance, List.append_assoc]
    rfl
  · rw [Workers.handledOf_some hnew]
    exact List.nil_suffix
  · obtain rfl := Option.some.inj hid
    exact List.mem_append_right _ (List.mem_singleton.mpr rfl)
  · rcases List.mem_append.mp hid with hid | hid
    · obtain ⟨q, hq, hqp, hcase⟩ := (h.add hw).started id hid
      refine ⟨q, hq, hqp, Or.inr (hcase.resolve_left fun ha => ?_)⟩
      rw [hidle] at ha
      exact absurd ha nofun
    · obtain rfl := List.mem_singleton.mp hid
      exact ⟨_, hnew, hp, Or.inl rfl⟩
  · refine h.covered done r ?_
    rw [hidle, Workers.handledOf_none]
    rwa [Workers.handledOf_some hnew] at hd

/-- A processor that has finished is forgotten, once its progress is
recorded. -/
theorem retire (h : Account w s p a) {id : ProcessorId} {q : Processor}
    (ha : a.processor = some id) (hq : w.processor? id = some q) (hf : q.stage = .finished)
    (hw : q.WellFormed)
    (hm : 0 < q.nextOffset → ∃ c, a.mark = some c ∧ q.nextOffset ≤ c) :
    Account w s p { a with processor := none } := by
  have hbalance := h.balance
  have hsuffix := h.suffix
  have hcovered := h.covered
  rw [ha, Workers.handledOf_some hq] at hsuffix hcovered
  rw [ha, Workers.upcomingOf_some hq, hw.upcoming_of_finished hf] at hbalance
  refine ⟨hbalance, List.nil_suffix, nofun, fun i hi => ?_, fun done r hd h0 => ?_⟩
  · obtain ⟨q₀, hq₀, hp, hcase⟩ := h.started i hi
    refine ⟨q₀, hq₀, hp, Or.inr ?_⟩
    rcases hcase with hactive | hf₀
    · obtain rfl := Option.some.inj (ha.symm.trans hactive)
      obtain rfl := Option.some.inj (hq.symm.trans hq₀)
      exact hf
    · exact hf₀
  · -- The last record was handled by this processor or by an earlier one.
    rw [Workers.handledOf_none] at hd
    cases hl : q.handled.getLast? with
    | none => exact hcovered done r (by rw [List.getLast?_eq_none_iff.mp hl, hd]) h0
    | some r' =>
      have hlast : r = r' := by
        obtain ⟨before, hb⟩ := hsuffix
        have := congrArg List.getLast? (hb.trans hd)
        rw [List.getLast?_append, hl, List.getLast?_concat] at this
        exact (Option.some.inj this).symm
      have hnext := Processor.nextOffset_of_getLast? hl
      subst hlast
      rw [hnext] at hm
      exact hm (by omega)

/-- The ledger may record higher offsets. -/
theorem raise (h : Account w s p a) {mark : Option Int}
    (hm : ∀ c, a.mark = some c → ∃ c', mark = some c' ∧ c ≤ c') :
    Account w s p { a with mark := mark } := by
  refine ⟨h.balance, h.suffix, h.member, h.started, fun done r hd h0 => ?_⟩
  obtain ⟨c, hc, hle⟩ := h.covered done r hd h0
  obtain ⟨c', hc', hle'⟩ := hm c hc
  exact ⟨c', hc', Int.le_trans hle hle'⟩

/-! ### Offsets -/

/-- The progress of the processor of a partition is safe to commit. -/
theorem settled (h : Account w s p a) {id : ProcessorId} {c : Int} (ha : a.processor = some id)
    (hc : w.committable? id = some c) : Settled s c := by
  obtain ⟨q, hq, -⟩ := h.exists_processor ha
  rw [Workers.committable?, hq, Option.bind_some] at hc
  obtain ⟨hpos, hnext⟩ := Processor.committable?_eq_some.mp hc
  rw [← hnext] at hpos
  obtain ⟨r, hr, hoff⟩ := Processor.exists_getLast?_of_nextOffset_pos hpos
  have hsuffix := h.suffix
  rw [ha, Workers.handledOf_some hq] at hsuffix
  exact ⟨s.handled, h.polled_starts_with_handled, fun r hr => hr, r,
    hsuffix.subset (List.mem_of_getLast? hr), by rw [← hoff, hnext]⟩

/-- The progress of the processor or, if it has handled nothing, the mark is the
offset after the last handled record. -/
theorem committable?_or_mark (h : Account w s p a)
    (hm : ∀ c, a.mark = some c → Settled s c)
    (hs : s.polled.Pairwise (·.offset < ·.offset)) {r : Record}
    (hr : s.handled.getLast? = some r) (h0 : 0 ≤ r.offset) :
    (a.processor.bind w.committable?).or a.mark = some (r.offset + 1) := by
  -- With nothing handled by the present processor the mark decides.
  have hmark (hnone : w.handledOf a.processor = []) : a.mark = some (r.offset + 1) := by
    obtain ⟨done, hdone⟩ := List.getLast?_eq_some_iff.mp hr
    obtain ⟨c, hc, hle⟩ := h.covered done r (by rw [hnone, hdone]) h0
    obtain ⟨pre, -, hpre, r', hr', hoff⟩ := hm c hc
    have hascending := hs.sublist h.polled_starts_with_handled.sublist
    have hupper := offset_le_of_getLast? (hascending.imp Int.le_of_lt) hr (hpre r' hr')
    rw [hc]
    congr 1
    omega
  cases ha : a.processor with
  | none =>
    rw [Option.bind_none, Option.none_or]
    exact hmark (by rw [ha, Workers.handledOf_none])
  | some id =>
    obtain ⟨q, hq, -⟩ := h.exists_processor ha
    have hcommittable : w.committable? id = q.committable? := by
      rw [Workers.committable?, hq, Option.bind_some]
    rw [Option.bind_some, hcommittable]
    cases hl : q.handled.getLast? with
    | none =>
      have hnone : q.committable? = none := by
        simp [Processor.committable?, Processor.nextOffset, hl, Processor.nothingProcessed]
      rw [hnone, Option.none_or]
      exact hmark (by rw [ha, Workers.handledOf_some hq, List.getLast?_eq_none_iff.mp hl])
    | some r' =>
      have hsuffix := h.suffix
      rw [ha, Workers.handledOf_some hq] at hsuffix
      obtain ⟨before, hb⟩ := hsuffix
      rw [← hb, List.getLast?_append, hl, Option.some_or] at hr
      obtain rfl := Option.some.inj hr
      have hnext := Processor.nextOffset_of_getLast? hl
      rw [Processor.committable?_eq_some.mpr ⟨by omega, hnext⟩, Option.some_or]

/-- The progress of the processor of a partition has reached the mark. -/
theorem mark_le_committable (h : Account w s p a) (hm : ∀ c, a.mark = some c → Settled s c)
    (hs : s.polled.Pairwise (·.offset < ·.offset)) {id : ProcessorId} {q : Processor}
    (ha : a.processor = some id) (hq : w.processor? id = some q) {c m : Int}
    (hc : q.committable? = some c) (hmark : a.mark = some m) : m ≤ c := by
  obtain ⟨hpos, hnext⟩ := Processor.committable?_eq_some.mp hc
  rw [← hnext] at hpos
  obtain ⟨last, hlast, hoff⟩ := Processor.exists_getLast?_of_nextOffset_pos hpos
  obtain ⟨done, -, hhandled, r, hr, hr'⟩ := hm m hmark
  have hascending := hs.sublist h.polled_starts_with_handled.sublist
  have hsuffix := h.suffix
  rw [ha, Workers.handledOf_some hq] at hsuffix
  obtain ⟨before, hb⟩ := hsuffix
  have hend : s.handled.getLast? = some last := by
    rw [← hb, List.getLast?_append, hlast, Option.some_or]
  have hle := offset_le_of_getLast? (hascending.imp Int.le_of_lt) hend (hhandled r hr)
  omega

end Account
end Dispatch
end RecordDispatch
