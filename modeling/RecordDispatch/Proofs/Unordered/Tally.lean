import RecordDispatch.Dispatch.Unordered
import RecordDispatch.Proofs.JournalInvariant

/-!
# The tally of a partition in unordered dispatch

Records of one partition are handled in any order here, so that the progress of
single processors says nothing about what may be committed.  `Tally` says that
every polled record is in the batch of a processor that was started in the
period, or waits for one; and that of these processors only those in flight may
be unfinished.  Once they have finished, every polled record is handled, and any
of the offsets is safe to commit (`Tally.settled`).

`TalliesInv` is the invariant for all partitions, with one lemma for each kind of
change.
-/

namespace RecordDispatch.Dispatch

/-- What the period of a partition knows of a processor that was started
in it. -/
structure Enrolled (s : Period) (p : Partition) (flying : List ProcessorId) (id : ProcessorId)
    (q : Processor) : Prop where
  partition : q.partition = p
  status : id ∈ flying ∨ q.stage = .finished
  handled : ∀ r ∈ q.handled, r ∈ s.handled
  polled : ∀ r ∈ q.batch.records, r ∈ s.polled

/-- What is in flight of a partition agrees with what has happened. -/
structure Tally (w : Workers) (s : Period) (p : Partition) (flying : List ProcessorId)
    (waiting : List Record) : Prop where
  member : ∀ id ∈ flying, id ∈ s.started
  started : ∀ id ∈ s.started, ∃ q, w.processor? id = some q ∧ Enrolled s p flying id q
  /-- Every polled record waits or has a processor. -/
  polled : ∀ r ∈ s.polled, r ∈ waiting ∨
    ∃ id ∈ s.started, ∃ q, w.processor? id = some q ∧ r ∈ q.batch.records
  waiting : ∀ r ∈ waiting, r ∈ s.polled

theorem tally_nothing (w : Workers) (p : Partition) : Tally w {} p [] [] :=
  ⟨nofun, nofun, nofun, nofun⟩

namespace Tally

variable {w w' : Workers} {s : Period} {p : Partition} {flying : List ProcessorId}
  {waiting : List Record}

/-- The processors of a partition work on batches of this partition. -/
theorem exists_processor (h : Tally w s p flying waiting) {id : ProcessorId}
    (hid : id ∈ flying) : ∃ q, w.processor? id = some q ∧ q.partition = p := by
  obtain ⟨q, hq, he⟩ := h.started id (h.member id hid)
  exact ⟨q, hq, he.partition⟩

/-! ### Steps of processors -/

/-- A tally looks at processors that were started in its period only, and of
these at the batch, the progress, and whether they have finished. -/
theorem congr (h : Tally w s p flying waiting)
    (hw : ∀ id ∈ s.started, w.SameProgress w' id) :
    Tally w' s p flying waiting := by
  refine ⟨h.member, fun id hid => ?_, fun r hr => ?_, h.waiting⟩
  · obtain ⟨q, hq, he⟩ := h.started id hid
    obtain ⟨q', hq', hb, hn, hf⟩ := hw id hid q hq
    refine ⟨q', hq', ?_, he.status.imp_right hf, fun r hr => he.handled r ?_, fun r hr => ?_⟩
    · rw [Processor.partition, hb]
      exact he.partition
    · rwa [Processor.handled, hb, hn] at hr
    · exact he.polled r (hb ▸ hr)
  · rcases h.polled r hr with hwait | ⟨id, hid, q, hq, hmem⟩
    · exact Or.inl hwait
    · obtain ⟨q', hq', hb, -⟩ := hw id hid q hq
      exact Or.inr ⟨id, hid, q', hq', hb ▸ hmem⟩

/-- A step of a processor. -/
theorem step (h : Tally w s p flying waiting) {id : ProcessorId} {q q' : Processor}
    {r? : Option Record} (hq : w.processor? id = some q) (hs : q.Step q' r?)
    (hw : ∀ i, w'.processor? i = if i = id then some q' else w.processor? i) :
    Tally w' (s.handleAll (r?.toList.map fun r => (id, r))) p flying waiting := by
  have hkeep {i : ProcessorId} (hi : i ≠ id) : w'.processor? i = w.processor? i := by
    rw [hw, if_neg hi]
  by_cases hid : id ∈ s.started
  · have hperiod := Period.handleAll_of_mem hid r?
    have hq' : w'.processor? id = some q' := by
      rw [hw, if_pos rfl]
    rw [hperiod]
    refine ⟨h.member, fun i hi => ?_, fun r hr => ?_, h.waiting⟩
    · obtain ⟨q₀, hq₀, he⟩ := h.started i hi
      by_cases heq : i = id
      · subst heq
        obtain rfl := Option.some.inj (hq.symm.trans hq₀)
        refine ⟨q', hq', ?_, Or.inl (he.status.resolve_right hs.ne_finished), fun r hr => ?_,
          fun r hr => ?_⟩
        · rw [Processor.partition, hs.batch]
          exact he.partition
        · rw [hs.handled] at hr
          rcases List.mem_append.mp hr with hr | hr
          · exact List.mem_append_left _ (he.handled r hr)
          · exact List.mem_append_right _ hr
        · exact he.polled r (hs.batch ▸ hr)
      · refine ⟨q₀, by rw [hkeep heq, hq₀], he.partition, he.status, fun r hr => ?_, he.polled⟩
        exact List.mem_append_left _ (he.handled r hr)
    · rcases h.polled r hr with hwait | ⟨i, hi, q₀, hq₀, hmem⟩
      · exact Or.inl hwait
      · by_cases heq : i = id
        · subst heq
          obtain rfl := Option.some.inj (hq.symm.trans hq₀)
          exact Or.inr ⟨i, hi, q', hq', hs.batch ▸ hmem⟩
        · exact Or.inr ⟨i, hi, q₀, by rw [hkeep heq, hq₀], hmem⟩
  · -- The processor belongs to another partition or to an earlier period.
    rw [Period.handleAll_of_notMem hid]
    exact h.congr fun i hi => Workers.sameProgress_of_eq (hkeep fun heq => hid (heq ▸ hi))

/-- A processor is asked to stop. -/
theorem stop (h : Tally w s p flying waiting) (i : ProcessorId) :
    Tally (w.stop i) s p flying waiting :=
  h.congr fun id _ => w.sameProgress_stop i id

/-- Other processors are added. -/
theorem add {batches : List Batch} (h : Tally w s p flying waiting) (hw : w.Adds w' batches) :
    Tally w' s p flying waiting :=
  h.congr fun id _ => hw.alike id

/-! ### Records that come and go -/

/-- A poll returns records. -/
theorem poll (h : Tally w s p flying waiting) (rs : List Record) :
    Tally w { s with polled := s.polled ++ rs } p flying (waiting ++ rs) := by
  refine ⟨h.member, fun id hid => ?_, fun r hr => ?_, fun r hr => ?_⟩
  · obtain ⟨q, hq, he⟩ := h.started id hid
    exact ⟨q, hq, he.partition, he.status, he.handled, fun r hr =>
      List.mem_append_left _ (he.polled r hr)⟩
  · rcases List.mem_append.mp hr with hr | hr
    · exact (h.polled r hr).imp_left (List.mem_append_left _)
    · exact Or.inl (List.mem_append_right _ hr)
  · rcases List.mem_append.mp hr with hr | hr
    · exact List.mem_append_left _ (h.waiting r hr)
    · exact List.mem_append_right _ hr

/-- The records of a batch wait no more once each has a processor. -/
theorem launch {batch : Batch} {rest : List Record}
    (h : Tally w s p flying (batch.records ++ rest)) (hw : w.Adds w' batch.singles)
    (hp : batch.partition = p) :
    Tally w'
      { s with started := s.started ++ (List.range batch.size).map (w.nextId + ·) } p
      (flying ++ (List.range batch.size).map (w.nextId + ·)) rest := by
  have hold := h.add hw
  refine ⟨fun id hid => ?_, fun id hid => ?_, fun r hr => ?_, fun r hr => ?_⟩
  · rcases List.mem_append.mp hid with hid | hid
    · exact List.mem_append_left _ (h.member id hid)
    · exact List.mem_append_right _ hid
  · rcases List.mem_append.mp hid with hid | hid
    · obtain ⟨q, hq, he⟩ := hold.started id hid
      exact ⟨q, hq, he.partition, he.status.imp_left (List.mem_append_left _), he.handled,
        he.polled⟩
    · obtain ⟨r, hr, hq⟩ := hw.exists_single hid
      refine ⟨_, hq, hp, Or.inl (List.mem_append_right _ hid), List.forall_mem_nil _,
        fun r' hr' => ?_⟩
      rw [List.mem_singleton.mp hr']
      exact h.waiting r (List.mem_append_left _ hr)
  · rcases hold.polled r hr with hwait | ⟨id, hid, q, hq, hmem⟩
    · rcases List.mem_append.mp hwait with hfirst | hrest
      · obtain ⟨id, hid, hq⟩ := hw.exists_id hfirst
        exact Or.inr ⟨id, List.mem_append_right _ hid, _, hq, List.mem_singleton.mpr rfl⟩
      · exact Or.inl hrest
    · exact Or.inr ⟨id, List.mem_append_left _ hid, q, hq, hmem⟩
  · exact h.waiting r (List.mem_append_right _ hr)

/-- Processors that have finished are in flight no more. -/
theorem land (h : Tally w s p flying waiting)
    (hf : ∀ id ∈ flying, ∀ q, w.processor? id = some q → q.stage = .finished) :
    Tally w s p [] waiting := by
  refine ⟨nofun, fun id hid => ?_, h.polled, h.waiting⟩
  obtain ⟨q, hq, he⟩ := h.started id hid
  refine ⟨q, hq, he.partition, Or.inr ?_, he.handled, he.polled⟩
  rcases he.status with hflying | hfinished
  · exact hf id hflying q hq
  · exact hfinished

/-! ### Offsets -/

/-- Once all processors of a partition have finished, every polled record is
handled. -/
theorem all_handled (h : Tally w s p flying [])
    (hw : ∀ id q, w.processor? id = some q → q.WellFormed)
    (hf : ∀ id ∈ flying, ∀ q, w.processor? id = some q → q.stage = .finished) :
    ∀ r ∈ s.polled, r ∈ s.handled := by
  intro r hr
  obtain ⟨id, hid, q, hq, hmem⟩ := (h.polled r hr).resolve_left List.not_mem_nil
  obtain ⟨q₀, hq₀, he⟩ := (h.land hf).started id hid
  obtain rfl := Option.some.inj (hq.symm.trans hq₀)
  have hfinished : q.stage = .finished := he.status.resolve_left List.not_mem_nil
  refine he.handled r ?_
  rw [(hw id q hq).handled_of_finished hfinished]
  exact hmem

/-- Then the highest of their offsets is safe to commit. -/
theorem settled (h : Tally w s p flying [])
    (hw : ∀ id q, w.processor? id = some q → q.WellFormed)
    (hf : ∀ id ∈ flying, ∀ q, w.processor? id = some q → q.stage = .finished) {c : Int}
    (hc : UnorderedDispatcher.highest? w flying = some c) : Settled s c := by
  have hmem := List.max?_mem hc
  obtain ⟨id, hid, hcommittable⟩ := List.mem_filterMap.mp hmem
  obtain ⟨q, hq, he⟩ := h.started id (h.member id hid)
  rw [Workers.committable?, hq, Option.bind_some] at hcommittable
  obtain ⟨hpos, hnext⟩ := Processor.committable?_eq_some.mp hcommittable
  rw [← hnext] at hpos
  obtain ⟨r, hr, hoff⟩ := Processor.exists_getLast?_of_nextOffset_pos hpos
  have hrecord : r ∈ q.batch.records := by
    rw [← q.handled_append_upcoming]
    exact List.mem_append_left _ (List.mem_of_getLast? hr)
  exact ⟨s.polled, List.prefix_rfl, h.all_handled hw hf, r, he.polled r hrecord,
    by rw [← hoff, hnext]⟩

end Tally

/-! ## All partitions -/

/-- Workers, journal, ledger and the processors in flight agree. -/
structure TalliesInv (w : Workers) (journal : List Event) (l : Ledger)
    (flying : Partition → List ProcessorId) (waiting : Partition → List Record) : Prop
    extends JournalInv w journal l where
  tally : ∀ p, Tally w (period p journal) p (flying p) (waiting p)

namespace TalliesInv

variable {w w' : Workers} {journal : List Event} {l : Ledger}
  {flying : Partition → List ProcessorId} {waiting : Partition → List Record}

/-- A task takes a step. -/
theorem step (h : TalliesInv w journal l flying waiting) (i : Nat) :
    TalliesInv (w.step i).1 (((w.step i).2.map Event.workers).reverse ++ journal) l flying
      waiting := by
  refine ⟨h.toJournalInv.step i, fun p => ?_⟩
  rw [period_append_workers]
  cases w.step_cases i with
  | none hp he =>
    rw [he]
    exact (h.tally p).congr fun id _ => Workers.sameProgress_of_eq (hp id)
  | one id q q' r? hq hs hp he =>
    rw [he]
    exact (h.tally p).step hq hs hp

/-- A processor is asked to stop. -/
theorem stop (h : TalliesInv w journal l flying waiting) (id : ProcessorId) :
    TalliesInv (w.stop id) journal l flying waiting :=
  ⟨h.toJournalInv.stop id, fun p => (h.tally p).stop id⟩

theorem append_quiet (h : TalliesInv w journal l flying waiting) {es : List Event}
    (hes : ∀ e ∈ es, e.isQuiet = true) : TalliesInv w (es ++ journal) l flying waiting := by
  refine ⟨h.toJournalInv.append fun e he => Event.isPlain_of_isQuiet (hes e he), fun p => ?_⟩
  rw [period_append_quiet hes]
  exact h.tally p

/-- A poll returns batches, and their records wait. -/
theorem poll (h : TalliesInv w journal l flying waiting) (batches : List Batch) :
    TalliesInv w (.polled batches :: journal) l flying fun p => waiting p ++ recordsOf p batches :=
  ⟨h.toJournalInv.cons ⟨rfl, nofun⟩, fun p => (h.tally p).poll (recordsOf p batches)⟩

/-- A processor starts for each record of a batch. -/
theorem launch (h : TalliesInv w journal l flying waiting) {batch : Batch}
    {flying' : Partition → List ProcessorId} {waiting' : Partition → List Record}
    (hw : w.Adds w' batch.singles)
    (hwaiting : ∀ p, waiting p =
      (if p = batch.partition then batch.records else []) ++ waiting' p)
    (hflying : ∀ p, flying' p = flying p ++
      if p = batch.partition then (List.range batch.size).map (w.nextId + ·) else []) :
    TalliesInv w'
      (.startedSingles ((List.range batch.size).map (w.nextId + ·)) batch :: journal) l flying'
      waiting' := by
  refine ⟨(h.toJournalInv.add hw).cons ⟨rfl, nofun⟩, fun p => ?_⟩
  have htally := h.tally p
  rw [hwaiting] at htally
  rw [hflying, period_cons, Period.next]
  by_cases hp : p = batch.partition
  · subst hp
    rw [if_pos rfl] at htally ⊢
    rw [if_pos rfl]
    exact htally.launch hw rfl
  · rw [if_neg hp, List.nil_append] at htally
    rw [if_neg hp, if_neg (Ne.symm hp), List.append_nil]
    exact htally.add hw

/-- A commit is requested, and the ledger is brought up to date. -/
theorem request (h : TalliesInv w journal l flying waiting) {l' : Ledger} {e : Event}
    {r : Broker.Request} (he : e.request? = some r) (hg : JournalInv w (e :: journal) l') :
    TalliesInv w (e :: journal) l' flying waiting := by
  refine ⟨hg, fun p => ?_⟩
  rw [period_cons, Period.next_of_request? he]
  exact h.tally p

/-- The periods of partitions end. -/
theorem revoked (h : TalliesInv w journal l flying waiting) {ps : List Partition} (n : Nat)
    {flying' : Partition → List ProcessorId} {waiting' : Partition → List Record}
    (hforgotten : ∀ p ∈ ps, l.mark p = none)
    (hflying : ∀ p, flying' p = if p ∈ ps then [] else flying p)
    (hwaiting : ∀ p, waiting' p = if p ∈ ps then [] else waiting p) :
    TalliesInv w (.revoked ps n :: journal) l flying' waiting' := by
  refine ⟨h.toJournalInv.revoked n hforgotten, fun p => ?_⟩
  rw [hflying, hwaiting, period_cons, Period.next]
  by_cases hp : p ∈ ps
  · rw [if_pos hp, if_pos hp, if_pos hp]
    exact tally_nothing w p
  · rw [if_neg hp, if_neg hp, if_neg hp]
    exact h.tally p

end TalliesInv
end RecordDispatch.Dispatch
