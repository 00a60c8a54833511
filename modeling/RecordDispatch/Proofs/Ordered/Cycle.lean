import RecordDispatch.Proofs.Dispatcher
import RecordDispatch.Proofs.Ordered.AccountsInvariant

/-!
# The cycle of an ordered dispatcher

`LanesInv` is the invariant between the calls of an ordered dispatcher, and also
while a cycle takes up what a poll has returned: what is still to be taken up is
a parameter.  There is one lemma for each step of a cycle.

* `receive`: a batch is deferred if its partition is busy, and started
  otherwise.
* `harvest`: the progress of every processor is recorded.  A partition that is
  reported as done is `Harvested`: its processor is done and all that it has
  handled is recorded.
* `retire`: processors of harvested partitions are forgotten, and deferred
  records take their place.
-/

namespace RecordDispatch.OrderedDispatcher

open Dispatch

/-- The deferred records of a partition. -/
def deferredRecords (d : OrderedDispatcher) (p : Partition) : List Record :=
  ((d.held.deferred.find? p).map Batch.records).getD []

/-- What a dispatcher holds of a partition while it takes up polled batches. -/
def share (incoming : List Batch) (d : OrderedDispatcher) (p : Partition) : Share where
  processor := d.held.active.find? p
  waiting := d.deferredRecords p ++ recordsOf p incoming
  mark := d.ledger.mark p

/-- A dispatcher accounts for what was held of partitions, with the ledger that
goes with it. -/
structure Accounted (base : List Broker.Request) (shares : Partition → Share) (l : Ledger)
    (d : OrderedDispatcher) : Prop where
  accounts : AccountsInv d.workers d.journal l shares
  active : ∀ p id, d.held.active.find? p = some id → (shares p).processor = some id
  /-- No active processor was asked to stop. -/
  unstopped : ∀ p id, d.held.active.find? p = some id → d.workers.Unstopped id
  linked : d.Linked base

/-- An ordered dispatcher accounts for its lanes and for the polled batches that
it has still to take up. -/
structure LanesInv (base : List Broker.Request) (incoming : List Batch)
    (d : OrderedDispatcher) : Prop extends Accounted base (share incoming d) d.ledger d where
  /-- Records are deferred for busy partitions only. -/
  deferred : ∀ p b, d.held.deferred.find? p = some b →
    b.partition = p ∧ d.held.active.contains p = true

/-! ## Changes of any dispatcher -/

section Changes

variable {base : List Broker.Request} {shares : Partition → Share} {l : Ledger}
  {d d' : OrderedDispatcher}

theorem Accounted.quiet (h : Accounted base shares l d) (hq : Dispatcher.Quiet d d') :
    Accounted base shares l d' := by
  obtain ⟨es, hj, hes⟩ := hq.journal
  refine ⟨?_, ?_, ?_, ?_⟩
  · rw [hq.workers, hj]
    exact h.accounts.append_quiet hes
  · rw [hq.held]
    exact h.active
  · rw [hq.held, hq.workers]
    exact h.unstopped
  · exact h.linked.quiet hq

theorem Accounted.work (h : Accounted base shares l d) (steps : List Nat) :
    Accounted base shares l (d.work steps) := by
  refine ⟨?_, h.active, fun p id ha => ?_, h.linked.work steps⟩
  · exact Dispatcher.work_induction (P := fun w journal => AccountsInv w journal l shares) d steps
      (fun _ _ i h => h.step i) h.accounts
  · exact (h.unstopped p id ha).later (d.work_later steps)

/-- Different partitions have different processors. -/
theorem Accounted.ne_of_ne (h : Accounted base shares l d) {p q : Partition}
    {i j : ProcessorId} (hi : (shares p).processor = some i) (hj : (shares q).processor = some j)
    (hne : q ≠ p) : j ≠ i := by
  rintro rfl
  obtain ⟨q₁, hq₁, hp₁⟩ := (h.accounts.account p).exists_processor hi
  obtain ⟨q₂, hq₂, hp₂⟩ := (h.accounts.account q).exists_processor hj
  obtain rfl := Option.some.inj (hq₁.symm.trans hq₂)
  exact hne (hp₂.symm.trans hp₁)

end Changes

namespace LanesInv

variable {base : List Broker.Request} {incoming : List Batch} {d d' : OrderedDispatcher}

theorem quiet (h : LanesInv base incoming d) (hq : Dispatcher.Quiet d d') :
    LanesInv base incoming d' := by
  have hshare : share incoming d' = share incoming d := by
    funext p
    simp only [share, deferredRecords, hq.held, hq.ledger]
  refine ⟨?_, ?_⟩
  · rw [hshare, hq.ledger]
    exact h.toAccounted.quiet hq
  · rw [hq.held]
    exact h.deferred

theorem work (h : LanesInv base incoming d) (steps : List Nat) :
    LanesInv base incoming (d.work steps) :=
  ⟨h.toAccounted.work steps, h.deferred⟩

theorem pass (h : LanesInv base incoming d) (m : Meanwhile) (point : Point) :
    LanesInv base incoming (d.pass m point) :=
  h.work _

theorem commit (h : LanesInv base incoming d) (forced : Bool) :
    LanesInv base incoming (d.commit forced) := by
  rcases d.commit_cases forced with heq | ⟨accepted, e, he, hw, hh, hl, hj, hb⟩
  · rw [heq]
    exact h
  · have hshare : share incoming (d.commit forced) = share incoming d := by
      funext p
      simp only [share, deferredRecords, hh, hl, Ledger.mark_afterCommit]
    refine ⟨⟨?_, ?_, ?_, ?_⟩, ?_⟩
    · rw [hshare, hw, hl, hj]
      exact h.accounts.request he (h.accounts.toJournalInv.commit he)
    · exact fun _ _ ha => ha
    · rw [hh, hw]
      exact h.unstopped
    · exact h.linked.request he hb hj
    · rw [hh]
      exact h.deferred

/-- An offset is recorded that is settled. -/
theorem record (h : LanesInv base incoming d) {p : Partition} {next : Int}
    (hn : Settled (period p d.journal) next) : LanesInv base incoming (d.record p next) := by
  have hrecord : LanesInv base incoming { d with ledger := d.ledger.record p next } :=
    ⟨⟨h.accounts.record (fun _ => rfl) hn, fun _ _ ha => ha, h.unstopped, h.linked⟩,
      h.deferred⟩
  refine hrecord.quiet (.tell _ fun e he => ?_)
  obtain ⟨e, -, rfl⟩ := List.mem_map.mp he
  rfl

/-! ## Polled batches -/

/-- A poll returns batches. -/
theorem polled (h : LanesInv base [] d) (batches : List Batch) :
    LanesInv base batches (d.tell [.polled batches]) := by
  refine ⟨⟨?_, fun _ _ ha => ha, h.unstopped, h.linked⟩, h.deferred⟩
  have hpoll := h.accounts.poll batches
  have hshare : (fun p => { share [] d p with
      waiting := (share [] d p).waiting ++ recordsOf p batches }) =
      share batches (d.tell [.polled batches]) := by
    funext p
    simp only [share, recordsOf, List.filter_nil, List.flatMap_nil, List.append_nil]
    rfl
  rw [hshare] at hpoll
  exact hpoll

/-- An empty batch may be left aside. -/
theorem skip {batch : Batch} (h : LanesInv base (batch :: incoming) d)
    (hempty : batch.isEmpty = true) : LanesInv base incoming d := by
  have hshare : share (batch :: incoming) d = share incoming d := by
    funext p
    rw [share, recordsOf_cons_of_isEmpty hempty]
    rfl
  exact ⟨⟨hshare ▸ h.accounts, fun _ _ ha => ha, h.unstopped, h.linked⟩, h.deferred⟩

/-- A batch of a busy partition is put behind what is deferred. -/
theorem defer {batch : Batch} (h : LanesInv base (batch :: incoming) d)
    (hbusy : d.held.active.contains batch.partition = true) :
    LanesInv base incoming (defer d batch) := by
  have hdeferred (p : Partition) : (OrderedDispatcher.defer d batch).deferredRecords p =
      d.deferredRecords p ++ if p = batch.partition then batch.records else [] := by
    unfold deferredRecords OrderedDispatcher.defer
    by_cases hp : p = batch.partition
    · subst hp
      cases hfind : d.held.deferred.find? batch.partition <;>
        simp [Dispatcher.hold, Dispatcher.tell, hfind]
    · simp [Dispatcher.hold, Dispatcher.tell, hp]
  have hshare : share incoming (OrderedDispatcher.defer d batch) =
      share (batch :: incoming) d := by
    funext p
    rw [share, share, hdeferred, recordsOf_cons, List.append_assoc]
    rfl
  refine ⟨⟨?_, fun _ _ ha => ha, h.unstopped, h.linked⟩, fun p b hb => ?_⟩
  · rw [hshare]
    exact h.accounts.cons_quiet rfl
  · simp only [OrderedDispatcher.defer, Dispatcher.hold, Dispatcher.tell,
      Table.find?_insert] at hb
    split at hb
    · next hp =>
      rw [hp]
      refine ⟨?_, hbusy⟩
      rw [← Option.some.inj hb]
      cases hfind : d.held.deferred.find? batch.partition with
      | none => rfl
      | some earlier => exact (h.deferred _ _ hfind).1
    · exact h.deferred p b hb

/-- A processor is started for a batch of an idle partition. -/
theorem start {batch : Batch} (h : LanesInv base (batch :: incoming) d)
    (hidle : d.held.active.find? batch.partition = none) :
    LanesInv base incoming (start d batch) := by
  have hnone : d.held.deferred.find? batch.partition = none := by
    cases hfind : d.held.deferred.find? batch.partition with
    | none => rfl
    | some b =>
      have hbusy := (h.deferred _ b hfind).2
      rw [Table.contains, hidle] at hbusy
      cases hbusy
  have hadds : d.workers.Adds _ [batch] := d.workers.adds_submit batch d.workers.nextId
  have hwaiting : (share (batch :: incoming) d batch.partition).waiting =
      batch.records ++ recordsOf batch.partition incoming := by
    simp only [share, deferredRecords, hnone, recordsOf_cons, if_pos, Option.map_none,
      Option.getD_none, List.nil_append]
  unfold OrderedDispatcher.start
  refine LanesInv.quiet ?_ (.withGate _ (Gate.commitRequests_pause _ _ _ _))
  refine ⟨⟨?_, fun _ _ ha => ha, fun p id ha => ?_, h.linked⟩, fun p b hb => ?_⟩
  · refine AccountsInv.cons_quiet ?_ rfl
    refine h.accounts.start hadds hidle hwaiting fun p => ?_
    simp only [share, deferredRecords, Dispatcher.hold, Dispatcher.submit,
      Dispatcher.withWorkers, Dispatcher.tell, Table.find?_insert, recordsOf_cons]
    by_cases hp : p = batch.partition
    · subst hp
      simp [hnone]
    · simp [hp]
  · simp only [Dispatcher.hold, Dispatcher.submit, Dispatcher.withWorkers, Dispatcher.tell,
      Table.find?_insert] at ha
    split at ha
    · rw [← Option.some.inj ha]
      exact (Workers.unstopped_of_nextId_le (Nat.le_refl _)).add hadds
    · exact (h.unstopped p id ha).add hadds
  · obtain ⟨hp, hbusy⟩ := h.deferred p b hb
    refine ⟨hp, ?_⟩
    simp only [Dispatcher.hold, Table.contains, Table.find?_insert]
    split
    · rfl
    · exact hbusy

theorem receive {batch : Batch} (h : LanesInv base (batch :: incoming) d) :
    LanesInv base incoming (receive d batch) := by
  unfold OrderedDispatcher.receive
  split
  · next hempty => exact h.skip hempty
  · have hnote : LanesInv base (batch :: incoming) (d.noteTopic batch) :=
      h.quiet (.noteTopic d batch)
    dsimp only
    split
    · next hbusy => exact hnote.defer hbusy
    · next hidle =>
      refine hnote.start (Option.not_isSome_iff_eq_none.mp fun hsome => hidle ?_)
      exact hsome

theorem receiveAll {batches : List Batch} (h : LanesInv base batches d) :
    LanesInv base [] (batches.foldl OrderedDispatcher.receive d) := by
  induction batches generalizing d with
  | nil => exact h
  | cons batch batches ih => exact ih h.receive

end LanesInv

/-! ## Harvests -/

/-- The processor of a partition is done, and all that it has handled is
recorded. -/
def Harvested (d : OrderedDispatcher) (p : Partition) : Prop :=
  ∃ id q, d.held.active.find? p = some id ∧ d.workers.processor? id = some q ∧
    q.isDone = true ∧ ∀ c, q.committable? = some c → ∃ c', d.ledger.mark p = some c' ∧ c ≤ c'

/-- The progress of a processor goes into the ledger. -/
def recordProgress (d : OrderedDispatcher) (p : Partition) (id : ProcessorId) :
    OrderedDispatcher :=
  match d.workers.committable? id with
  | some offset => d.record p offset
  | none => d

section Harvest

variable {base : List Broker.Request} {d d' : OrderedDispatcher} {p : Partition}

theorem Harvested.mono (h : Harvested d p)
    (ha : d'.held.active.find? p = d.held.active.find? p)
    (hw : ∀ id q, d.workers.processor? id = some q → q.isDone = true →
      d'.workers.processor? id = some q)
    (hm : ∀ c, d.ledger.mark p = some c → ∃ c', d'.ledger.mark p = some c' ∧ c ≤ c') :
    Harvested d' p := by
  obtain ⟨id, q, hactive, hq, hdone, hmark⟩ := h
  refine ⟨id, q, by rw [ha, hactive], hw id q hq hdone, hdone, fun c hc => ?_⟩
  obtain ⟨c₁, hc₁, hle₁⟩ := hmark c hc
  obtain ⟨c₂, hc₂, hle₂⟩ := hm c₁ hc₁
  exact ⟨c₂, hc₂, Int.le_trans hle₁ hle₂⟩

theorem Harvested.work (h : Harvested d p) (steps : List Nat) : Harvested (d.work steps) p :=
  h.mono rfl (fun _ _ hq hd => (d.work_later steps).done hq hd)
    fun c hc => ⟨c, hc, Int.le_refl c⟩

theorem workers_recordProgress (d : OrderedDispatcher) (p : Partition) (id : ProcessorId) :
    (recordProgress d p id).workers = d.workers := by
  unfold recordProgress
  split <;> rfl

theorem held_recordProgress (d : OrderedDispatcher) (p : Partition) (id : ProcessorId) :
    (recordProgress d p id).held = d.held := by
  unfold recordProgress
  split <;> rfl

theorem LanesInv.recordProgress (h : LanesInv base [] d) {id : ProcessorId}
    (ha : d.held.active.find? p = some id) : LanesInv base [] (recordProgress d p id) := by
  unfold OrderedDispatcher.recordProgress
  split
  · next offset hc => exact h.record ((h.accounts.account p).settled ha hc)
  · exact h

theorem Harvested.recordProgress (h : Harvested d p) (hl : d.ledger.Ascending)
    (p' : Partition) (id : ProcessorId) : Harvested (recordProgress d p' id) p := by
  refine h.mono (by rw [held_recordProgress])
    (fun id q hq _ => by rw [workers_recordProgress, hq]) fun c hc => ?_
  unfold OrderedDispatcher.recordProgress
  split
  · next offset _ => exact Ledger.mark_le_record hl p' p offset hc
  · exact ⟨c, hc, Int.le_refl c⟩

/-- A partition is harvested once the progress of a processor that is done is
recorded. -/
theorem harvested_recordProgress (hl : d.ledger.Ascending) {id : ProcessorId} {q : Processor}
    (ha : d.held.active.find? p = some id) (hq : d.workers.processor? id = some q)
    (hd : q.isDone = true) : Harvested (recordProgress d p id) p := by
  refine ⟨id, q, by rw [held_recordProgress, ha], by rw [workers_recordProgress, hq], hd,
    fun c hc => ?_⟩
  have hcommittable : d.workers.committable? id = some c := by
    rw [Workers.committable?, hq, Option.bind_some, hc]
  simp only [OrderedDispatcher.recordProgress, hcommittable]
  exact Ledger.le_mark_record hl p c

/-- A dispatcher with partitions of which it may forget the processors. -/
structure Retirable (base : List Broker.Request) (d : OrderedDispatcher)
    (done : List Partition) : Prop where
  lanesInv : LanesInv base [] d
  harvested : ∀ p ∈ done, Harvested d p
  nodup : done.Nodup

/-- Reading a processor harvests its partition if the processor was done at
first.  What it does between the two readings does not matter then. -/
theorem Retirable.harvestOne {done : List Partition} {id : ProcessorId}
    (h : Retirable base d done) (m : Meanwhile) (ha : d.held.active.find? p = some id)
    (hp : p ∉ done) :
    Retirable base (harvestOne m (d, done) (p, id)).1 (harvestOne m (d, done) (p, id)).2 := by
  have hbetween := h.lanesInv.pass m (.completion id)
  have hread := hbetween.pass m (.progress id)
  have hl := hread.accounts.backed.ascending
  have hkept : ∀ p' ∈ done, Harvested (OrderedDispatcher.harvestOne m (d, done) (p, id)).1 p' :=
    fun p' hp' => (((h.harvested p' hp').work _).work _).recordProgress hl p id
  refine ⟨hread.recordProgress ha, ?_, ?_⟩
  · intro p' hp'
    unfold OrderedDispatcher.harvestOne at hp'
    dsimp only at hp'
    split at hp'
    · next hdone =>
      rcases List.mem_append.mp hp' with hp' | hp'
      · exact hkept p' hp'
      · obtain rfl := List.mem_singleton.mp hp'
        obtain ⟨q, hq, -⟩ := (hbetween.accounts.account p').exists_processor ha
        rw [Workers.isDone_of_processor? hq] at hdone
        exact harvested_recordProgress hl ha (Dispatcher.work_later _ _ |>.done hq hdone) hdone
    · exact hkept p' hp'
  · unfold OrderedDispatcher.harvestOne
    dsimp only
    split
    · refine List.nodup_append.mpr ⟨h.nodup, by simp, fun p₁ h₁ p₂ h₂ heq => ?_⟩
      rw [List.mem_singleton.mp h₂] at heq
      exact hp (heq ▸ h₁)
    · exact h.nodup

theorem held_harvestOne (m : Meanwhile) (s : OrderedDispatcher × List Partition)
    (e : Partition × ProcessorId) : (harvestOne m s e).1.held = s.1.held :=
  held_recordProgress _ _ _

theorem mem_harvestOne {m : Meanwhile} {s : OrderedDispatcher × List Partition}
    {e : Partition × ProcessorId} {p : Partition} (h : p ∈ (harvestOne m s e).2) :
    p ∈ s.2 ∨ p = e.1 := by
  unfold harvestOne at h
  dsimp only at h
  split at h
  · rcases List.mem_append.mp h with h | h
    · exact Or.inl h
    · exact Or.inr (List.mem_singleton.mp h)
  · exact Or.inl h

theorem Retirable.harvestAll {done : List Partition} (h : Retirable base d done)
    (m : Meanwhile) (es : List (Partition × ProcessorId))
    (hes : ∀ e ∈ es, d.held.active.find? e.1 = some e.2) (hfresh : ∀ e ∈ es, e.1 ∉ done)
    (hnodup : (es.map (·.1)).Nodup) :
    Retirable base (es.foldl (OrderedDispatcher.harvestOne m) (d, done)).1
      (es.foldl (OrderedDispatcher.harvestOne m) (d, done)).2 := by
  induction es generalizing d done with
  | nil => exact h
  | cons e es ih =>
    obtain ⟨he, hnodup⟩ := List.nodup_cons.mp hnodup
    have hstep := h.harvestOne m (hes e List.mem_cons_self) (hfresh e List.mem_cons_self)
    have hheld := held_harvestOne m (d, done) e
    have hmem (p : Partition) (hp : p ∈ (OrderedDispatcher.harvestOne m (d, done) e).2) :
        p ∈ done ∨ p = e.1 := mem_harvestOne hp
    rw [List.foldl_cons]
    generalize OrderedDispatcher.harvestOne m (d, done) e = s at hstep hheld hmem ⊢
    refine ih hstep (fun e' he' => ?_) (fun e' he' hdone => ?_) hnodup
    · rw [hheld]
      exact hes e' (List.mem_cons_of_mem e he')
    · rcases hmem e'.1 hdone with hold | heq
      · exact hfresh e' (List.mem_cons_of_mem e he') hold
      · exact he (List.mem_map.mpr ⟨e', he', heq⟩)

/-- After a harvest the partitions that are done may be retired. -/
theorem LanesInv.harvest (h : LanesInv base [] d) (m : Meanwhile) :
    Retirable base (harvest d m).1 (harvest d m).2 := by
  have hstart : Retirable base d [] := ⟨h, nofun, List.nodup_nil⟩
  exact hstart.harvestAll m d.held.active.entries (fun e he => Table.mem_entries.mp he)
    (fun _ _ => List.not_mem_nil) d.held.active.distinct

/-! ## Processors that are forgotten -/

/-- The processor of a harvested partition is taken out, and so are its deferred
records, which are to be taken up next. -/
theorem LanesInv.release (h : LanesInv base [] d) (hp : Harvested d p) {held : Lanes}
    {next : List Batch}
    (hactive : ∀ q, held.active.find? q = if q = p then none else d.held.active.find? q)
    (hdeferred : ∀ q, held.deferred.find? q = if q = p then none else d.held.deferred.find? q)
    (hnext : ∀ q, recordsOf q next = if q = p then d.deferredRecords p else []) :
    LanesInv base next (d.hold held) := by
  obtain ⟨id, q, ha, hq, hd, hm⟩ := hp
  refine ⟨⟨?_, fun _ _ ha => ha, fun p' id' ha' => ?_, h.linked⟩, fun p' b hb => ?_⟩
  · refine h.accounts.retire (p := p) ha hq hd (h.unstopped p id ha) hm fun p' => ?_
    simp only [share, deferredRecords, Dispatcher.hold, hactive, hdeferred, hnext]
    split
    · next heq => simp [heq, recordsOf]
    · simp [recordsOf]
  · simp only [Dispatcher.hold, hactive] at ha'
    split at ha'
    · cases ha'
    · exact h.unstopped p' id' ha'
  · simp only [Dispatcher.hold, hdeferred] at hb
    split at hb
    · cases hb
    · next hne =>
      simp only [Dispatcher.hold, Table.contains, hactive, if_neg hne]
      exact h.deferred p' b hb

theorem Harvested.release (h : Harvested d p) {p' : Partition} (hne : p ≠ p') {held : Lanes}
    (hactive : ∀ q, held.active.find? q = if q = p' then none else d.held.active.find? q) :
    Harvested (d.hold held) p := by
  refine h.mono ?_ (fun _ _ hq _ => hq) fun c hc => ⟨c, hc, Int.le_refl c⟩
  simp only [Dispatcher.hold, hactive, if_neg hne]

/-- Starting a processor leaves other partitions harvested. -/
theorem Harvested.start (h : Harvested d p) {batch : Batch} (hne : p ≠ batch.partition) :
    Harvested (start d batch) p := by
  refine h.mono ?_ (fun id q hq _ => ?_) fun c hc => ⟨c, hc, Int.le_refl c⟩
  · simp [OrderedDispatcher.start, Dispatcher.withGate, Dispatcher.tell, Dispatcher.hold,
      Dispatcher.submit, Dispatcher.withWorkers, hne]
  · exact (d.workers.adds_submit batch d.workers.nextId).processor? hq

/-- The processor of the first partition is forgotten. -/
theorem Retirable.retireOne {done : List Partition} (h : Retirable base d (p :: done))
    (idle : List Partition) : Retirable base (retireOne (d, idle) p).1 done := by
  obtain ⟨hp, hnodup⟩ := List.nodup_cons.mp h.nodup
  have hharvested := h.harvested p List.mem_cons_self
  have hne {p' : Partition} (hp' : p' ∈ done) : p' ≠ p := fun heq => hp (heq ▸ hp')
  unfold OrderedDispatcher.retireOne
  dsimp only [Dispatcher.hold]
  split
  · next batch hbatch =>
    have hpartition := (h.lanesInv.deferred p batch hbatch).1
    have hrelease : LanesInv base [batch] (d.hold
        { active := d.held.active.erase p, deferred := d.held.deferred.erase p }) := by
      refine h.lanesInv.release hharvested (Table.find?_erase _ _) (Table.find?_erase _ _)
        fun q => ?_
      rw [recordsOf_cons, hpartition, deferredRecords, hbatch]
      simp [recordsOf]
    refine ⟨hrelease.start ?_, fun p' hp' => ?_, hnodup⟩
    · simp [Dispatcher.hold, hpartition]
    · have hother := h.harvested p' (List.mem_cons_of_mem p hp')
      refine (hother.release (hne hp') (Table.find?_erase _ _)).start ?_
      rw [hpartition]
      exact hne hp'
  · next hnone =>
    refine ⟨h.lanesInv.release hharvested (Table.find?_erase _ _) (fun q => ?_) (fun q => ?_),
      fun p' hp' => ?_, hnodup⟩
    · split
      · next heq => rw [heq, hnone]
      · rfl
    · simp [recordsOf, deferredRecords, hnone]
    · exact (h.harvested p' (List.mem_cons_of_mem p hp')).release (hne hp')
        (Table.find?_erase _ _)

theorem Retirable.retireAll {done : List Partition} (h : Retirable base d done)
    (idle : List Partition) :
    LanesInv base [] (done.foldl OrderedDispatcher.retireOne (d, idle)).1 := by
  induction done generalizing d idle with
  | nil => exact h.lanesInv
  | cons p done ih => exact ih (h.retireOne idle) _

theorem Retirable.retire {done : List Partition} (h : Retirable base d done) :
    LanesInv base [] (retire d done) :=
  (h.retireAll []).quiet (.withGate _ (Gate.commitRequests_resume _ _))

/-! ## Cycles -/

theorem LanesInv.takeUp {batches : List Batch} (h : LanesInv base [] d) (m : Meanwhile) :
    LanesInv base [] (takeUp d m batches).1 := by
  have hreceived := (h.polled batches).receiveAll
  have hretired := (hreceived.harvest m).retire
  refine LanesInv.commit (LanesInv.quiet ?_ (.report _ rfl)) false
  exact hretired.quiet (.tellOne _ rfl)

end Harvest

/-! ## Calls -/

section Calls

variable {P : OrderedDispatcher → Prop} {d : OrderedDispatcher}

theorem cycle_keeps (hk : Dispatcher.Kept P)
    (takeUp : ∀ {d : OrderedDispatcher} (m : Meanwhile) (batches : List Batch), P d →
      P (takeUp d m batches).1)
    (h : P d) (m : Meanwhile) (t : Duration) : P (cycle d m t).1 := by
  have hstart : P (d.elapse t).applyRequests :=
    hk.quiet (hk.quiet h (.elapse d t)) (.applyRequests _)
  have hpoll := hk.poll hstart m
  unfold OrderedDispatcher.cycle
  dsimp only
  split
  · next heq =>
    rw [heq] at hpoll
    exact hk.quiet hpoll (.tellOne _ rfl)
  · next heq =>
    rw [heq] at hpoll
    exact takeUp m _ hpoll

theorem shutdown_keeps (hk : Dispatcher.Kept P)
    (harvest : ∀ {d : OrderedDispatcher} (m : Meanwhile), P d → P (harvest d m).1)
    (commit : ∀ {d : OrderedDispatcher} (forced : Bool), P d → P (d.commit forced))
    (h : P d) (m : Meanwhile) (t : Duration) : P (shutdown d m t) := by
  have hstart : P ((d.elapse t).tell [.shuttingDown .ordered]) :=
    hk.quiet (hk.quiet h (.elapse d t)) (.tellOne _ rfl)
  exact hk.terminate (hk.close (commit true (harvest m hstart)) m) m

end Calls
end RecordDispatch.OrderedDispatcher
