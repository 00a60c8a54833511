import RecordDispatch.Proofs.Ordered.Flow

/-!
# Which processors of a partition run

An ordered dispatcher has one active processor of a partition at most.  But
a drain forgets processors, and one that is in the middle of a record when the
wait for it times out goes on with this record.  It is abandoned then: the
partition may come back, and the next processor does not wait for it.

* A processor is superseded once another one of its partition is started, if it
  is not abandoned by then.
* `Succession` is the invariant: the journal says when each processor was
  started, and one that is superseded is done and does nothing any more.
* `running_alone`: processors of a partition that are not abandoned run one
  after another.  `abandoned_runs_beside` is a run in which an abandoned one runs
  beside its successor.
-/

namespace RecordDispatch

open Dispatch

namespace Dispatch

/-! ## Abandoned processors -/

instance (p : Partition) (journal : List Event) : Decidable (InTime p journal) :=
  inferInstanceAs (Decidable (p ∉ (recent journal).filterMap Event.timedOut?))

/-- The processors of periods that were ended by a revocation in which the drain
of the partition had timed out. -/
def abandoned : List Event → List ProcessorId
  | [] => []
  | .revoked ps _ :: older =>
    (ps.filter fun p => ¬ InTime p older).flatMap (fun p => (period p older).started) ++
      abandoned older
  | _ :: older => abandoned older

theorem abandoned_subset_cons (e : Event) (older : List Event) :
    abandoned older ⊆ abandoned (e :: older) := by
  cases e with
  | revoked => exact List.subset_append_right _ _
  | _ => exact List.Subset.refl _

theorem mem_abandoned {ps : List Partition} {n : Nat} {older journal : List Event}
    (hs : .revoked ps n :: older <:+ journal) {p : Partition} (hp : p ∈ ps)
    (hlate : ¬ InTime p older) {id : ProcessorId} (hid : id ∈ (period p older).started) :
    id ∈ abandoned journal := by
  induction journal with
  | nil => simp at hs
  | cons e journal ih =>
    rcases List.suffix_cons_iff.mp hs with heq | hs
    · obtain ⟨rfl, rfl⟩ := List.cons.inj heq
      refine List.mem_append_left _ (List.mem_flatMap.mpr ⟨p, ?_, hid⟩)
      exact List.mem_filter.mpr ⟨hp, decide_eq_true hlate⟩
    · exact abandoned_subset_cons e journal (ih hs)

/-- What was started in a period stays in it until a revocation ends it. -/
theorem Period.started_next {p : Partition} {e : Event} (s : Period)
    (h : ∀ ps n, e = .revoked ps n → p ∉ ps) : s.started ⊆ (s.next p e).started := by
  cases e with
  | started id batch | startedSingles ids batch =>
    simp only [next]
    split
    · exact List.subset_append_left _ _
    · exact List.Subset.refl _
  | workers e =>
    simp only [next, handle]
    repeat' split
    all_goals exact List.Subset.refl _
  | revoked ps n =>
    simp only [next, if_neg (h ps n rfl)]
    exact List.Subset.refl _
  | _ => exact List.Subset.refl _

/-- A processor was started in the present period of its partition, or in one
that a revocation has ended. -/
theorem started_cases {journal : List Event} {id : ProcessorId} {batch : Batch}
    (h : .started id batch ∈ journal) :
    id ∈ (period batch.partition journal).started ∨
      ∃ ps n older, .revoked ps n :: older <:+ journal ∧ batch.partition ∈ ps ∧
        id ∈ (period batch.partition older).started := by
  induction journal with
  | nil => exact absurd h List.not_mem_nil
  | cons e journal ih =>
    rcases List.mem_cons.mp h with rfl | h
    · refine Or.inl ?_
      simp [Period.next]
    · rcases ih h with hpresent | ⟨ps, n, older, hs, hp, hid⟩
      · by_cases hend : ∃ ps n, e = .revoked ps n ∧ batch.partition ∈ ps
        · obtain ⟨ps, n, rfl, hp⟩ := hend
          exact Or.inr ⟨ps, n, journal, List.suffix_rfl, hp, hpresent⟩
        · refine Or.inl (Period.started_next _ (fun ps n heq hp => ?_) hpresent)
          exact hend ⟨ps, n, heq, hp⟩
      · exact Or.inr ⟨ps, n, older, hs.trans (List.suffix_cons e journal), hp, hid⟩

/-! ## Superseded processors -/

/-- Another processor of the partition was started after this one, which was not
abandoned by then. -/
def Superseded (journal : List Event) (id : ProcessorId) : Prop :=
  ∃ next batch older, .started next batch :: older <:+ journal ∧ id ∉ abandoned older ∧
    ∃ batch', .started id batch' ∈ older ∧ batch'.partition = batch.partition

theorem not_superseded_nil (id : ProcessorId) : ¬ Superseded [] id := by
  rintro ⟨next, batch, older, hs, -⟩
  simp at hs

/-- Processors are superseded at the start of others only. -/
theorem superseded_of_cons {e : Event} {journal : List Event} {id : ProcessorId}
    (h : Superseded (e :: journal) id) :
    Superseded journal id ∨ ∃ next batch, e = .started next batch ∧ id ∉ abandoned journal ∧
      ∃ batch', .started id batch' ∈ journal ∧ batch'.partition = batch.partition := by
  obtain ⟨next, batch, older, hs, hp⟩ := h
  rcases List.suffix_cons_iff.mp hs with heq | hs
  · obtain ⟨rfl, rfl⟩ := List.cons.inj heq
    exact Or.inr ⟨next, batch, rfl, hp⟩
  · exact Or.inl ⟨next, batch, older, hs, hp⟩

theorem superseded_of_append {es journal : List Event} {id : ProcessorId}
    (h : Superseded (es ++ journal) id) (hes : ∀ e ∈ es, e.isStart = false) :
    Superseded journal id := by
  induction es with
  | nil => exact h
  | cons e es ih =>
    rcases superseded_of_cons h with h | ⟨next, batch, rfl, -⟩
    · exact ih h fun e' he' => hes e' (List.mem_cons_of_mem e he')
    · exact absurd (hes _ List.mem_cons_self) nofun

/-- What happens is not the doing of a superseded processor. -/
def Unsuperseded (e : Event) (older : List Event) : Prop :=
  ∀ id, e.acting? = some id → ¬ Superseded older id

/-- Every processor is in the journal with its batch, and one that is superseded
is done and does nothing any more. -/
structure Succession (w : Workers) (journal : List Event) : Prop where
  documented : ∀ id batch,
    .started id batch ∈ journal ↔ (w.processor? id).map (·.batch) = some batch
  done : ∀ id, Superseded journal id → w.Done id
  acts : Along Unsuperseded journal

namespace Succession

variable {w w' : Workers} {journal es : List Event}

theorem mem_journal (h : Succession w journal) {id : ProcessorId} {q : Processor}
    (hq : w.processor? id = some q) : .started id q.batch ∈ journal :=
  (h.documented id q.batch).mpr (by rw [hq, Option.map_some])

/-- What happens to processors that have not been superseded. -/
theorem append (h : Succession w journal)
    (hb : ∀ id, (w'.processor? id).map (·.batch) = (w.processor? id).map (·.batch))
    (hd : ∀ id, w.Done id → w'.Done id)
    (hes : ∀ e ∈ es, e.isStart = false ∧ ∀ id, e.acting? = some id → ¬ w.Done id) :
    Succession w' (es ++ journal) := by
  have hold {es' : List Event} (hsub : ∀ e ∈ es', e ∈ es) {id : ProcessorId}
      (hs : Superseded (es' ++ journal) id) : w.Done id :=
    h.done id (superseded_of_append hs fun e he => (hes e (hsub e he)).1)
  refine ⟨fun id batch => ?_, fun id hs => hd id (hold (fun _ he => he) hs), ?_⟩
  · rw [hb, ← h.documented, List.mem_append, or_iff_right]
    exact fun hmem => absurd (hes _ hmem).1 nofun
  · clear hb hd
    induction es with
    | nil => exact h.acts
    | cons e es ih =>
      refine along_cons.mpr ⟨fun id hid hs => ?_, ih (fun e' he' => ?_) fun hsub => hold ?_⟩
      · exact (hes e List.mem_cons_self).2 id hid
          (hold (fun e' he' => List.mem_cons_of_mem e he') hs)
      · exact hes e' (List.mem_cons_of_mem e he')
      · exact fun e' he' => List.mem_cons_of_mem e (hsub e' he')

/-- Something is told that is not the doing of workers. -/
theorem tell (h : Succession w journal)
    (hes : ∀ e ∈ es, e.isStart = false ∧ e.acting? = none) : Succession w (es ++ journal) :=
  h.append (fun _ => rfl) (fun _ hd => hd) fun e he =>
    ⟨(hes e he).1, fun _ hid => absurd ((hes e he).2.symm.trans hid) nofun⟩

/-- A processor starts, and the others of its partition are done or
abandoned. -/
theorem create (h : Succession w journal) {batch : Batch}
    (hidle : ∀ id q, w.processor? id = some q → q.partition = batch.partition →
      id ∉ abandoned journal → q.isDone = true) :
    Succession (w.create batch) (.started w.nextId batch :: journal) := by
  have hadds : w.Adds (w.create batch) [batch] := rfl
  refine ⟨fun id batch' => ?_, fun id hs => ?_, along_cons.mpr ⟨nofun, h.acts⟩⟩
  · rw [Workers.processor?_create, List.mem_cons, h.documented]
    split
    · next heq =>
      have hnone : w.processor? w.nextId = none := List.getElem?_eq_none (Nat.le_refl _)
      rw [heq, hnone]
      simp [eq_comm]
    · next hne => simp [hne]
  · rcases superseded_of_cons hs with hs | ⟨next, batch₀, heq, hkept, batch', hmem, hsame⟩
    · exact (h.done id hs).add hadds
    · obtain ⟨-, rfl⟩ := Event.started.inj heq
      obtain ⟨q, hq, rfl⟩ := Option.map_eq_some_iff.mp ((h.documented id batch').mp hmem)
      exact Workers.Done.add ⟨q, hq, hidle id q hq hsame hkept⟩ hadds

end Succession
end Dispatch

namespace OrderedDispatcher

open Dispatcher

variable {base : List Broker.Request} {incoming : List Batch} {d d' : OrderedDispatcher}

/-- The processors of a dispatcher come one after another. -/
def SuccessionInv (d : OrderedDispatcher) : Prop :=
  Succession d.workers d.journal

/-! ## Processors that are not done -/

/-- A processor that is neither done nor abandoned is the active one. -/
theorem LanesInv.active_of_undone (h : LanesInv base incoming d) (hd : SuccessionInv d)
    {id : ProcessorId} {q : Processor} (hq : d.workers.processor? id = some q)
    (hbusy : ¬ q.isDone = true) (hkept : id ∉ abandoned d.journal) :
    d.held.active.find? q.partition = some id := by
  rcases started_cases (hd.mem_journal hq) with hpresent | ⟨ps, n, older, hs, hp, hid⟩
  · obtain ⟨q₀, hq₀, -, hcase⟩ := (h.accounts.account q.partition).started id hpresent
    obtain rfl := Option.some.inj (hq.symm.trans hq₀)
    refine hcase.resolve_right fun hfinished => ?_
    exact hbusy (Processor.isDone_of_finished hfinished)
  · -- A drain in time has seen it done, and one that timed out has abandoned it.
    by_cases hintime : InTime q.partition older
    · obtain ⟨q₀, hq₀, hdone⟩ :=
        h.accounts.retired id ⟨ps, n, older, hs, q.partition, hp, hintime, hid⟩
      obtain rfl := Option.some.inj (hq.symm.trans hq₀)
      exact absurd hdone hbusy
    · exact absurd (mem_abandoned hs hp hintime hid) hkept

/-- The processors of a partition are done or abandoned. -/
def Idle (d : OrderedDispatcher) (p : Partition) : Prop :=
  ∀ id q, d.workers.processor? id = some q → q.partition = p → id ∉ abandoned d.journal →
    q.isDone = true

/-- A partition is idle unless its active processor is not done. -/
theorem LanesInv.idle (h : LanesInv base incoming d) (hd : SuccessionInv d) {p : Partition}
    (hactive : ∀ id q, d.held.active.find? p = some id → d.workers.processor? id = some q →
      q.isDone = true) : Idle d p := by
  rintro id q hq rfl hkept
  exact Decidable.byContradiction fun hbusy =>
    hbusy (hactive id q (h.active_of_undone hd hq hbusy hkept) hq)

namespace SuccessionInv

/-! ## The cycle -/

theorem still (h : SuccessionInv d) (hs : Still d d') : SuccessionInv d' := by
  obtain ⟨es, hj, hes⟩ := hs.acts
  rw [SuccessionInv, hj]
  exact Succession.append h hs.batches hs.done hes

theorem withGate (h : SuccessionInv d) (r : Gate × List Gate.Event) :
    SuccessionInv (d.withGate r) := by
  refine Succession.tell h fun e he => ?_
  obtain ⟨e, -, rfl⟩ := List.mem_map.mp (List.mem_reverse.mp he)
  exact ⟨rfl, rfl⟩

theorem start (h : SuccessionInv d) {batch : Batch} (hidle : Idle d batch.partition) :
    SuccessionInv (start d batch) := by
  have hcreated := Succession.create h hidle
  rw [SuccessionInv, journal_start]
  refine hcreated.append (fun _ => rfl) (fun _ hdone => hdone) fun e he => ?_
  rcases List.mem_append.mp he with he | he
  · obtain ⟨e, -, rfl⟩ := List.mem_map.mp (List.mem_reverse.mp he)
    exact ⟨rfl, nofun⟩
  · obtain ⟨e, hmem, rfl⟩ := List.mem_map.mp he
    rw [List.mem_singleton.mp hmem]
    exact ⟨rfl, nofun⟩

theorem receive {batch : Batch} (h : SuccessionInv d) (hs : LanesInv base (batch :: incoming) d) :
    SuccessionInv (receive d batch) := by
  unfold OrderedDispatcher.receive
  split
  · exact h
  · have hnoted : SuccessionInv (d.noteTopic batch) := h.still (.noteTopic d batch)
    dsimp only
    split
    · exact hnoted.still (still_defer _ batch)
    · next hfree =>
      refine hnoted.start (hs.idle h fun id q hid => ?_)
      exact absurd (Option.isSome_of_eq_some hid) hfree

theorem receiveAll {batches : List Batch} (h : SuccessionInv d) (hs : LanesInv base batches d) :
    SuccessionInv (batches.foldl OrderedDispatcher.receive d) := by
  induction batches generalizing d with
  | nil => exact h
  | cons batch batches ih => exact ih (h.receive hs) hs.receive

/-- The processor that is forgotten is done, so that one for deferred records may
start. -/
theorem retireOne {p : Partition} {done : List Partition} (h : SuccessionInv d)
    (hr : Retirable base d (p :: done)) (behind : List Partition) :
    SuccessionInv (retireOne (d, behind) p).1 := by
  unfold OrderedDispatcher.retireOne
  dsimp only
  split
  · next batch hbatch =>
    obtain ⟨id, q, hactive, hq, hdone, -⟩ := hr.harvested p List.mem_cons_self
    obtain ⟨rfl, -⟩ := hr.lanesInv.deferred p batch hbatch
    have hidle : Idle d batch.partition := hr.lanesInv.idle h fun id' q' hid' hq' => by
      obtain rfl := Option.some.inj (hactive.symm.trans hid')
      obtain rfl := Option.some.inj (hq.symm.trans hq')
      exact hdone
    exact ((h.still (.hold d _)).still (.hold _ _)).start hidle
  · exact h.still (.hold d _)

theorem retireAll {done : List Partition} (h : SuccessionInv d) (hr : Retirable base d done)
    (behind : List Partition) :
    SuccessionInv (done.foldl OrderedDispatcher.retireOne (d, behind)).1 := by
  induction done generalizing d behind with
  | nil => exact h
  | cons p done ih => exact ih (h.retireOne hr behind) (hr.retireOne behind) _

theorem takeUp (h : SuccessionInv d) (hs : LanesInv base [] d) (m : Meanwhile)
    (batches : List Batch) : SuccessionInv (takeUp d m batches).1 := by
  have hreceived := receiveAll (h.still (.tellOne d rfl)) (hs.polled batches)
  have hretirable := (hs.polled batches).receiveAll.harvest m
  have hforgotten : SuccessionInv (forgetDone d m batches).1 :=
    (hreceived.still (still_harvest _ m)).retireAll hretirable []
  exact (hforgotten.withGate _).still (still_takeUp d m batches)

/-! ## Rebalances -/

theorem revoke (h : SuccessionInv d) (m : Meanwhile) (ps : List Partition) :
    SuccessionInv (d.revoke m ps) := by
  obtain ⟨d₁, hdrain, hrest⟩ := d.still_revoke m ps
  have hdrained : SuccessionInv d₁ := h.still hdrain
  have hforgotten : SuccessionInv (d₁.setMonitor (d₁.monitor.removeAll ps)) := hdrained
  exact hforgotten.still hrest

theorem deliver (h : SuccessionInv d) (m : Meanwhile) (r : Broker.Rebalance) :
    SuccessionInv (Dispatcher.deliver m d r) := by
  cases r with
  | revoke ps => exact h.revoke m ps
  | assign ps =>
    refine Succession.tell h fun e he => ?_
    rw [List.mem_singleton.mp he]
    exact ⟨rfl, rfl⟩

theorem close (h : SuccessionInv d) (m : Meanwhile) : SuccessionInv (d.close m) := by
  unfold Dispatcher.close
  split
  · exact h
  · exact h.revoke m _

/-! ## Calls of the dispatcher -/

theorem cycle (h : SuccessionInv d) (hs : LanesInv base [] d) (m : Meanwhile) (t : Duration) :
    SuccessionInv (cycle d m t).1 :=
  hs.cycle_keeps (fun m r _ h => h.deliver m r) (fun _ _ h => h)
    (fun _ h => h.still (.tellOne _ rfl)) (fun m batches hs h => h.takeUp hs m batches) m t
    ((h.still (.elapse d t)).withGate _)

theorem shutdown (h : SuccessionInv d) (m : Meanwhile) (t : Duration) :
    SuccessionInv (shutdown d m t) := by
  have hbegin : SuccessionInv ((d.elapse t).tell [.shuttingDown .ordered]) :=
    h.still ((Still.elapse d t).trans (.tellOne _ rfl))
  have hcommitted := (hbegin.still (still_harvest _ m)).still (.commit _ true)
  exact (hcommitted.close m).still (still_terminate _ m)

end SuccessionInv

/-! ## Runs -/

theorem successionInv_initial (settings : Settings) (size : Nat) (handler : Handler)
    (broker : Broker) : SuccessionInv (initial settings (Workers.ofSize size handler) broker) := by
  refine ⟨fun id batch => ?_, fun id hs => ?_, along_cons.mpr ⟨fun _ hid => ?_, along_nil _⟩⟩
  · simp [initial, create, Workers.ofSize, Workers.processor?]
  · rcases superseded_of_cons hs with hs | ⟨next, batch, heq, -⟩
    · exact absurd hs (not_superseded_nil id)
    · cases heq
  · cases hid

theorem successionInv_run (settings : Settings) (size : Nat) (handler : Handler) (broker : Broker)
    (moves : List Move) :
    SuccessionInv ((initial settings (Workers.ofSize size handler) broker).run moves) := by
  refine (run_induction (P := fun d => LanesInv broker.commitRequests [] d ∧ SuccessionInv d)
    ⟨lanesInv_initial settings size handler broker,
      successionInv_initial settings size handler broker⟩ fun d move _ hd => ?_).2
  refine ⟨hd.1.move move, ?_⟩
  cases move with
  | cycle m t => exact hd.2.cycle hd.1 m t
  | revoke m t ps => exact (hd.2.still (.elapse d t)).revoke m ps
  | shutdown m t => exact hd.2.shutdown m t
  | work task => exact hd.2.still (.work d [task])
  | pauseAll | resumeAll | broker => exact hd.2

/-- In every run, whatever is revoked and assigned again, no two processors of
a partition run at the same time that are not abandoned.  This is so within the
calls of the dispatcher as well: a processor that is superseded is done, and
nothing that has happened since is its doing. -/
theorem running_alone (settings : Settings) (size : Nat) (handler : Handler) (broker : Broker)
    (moves : List Move) :
    let d : OrderedDispatcher :=
      (initial settings (Workers.ofSize size handler) broker).run moves
    (∀ i j q r, d.workers.processor? i = some q → d.workers.processor? j = some r →
        q.partition = r.partition → q.stage = .running → r.stage = .running →
        i ∉ abandoned d.journal → j ∉ abandoned d.journal → i = j) ∧
      (∀ id, Superseded d.journal id →
        ∃ q, d.workers.processor? id = some q ∧ q.isDone = true) ∧
      ∀ e older, e :: older <:+ d.journal → ∀ id, e.acting? = some id →
        ¬ Superseded older id := by
  intro d
  have hlanesInv : LanesInv broker.commitRequests [] d :=
    lanesInv_run settings size handler broker moves
  have h : SuccessionInv d := successionInv_run settings size handler broker moves
  have hbusy {q : Processor} (hrunning : q.stage = .running) : ¬ q.isDone = true := by
    simp [Processor.isDone, hrunning, Processor.Stage.isTerminal]
  refine ⟨fun i j q r hq hr hsame hrunning hrunning' hkept hkept' => ?_, h.done, h.acts⟩
  have hi := hlanesInv.active_of_undone h hq (hbusy hrunning) hkept
  have hj := hlanesInv.active_of_undone h hr (hbusy hrunning') hkept'
  rw [hsame, hj] at hi
  exact (Option.some.inj hi).symm

namespace Sample

/-- A processor is in the middle of a record when its partition is taken away,
and the wait for it times out.  The partition comes back at once, and its next
processor begins a record. -/
def takenAway : List Move :=
  [.broker (.push ⟨partition, [{ offset := 0 }]⟩), .cycle .nothing 0, .work 0, .work 0, .work 0,
    .broker (.push ⟨partition, [{ offset := 1 }]⟩),
    .broker (.rebalance (.revoke [partition])), .broker (.rebalance (.assign [partition])),
    .cycle .nothing 0, .work 1, .work 1, .work 1]

/-- A dispatcher with two workers after these moves. -/
def crowded : OrderedDispatcher :=
  (initial {} (Workers.ofSize 2 { execute := fun _ => .done })
    { assigned := [partition] }).run takenAway

end Sample

/-- In the sample the second processor runs, and every other one of the partition
that runs is abandoned. -/
theorem running_alone_sample :
    (Sample.crowded.workers.processor? 1).map (·.stage) = some .running ∧
      ∀ i q, Sample.crowded.workers.processor? i = some q → q.partition = Sample.partition →
        q.stage = .running → i ≠ 1 → i ∈ abandoned Sample.crowded.journal := by
  have hkept : 1 ∉ abandoned Sample.crowded.journal := by decide +kernel
  have hstage : (Sample.crowded.workers.processor? 1).map (fun q => (q.partition, q.stage)) =
      some (Sample.partition, .running) := by decide +kernel
  obtain ⟨r, hr, heq⟩ := Option.map_eq_some_iff.mp hstage
  obtain ⟨hpartition, hrunning⟩ := Prod.mk.inj heq
  refine ⟨by rw [hr, Option.map_some, hrunning], fun i q hq hp hrunning' hne => ?_⟩
  have halone := (running_alone {} 2 { execute := fun _ => .done }
    { assigned := [Sample.partition] } Sample.takenAway).1 i 1 q r hq hr
    (hp.trans hpartition.symm) hrunning' hrunning
  exact Decidable.byContradiction fun hi => hne (halone hi hkept)

/-- Its predecessor of the same partition runs as well. -/
theorem abandoned_runs_beside :
    (Sample.crowded.workers.processor? 0).map (fun q => (q.partition, q.stage)) =
        some (Sample.partition, .running) ∧
      (Sample.crowded.workers.processor? 1).map (fun q => (q.partition, q.stage)) =
        some (Sample.partition, .running) := by
  decide +kernel

end OrderedDispatcher
end RecordDispatch
