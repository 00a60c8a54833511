import RecordDispatch.Proofs.Ordered.Matches
import RecordDispatch.Proofs.Ordered.RisingCommits
import RecordDispatch.Proofs.Unordered.Matches
import RecordDispatch.Proofs.Unordered.RisingCommits

/-!
# What both ways of dispatching guarantee

Ordered and unordered dispatch keep different invariants.  These guarantees are
the same for both.

* `commits_never_fall`: within one ownership of a partition committed offsets do
  not move backwards, whichever of the commits of a dispatcher they belong to.
* `idle_means_settled`: when a cycle says that it is idle, no work is left that
  was begun, and no offset is left to commit.
* `contents_never_matter`: what is in records, and what becomes of them, does
  not influence dispatching.
-/

namespace RecordDispatch

open Dispatch

/-! ## Commits -/

namespace Dispatcher

namespace Sample

/-- A partition. -/
def partition : Partition := ⟨"t", 0⟩

/-- A broker that returns the records at 5 and 6, and later the one at 7. -/
def source : Broker :=
  { assigned := [partition]
    prefetched := [[⟨partition, [{ offset := 5 }, { offset := 6 }]⟩],
      [⟨partition, [{ offset := 7 }]⟩]] }

/-- A handler. -/
def handler : Handler := { execute := fun _ => .done }

/-- Every task takes all of its steps. -/
def work : List Move := [0, 1, 2].flatMap fun task => List.replicate 8 (.work task)

/-- The records at 5 and 6 are handled and committed, and then the one at 7 is
handled. -/
def moves : List Move :=
  [.cycle .nothing 0] ++ work ++ [.cycle .nothing (Duration.ofMillis 4000)] ++ work

end Sample

/-- Take the offsets that the broker has accepted for a partition between two
drains, from scheduled and forced commits and from the one with which the second
drain ends.  If records come in ascending order, they do not fall. -/
theorem commits_never_fall (settings : Settings) (size : Nat) (handler : Handler)
    (broker : Broker) (moves : List Move) :
    let ordered : OrderedDispatcher :=
      (initial settings (Workers.ofSize size handler) broker).run moves
    let unordered : UnorderedDispatcher :=
      (initial settings (Workers.ofSize size handler) broker).run moves
    (ordered.broker.commitRequests = requests ordered.journal ++ broker.commitRequests ∧
        ∀ older, older <:+ ordered.journal → ∀ p,
          (period p older).polled.Pairwise (·.offset < ·.offset) →
            (commitsOf p older).Pairwise (· ≥ ·)) ∧
      unordered.broker.commitRequests = requests unordered.journal ++ broker.commitRequests ∧
        ∀ older, older <:+ unordered.journal → ∀ p,
          (period p older).polled.Pairwise (·.offset < ·.offset) →
            (commitsOf p older).Pairwise (· ≥ ·) := by
  intro ordered unordered
  obtain ⟨hlanesInv, hrising⟩ := OrderedDispatcher.risingInv_run settings size handler broker moves
  have hrun := UnorderedDispatcher.risingRunInv_run settings size handler broker moves
  exact ⟨⟨hlanesInv.linked, hrising.neverFalls⟩, hrun.flightInv.linked, hrun.rising.neverFalls⟩

/-- In the sample a scheduled commit and the one of a revocation fall into the
same period. -/
theorem commits_never_fall_sample :
    let moves := Sample.moves ++ [.revoke .nothing 0 [Sample.partition]]
    let ordered : OrderedDispatcher :=
      (initial {} (Workers.ofSize 2 Sample.handler) Sample.source).run moves
    let unordered : UnorderedDispatcher :=
      (initial {} (Workers.ofSize 2 Sample.handler) Sample.source).run moves
    (commitsOf Sample.partition ordered.journal.tail = [8, 7] ∧
        (commitsOf Sample.partition ordered.journal.tail).Pairwise (· ≥ ·)) ∧
      commitsOf Sample.partition unordered.journal.tail = [8, 7] ∧
        (commitsOf Sample.partition unordered.journal.tail).Pairwise (· ≥ ·) := by
  intro moves ordered unordered
  obtain ⟨⟨-, hordered⟩, -, hunordered⟩ :=
    commits_never_fall {} 2 Sample.handler Sample.source moves
  refine ⟨⟨by decide +kernel, ?_⟩, by decide +kernel, ?_⟩
  · exact hordered _ (List.tail_suffix _) Sample.partition (by decide +kernel)
  · exact hunordered _ (List.tail_suffix _) Sample.partition (by decide +kernel)

end Dispatcher

/-! ## Idle cycles -/

namespace Dispatcher

variable {ω : Type} {d : Dispatcher ω}

/-- What polls have returned of a partition since it was last drained is
handled, by processors that are done, and committed to the end. -/
structure AtRest (p : Partition) (d : Dispatcher ω) : Prop where
  handled : ∀ r ∈ (period p d.journal).polled, r ∈ (period p d.journal).handled
  done : ∀ id ∈ (period p d.journal).started, d.workers.Done id
  committed : (period p d.journal).polled.Pairwise (·.offset < ·.offset) →
    (∀ r ∈ (period p d.journal).polled, 0 ≤ r.offset) →
      ∀ r ∈ (period p d.journal).polled,
        (∀ r' ∈ (period p d.journal).polled, r'.offset ≤ r.offset) →
          d.broker.committed? p = some (r.offset + 1)

/-- Without a pending offset the broker has accepted the mark last. -/
theorem committed?_of_mark {base : List Broker.Request} (hb : Backed d.ledger d.journal)
    (hlinked : d.Linked base) (hempty : d.ledger.isEmpty = true) {p : Partition} {c : Int}
    (hc : d.ledger.mark p = some c) : d.broker.committed? p = some c := by
  have hnone := Ledger.isEmpty_iff.mp hempty p
  rcases Ledger.mark_eq_some hc with hpending | ⟨-, hflushed⟩
  · rw [hnone] at hpending
    exact absurd hpending nofun
  · have hlast := hb.committed p c hnone hflushed
    rw [lastCommitted] at hlast
    rw [Broker.committed?, Broker.commits_eq, hlinked, List.filterMap_append,
      List.findSome?_append, hlast, Option.some_or]

/-- Without a pending offset nothing is committed. -/
theorem commit_of_isEmpty (h : d.ledger.isEmpty = true) (forced : Bool) : d.commit forced = d := by
  have hskip : d.schedule.attempts d.now forced d.ledger = false := by
    simp [Commit.Schedule.attempts, h]
  unfold commit Commit.run
  rw [hskip]
  rfl

/-- The ledger stays empty, and what is held stays, through quiet steps and
a commit after them. -/
theorem Quiet.commit_idle {d' : Dispatcher ω} {P : ω → Prop} (h : Quiet d d') (hheld : P d.held)
    (hempty : d.ledger.isEmpty = true) (forced : Bool) :
    P (d'.commit forced).held ∧ (d'.commit forced).ledger.isEmpty = true := by
  rw [← h.ledger] at hempty
  rw [commit_of_isEmpty hempty, h.held]
  exact ⟨hheld, hempty⟩

end Dispatcher

namespace OrderedDispatcher

variable {base : List Broker.Request} {d : OrderedDispatcher}

/-- A dispatcher that holds no work and has no pending offset is at rest. -/
theorem LanesInv.atRest (h : LanesInv base [] d) (hactive : ∀ p, d.held.active.find? p = none)
    (hempty : d.ledger.isEmpty = true) (p : Partition) :
    d.held.deferred.find? p = none ∧ d.AtRest p := by
  have hnone : d.held.deferred.find? p = none := by
    cases hfind : d.held.deferred.find? p with
    | none => rfl
    | some b =>
      have hbusy := (h.deferred p b hfind).2
      rw [Table.contains, hactive] at hbusy
      cases hbusy
  have haccount := h.accounts.account p
  have hidle : (share [] d p).processor = none := hactive p
  have hall : (period p d.journal).handled = (period p d.journal).polled := by
    have hbalance := haccount.balance
    rw [hidle, Workers.upcomingOf_none, List.append_nil] at hbalance
    simpa [share, deferredRecords, hnone, recordsOf] using hbalance
  refine ⟨hnone, fun r hr => hall ▸ hr, fun id hid => ?_, fun hs h0 r hr hmax => ?_⟩
  · obtain ⟨q, hq, -, hcase⟩ := haccount.started id hid
    rw [hidle] at hcase
    exact ⟨q, hq, Processor.isDone_of_finished (hcase.resolve_left (Option.some_ne_none id).symm)⟩
  · obtain ⟨last, hlast⟩ := Option.isSome_iff_exists.mp
      (List.getLast?_isSome.mpr (List.ne_nil_of_mem hr))
    have hmem := List.mem_of_getLast? hlast
    have hoffset : last.offset = r.offset :=
      Int.le_antisymm (hmax last hmem) (offset_le_of_getLast? (hs.imp Int.le_of_lt) hlast hr)
    have hmark := haccount.committable?_or_mark (fun c hc => h.accounts.backed.mark hc) hs
      (hall ▸ hlast) (h0 last hmem)
    rw [hidle, Option.bind_none, Option.none_or, hoffset] at hmark
    exact Dispatcher.committed?_of_mark h.accounts.backed h.linked hempty hmark

/-- A cycle that takes up nothing and is idle holds no work, and has no pending
offset. -/
theorem takeUp_idle {m : Meanwhile} {batches : List Batch}
    (h : (takeUp d m batches).2 = .idle) :
    (∀ p, (takeUp d m batches).1.held.active.find? p = none) ∧
      (takeUp d m batches).1.ledger.isEmpty = true := by
  unfold takeUp at h ⊢
  dsimp only at h ⊢
  generalize batches.foldl receive (d.tell [.polled batches]) = d₁ at h ⊢
  split at h
  · next hidle =>
    rw [Bool.and_eq_true, Bool.and_eq_true] at hidle
    obtain ⟨⟨-, hactive⟩, hempty⟩ := hidle
    -- There is no processor to be read, and so no partition to be retired.
    have hharvest : harvest d₁ m = (d₁, []) := by
      rw [harvest, List.isEmpty_iff.mp hactive]
      rfl
    rw [hharvest]
    refine Dispatcher.Quiet.commit_idle (d := d₁)
      (P := fun held => ∀ p, held.active.find? p = none) ?_ (Table.isEmpty_iff.mp hactive)
      hempty false
    exact ((Dispatcher.Quiet.withGate d₁ (Gate.commitRequests_resume _ [])).trans
      (.tellOne _ rfl)).trans (.report _ rfl)
  · exact absurd h nofun

theorem cycle_idle {m : Meanwhile} {t : Duration} (h : (cycle d m t).2 = .idle) :
    (∀ p, (cycle d m t).1.held.active.find? p = none) ∧
      (cycle d m t).1.ledger.isEmpty = true := by
  unfold cycle at h ⊢
  dsimp only at h ⊢
  split at h
  · exact absurd h nofun
  · exact takeUp_idle h

end OrderedDispatcher

namespace UnorderedDispatcher

variable {base : List Broker.Request} {d : UnorderedDispatcher}

theorem FlightInv.atRest (h : FlightInv base [] d) (hr : MarksInv [] d)
    (hidle : ∀ p, d.held.processors.find? p = none) (hempty : d.ledger.isEmpty = true)
    (p : Partition) : d.AtRest p := by
  have hnone : flightOf d p = [] := by
    rw [flightOf, hidle]
    rfl
  have htally := h.tallies.tally p
  have hrank := hr p
  rw [hnone] at htally hrank
  refine ⟨htally.all_handled h.tallies.wellFormed (List.forall_mem_nil _), fun id hid => ?_,
    fun _ h0 r hmem hmax => ?_⟩
  · obtain ⟨q, hq, he⟩ := htally.started id hid
    exact ⟨q, hq, Processor.isDone_of_finished (he.status.resolve_left List.not_mem_nil)⟩
  · rcases hrank.below r hmem (h0 r hmem) with hopen | ⟨c, hc, hle⟩
    · rcases hopen with hwait | ⟨id, hid, -⟩
      · exact absurd hwait List.not_mem_nil
      · exact absurd hid List.not_mem_nil
    · obtain ⟨done, hpre, -, r', hr', heq⟩ := h.tallies.backed.mark hc
      have hupper := hmax r' (hpre.subset hr')
      have hexact : c = r.offset + 1 := by omega
      rw [hexact] at hc
      exact Dispatcher.committed?_of_mark h.tallies.backed h.linked hempty hc

/-- Nothing is in flight. -/
def Vacant (d : UnorderedDispatcher) : Prop :=
  ∀ p, d.held.processors.find? p = none

theorem kept_vacant (base : List Broker.Request) :
    Dispatcher.Kept fun d : UnorderedDispatcher => FlightInv base [] d ∧ Vacant d where
  quiet h hq := ⟨h.1.quiet hq, fun p => hq.held ▸ h.2 p⟩
  work steps h := ⟨h.1.work steps, h.2⟩
  revoke m ps h := by
    refine ⟨h.1.revoke m ps, fun p => ?_⟩
    rw [(h.1.revoked m ps).held]
    split
    · rfl
    · exact h.2 p

/-- Without records there is nothing to take up. -/
theorem foldl_receive_of_recordCount {batches : List Batch} (h : Event.recordCount batches = 0)
    (d : UnorderedDispatcher) : batches.foldl receive d = d := by
  induction batches with
  | nil => rfl
  | cons batch batches ih =>
    rw [Event.recordCount, List.flatMap_cons, List.length_append] at h
    obtain ⟨hsize, hrest⟩ := Nat.add_eq_zero_iff.mp h
    have hempty : batch.isEmpty = true := List.isEmpty_iff_length_eq_zero.mpr hsize
    rw [List.foldl_cons, receive, if_pos hempty]
    exact ih hrest

theorem takeUp_idle {batches : List Batch} (hv : Vacant d) (h : (takeUp d batches).2 = .idle) :
    Vacant (takeUp d batches).1 ∧ (takeUp d batches).1.ledger.isEmpty = true := by
  unfold takeUp at h ⊢
  dsimp only at h ⊢
  split at h
  · next hidle =>
    rw [Bool.and_eq_true, beq_iff_eq] at hidle
    obtain ⟨hcount, hempty⟩ := hidle
    rw [foldl_receive_of_recordCount hcount] at hempty ⊢
    refine Dispatcher.Quiet.commit_idle (d := d.tell [.polled batches])
      (P := fun held => ∀ p, held.processors.find? p = none) ?_ hv hempty false
    exact (Dispatcher.Quiet.tellOne _ rfl).trans (.report _ rfl)
  · exact absurd h nofun

/-- An idle cycle has settled all that was in flight, has taken up nothing, and
has no pending offset. -/
theorem FlightInv.cycle_idle (h : FlightInv base [] d) {m : Meanwhile} {t : Duration}
    (hidle : (UnorderedDispatcher.cycle d m t).2 = .idle) :
    Vacant (UnorderedDispatcher.cycle d m t).1 ∧
      (UnorderedDispatcher.cycle d m t).1.ledger.isEmpty = true := by
  have hstart : FlightInv base [] (d.elapse t).applyRequests :=
    (h.quiet (.elapse d t)).quiet (.applyRequests _)
  have hsettle := hstart.settle m
  obtain ⟨d', -, -, heq | ⟨-, heq⟩⟩ := hstart.settle_cases m
  · unfold UnorderedDispatcher.cycle at hidle
    dsimp only at hidle
    rw [heq] at hidle
    exact absurd hidle nofun
  · unfold UnorderedDispatcher.cycle at hidle ⊢
    dsimp only at hidle ⊢
    rw [heq] at hsettle hidle ⊢
    have hpoll := (kept_vacant base).poll ⟨hsettle, fun _ => rfl⟩ m
    dsimp only at hidle hpoll ⊢
    split at hidle
    · exact absurd hidle nofun
    · next heq =>
      rw [heq] at hpoll
      exact takeUp_idle hpoll.2 hidle

end UnorderedDispatcher

namespace Dispatcher

/-- When a cycle says that it is idle, nothing is deferred or at work, no offset
is pending, and every partition is at rest. -/
theorem idle_means_settled (settings : Settings) (size : Nat) (handler : Handler)
    (broker : Broker) (moves : List Move) (m : Meanwhile) (t : Duration) :
    let ordered := OrderedDispatcher.cycle
      ((initial settings (Workers.ofSize size handler) broker).run moves) m t
    let unordered := UnorderedDispatcher.cycle
      ((initial settings (Workers.ofSize size handler) broker).run moves) m t
    (ordered.2 = .idle → ordered.1.ledger.isEmpty = true ∧ ∀ p,
        ordered.1.held.active.find? p = none ∧ ordered.1.held.deferred.find? p = none ∧
          ordered.1.AtRest p) ∧
      (unordered.2 = .idle → unordered.1.ledger.isEmpty = true ∧ ∀ p,
        unordered.1.held.processors.find? p = none ∧ unordered.1.AtRest p) := by
  intro ordered unordered
  refine ⟨fun hidle => ?_, fun hidle => ?_⟩
  · obtain ⟨hactive, hempty⟩ := OrderedDispatcher.cycle_idle hidle
    obtain ⟨hlanesInv, -⟩ := OrderedDispatcher.risingInv_run settings size handler broker
      (moves ++ [.cycle m t])
    rw [run_append] at hlanesInv
    refine ⟨hempty, fun p => ?_⟩
    obtain ⟨hdeferred, hrest⟩ := hlanesInv.atRest hactive hempty p
    exact ⟨hactive p, hdeferred, hrest⟩
  · have hbefore := UnorderedDispatcher.risingRunInv_run settings size handler broker moves
    have hafter := UnorderedDispatcher.risingRunInv_run settings size handler broker
      (moves ++ [.cycle m t])
    rw [run_append] at hafter
    obtain ⟨hvacant, hempty⟩ := hbefore.flightInv.cycle_idle hidle
    exact ⟨hempty, fun p => ⟨hvacant p, hafter.flightInv.atRest hafter.marksInv hvacant hempty p⟩⟩

/-- In the sample the record at 7 is committed, and the next cycle is idle. -/
theorem idle_means_settled_sample :
    let moves := Sample.moves ++ [.cycle .nothing (Duration.ofMillis 4000)]
    let ordered := OrderedDispatcher.cycle
      ((initial {} (Workers.ofSize 2 Sample.handler) Sample.source).run moves) .nothing 0
    let unordered := UnorderedDispatcher.cycle
      ((initial {} (Workers.ofSize 2 Sample.handler) Sample.source).run moves) .nothing 0
    (ordered.2 = .idle ∧
        { offset := 7 } ∈ (period Sample.partition ordered.1.journal).handled ∧
        ordered.1.broker.committed? Sample.partition = some (7 + 1)) ∧
      unordered.2 = .idle ∧
        { offset := 7 } ∈ (period Sample.partition unordered.1.journal).handled ∧
        unordered.1.broker.committed? Sample.partition = some (7 + 1) := by
  intro moves ordered unordered
  have hordered : ordered.2 = .idle := by decide +kernel
  have hunordered : unordered.2 = .idle := by decide +kernel
  obtain ⟨hlanes, hflight⟩ :=
    idle_means_settled {} 2 Sample.handler Sample.source moves .nothing 0
  have hrest : ordered.1.AtRest Sample.partition := ((hlanes hordered).2 _).2.2
  have hrest' : unordered.1.AtRest Sample.partition := ((hflight hunordered).2 _).2
  refine ⟨⟨hordered, hrest.handled { offset := 7 } (by decide +kernel), ?_⟩, hunordered,
    hrest'.handled { offset := 7 } (by decide +kernel), ?_⟩
  · exact hrest.committed (by decide +kernel) (by decide +kernel) { offset := 7 }
      (by decide +kernel) (by decide +kernel)
  · exact hrest'.committed (by decide +kernel) (by decide +kernel) { offset := 7 }
      (by decide +kernel) (by decide +kernel)

/-! ## Contents -/

/-- Take two runs with the same offsets, the same schedule and the same failures
of the broker, and with any records, handlers, credentials and policies.  At
every point of them the dispatchers are the same but for the contents of
records, their brokers were asked for the same, and their next cycles come to
the same. -/
theorem contents_never_matter (settings : Settings) (size : Nat) (handler handler' : Handler)
    {broker broker' : Broker} (hbroker : broker.outline = broker'.outline)
    {moves moves' : List Move} (hmoves : List.Forall₂ Move.Matches moves moves') :
    let ordered : OrderedDispatcher :=
      (initial settings (Workers.ofSize size handler) broker).run moves
    let ordered' : OrderedDispatcher :=
      (initial settings (Workers.ofSize size handler') broker').run moves'
    let unordered : UnorderedDispatcher :=
      (initial settings (Workers.ofSize size handler) broker).run moves
    let unordered' : UnorderedDispatcher :=
      (initial settings (Workers.ofSize size handler') broker').run moves'
    (ordered.Matches ordered' ∧ ordered.broker.requests = ordered'.broker.requests ∧
        ∀ m m' t, Meanwhile.Matches m m' →
          (OrderedDispatcher.cycle ordered m t).2 = (OrderedDispatcher.cycle ordered' m' t).2) ∧
      unordered.Matches unordered' ∧ unordered.broker.requests = unordered'.broker.requests ∧
        ∀ m m' t, Meanwhile.Matches m m' →
          (UnorderedDispatcher.cycle unordered m t).2 =
            (UnorderedDispatcher.cycle unordered' m' t).2 := by
  intro ordered ordered' unordered unordered'
  have hordered : ordered.Matches ordered' :=
    Matches.run (fun t h hm => (OrderedDispatcher.matches_cycle h hm t).1)
      (fun t h hm => OrderedDispatcher.matches_shutdown h hm t)
      (matches_initial settings size handler handler' hbroker) hmoves
  have hunordered : unordered.Matches unordered' :=
    Matches.run (fun t h hm => (UnorderedDispatcher.matches_cycle h hm t).1)
      (fun t h hm => UnorderedDispatcher.matches_shutdown h hm t)
      (matches_initial settings size handler handler' hbroker) hmoves
  exact ⟨⟨hordered, hordered.requests, fun m m' t hm =>
    (OrderedDispatcher.matches_cycle hordered hm t).2⟩, hunordered, hunordered.requests,
    fun m m' t hm => (UnorderedDispatcher.matches_cycle hunordered hm t).2⟩

namespace Sample

/-- A broker that returns the same offsets, with requests in the records. -/
def laden : Broker :=
  { source with
    prefetched := source.prefetched.map fun batches => batches.map fun batch =>
      { batch with records := batch.records.map fun r =>
        { r with payload := some "\x7b\"request\": 1\x7d".toUTF8.toList } } }

/-- A handler that lets requests without a credential pass, and panics. -/
def panicking : Handler := { policy := .passThrough, execute := fun _ => .panicked }

/-- The moves do not depend on anything. -/
theorem moves_match : List.Forall₂ Move.Matches moves moves := by
  refine List.forall₂_same.mpr fun move hmove => ?_
  have hnothing : Meanwhile.Matches .nothing .nothing := fun _ _ _ _ => rfl
  have hwork : ∀ move ∈ work, move.Matches move := by
    intro move hmove
    obtain ⟨task, -, hmove⟩ := List.mem_flatMap.mp hmove
    rw [List.eq_of_mem_replicate hmove]
    exact .work task
  simp only [moves, List.mem_append, List.mem_singleton] at hmove
  obtain ((rfl | hmove) | rfl) | hmove := hmove
  · exact .cycle hnothing _
  · exact hwork move hmove
  · exact .cycle hnothing _
  · exact hwork move hmove

end Sample

/-- In the sample no record can be decoded.  If all of them hold requests and
the executor panics, the same offset is committed. -/
theorem contents_never_matter_sample :
    let ordered : OrderedDispatcher :=
      (initial {} (Workers.ofSize 2 Sample.panicking) Sample.laden).run Sample.moves
    let unordered : UnorderedDispatcher :=
      (initial {} (Workers.ofSize 2 Sample.panicking) Sample.laden).run Sample.moves
    ordered.broker.committed? Sample.partition = some 7 ∧
      unordered.broker.committed? Sample.partition = some 7 := by
  intro ordered unordered
  have hbroker : Sample.source.outline = Sample.laden.outline := rfl
  obtain ⟨⟨-, hordered, -⟩, -, hunordered, -⟩ :=
    contents_never_matter {} 2 Sample.handler Sample.panicking hbroker Sample.moves_match
  unfold Broker.committed? Broker.commits
  rw [← hordered, ← hunordered]
  exact ⟨by decide +kernel, by decide +kernel⟩

end Dispatcher
end RecordDispatch
