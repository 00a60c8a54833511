import RecordDispatch.Dispatch.Run
import RecordDispatch.Proofs.Ordered.Revocation

/-!
# Guarantees of ordered dispatch

Every run of an ordered dispatcher keeps `LanesInv`, whatever its workers, its
broker, its handler and its operator do and in whatever order.  Three guarantees
follow for every state that a run can reach.

* `records_conserved`: of each partition no polled record is lost, handled twice
  or out of turn.
* `commits_cover_handled`: a commit never covers a record that is not handled.
* `hand_over_exact`: a partition that was drained in time is handed over at the
  record where handling stopped.
-/

namespace RecordDispatch.OrderedDispatcher

open Dispatch

/-! ## Every run keeps the invariant -/

section Runs

variable {base : List Broker.Request} {d : OrderedDispatcher}

theorem kept_lanesInv (base : List Broker.Request) : Dispatcher.Kept (LanesInv base []) where
  quiet h hq := h.quiet hq
  work steps h := h.work steps
  revoke m ps h := h.revoke m ps

theorem LanesInv.cycle (h : LanesInv base [] d) (m : Meanwhile) (t : Duration) :
    LanesInv base [] (cycle d m t).1 :=
  cycle_keeps (kept_lanesInv base) (fun m _ h => h.takeUp m) h m t

theorem LanesInv.shutdown (h : LanesInv base [] d) (m : Meanwhile) (t : Duration) :
    LanesInv base [] (shutdown d m t) :=
  shutdown_keeps (kept_lanesInv base) (fun m h => (h.harvest m).lanesInv)
    (fun forced h => h.commit forced) h m t

variable (settings : Settings) (size : Nat) (handler : Handler) (broker : Broker)

theorem lanesInv_initial :
    LanesInv broker.commitRequests []
      (Dispatcher.initial settings (Workers.ofSize size handler) broker) := by
  have hnothing : AccountsInv (Workers.ofSize size handler) [] {} fun _ => {} :=
    ⟨journalInv_ofSize size handler, fun p => account_nothing _ p, along_nil _,
      fun id hr => absurd hr (not_retired_nil id)⟩
  exact ⟨⟨hnothing.cons_quiet rfl, fun _ _ ha => ha, fun _ _ ha => absurd ha nofun, rfl⟩,
    fun _ _ hb => absurd hb nofun⟩

theorem lanesInv_run (moves : List Move) :
    LanesInv broker.commitRequests []
      ((Dispatcher.initial settings (Workers.ofSize size handler) broker).run moves) :=
  (kept_lanesInv _).run (fun m t h => h.cycle m t) (fun m t h => h.shutdown m t)
    (lanesInv_initial settings size handler broker) moves

/-! ## No record is lost, doubled or moved -/

/-- The records of a partition that its processors have handled since it was
last drained, then those that its active processor has before it, then those
that are deferred, are the records that polls have returned in this time. -/
theorem records_conserved (moves : List Move) (p : Partition) :
    let d : OrderedDispatcher :=
      (Dispatcher.initial settings (Workers.ofSize size handler) broker).run moves
    (period p d.journal).handled ++ d.workers.upcomingOf (d.held.active.find? p) ++
        d.deferredRecords p = (period p d.journal).polled ∧
      (∀ batch, d.held.deferred.find? p = some batch →
        batch.partition = p ∧ d.held.active.contains p = true) ∧
      ∀ id, d.held.active.find? p = some id →
        ∃ q, d.workers.processor? id = some q ∧ q.partition = p := by
  intro d
  have h : LanesInv broker.commitRequests [] d := lanesInv_run settings size handler broker moves
  have hbalance := (h.accounts.account p).balance
  have hwaiting : (share [] d p).waiting = d.deferredRecords p := by
    simp [share, recordsOf]
  rw [hwaiting] at hbalance
  exact ⟨hbalance, h.deferred p, fun id hid => (h.accounts.account p).exists_processor hid⟩

/-! ## Commits -/

namespace Sample

/-- A partition. -/
def partition : Partition := ⟨"t", 0⟩

/-- A broker that returns the records at 5 and 6, and later the one at 6 once
more. -/
def source : Broker :=
  { assigned := [partition]
    prefetched := [[⟨partition, [{ offset := 5 }, { offset := 6 }]⟩],
      [⟨partition, [{ offset := 6 }]⟩]] }

/-- The record at 5 is handled, the partition is revoked while its processor
runs, and the next poll returns the record at 6. -/
def moves : List Move :=
  [.cycle .nothing 0, .work 0, .work 0, .work 0, .work 0,
    .revoke (fun _ _ => { steps := [0, 0], elapsed := 1 }) 0 [partition], .cycle .nothing 0]

/-- A dispatcher after these moves. -/
def dispatcher : OrderedDispatcher :=
  (Dispatcher.initial {} (Workers.ofSize 1 { execute := fun _ => .done }) source).run moves

end Sample

/-- The broker is asked to commit what the journal says.  If an offset is
committed for a partition whose records came in ascending order, it stands right
behind a record that was handled since the partition was last drained, and so is
every polled record below it. -/
theorem commits_cover_handled (moves : List Move) :
    let d : OrderedDispatcher :=
      (Dispatcher.initial settings (Workers.ofSize size handler) broker).run moves
    d.broker.commitRequests = requests d.journal ++ broker.commitRequests ∧
      ∀ e older mode offsets accepted, e :: older <:+ d.journal →
        e.request? = some (.commit mode offsets accepted) →
        ∀ p c, offsets.find? p = some c →
          (period p older).polled.Pairwise (·.offset < ·.offset) →
          (∃ r ∈ (period p older).polled, r ∈ (period p older).handled ∧ r.offset = c - 1) ∧
            ∀ r ∈ (period p older).polled, r.offset < c → r ∈ (period p older).handled := by
  intro d
  have h : LanesInv broker.commitRequests [] d := lanesInv_run settings size handler broker moves
  refine ⟨h.linked, fun e older mode offsets accepted hs he p c hc hascending => ?_⟩
  exact (h.accounts.commits e older hs mode offsets accepted he p c hc).covers hascending

/-- In the sample a revocation commits the offset 6. -/
theorem commits_cover_handled_sample :
    ∃ e older offsets, e :: older <:+ Sample.dispatcher.journal ∧
      e.request? = some (.commit .sync offsets true) ∧
      offsets.find? Sample.partition = some 6 ∧
      (∃ r ∈ (period Sample.partition older).polled,
        r ∈ (period Sample.partition older).handled ∧ r.offset = 6 - 1) ∧
      ∀ r ∈ (period Sample.partition older).polled, r.offset < 6 →
        r ∈ (period Sample.partition older).handled := by
  have hevent : Sample.dispatcher.journal[7]? =
      some (.revokeCommitted (({} : Offsets).insert Sample.partition 6)) := by rfl
  have hsuffix := List.suffix_append (Sample.dispatcher.journal.take 7)
    (.revokeCommitted (({} : Offsets).insert Sample.partition 6) ::
      Sample.dispatcher.journal.drop 8)
  rw [← journal_split hevent] at hsuffix
  have hcover := (commits_cover_handled {} 1 { execute := fun _ => .done } Sample.source
    Sample.moves).2 _ _ _ _ _ hsuffix rfl Sample.partition 6 (by decide) (by decide)
  exact ⟨_, _, _, hsuffix, rfl, by decide, hcover⟩

/-! ## Handing over -/

/-- Suppose that a revocation has ended in which the drain of a partition did
not time out and no commit failed.  Then no processor handles a record any more
that was started for the partition in the period that has ended, and those that
are started later have only records that were polled later.  The last offset
that the broker has accepted stands right behind the last handled record. -/
theorem hand_over_exact (moves : List Move) :
    let d : OrderedDispatcher :=
      (Dispatcher.initial settings (Workers.ofSize size handler) broker).run moves
    d.broker.commitRequests = requests d.journal ++ broker.commitRequests ∧
      ∀ newer ps n older, d.journal = newer ++ .revoked ps n :: older →
        ∀ p ∈ ps, InTime p older → Accepted older →
          (period p older).polled.Pairwise (·.offset < ·.offset) →
          (∀ r ∈ (period p older).polled, 0 ≤ r.offset) →
          (∀ e ∈ newer, ∀ id r, e.handled? = some (id, r) → id ∉ (period p older).started) ∧
            (∀ id batch, .started id batch ∈ newer → batch.partition = p →
              batch.records <:+: polledIn p newer) ∧
            ∀ r, (period p older).handled.getLast? = some r →
              lastCommitted p older = some (r.offset + 1) := by
  intro d
  have h : LanesInv broker.commitRequests [] d := lanesInv_run settings size handler broker moves
  refine ⟨h.linked, fun newer ps n older hj p hp hintime haccepted hs h0 => ⟨?_, ?_, ?_⟩⟩
  · intro e he id r hhandled hid
    obtain ⟨later, earlier, hsplit⟩ := List.append_of_mem he
    have hsuffix : e :: (earlier ++ .revoked ps n :: older) <:+ d.journal :=
      ⟨later, by rw [hj, hsplit, List.append_assoc, List.cons_append]⟩
    refine (h.accounts.promises e _ hsuffix).unretired id r hhandled ?_
    exact ⟨ps, n, older, List.suffix_append _ _, p, hp, hintime, hid⟩
  · rintro id batch hmem rfl
    obtain ⟨later, earlier, hsplit⟩ := List.append_of_mem hmem
    have hsuffix : .started id batch :: (earlier ++ .revoked ps n :: older) <:+ d.journal :=
      ⟨later, by rw [hj, hsplit, List.append_assoc, List.cons_append]⟩
    have hstart := (h.accounts.promises _ _ hsuffix).start id batch rfl
    have hearlier : polledIn batch.partition earlier <+: polledIn batch.partition newer := by
      rw [hsplit, ← List.singleton_append, ← List.append_assoc, polledIn_append]
      exact List.prefix_append _ _
    exact hstart.trans ((polled_suffix_polledIn hp earlier older).isInfix.trans
      hearlier.isInfix)
  · have hsuffix : .revoked ps n :: older <:+ d.journal := ⟨newer, hj.symm⟩
    exact (h.accounts.promises _ _ hsuffix).handOver ps n rfl p hp hintime haccepted hs h0

/-- In the sample the partition is handed over at the record at 6, which the
processor that was stopped does not handle. -/
theorem hand_over_exact_sample :
    ∃ newer older, Sample.dispatcher.journal =
        newer ++ .revoked [Sample.partition] 1 :: older ∧
      (period Sample.partition older).handled = [{ offset := 5 }] ∧
      lastCommitted Sample.partition older = some 6 ∧
      ∀ e ∈ newer, ∀ id r, e.handled? = some (id, r) →
        id ∉ (period Sample.partition older).started := by
  have hevent : Sample.dispatcher.journal[6]? = some (.revoked [Sample.partition] 1) := by rfl
  have hjournal := journal_split hevent
  have hhandled : (period Sample.partition (Sample.dispatcher.journal.drop 7)).handled =
      [{ offset := 5 }] := by decide
  obtain ⟨hlater, -, hlast⟩ := (hand_over_exact {} 1 { execute := fun _ => .done } Sample.source
    Sample.moves).2 _ _ _ _ hjournal Sample.partition (by decide)
    (by unfold InTime; decide) (by unfold Accepted; decide) (by decide) (by decide)
  exact ⟨_, _, hjournal, hhandled, hlast { offset := 5 } (by rw [hhandled]; rfl), hlater⟩

end Runs
end RecordDispatch.OrderedDispatcher
