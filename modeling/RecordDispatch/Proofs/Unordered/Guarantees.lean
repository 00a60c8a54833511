import RecordDispatch.Dispatch.Run
import RecordDispatch.Proofs.Unordered.Revocation

/-!
# Guarantees of unordered dispatch

Every run of an unordered dispatcher keeps `FlightInv`.  It follows that a commit
never covers a record that is not handled (`commits_below_unhandled`).
-/

namespace RecordDispatch.UnorderedDispatcher

open Dispatch

section Runs

variable {base : List Broker.Request} {d : UnorderedDispatcher}

theorem kept_flightInv (base : List Broker.Request) : Dispatcher.Kept (FlightInv base []) where
  quiet h hq := h.quiet hq
  work steps h := h.work steps
  revoke m ps h := h.revoke m ps

theorem FlightInv.cycle (h : FlightInv base [] d) (m : Meanwhile) (t : Duration) :
    FlightInv base [] (cycle d m t).1 :=
  cycle_keeps (kept_flightInv base) (fun m h => h.settle m) (fun forced h => h.commit forced)
    (fun _ h => h.takeUp) h m t

theorem FlightInv.shutdown (h : FlightInv base [] d) (m : Meanwhile) (t : Duration) :
    FlightInv base [] (shutdown d m t) :=
  shutdown_keeps (kept_flightInv base) (fun m h => h.settle m) (fun forced h => h.commit forced)
    h m t

theorem FlightInv.move (h : FlightInv base [] d) (move : Move) : FlightInv base [] (d.move move) :=
  (kept_flightInv base).run (fun m t h => h.cycle m t) (fun m t h => h.shutdown m t) h [move]

variable (settings : Settings) (size : Nat) (handler : Handler) (broker : Broker)

theorem flightInv_initial :
    FlightInv broker.commitRequests []
      (Dispatcher.initial settings (Workers.ofSize size handler) broker) := by
  have hnothing : TalliesInv (Workers.ofSize size handler) [] {} (fun _ => []) fun _ => [] :=
    ⟨journalInv_ofSize size handler, fun p => tally_nothing _ p⟩
  have hcreated : ∀ e ∈ [Event.workers (.created (Workers.ofSize size handler).size)],
      e.isQuiet = true := by
    intro e he
    rw [List.mem_singleton.mp he]
    rfl
  exact ⟨hnothing.append_quiet hcreated, fun _ _ hfind => absurd hfind nofun, nofun, rfl⟩

theorem flightInv_run (moves : List Move) :
    FlightInv broker.commitRequests []
      ((Dispatcher.initial settings (Workers.ofSize size handler) broker).run moves) :=
  (kept_flightInv _).run (fun m t h => h.cycle m t) (fun m t h => h.shutdown m t)
    (flightInv_initial settings size handler broker) moves

/-! ## Commits -/

namespace Sample

/-- A partition. -/
def partition : Partition := ⟨"t", 0⟩

/-- A broker that returns the records at 5 and 6, and then none. -/
def source : Broker :=
  { assigned := [partition]
    prefetched := [[⟨partition, [{ offset := 5 }, { offset := 6 }]⟩], []] }

/-- The record at 6 is handled before the one at 5, and it is time to commit
then. -/
def moves : List Move :=
  [.cycle .nothing 0, .work 1, .work 1, .work 1, .work 1, .work 1, .work 0, .work 0, .work 0,
    .work 0, .work 0, .cycle .nothing (Duration.ofMillis 4000)]

/-- A dispatcher after these moves. -/
def dispatcher : UnorderedDispatcher :=
  (Dispatcher.initial {} (Workers.ofSize 2 { execute := fun _ => .done }) source).run moves

end Sample

/-- The broker is asked to commit what the journal says.  If an offset is
committed for a partition whose records came in ascending order, every record
below it that was polled since the partition was last drained is handled, in
whatever order processors have come to their end. -/
theorem commits_below_unhandled (moves : List Move) :
    let d : UnorderedDispatcher :=
      (Dispatcher.initial settings (Workers.ofSize size handler) broker).run moves
    d.broker.commitRequests = requests d.journal ++ broker.commitRequests ∧
      ∀ e older mode offsets accepted, e :: older <:+ d.journal →
        e.request? = some (.commit mode offsets accepted) →
        ∀ p c, offsets.find? p = some c →
          (period p older).polled.Pairwise (·.offset < ·.offset) →
          (∃ r ∈ (period p older).polled, r ∈ (period p older).handled ∧ r.offset = c - 1) ∧
            ∀ r ∈ (period p older).polled, r.offset < c → r ∈ (period p older).handled := by
  intro d
  have h : FlightInv broker.commitRequests [] d := flightInv_run settings size handler broker moves
  refine ⟨h.linked, fun e older mode offsets accepted hs he p c hc hascending => ?_⟩
  exact (h.tallies.commits e older hs mode offsets accepted he p c hc).covers hascending

/-- In the sample the scheduled commit covers both records. -/
theorem commits_below_unhandled_sample :
    ∃ e older offsets, e :: older <:+ Sample.dispatcher.journal ∧
      e.request? = some (.commit .async offsets true) ∧
      offsets.find? Sample.partition = some 7 ∧
      (∃ r ∈ (period Sample.partition older).polled,
        r ∈ (period Sample.partition older).handled ∧ r.offset = 7 - 1) ∧
      ∀ r ∈ (period Sample.partition older).polled, r.offset < 7 →
        r ∈ (period Sample.partition older).handled := by
  have hevent : Sample.dispatcher.journal[0]? = some
      (.commit (.committed (({} : Offsets).insert Sample.partition 7) .async false)) := by rfl
  have hsuffix := List.suffix_append (Sample.dispatcher.journal.take 0)
    (.commit (.committed (({} : Offsets).insert Sample.partition 7) .async false) ::
      Sample.dispatcher.journal.drop 1)
  rw [← journal_split hevent] at hsuffix
  have hcover := (commits_below_unhandled {} 2 { execute := fun _ => .done } Sample.source
    Sample.moves).2 _ _ _ _ _ hsuffix rfl Sample.partition 7 (by decide) (by decide)
  exact ⟨_, _, _, hsuffix, rfl, by decide, hcover⟩

end Runs
end RecordDispatch.UnorderedDispatcher
