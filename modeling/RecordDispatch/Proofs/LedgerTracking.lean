import RecordDispatch.Proofs.Dispatcher

/-!
# What a ledger and its commits track

A `Desk` is a ledger with the schedule of its commits and the broker that
answers them, without a dispatcher around them.  Offsets are recorded,
partitions are taken out of the ledger, the ledger is cleared, and commits are
tried, in any order, and each may be accepted or refused.  The history of a desk
says what was asked of it and which commits were accepted.

The ledger has two tables, and a commit that fails puts back one of them only.
What this comes to is said with neither: `highest` is the highest offset that
was recorded for a partition since the partition was last forgotten, and
`committed` are the offsets that were accepted for it in this time.  `Tracks` is
the invariant that ties the tables to the two; `call` is its step and `run` the
induction over all calls.
-/

namespace RecordDispatch.Commit

/-! ## Desks -/

/-- What may be asked of a ledger and the schedule of its commits. -/
inductive Call
  | record (p : Partition) (next : Int)
  /-- Partitions are taken out of the ledger. -/
  | take (ps : List Partition)
  | clear
  | commit (now : Instant) (forced : Bool)

/-- What has happened to a ledger. -/
inductive Entry
  /-- An offset was handed to the ledger, whether it was taken up or not. -/
  | recorded (p : Partition) (next : Int)
  | taken (ps : List Partition)
  | cleared
  /-- A commit was attempted. -/
  | attempted (event : Event)

/-- A ledger, the schedule of its commits, and the broker that answers them. -/
structure Desk where
  schedule : Schedule
  broker : Broker
  ledger : Ledger := {}
  /-- What has happened, newest first. -/
  history : List Entry := []

namespace Desk

/-- The desk after a call. -/
def call (d : Desk) : Call → Desk
  | .record p next =>
    { d with
      ledger := d.ledger.record p next
      history := .recorded p next :: d.history }
  | .take ps => { d with ledger := d.ledger.forget ps, history := .taken ps :: d.history }
  | .clear => { d with ledger := d.ledger.clear, history := .cleared :: d.history }
  | .commit now forced =>
    let s := Commit.run d.schedule now forced d.ledger d.broker
    { schedule := s.schedule
      broker := s.broker
      ledger := s.ledger
      history := (s.events.map .attempted).reverse ++ d.history }

/-- The desk after calls, one after another. -/
def run (d : Desk) (calls : List Call) : Desk :=
  calls.foldl call d

end Desk

/-! ## What a history says -/

namespace Entry

/-- Whether the ledger forgets a partition. -/
def forgets (p : Partition) : Entry → Bool
  | .taken ps => ps.contains p
  | .cleared => true
  | _ => false

/-- The offset that was recorded for a partition. -/
def recorded? (p : Partition) : Entry → Option Int
  | .recorded q next => if q = p then some next else none
  | _ => none

/-- The offsets of a commit that was accepted. -/
def accepted? : Entry → Option Offsets
  | .attempted (.committed offsets _ _) => some offsets
  | _ => none

/-- The offset of a partition in a commit that was accepted. -/
def committed? (p : Partition) (e : Entry) : Option Int :=
  e.accepted?.bind (·.find? p)

end Entry

/-- The history since a partition was last forgotten. -/
def since (p : Partition) (history : List Entry) : List Entry :=
  history.takeWhile fun e => !e.forgets p

/-- The offsets that were recorded for a partition since it was last forgotten,
newest first. -/
def recorded (p : Partition) (history : List Entry) : List Int :=
  (since p history).filterMap (Entry.recorded? p)

/-- The highest of them. -/
def highest (p : Partition) (history : List Entry) : Option Int :=
  (recorded p history).max?

/-- The offsets of a partition in the commits that were accepted since the
partition was last forgotten, newest first. -/
def committed (p : Partition) (history : List Entry) : List Int :=
  (since p history).filterMap (Entry.committed? p)

section History

variable {p : Partition} {e : Entry} {history : List Entry}

theorem since_cons :
    since p (e :: history) = if e.forgets p then [] else e :: since p history := by
  unfold since
  rw [List.takeWhile_cons]
  cases e.forgets p <;> rfl

theorem recorded_cons_of_forgets (h : e.forgets p = true) : recorded p (e :: history) = [] := by
  rw [recorded, since_cons, if_pos h, List.filterMap_nil]

theorem committed_cons_of_forgets (h : e.forgets p = true) :
    committed p (e :: history) = [] := by
  rw [committed, since_cons, if_pos h, List.filterMap_nil]

theorem recorded_cons (h : e.forgets p = false) :
    recorded p (e :: history) = (e.recorded? p).toList ++ recorded p history := by
  unfold recorded
  rw [since_cons, h, if_neg Bool.false_ne_true, List.filterMap_cons]
  cases e.recorded? p <;> rfl

theorem committed_cons (h : e.forgets p = false) :
    committed p (e :: history) = (e.committed? p).toList ++ committed p history := by
  unfold committed
  rw [since_cons, h, if_neg Bool.false_ne_true, List.filterMap_cons]
  cases e.committed? p <;> rfl

end History

/-! ## What the ledger has of a partition -/

/-- What a ledger has of a partition, given the offsets that were recorded for
it and those that were committed. -/
structure Tracks (l : Ledger) (p : Partition) (recorded committed : List Int) : Prop where
  mark : l.mark p = recorded.max?
  /-- A pending offset was not committed yet. -/
  pending : ∀ m, l.get? p = some m → ∀ c ∈ committed, c < m
  /-- Without a pending offset the one that was handed out last was committed. -/
  flushed : l.get? p = none → l.flushed.find? p = committed.head?
  rising : committed.Pairwise (· > ·)

namespace Tracks

variable {l l' : Ledger} {p : Partition} {recorded committed : List Int}

/-- Nothing was recorded since the partition was forgotten. -/
theorem nothing (hg : l.get? p = none) (hf : l.flushed.find? p = none) : Tracks l p [] [] := by
  refine ⟨by simp [Ledger.mark, hg, hf], fun _ _ => nofun, fun _ => hf, .nil⟩

theorem congr (h : Tracks l p recorded committed) (hg : l'.get? p = l.get? p)
    (hf : l'.flushed.find? p = l.flushed.find? p) : Tracks l' p recorded committed := by
  refine ⟨?_, ?_, ?_, h.rising⟩
  · rw [Ledger.mark, hg, hf]
    exact h.mark
  · rw [hg]
    exact h.pending
  · rw [hg, hf]
    exact h.flushed

/-- Every committed offset has reached the mark at most. -/
theorem le_mark (h : Tracks l p recorded committed) {c : Int} (hc : c ∈ committed) :
    ∃ m, l.mark p = some m ∧ c ≤ m := by
  cases hg : l.get? p with
  | some m => exact ⟨m, by simp [Ledger.mark, hg], Int.le_of_lt (h.pending m hg c hc)⟩
  | none =>
    have hrising := h.rising
    have hflushed := h.flushed hg
    cases committed with
    | nil => exact absurd hc List.not_mem_nil
    | cons latest earlier =>
      refine ⟨latest, by simp [Ledger.mark, hg, hflushed], ?_⟩
      rcases List.mem_cons.mp hc with rfl | hc
      · exact Int.le_refl c
      · exact Int.le_of_lt (List.rel_of_pairwise_cons hrising hc)

/-- What is pending is the highest recorded offset, unless it was committed. -/
theorem get?_eq (h : Tracks l p recorded committed) :
    l.get? p = recorded.max?.filter fun m => committed.head?.all (· < m) := by
  rw [← h.mark]
  cases hg : l.get? p with
  | some m =>
    have hall : committed.head?.all (· < m) = true := by
      cases hc : committed.head? with
      | none => rfl
      | some c => simpa using h.pending m hg c (List.mem_of_head? hc)
    simp [Ledger.mark, hg, Option.filter, hall]
  | none =>
    rw [Ledger.mark, hg, Option.none_or, h.flushed hg]
    cases committed.head? <;> simp [Option.filter]

/-- An offset is recorded. -/
theorem record (h : Tracks l p recorded committed) (hl : l.Ascending) (next : Int) :
    Tracks (l.record p next) p (next :: recorded) committed := by
  have hmax : (next :: recorded).max? = some ((recorded.max?.map (max next)).getD next) := by
    rw [List.max?_cons]
    cases recorded.max? <;> rfl
  rcases Ledger.record_cases hl p next with ⟨heq, c, hc, hle⟩ | ⟨hget, hmark, -⟩
  · rw [heq]
    refine ⟨?_, h.pending, h.flushed, h.rising⟩
    rw [hmax, ← h.mark, hc, Option.map_some, Option.getD_some, Int.max_eq_right hle]
  · refine ⟨?_, fun m hm c hc => ?_, fun hnone => ?_, h.rising⟩
    · rw [hmax, ← h.mark, Ledger.mark, hget, Option.some_or]
      cases hc : l.mark p with
      | none => rfl
      | some c =>
        rw [Option.map_some, Option.getD_some, Int.max_eq_left (Int.le_of_lt (hmark c hc))]
    · obtain ⟨c', hc', hle⟩ := h.le_mark hc
      rw [hget] at hm
      have := hmark c' hc'
      have := Option.some.inj hm
      omega
    · rw [hget] at hnone
      cases hnone

/-- All pending offsets are committed, and the broker accepts this or not. -/
theorem commit (h : Tracks l p recorded committed) (accepted : Bool) :
    Tracks (l.afterCommit accepted) p recorded
      ((if accepted then l.get? p else none).toList ++ committed) := by
  have hget := l.get?_afterCommit accepted p
  have hflushed := l.flushed_afterCommit accepted p
  refine ⟨by rw [l.mark_afterCommit, h.mark], fun m hm c hc => ?_, fun hnone => ?_, ?_⟩
  · rw [hget] at hm
    cases accepted with
    | true => exact absurd hm nofun
    | false => exact h.pending m hm c hc
  · rw [hget] at hnone
    rw [hflushed, Ledger.mark]
    cases accepted with
    | true =>
      cases hg : l.get? p with
      | some m => rfl
      | none => exact h.flushed hg
    | false =>
      have hg : l.get? p = none := hnone
      rw [hg]
      exact h.flushed hg
  · cases accepted with
    | false => exact h.rising
    | true =>
      cases hg : l.get? p with
      | some m => exact List.pairwise_cons.mpr ⟨h.pending m hg, h.rising⟩
      | none => exact h.rising

end Tracks

/-! ## All calls -/

/-- The entry of an attempt says what the broker has accepted. -/
theorem Attempted.accepted? {s : Schedule} {forced : Bool} {l : Ledger} {b : Broker}
    {accepted : Bool} {e : Event} {r : Step} (h : Attempted s forced l b accepted e r) :
    (Entry.attempted e).accepted? = if accepted then some l.pending else none := by
  have hrequest := h.request
  cases e <;>
  · obtain ⟨-, rfl, rfl⟩ := Broker.Request.commit.inj (Option.some.inj hrequest)
    rfl

namespace Desk

/-- The ledger of a desk tracks every partition, and the broker has accepted
what the history says, after the commits in `base`. -/
structure DeskInv (base : List Offsets) (d : Desk) : Prop where
  ascending : d.ledger.Ascending
  tracks : ∀ p, Tracks d.ledger p (recorded p d.history) (committed p d.history)
  accepted : d.broker.commits.map (·.2) = d.history.filterMap Entry.accepted? ++ base

theorem deskInv_initial (schedule : Schedule) (broker : Broker) :
    DeskInv (broker.commits.map (·.2)) { schedule, broker } :=
  ⟨Ledger.ascending_empty, fun _ => .nothing rfl rfl, rfl⟩

namespace DeskInv

variable {base : List Offsets} {d : Desk}

theorem record (h : d.DeskInv base) (p : Partition) (next : Int) :
    (d.call (.record p next)).DeskInv base := by
  refine ⟨h.ascending.record p next, fun q => ?_, h.accepted⟩
  dsimp only [call]
  rw [recorded_cons rfl, committed_cons rfl]
  by_cases hq : p = q
  · subst hq
    simpa [Entry.recorded?, Entry.committed?, Entry.accepted?] using
      (h.tracks p).record h.ascending next
  · have hget : (d.ledger.record p next).get? q = d.ledger.get? q := by
      simp [Ledger.get?_record, Ne.symm hq]
    simpa [Entry.recorded?, Entry.committed?, Entry.accepted?, hq] using
      (h.tracks q).congr hget (by rw [Ledger.flushed_record])

theorem take (h : d.DeskInv base) (ps : List Partition) : (d.call (.take ps)).DeskInv base := by
  refine ⟨h.ascending.forget ps, fun q => ?_, h.accepted⟩
  dsimp only [call]
  by_cases hq : q ∈ ps
  · have hforgets : (Entry.taken ps).forgets q = true := List.contains_iff_mem.mpr hq
    rw [recorded_cons_of_forgets hforgets, committed_cons_of_forgets hforgets]
    exact .nothing (by simp [hq]) (by simp [hq])
  · have hforgets : (Entry.taken ps).forgets q = false := by
      simp [Entry.forgets, hq]
    rw [recorded_cons hforgets, committed_cons hforgets]
    exact (h.tracks q).congr (by simp [hq]) (by simp [hq])

theorem clear (h : d.DeskInv base) : (d.call .clear).DeskInv base := by
  refine ⟨Ledger.ascending_empty, fun q => ?_, h.accepted⟩
  dsimp only [call]
  rw [recorded_cons_of_forgets rfl, committed_cons_of_forgets rfl]
  exact .nothing rfl rfl

theorem commit (h : d.DeskInv base) (now : Instant) (forced : Bool) :
    (d.call (.commit now forced)).DeskInv base := by
  dsimp only [call]
  rcases run_cases d.schedule now forced d.ledger d.broker with heq | ⟨accepted, e, ha⟩
  · rw [heq]
    exact ⟨h.ascending, h.tracks, h.accepted⟩
  · have haccepted := ha.accepted?
    generalize Commit.run d.schedule now forced d.ledger d.broker = s at ha ⊢
    rw [ha.events, ha.ledger]
    change DeskInv base ⟨s.schedule, s.broker, _, .attempted e :: d.history⟩
    refine ⟨d.ledger.ascending_afterCommit accepted, fun q => ?_, ?_⟩
    · have hstep := (h.tracks q).commit accepted
      rw [recorded_cons rfl, committed_cons rfl, Entry.committed?, haccepted]
      cases accepted <;> exact hstep
    · have hbefore := h.accepted
      rw [Broker.commits_eq] at hbefore ⊢
      rw [ha.broker, List.filterMap_cons, List.filterMap_cons, haccepted]
      cases accepted with
      | true => exact congrArg (d.ledger.pending :: ·) hbefore
      | false => exact hbefore

theorem call (h : d.DeskInv base) (c : Call) : (d.call c).DeskInv base := by
  cases c with
  | record p next => exact h.record p next
  | take ps => exact h.take ps
  | clear => exact h.clear
  | commit now forced => exact h.commit now forced

theorem run (h : d.DeskInv base) (calls : List Call) : (d.run calls).DeskInv base := by
  induction calls generalizing d with
  | nil => exact h
  | cons c calls ih => exact ih (h.call c)

end DeskInv

/-- Whatever is asked of an empty ledger and in whatever order commits are
accepted and refused, the ledger has for a partition exactly the highest offset
recorded since the partition was last forgotten, unless the last commit accepted
in this time has reached it.  It takes up an offset exactly if it lies above all
that were recorded, and the offsets that the broker accepts rise. -/
theorem tracks_highest_uncommitted (schedule : Schedule) (broker : Broker) (calls : List Call)
    (p : Partition) :
    let d := ({ schedule, broker } : Desk).run calls
    d.ledger.get? p =
        ((highest p d.history).filter fun m => (committed p d.history).head?.all (· < m)) ∧
      (∀ next, d.ledger.advances p next = true ↔
        ∀ m, highest p d.history = some m → m < next) ∧
      (committed p d.history).Pairwise (· > ·) ∧
      d.broker.commits.map (·.2) =
        d.history.filterMap Entry.accepted? ++ broker.commits.map (·.2) := by
  intro d
  have h : DeskInv (broker.commits.map (·.2)) d := (deskInv_initial schedule broker).run calls
  have htracks := h.tracks p
  refine ⟨htracks.get?_eq, fun next => ?_, htracks.rising, h.accepted⟩
  rw [Ledger.advances_iff h.ascending, htracks.mark]
  rfl

/-- A commit that fails is made up for by the next one; after that neither the
same offset nor a lower one is committed again. -/
example :
    let p : Partition := ⟨"t", 0⟩
    let broker : Broker := { commitOutage := { next := [true] } }
    let d := Desk.run { schedule := { interval := 0, mode := .async }, broker }
      [.record p 5, .commit 0 true, .record p 4, .commit 0 true, .record p 5, .commit 0 true]
    d.ledger.get? p = none ∧ committed p d.history = [5] := by
  decide

end Desk
end RecordDispatch.Commit
