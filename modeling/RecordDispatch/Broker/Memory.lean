import RecordDispatch.Batch
import RecordDispatch.Broker.Error
import RecordDispatch.Broker.Request

/-!
# A broker in memory

`Broker` is a group member's view of a log broker: the partitions assigned to
the member, those that are paused, the records still in the log, and what is
scheduled to happen.  Every call can be made to fail by an `Outage`, and
a call that fails changes nothing but the history of requests.

A poll first delivers the scheduled rebalances; that is the dispatcher's
business and not done here.  `fetch` is what is left of a poll: it answers
with an error, with records that were fetched ahead, or with the next records
of each partition that is assigned and not paused.
-/

namespace RecordDispatch

namespace Broker

/-- Which calls of a kind fail: the answer for each of the next calls, and the
answer for all later ones. -/
structure Outage where
  next : List Bool := []
  later : Bool := false
deriving Inhabited

/-- Whether the next call fails. -/
def Outage.fails (o : Outage) : Bool :=
  o.next.headD o.later

/-- The outage after one call. -/
def Outage.afterCall (o : Outage) : Outage :=
  { o with next := o.next.tail }

/-- A change of the partitions that are assigned to a member. -/
inductive Rebalance
  | revoke (ps : List Partition)
  | assign (ps : List Partition)

end Broker

/-- A broker as one group member sees it. -/
structure Broker where
  /-- The partitions assigned to the member. -/
  assigned : List Partition := []
  /-- The paused partitions. -/
  paused : List Partition := []
  /-- The records still in the log. -/
  backlog : Table (List Record) := {}
  /-- Batches that the next polls return whatever is paused. -/
  prefetched : List (List Batch) := []
  /-- Errors of the protocol client in place of the next polls. -/
  clientErrors : List Broker.ClientError := []
  /-- Errors with which the broker answers the next polls. -/
  pollErrors : List String := []
  /-- Rebalances that the next poll delivers. -/
  rebalances : List Broker.Rebalance := []
  /-- How many records of a partition a poll returns at most. -/
  perPoll : Nat := 500
  /-- Whether the member has left the group. -/
  closed : Bool := false
  commitOutage : Broker.Outage := {}
  pauseOutage : Broker.Outage := {}
  resumeOutage : Broker.Outage := {}
  assignmentOutage : Broker.Outage := {}
  /-- The requests so far, newest first. -/
  requests : List Broker.Request := []
deriving Inhabited

namespace Broker

/-- Partitions with others added, without repetition. -/
def union (ps added : List Partition) : List Partition :=
  added.foldl (fun ps p => if ps.contains p then ps else p :: ps) ps

/-- Partitions without others. -/
def without (ps removed : List Partition) : List Partition :=
  ps.filter fun p => !removed.contains p

@[simp] theorem mem_union {p : Partition} {ps added : List Partition} :
    p ∈ union ps added ↔ p ∈ ps ∨ p ∈ added := by
  unfold union
  induction added generalizing ps with
  | nil => simp
  | cons q qs ih =>
    rw [List.foldl_cons, ih, List.mem_cons, ← or_assoc]
    refine or_congr_left ?_
    split
    · next h => exact ⟨Or.inl, fun hp => hp.elim id fun hq => hq ▸ List.contains_iff_mem.mp h⟩
    · simp [or_comm]

@[simp] theorem mem_without {p : Partition} {ps removed : List Partition} :
    p ∈ without ps removed ↔ p ∈ ps ∧ p ∉ removed := by
  simp [without]

/-- Whether a partition is paused. -/
def isPaused (b : Broker) (p : Partition) : Bool :=
  b.paused.contains p

/-- Pause partitions. -/
def pause (b : Broker) (ps : List Partition) : Broker × Except Error Unit :=
  let after := { b with pauseOutage := b.pauseOutage.afterCall }
  if b.pauseOutage.fails then
    ({ after with requests := .pause ps false :: b.requests },
      .error (.unavailable "pause rejected"))
  else
    ({ after with
        paused := union b.paused ps
        requests := .pause ps true :: b.requests },
      .ok ())

/-- Resume partitions. -/
def resume (b : Broker) (ps : List Partition) : Broker × Except Error Unit :=
  let after := { b with resumeOutage := b.resumeOutage.afterCall }
  if b.resumeOutage.fails then
    ({ after with requests := .resume ps false :: b.requests },
      .error (.unavailable "resume rejected"))
  else
    ({ after with
        paused := without b.paused ps
        requests := .resume ps true :: b.requests },
      .ok ())

/-- The partitions assigned to the member, in order. -/
def assignment (b : Broker) : Broker × Except Error (List Partition) :=
  let after := { b with assignmentOutage := b.assignmentOutage.afterCall }
  if b.assignmentOutage.fails then (after, .error (.unavailable "assignment rejected"))
  else (after, .ok (Partition.sort b.assigned))

/-- Commit offsets. -/
def commit (b : Broker) (mode : CommitMode) (offsets : Offsets) :
    Broker × Except Error Unit :=
  let after := { b with commitOutage := b.commitOutage.afterCall }
  if b.commitOutage.fails then
    ({ after with requests := .commit mode offsets false :: b.requests },
      .error (.unavailable "commit rejected"))
  else
    ({ after with requests := .commit mode offsets true :: b.requests }, .ok ())

/-- The partitions of which a poll reads the log, in order. -/
def readable (b : Broker) : List Partition :=
  (Partition.sort b.assigned).filter fun p => !b.isPaused p

/-- The next records of a partition, as a batch if there are any. -/
def nextBatch (b : Broker) (p : Partition) : Option Batch :=
  match ((b.backlog.find? p).getD []).take b.perPoll with
  | [] => none
  | r :: rs => some ⟨p, r :: rs⟩

/-- Take the next records of partitions from the log. -/
def read (b : Broker) (ps : List Partition) : Broker × List Batch :=
  ({ b with
      backlog := ps.foldl (fun t p => t.modify p fun rs => rs.drop b.perPoll) b.backlog },
    ps.filterMap b.nextBatch)

/-- Answer a poll, once rebalances are delivered. -/
def fetch (b : Broker) : Broker × Except Error (List Batch) :=
  let b := { b with requests := .poll :: b.requests }
  if b.closed then (b, .error .closed)
  else
    match b.pollErrors with
    | text :: rest => ({ b with pollErrors := rest }, .error (.unavailable text))
    | [] =>
      match b.prefetched with
      | batches :: rest => ({ b with prefetched := rest }, .ok batches)
      | [] =>
        let (b, batches) := b.read b.readable
        (b, .ok batches)

/-- Take partitions away from the member. -/
def revoke (b : Broker) (ps : List Partition) : Broker :=
  { b with
    assigned := without b.assigned ps
    paused := without b.paused ps }

/-- Give partitions to the member. -/
def assign (b : Broker) (ps : List Partition) : Broker :=
  { b with assigned := union b.assigned ps }

/-- Deliver the scheduled rebalances to a member that holds no work. -/
def rebalanced (b : Broker) : Broker :=
  b.rebalances.foldl
    (fun b r =>
      match r with
      | .revoke ps => b.revoke ps
      | .assign ps => b.assign ps)
    { b with rebalances := [] }

/-- Leave the group. -/
def leave (b : Broker) : Broker :=
  { b with assigned := [], paused := [], closed := true }

/-- Append the records of a batch to the log of its partition. -/
def push (b : Broker) (batch : Batch) : Broker :=
  { b with
    backlog := b.backlog.insert batch.partition
      ((b.backlog.find? batch.partition).getD [] ++ batch.records) }

/-- Let polls return at most a number of records of a partition, but one at
least. -/
def limitPolls (b : Broker) (n : Nat) : Broker :=
  { b with perPoll := max n 1 }

/-- The number of records still in the log of a partition. -/
def backlogSize (b : Broker) (p : Partition) : Nat :=
  ((b.backlog.find? p).getD []).length

/-- The commits that were accepted, newest first. -/
def commits (b : Broker) : List (CommitMode × Offsets) :=
  b.requests.filterMap Request.committed?

/-- The offset of a partition that was committed last. -/
def committed? (b : Broker) (p : Partition) : Option Int :=
  b.commits.findSome? fun c => c.2.find? p

/-- How many requests satisfy a condition. -/
def count (b : Broker) (which : Request → Bool) : Nat :=
  b.requests.countP which

/-! ## What does not change the paused partitions -/

@[simp] theorem paused_assignment (b : Broker) : b.assignment.1.paused = b.paused := by
  unfold assignment
  split <;> rfl

@[simp] theorem paused_commit (b : Broker) (mode : CommitMode) (offsets : Offsets) :
    (b.commit mode offsets).1.paused = b.paused := by
  unfold commit
  split <;> rfl

@[simp] theorem paused_fetch (b : Broker) : b.fetch.1.paused = b.paused := by
  simp only [fetch, read]
  repeat' split
  all_goals rfl

/-! ## What is read -/

/-- A poll reads the log of the assigned partitions that are not paused. -/
theorem mem_readable {b : Broker} {p : Partition} :
    p ∈ b.readable ↔ p ∈ b.assigned ∧ p ∉ b.paused := by
  simp [readable, isPaused]

end Broker
end RecordDispatch
