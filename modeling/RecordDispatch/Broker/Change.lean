import RecordDispatch.Broker.Memory

/-!
# What happens to a broker from outside

The changes of a broker that no call of the member brings about: records
arrive, calls begin to fail or cease to, and the group is rebalanced.  What is
scheduled waits in the broker for the next polls, in the order in which it was
scheduled.
-/

namespace RecordDispatch

namespace Broker

/-- A change of a broker from outside. -/
inductive Change
  /-- Records are appended to the log of a partition. -/
  | push (batch : Batch)
  /-- A later poll returns batches that were fetched ahead. -/
  | prefetch (batches : List Batch)
  /-- Polls return at most a number of records of a partition. -/
  | limitPolls (records : Nat)
  /-- A later poll fails at the broker. -/
  | failPoll (text : String)
  /-- A later poll fails in the protocol client, before it reaches the broker. -/
  | failClient (error : ClientError)
  | commitOutage (outage : Outage)
  | pauseOutage (outage : Outage)
  | resumeOutage (outage : Outage)
  | assignmentOutage (outage : Outage)
  /-- The next poll delivers a rebalance. -/
  | rebalance (rebalance : Rebalance)

end Broker

/-- The broker after a change from outside. -/
def Broker.apply (b : Broker) : Broker.Change → Broker
  | .push batch => b.push batch
  | .prefetch batches => { b with prefetched := b.prefetched ++ [batches] }
  | .limitPolls n => b.limitPolls n
  | .failPoll text => { b with pollErrors := b.pollErrors ++ [text] }
  | .failClient e => { b with clientErrors := b.clientErrors ++ [e] }
  | .commitOutage o => { b with commitOutage := o }
  | .pauseOutage o => { b with pauseOutage := o }
  | .resumeOutage o => { b with resumeOutage := o }
  | .assignmentOutage o => { b with assignmentOutage := o }
  | .rebalance r => { b with rebalances := b.rebalances ++ [r] }

namespace Broker

/-- Only calls pause and resume partitions. -/
@[simp] theorem paused_apply (b : Broker) (c : Change) : (b.apply c).paused = b.paused := by
  cases c <;> rfl

/-- A rebalance changes the assignment when it is delivered, not before. -/
@[simp] theorem assigned_apply (b : Broker) (c : Change) :
    (b.apply c).assigned = b.assigned := by
  cases c <;> rfl

/-- Only calls are requests. -/
@[simp] theorem requests_apply (b : Broker) (c : Change) :
    (b.apply c).requests = b.requests := by
  cases c <;> rfl

end Broker
end RecordDispatch
