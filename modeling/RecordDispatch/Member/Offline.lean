import RecordDispatch.Batch
import RecordDispatch.Broker.Request
import RecordDispatch.Member.Notice

/-!
# A member without a broker

What a group member does while no broker can be reached: it is subscribed, but
nothing is ever assigned to it and no record arrives.  Commits are queued, so
they are accepted if their offsets make sense.
-/

namespace RecordDispatch.Member

/-- A member that reaches no broker. -/
structure Offline where
  closed : Bool := false
deriving DecidableEq

namespace Offline

/-- What a member tells. -/
inductive Event
  | subscribed (topic : String) (maxPollRecords : Nat)
  | unsubscribed

open Report in
instance : Reported Event where
  line?
    | .subscribed topic n => some
      { level := .info
        source := "kafka::client"
        message := "Subscribed to topic"
        fields := [("topic", .text topic), ("max_poll_records", .number n)] }
    | .unsubscribed => some
      { level := .debug
        source := "kafka::client"
        message := "Kafka consumer unsubscribed" }
  measurements _ := []

/-- The partitions assigned to the member. -/
def assignment (_ : Offline) : List Partition := []

/-- Poll for records. -/
def poll (m : Offline) : Except Broker.Error (List Batch) :=
  if m.closed then .error .closed else .ok []

/-- Commit offsets.  A negative offset cannot be committed. -/
def commit (m : Offline) (offsets : Offsets) : Except Broker.Error Unit :=
  if m.closed then .error .closed
  else if offsets.values.any fun o => decide (o < 0) then
    .error (.client (.code .setPartitionOffset .invalidArgument))
  else .ok ()

/-- The number of partitions of a topic, which only a broker knows. -/
def partitionCount (_ : Offline) (_topic : String) : Except Broker.Error Nat :=
  .error (.client (.code .metadataFetch .brokerTransportFailure))

/-- Leave the group. -/
def close (m : Offline) : Offline × List Event :=
  if m.closed then (m, []) else ({ closed := true }, [.unsubscribed])

end Offline
end RecordDispatch.Member
