import RecordDispatch.Ledger

/-!
# Requests to the broker

The calls that change or read the state of a broker, with whether the broker
accepted them.  A list of them, newest first, is the history of a broker.
-/

namespace RecordDispatch

/-- Whether a commit waits for the broker's answer. -/
inductive CommitMode
  | sync
  | async
deriving DecidableEq, Inhabited

/-- The name of a commit mode. -/
def CommitMode.name : CommitMode → String
  | .sync => "sync"
  | .async => "async"

namespace Broker

/-- A call that reached the broker. -/
inductive Request
  | poll
  | commit (mode : CommitMode) (offsets : Offsets) (accepted : Bool)
  | pause (ps : List Partition) (accepted : Bool)
  | resume (ps : List Partition) (accepted : Bool)

namespace Request

/-- Whether a request is a poll. -/
def isPoll : Request → Bool
  | .poll => true
  | _ => false

/-- Whether a request is a commit. -/
def isCommit : Request → Bool
  | .commit _ _ _ => true
  | _ => false

/-- Whether a request is a pause that was accepted. -/
def isPause : Request → Bool
  | .pause _ accepted => accepted
  | _ => false

/-- Whether a request is a resumption that was accepted. -/
def isResume : Request → Bool
  | .resume _ accepted => accepted
  | _ => false

/-- Mode and offsets of a commit that was accepted. -/
def committed? : Request → Option (CommitMode × Offsets)
  | .commit mode offsets true => some (mode, offsets)
  | _ => none

end Request
end Broker
end RecordDispatch
