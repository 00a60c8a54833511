import RecordDispatch.Dispatch.Run
import RecordDispatch.Rehearsal.Stage

/-!
# Playing a dispatcher

The calls that a rehearsal makes on a dispatcher, for both ways of
dispatching.  Besides cycles and shutdown these are single operations on the
work that a dispatcher holds.
-/

namespace RecordDispatch.Rehearsal

open Dispatch

/-- An interval that never passes in a rehearsal. -/
def never : Duration := Nat.pow 10 30

/-- The time between two calls. -/
def moment : Duration := 1

/-- Work whose dispatcher can be rehearsed. -/
class Playable (ω : Type) extends Cycled ω where
  /-- Hold processors for a batch, which are queued or not. -/
  start : Batch → Bool → Dispatcher ω → Dispatcher ω
  /-- Defer a batch. -/
  defer : Batch → Dispatcher ω → Dispatcher ω
  /-- Read every processor, and say which partitions are done. -/
  harvest : Dispatcher ω → Dispatcher ω × List Partition

/-- Create a processor that is queued or not. -/
def createProcessor {ω : Type} (d : Dispatcher ω) (batch : Batch) (queued : Bool) :
    Dispatcher ω :=
  if queued then d.submit batch else { d with workers := d.workers.create batch }

instance : Playable Lanes where
  start batch queued d :=
    let id := d.workers.nextId
    (createProcessor d batch queued).hold
      { d.held with active := d.held.active.insert batch.partition id }
  defer batch d := OrderedDispatcher.defer d batch
  harvest d := OrderedDispatcher.harvest d Meanwhile.nothing

/-- Hold a processor for one record. -/
def startSingle (queued : Bool) (d : UnorderedDispatcher) (single : Batch) :
    UnorderedDispatcher :=
  let p := single.partition
  let id := d.workers.nextId
  (createProcessor d single queued).hold
    ⟨d.held.processors.insert p ((d.held.processors.find? p).getD [] ++ [id])⟩

instance : Playable InFlight where
  start batch queued d :=
    let entry := (d.held.processors.find? batch.partition).getD []
    batch.singles.foldl (startSingle queued)
      (d.hold ⟨d.held.processors.insert batch.partition entry⟩)
  defer _ d := d
  harvest d := (d, [])

namespace Stage

variable {ω : Type} [Playable ω]

/-- A stage for a dispatcher. -/
def create (settings : Settings) (size : Nat) (handler : Handler) (broker : Broker)
    (releases : Releases) : Stage ω :=
  { dispatcher := Dispatcher.initial settings (Workers.ofSize size handler) broker
    releases }

/-- A move that lasts no time. -/
def move (s : Stage ω) (m : Move) : Stage ω :=
  s.update fun d => d.move m

/-- One cycle. -/
def cycle (s : Stage ω) (during : Option (List Span)) : Stage ω × Outcome :=
  s.call during fun d m => Cycled.cycle d m moment

/-- Shut the dispatcher down. -/
def shutdown (s : Stage ω) (during : List Span) : Stage ω :=
  (s.call (some during) fun d m => (d.move (.shutdown m moment), ())).1

/-- Give up partitions. -/
def revoke (s : Stage ω) (during : Option (List Span)) (ps : List Partition) : Stage ω :=
  (s.call during fun d m => (d.move (.revoke m moment ps), ())).1

/-- Drain partitions, without a commit. -/
def drain (s : Stage ω) (during : Option (List Span)) (ps : List Partition) :
    Stage ω × Offsets :=
  s.call during fun d m => Held.drain d m ps

/-- Read every processor. -/
def harvest (s : Stage ω) : Stage ω × List Partition :=
  let (dispatcher, done) := Playable.harvest s.dispatcher
  ({ s with dispatcher }, done)

end Stage
end RecordDispatch.Rehearsal
