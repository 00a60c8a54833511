import RecordDispatch.Batch

/-!
# Units of work

A unit of work is a record whose payload has been decoded.  It carries what
an executor needs: where the record came from, its key, and the content of
its envelope.
-/

namespace RecordDispatch

/-- Why a record is not a unit of work. -/
inductive DecodeError
  | missingPayload
  | invalidEnvelope (payload : Bytes) (fault : Json.Fault)

/-- The words for a decode error. -/
def DecodeError.message : DecodeError → String
  | .missingPayload => "record has no payload"
  | .invalidEnvelope payload fault =>
    "invalid request envelope: " ++ fault.message payload

/-- A decoded record. -/
structure Work where
  partition : Partition
  offset : Int
  key : Option Bytes
  messageId : Option String
  authentication : Option Authentication
  request : Json

/-- The unit of work that a record of a partition holds. -/
def Work.decode (p : Partition) (r : Record) : Except DecodeError Work :=
  match r.payload with
  | none => .error .missingPayload
  | some payload =>
    match Envelope.decode payload with
    | .error fault => .error (.invalidEnvelope payload fault)
    | .ok e => .ok
      { partition := p
        offset := r.offset
        key := r.key
        messageId := e.messageId
        authentication := e.authentication
        request := e.request }

end RecordDispatch
