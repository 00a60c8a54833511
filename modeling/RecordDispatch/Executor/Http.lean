import RecordDispatch.Executor.Target
import RecordDispatch.Handler
import RecordDispatch.Json.Printer

/-!
# Sending work to a server

The request of a unit of work is posted as JSON to a server.  The credential
and the message identifier travel as headers; a text that cannot stand in a
header keeps the request from being sent.  The server rejects the work with
a status of an error.

Without a server to send requests to, every unit of work is logged and counts
as done.
-/

namespace RecordDispatch.Executor

/-! ## Requests and answers -/

/-- The header of an API key. -/
def apiKeyHeader : String := "x-api-key"

/-- The header of a message identifier. -/
def messageIdHeader : String := "x-message-id"

/-- An HTTP request. -/
structure Request where
  /-- Method, target and version. -/
  line : String
  headers : List (String × String)
  body : String
deriving DecidableEq

/-- Whether a text can be the value of a header: it has no control characters
but tabs. -/
def isHeaderValue (s : String) : Bool :=
  s.toList.all fun c => c == '\t' || (0x20 ≤ c.toNat && c.toNat != 0x7F)

/-- The headers that carry a credential. -/
def credentialHeaders : Option Authentication → List (String × String)
  | some (.apiKey key) => [(apiKeyHeader, key)]
  | some (.jwt token) => [("authorization", "Bearer " ++ token)]
  | none => []

/-- The headers that carry a message identifier. -/
def messageIdHeaders : Option String → List (String × String)
  | some id => [(messageIdHeader, id)]
  | none => []

/-- The request for a unit of work. -/
def request (target : String) (w : Work) : Request :=
  let body := w.request.render
  { line := "POST " ++ target ++ " HTTP/1.1"
    headers :=
      [("content-type", "application/json"),
        ("user-agent", "partition-dispatcher"),
        ("content-length", toString body.utf8ByteSize)] ++
        credentialHeaders w.authentication ++ messageIdHeaders w.messageId
    body }

/-- Whether a request can be sent. -/
def Request.isSendable (r : Request) : Bool :=
  r.headers.all fun h => isHeaderValue h.2

/-- What is wrong when work was not done. -/
inductive Error
  /-- There was no answer. -/
  | noAnswer (offset : Int)
  | rejected (offset : Int)
deriving DecidableEq

/-- The words for an error. -/
def Error.message : Error → String
  | .noAnswer offset => "request for offset " ++ toString offset ++ " failed"
  | .rejected offset => "executor rejected offset " ++ toString offset

/-- Whether a status is that of an error of the client or the server. -/
def isErrorStatus (status : Nat) : Bool :=
  decide (400 ≤ status) && decide (status < 600)

/-- Whether a status ends an answer.  An interim status is followed by another
answer, which never comes. -/
def isFinalStatus (status : Nat) : Bool :=
  status == 101 || (decide (200 ≤ status) && decide (status < 1000))

/-- Send a unit of work to a server that answers with a status, and say what
was sent and what came of it.  Without a target no server can be reached. -/
def execute (target : Option String) (status : Nat) (w : Work) :
    Option Request × Except Error Unit :=
  match target.map fun t => request t w with
  | none => (none, .error (.noAnswer w.offset))
  | some r =>
    if !r.isSendable then (none, .error (.noAnswer w.offset))
    else if !isFinalStatus status then (some r, .error (.noAnswer w.offset))
    else if isErrorStatus status then (some r, .error (.rejected w.offset))
    else (some r, .ok ())

/-! ## Without a server -/

open Report in
/-- The log line of a unit of work. -/
def loggedLine (w : Work) : Line where
  level := .info
  source := "executor"
  message := "Executing request"
  fields := partitionFields w.partition ++
    [("offset", .number w.offset),
      ("message_id", .shown (Text.optional Text.quoted w.messageId)),
      ("authenticated", .flag w.authentication.isSome)]

/-- The reply to a unit of work that is only logged. -/
def loggedReply (_ : Work) : Reply := .done

end RecordDispatch.Executor
