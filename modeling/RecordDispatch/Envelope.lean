import RecordDispatch.Json.Reader

/-!
# Request envelopes

The payload of a record is a JSON text that holds a request together with an
optional credential and an optional message identifier.  It is an object with
the members `authentication`, `message_id` and `request`, or a list of these
three in this order.  Only the request is required, members of other names
are passed over, and `null` stands for a missing credential or identifier.

`Envelope.decode` reads a payload and `Envelope.toJson` is the value that a
payload holds.
-/

namespace RecordDispatch

/-- A credential. -/
inductive Authentication
  | apiKey (key : String)
  | jwt (token : String)
deriving DecidableEq

/-- A credential as an object with one member, named for its kind. -/
def Authentication.toJson : Authentication → Json
  | .apiKey key => .object [("api_key", .string key)]
  | .jwt token => .object [("jwt", .string token)]

/-- What a payload holds. -/
structure Envelope where
  authentication : Option Authentication
  messageId : Option String
  request : Json

namespace Envelope

open Json

/-- The value that a payload holds. -/
def toJson (e : Envelope) : Json :=
  .object
    [("authentication", (e.authentication.map (·.toJson)).getD .null),
     ("message_id", (e.messageId.map Json.string).getD .null),
     ("request", e.request)]

/-! ## Reading the members -/

/-- How messages name an envelope. -/
def typeName : String := "struct RequestEnvelope"

/-- How messages list the kinds of credential. -/
def credentialNames : String := "`api_key` or `jwt`"

/-- Read a value that is not of the expected type, and say what it is. -/
def mismatch {α : Type} (expected : String) (s : Bytes) : Except Fault α :=
  match s with
  | [] => failNext .endInValue []
  | b :: rest =>
    if b = 0x6E then do
      let rest ← word [0x75, 0x6C, 0x6C] rest
      fail (.wrongType .null expected) rest
    else if b = 0x74 then do
      let rest ← word [0x72, 0x75, 0x65] rest
      fail (.wrongType (.bool true) expected) rest
    else if b = 0x66 then do
      let rest ← word [0x61, 0x6C, 0x73, 0x65] rest
      fail (.wrongType (.bool false) expected) rest
    else if b = 0x2D then do
      let (n, rest) ← readNumber true rest
      fail (.wrongType (numberFound n) expected) rest
    else if isDigit b then do
      let (n, rest) ← readNumber false (b :: rest)
      fail (.wrongType (numberFound n) expected) rest
    else if b = 0x22 then do
      let (text, rest) ← readString rest
      fail (.wrongType (.string text) expected) rest
    else if b = 0x5B then fail (.wrongType .sequence expected) (b :: rest)
    else if b = 0x7B then fail (.wrongType .map expected) (b :: rest)
    else failNext .expectedValue (b :: rest)
where
  /-- What a number is, in messages. -/
  numberFound : Number → Found
    | .integer value => .integer value
    | .double bits => .double bits

/-- Read a text. -/
def readText (s : Bytes) : Except Fault (String × Bytes) :=
  match skipBlanks s with
  | [] => failNext .endInValue []
  | b :: rest => if b = 0x22 then readString rest else mismatch "a string" (b :: rest)

/-- Read `null` or a value. -/
def readOptional {α : Type} (read : Bytes → Except Fault (α × Bytes)) (s : Bytes) :
    Except Fault (Option α × Bytes) :=
  match skipBlanks s with
  | 0x6E :: rest => do
    let rest ← word [0x75, 0x6C, 0x6C] rest
    return (none, rest)
  | s => do
    let (value, rest) ← read s
    return (some value, rest)

/-- The kind of credential that a name stands for. -/
def credentialKind (name : String) : Option (String → Authentication) :=
  if name = "api_key" then some .apiKey
  else if name = "jwt" then some .jwt
  else none

/-- Read the name of a kind of credential after its opening quote. -/
def readKind (s : Bytes) : Except Fault ((String → Authentication) × Bytes) := do
  let (name, rest) ← readString s
  match credentialKind name with
  | some kind => return (kind, rest)
  | none => fail (.unknownVariant name credentialNames) rest

/-- Read a credential: an object with one member.  A name alone would be a
kind of credential without its text. -/
def readCredential (s : Bytes) : Except Fault (Authentication × Bytes) :=
  match skipBlanks s with
  | [] => failNext .endInValue []
  | b :: rest =>
    if b = 0x7B then
      match skipBlanks rest with
      | [] => failNext .endInValue []
      | q :: rest =>
        if q = 0x22 then do
          let (kind, rest) ← readKind rest
          let rest ← colon rest
          let (text, rest) ← readText rest
          match skipBlanks rest with
          | [] => fail .endInObject []
          | c :: rest =>
            if c = 0x7D then return (kind text, rest)
            else fail .expectedValue (c :: rest)
        else if q = 0x7D then failNext .expectedValue (q :: rest)
        else failNext .keyNotString (q :: rest)
    else if b = 0x22 then do
      let (_, rest) ← readKind rest
      failWhole (.wrongType .unitVariant "newtype variant") rest
    else failNext .expectedValue (b :: rest)

/-! ## Reading the whole -/

/-- The members that were read so far. -/
structure Slots where
  authentication : Option (Option Authentication) := none
  messageId : Option (Option String) := none
  request : Option Json := none

/-- Read the members up to the closing brace. -/
def readMembers : Nat → Bool → Slots → Bytes → Except Fault (Slots × Bytes)
  | 0, _, _, s => fail .nestedTooDeep s
  | fuel + 1, first, slots, s => do
    match ← nextMember first s with
    | none => return (slots, skipBlanks s)
    | some s =>
      let (key, s) ← readString s
      if key = "authentication" then
        if slots.authentication.isSome then failWhole (.duplicateField key) s
        else
          let s ← colon s
          let (value, s) ← readOptional readCredential s
          readMembers fuel false { slots with authentication := some value } s
      else if key = "message_id" then
        if slots.messageId.isSome then failWhole (.duplicateField key) s
        else
          let s ← colon s
          let (value, s) ← readOptional readText s
          readMembers fuel false { slots with messageId := some value } s
      else if key = "request" then
        if slots.request.isSome then failWhole (.duplicateField key) s
        else
          let s ← colon s
          let (value, s) ← readValue (fuelFor s) (nestingLimit - 1) s
          readMembers fuel false { slots with request := some value } s
      else
        let s ← colon s
        let s ← skipValue (fuelFor s) s
        readMembers fuel false slots s

/-- The envelope that the members make up. -/
def ofMembers (s : Bytes) : Except Fault (Envelope × Bytes) := do
  let (slots, s) ← readMembers (fuelFor s) true {} s
  match slots.request with
  | none => failWhole (.missingField "request") s
  | some request =>
    return (⟨slots.authentication.join, slots.messageId.join, request⟩, s)

/-- The envelope that the items of a list make up.  The first two may be
absent, and nothing may follow the third. -/
def ofItems (s : Bytes) : Except Fault (Envelope × Bytes) := do
  match ← nextItem true s with
  | none => missing s
  | some s =>
    let (authentication, s) ← readOptional readCredential s
    match ← nextItem false s with
    | none => missing s
    | some s =>
      let (messageId, s) ← readOptional readText s
      match ← nextItem false s with
      | none => missing s
      | some s =>
        let (request, s) ← readValue (fuelFor s) (nestingLimit - 1) s
        return (⟨authentication, messageId, request⟩, s)
where
  /-- The request, which is the third item, is not there. -/
  missing (s : Bytes) : Except Fault (Envelope × Bytes) :=
    failWhole (.wrongLength 2 (typeName ++ " with 3 elements")) s

/-- Where the closing of a list stops.  A comma is read as well. -/
def listStop (s : Bytes) : Bytes :=
  match skipBlanks s with
  | 0x5D :: rest => rest
  | 0x2C :: rest => skipBlanks rest
  | s => s

/-- Where the closing of an object stops. -/
def objectStop (s : Bytes) : Bytes :=
  match skipBlanks s with
  | 0x7D :: rest => rest
  | s => s

/-- Close a list or an object.  A fault of the envelope as a whole is placed
where the closing stops. -/
def closed (close : Bytes → Except Fault Bytes) (stop : Bytes → Bytes) :
    Except Fault (Envelope × Bytes) → Except Fault (Envelope × Bytes)
  | .ok (e, s) => (close s).map fun rest => (e, rest)
  | .error fault =>
    if fault.settled then .error fault else fail fault.cause (stop fault.unread)

/-- Read an envelope off the front of a text. -/
def read (s : Bytes) : Except Fault (Envelope × Bytes) :=
  match skipBlanks s with
  | [] => failNext .endInValue []
  | b :: rest =>
    if b = 0x5B then closed endList listStop (ofItems rest)
    else if b = 0x7B then closed endObject objectStop (ofMembers rest)
    else mismatch typeName (b :: rest)

/-- The envelope that a payload holds. -/
def decode (payload : Bytes) : Except Fault Envelope := do
  let (e, rest) ← read payload
  finish rest
  return e

end Envelope
end RecordDispatch
