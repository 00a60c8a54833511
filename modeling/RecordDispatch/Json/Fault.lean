import RecordDispatch.Decimal.Shortest
import RecordDispatch.Json.Printer
import RecordDispatch.Text.Quoted

/-!
# What can be wrong with a JSON text

`Cause` lists the faults of a JSON text and of a typed value read from it, and
`Cause.message` words them.  A `Fault` is a cause together with the bytes that
were unread when it was found, from which `Fault.position` computes the line
and the column.
-/

namespace RecordDispatch

/-- The octets of a text. -/
abbrev Bytes := List UInt8

namespace Json

/-- What was found where a value of another type was expected. -/
inductive Found
  | null
  | bool (value : Bool)
  | integer (value : Int)
  | double (bits : UInt64)
  | string (value : String)
  | sequence
  | map
  | unitVariant
deriving DecidableEq

/-- The words for what was found. -/
def Found.describe : Found → String
  | .null => "null"
  | .bool true => "boolean `true`"
  | .bool false => "boolean `false`"
  | .integer value => "integer `" ++ toString value ++ "`"
  | .double bits =>
    "floating point `" ++ Decimal.renderBits numberLayout bits ++ "`"
  | .string value => "string " ++ Text.quoted value
  | .sequence => "sequence"
  | .map => "map"
  | .unitVariant => "unit variant"

/-- The ways in which a text fails to be the JSON value that is read. -/
inductive Cause
  | endInValue
  | endInString
  | endInList
  | endInObject
  | expectedColon
  | expectedListCommaOrEnd
  | expectedObjectCommaOrEnd
  | expectedIdent
  | expectedValue
  | invalidEscape
  | invalidNumber
  | numberOutOfRange
  | invalidCodePoint
  | controlCharacter
  | keyNotString
  | loneSurrogate
  | endOfHexEscape
  | trailingComma
  | trailingCharacters
  | nestedTooDeep
  | wrongType (found : Found) (expected : String)
  | wrongLength (length : Nat) (expected : String)
  | missingField (name : String)
  | duplicateField (name : String)
  | unknownVariant (name expected : String)
deriving DecidableEq

/-- The words for a cause. -/
def Cause.message : Cause → String
  | .endInValue => "EOF while parsing a value"
  | .endInString => "EOF while parsing a string"
  | .endInList => "EOF while parsing a list"
  | .endInObject => "EOF while parsing an object"
  | .expectedColon => "expected `:`"
  | .expectedListCommaOrEnd => "expected `,` or `]`"
  | .expectedObjectCommaOrEnd => "expected `,` or `\x7d`"
  | .expectedIdent => "expected ident"
  | .expectedValue => "expected value"
  | .invalidEscape => "invalid escape"
  | .invalidNumber => "invalid number"
  | .numberOutOfRange => "number out of range"
  | .invalidCodePoint => "invalid unicode code point"
  | .controlCharacter =>
    "control character (\\u0000-\\u001F) found while parsing a string"
  | .keyNotString => "key must be a string"
  | .loneSurrogate => "lone leading surrogate in hex escape"
  | .endOfHexEscape => "unexpected end of hex escape"
  | .trailingComma => "trailing comma"
  | .trailingCharacters => "trailing characters"
  | .nestedTooDeep => "recursion limit exceeded"
  | .wrongType found expected =>
    "invalid type: " ++ found.describe ++ ", expected " ++ expected
  | .wrongLength length expected =>
    "invalid length " ++ toString length ++ ", expected " ++ expected
  | .missingField name => "missing field `" ++ name ++ "`"
  | .duplicateField name => "duplicate field `" ++ name ++ "`"
  | .unknownVariant name expected =>
    "unknown variant `" ++ name ++ "`, expected " ++ expected

/-- A cause and the bytes that were unread when it was found.  A fault that is
not `settled` belongs to the value as a whole: its place is where the reading
of that value stops. -/
structure Fault where
  cause : Cause
  unread : Bytes
  settled : Bool := true
deriving DecidableEq

/-- A line, counted from one, and the number of bytes read of it. -/
structure Position where
  line : Nat
  column : Nat
deriving DecidableEq

/-- The position after one more byte. -/
def Position.after (p : Position) (b : UInt8) : Position :=
  if b = 10 then ⟨p.line + 1, 0⟩ else ⟨p.line, p.column + 1⟩

/-- The position of a fault in the text in which it was found. -/
def Fault.position (text : Bytes) (fault : Fault) : Position :=
  (text.take (text.length - fault.unread.length)).foldl Position.after ⟨1, 0⟩

/-- The message of a fault, with its place in the text. -/
def Fault.message (text : Bytes) (fault : Fault) : String :=
  let p := fault.position text
  fault.cause.message ++ " at line " ++ toString p.line ++ " column " ++
    toString p.column

/-- A fault at the point that was reached. -/
def fail {α : Type} (cause : Cause) (unread : Bytes) : Except Fault α :=
  .error ⟨cause, unread, true⟩

/-- A fault that counts the byte that comes next, if there is one. -/
def failNext {α : Type} (cause : Cause) (unread : Bytes) : Except Fault α :=
  .error ⟨cause, unread.tail, true⟩

/-- A fault of the value as a whole. -/
def failWhole {α : Type} (cause : Cause) (unread : Bytes) : Except Fault α :=
  .error ⟨cause, unread, false⟩

end Json
end RecordDispatch
