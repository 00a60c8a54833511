import RecordDispatch.Decimal.Shortest
import RecordDispatch.Json.Value

/-!
# Compact JSON text

The compact text of a JSON value: no blanks, members in the order in which
the object holds them, characters outside ASCII as they are.  A control
character is escaped by its short form where it has one and by four
hexadecimal digits otherwise.
-/

namespace RecordDispatch.Json

/-- Doubles are positional while their first digit stands between `10 ^ (-5)`
and `10 ^ 15`; outside that range an exponent with its sign follows. -/
def numberLayout : Decimal.Layout := ⟨-5, 15, true⟩

/-- The text of a number. -/
def Number.render : Number → String
  | .integer value => toString value
  | .double bits => Decimal.renderBits numberLayout bits

/-- One hexadecimal digit. -/
def hexDigit (n : Nat) : Char :=
  if n < 10 then Char.ofNat (48 + n) else Char.ofNat (87 + n)

/-- The characters that stand for one character inside a JSON string. -/
def escapeChar (c : Char) : List Char :=
  if c = '"' then ['\\', '"']
  else if c = '\\' then ['\\', '\\']
  else if c = '\x08' then ['\\', 'b']
  else if c = '\x0c' then ['\\', 'f']
  else if c = '\n' then ['\\', 'n']
  else if c = '\r' then ['\\', 'r']
  else if c = '\t' then ['\\', 't']
  else if c.toNat < 0x20 then
    ['\\', 'u', '0', '0', hexDigit (c.toNat / 16), hexDigit (c.toNat % 16)]
  else [c]

/-- A string between quotes. -/
def printString (s : String) : List Char :=
  '"' :: (s.toList.flatMap escapeChar ++ ['"'])

mutual

/-- The characters of a value. -/
def print : Json → List Char
  | .null => "null".toList
  | .bool true => "true".toList
  | .bool false => "false".toList
  | .number n => n.render.toList
  | .string s => printString s
  | .array items => '[' :: (printItems items ++ [']'])
  | .object members => '\x7b' :: (printMembers members ++ ['\x7d'])

/-- The characters of the items of an array, with commas between them. -/
def printItems : List Json → List Char
  | [] => []
  | [item] => print item
  | item :: rest => print item ++ ',' :: printItems rest

/-- The characters of the members of an object, with commas between them. -/
def printMembers : List (String × Json) → List Char
  | [] => []
  | [(key, value)] => printString key ++ ':' :: print value
  | (key, value) :: rest =>
    printString key ++ ':' :: (print value ++ ',' :: printMembers rest)

end

/-- The compact text of a value. -/
def render (value : Json) : String :=
  String.ofList (print value)

end RecordDispatch.Json
