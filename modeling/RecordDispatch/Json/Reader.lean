import RecordDispatch.Json.Scan

/-!
# Reading JSON values

`readValue` reads a value off the front of a text.  It takes two bounds: the
nesting that is still allowed, and a fuel that bounds the recursion.  Every
step that reads an item or opens a bracket uses one unit of fuel, so twice the
length of the text is enough (`fuelFor`).

`skipValue` finds the end of a value whose content does not matter.  It
allows any nesting and is more lenient inside strings and numbers.

A list or an object is read by telling what comes next: `nextItem` and
`nextMember` say whether there is another item and move to it.
-/

namespace RecordDispatch.Json

/-- The number of brackets that may be open at once, plus one. -/
def nestingLimit : Nat := 128

/-- Enough fuel for a text. -/
def fuelFor (s : Bytes) : Nat :=
  2 * s.length + 2

/-- Move to the next item of a list: `none` at the closing bracket, which
stays unread. -/
def nextItem (first : Bool) (s : Bytes) : Except Fault (Option Bytes) :=
  match skipBlanks s with
  | [] => failNext .endInList []
  | b :: rest =>
    if b = 0x5D then .ok none
    else if first then .ok (some (b :: rest))
    else if b = 0x2C then
      match skipBlanks rest with
      | [] => failNext .endInValue []
      | c :: rest =>
        if c = 0x5D then failNext .trailingComma (c :: rest)
        else .ok (some (c :: rest))
    else failNext .expectedListCommaOrEnd (b :: rest)

/-- Move to the key of the next member of an object, after its opening quote:
`none` at the closing brace, which stays unread. -/
def nextMember (first : Bool) (s : Bytes) : Except Fault (Option Bytes) :=
  match skipBlanks s with
  | [] => failNext .endInObject []
  | b :: rest =>
    if b = 0x7D then .ok none
    else if first then openKey (b :: rest)
    else if b = 0x2C then openKey (skipBlanks rest)
    else failNext .expectedObjectCommaOrEnd (b :: rest)
where
  /-- Read the opening quote of a key. -/
  openKey : Bytes → Except Fault (Option Bytes)
    | [] => failNext .endInValue []
    | b :: rest =>
      if b = 0x22 then .ok (some rest)
      else if b = 0x7D then failNext .trailingComma (b :: rest)
      else failNext .keyNotString (b :: rest)

/-- Read the colon after a key. -/
def colon (s : Bytes) : Except Fault Bytes :=
  match skipBlanks s with
  | [] => failNext .endInObject []
  | b :: rest => if b = 0x3A then .ok rest else failNext .expectedColon (b :: rest)

/-- Read the closing bracket of a list. -/
def endList (s : Bytes) : Except Fault Bytes :=
  match skipBlanks s with
  | [] => failNext .endInList []
  | b :: rest =>
    if b = 0x5D then .ok rest
    else if b = 0x2C then
      match skipBlanks rest with
      | c :: rest =>
        failNext (if c = 0x5D then .trailingComma else .trailingCharacters) (c :: rest)
      | [] => failNext .trailingCharacters []
    else failNext .trailingCharacters (b :: rest)

/-- Read the closing brace of an object. -/
def endObject (s : Bytes) : Except Fault Bytes :=
  match skipBlanks s with
  | [] => failNext .endInObject []
  | b :: rest =>
    if b = 0x7D then .ok rest
    else if b = 0x2C then failNext .trailingComma (b :: rest)
    else failNext .trailingCharacters (b :: rest)

mutual

/-- Read a value under at most `depth - 1` further brackets. -/
def readValue : Nat → Nat → Bytes → Except Fault (Json × Bytes)
  | 0, _, s => fail .nestedTooDeep s
  | fuel + 1, depth, s =>
    match skipBlanks s with
    | [] => failNext .endInValue []
    | b :: rest =>
      if b = 0x6E then do
        let rest ← word [0x75, 0x6C, 0x6C] rest
        return (.null, rest)
      else if b = 0x74 then do
        let rest ← word [0x72, 0x75, 0x65] rest
        return (.bool true, rest)
      else if b = 0x66 then do
        let rest ← word [0x61, 0x6C, 0x73, 0x65] rest
        return (.bool false, rest)
      else if b = 0x2D then do
        let (n, rest) ← readNumber true rest
        return (.number n, rest)
      else if isDigit b then do
        let (n, rest) ← readNumber false (b :: rest)
        return (.number n, rest)
      else if b = 0x22 then do
        let (text, rest) ← readString rest
        return (.string text, rest)
      else if b = 0x5B then
        if depth ≤ 1 then failNext .nestedTooDeep (b :: rest)
        else do
          let (items, rest) ← readItems fuel (depth - 1) true rest
          let rest ← endList rest
          return (.array items, rest)
      else if b = 0x7B then
        if depth ≤ 1 then failNext .nestedTooDeep (b :: rest)
        else do
          let (members, rest) ← readMembers fuel (depth - 1) true [] rest
          let rest ← endObject rest
          return (.object members, rest)
      else failNext .expectedValue (b :: rest)

/-- Read the items of a list up to the closing bracket. -/
def readItems : Nat → Nat → Bool → Bytes → Except Fault (List Json × Bytes)
  | 0, _, _, s => fail .nestedTooDeep s
  | fuel + 1, depth, first, s => do
    match ← nextItem first s with
    | none => return ([], skipBlanks s)
    | some s =>
      let (item, s) ← readValue fuel depth s
      let (items, s) ← readItems fuel depth false s
      return (item :: items, s)

/-- Read the members of an object up to the closing brace, into the members
that were read before. -/
def readMembers : Nat → Nat → Bool → List (String × Json) → Bytes →
    Except Fault (List (String × Json) × Bytes)
  | 0, _, _, _, s => fail .nestedTooDeep s
  | fuel + 1, depth, first, members, s => do
    match ← nextMember first s with
    | none => return (members, skipBlanks s)
    | some s =>
      let (key, s) ← readString s
      let s ← colon s
      let (value, s) ← readValue fuel depth s
      readMembers fuel depth false (insertMember key value members) s

end

mutual

/-- Find the end of a value. -/
def skipValue : Nat → Bytes → Except Fault Bytes
  | 0, s => fail .nestedTooDeep s
  | fuel + 1, s =>
    match skipBlanks s with
    | [] => failNext .endInValue []
    | b :: rest =>
      if b = 0x6E then word [0x75, 0x6C, 0x6C] rest
      else if b = 0x74 then word [0x72, 0x75, 0x65] rest
      else if b = 0x66 then word [0x61, 0x6C, 0x73, 0x65] rest
      else if b = 0x2D then skipNumber rest
      else if isDigit b then skipNumber (b :: rest)
      else if b = 0x22 then skipString rest
      else if b = 0x5B then skipItems fuel true rest
      else if b = 0x7B then skipMembers fuel true rest
      else failNext .expectedValue (b :: rest)

/-- Find the end of a list whose first items were read. -/
def skipItems : Nat → Bool → Bytes → Except Fault Bytes
  | 0, _, s => fail .nestedTooDeep s
  | fuel + 1, first, s =>
    match skipBlanks s with
    | [] => failNext .endInList []
    | b :: rest =>
      if b = 0x5D then .ok rest
      else if first then do
        let s ← skipValue fuel (b :: rest)
        skipItems fuel false s
      else if b = 0x2C then do
        let s ← skipValue fuel rest
        skipItems fuel false s
      else failNext .expectedListCommaOrEnd (b :: rest)

/-- Find the end of an object whose first members were read. -/
def skipMembers : Nat → Bool → Bytes → Except Fault Bytes
  | 0, _, s => fail .nestedTooDeep s
  | fuel + 1, first, s =>
    match skipBlanks s with
    | [] => failNext .endInObject []
    | b :: rest =>
      if b = 0x7D then .ok rest
      else if first then do
        let s ← skipMember fuel (b :: rest)
        skipMembers fuel false s
      else if b = 0x2C then do
        let s ← skipMember fuel (skipBlanks rest)
        skipMembers fuel false s
      else failNext .expectedObjectCommaOrEnd (b :: rest)

/-- Find the end of a member. -/
def skipMember : Nat → Bytes → Except Fault Bytes
  | 0, s => fail .nestedTooDeep s
  | fuel + 1, s =>
    match s with
    | [] => failNext .endInObject []
    | b :: rest =>
      if b = 0x22 then do
        let s ← skipString rest
        let s ← colon s
        skipValue fuel s
      else failNext .keyNotString (b :: rest)

end

/-- Refuse anything but blanks. -/
def finish (s : Bytes) : Except Fault Unit :=
  match skipBlanks s with
  | [] => .ok ()
  | s => failNext .trailingCharacters s

/-- The value that a whole text holds. -/
def parse (text : Bytes) : Except Fault Json := do
  let (value, rest) ← readValue (fuelFor text) nestingLimit text
  finish rest
  return value

end RecordDispatch.Json
