import RecordDispatch.Json.Fault

/-!
# Request targets

The target of an HTTP request is the path and the query of its address.  The
reference that follows the origin of an address is brought to the standard
form: dot segments are resolved, a backslash in the path counts as a slash,
the fragment is dropped, and bytes that may not stand in a target are written
as a percent sign and two hexadecimal digits.
-/

namespace RecordDispatch.Executor

/-- One hexadecimal digit, upper case. -/
def hexUpper (n : Nat) : Char :=
  if n < 10 then Char.ofNat (48 + n) else Char.ofNat (55 + n)

/-- The percent form of a byte. -/
def percent (b : UInt8) : List Char :=
  ['%', hexUpper (b.toNat / 16), hexUpper (b.toNat % 16)]

/-- The characters that stand for a character in a target. -/
def encodeChar (unsafeHere : Char → Bool) (c : Char) : List Char :=
  if c.toNat < 0x20 || 0x7F ≤ c.toNat || unsafeHere c then
    c.toString.toUTF8.toList.flatMap percent
  else [c]

/-- The characters that are encoded in a path. -/
def unsafeInPath (c : Char) : Bool :=
  [' ', '"', '<', '>', '\x60', '#', '?', '\x7b', '\x7d'].contains c

/-- The characters that are encoded in a query. -/
def unsafeInQuery (c : Char) : Bool :=
  [' ', '"', '<', '>', '#', '\''].contains c

/-- Whether a segment stands for the current directory. -/
def isSingleDot (segment : String) : Bool :=
  [".", "%2e"].contains segment.toLower

/-- Whether a segment stands for the directory above. -/
def isDoubleDot (segment : String) : Bool :=
  ["..", ".%2e", "%2e.", "%2e%2e"].contains segment.toLower

/-- Resolve the dot segments of a path.  `done` has the segments before, the
latest first.  A dot segment at the end leaves an empty segment. -/
def resolve (done : List String) : List String → List String
  | [] => done.reverse
  | [last] =>
    if isDoubleDot last then resolve ("" :: done.tail) []
    else if isSingleDot last then resolve ("" :: done) []
    else resolve (last :: done) []
  | s :: rest =>
    if isDoubleDot s then resolve done.tail rest
    else if isSingleDot s then resolve done rest
    else resolve (s :: done) rest

/-- Cut a list at every element with a property. -/
def splitWhere (p : Char → Bool) : List Char → List (List Char)
  | [] => [[]]
  | c :: cs =>
    if p c then [] :: splitWhere p cs
    else
      match splitWhere p cs with
      | s :: rest => (c :: s) :: rest
      | [] => [[c]]

/-- The path of a target. -/
def encodePath (path : List Char) : String :=
  let path :=
    match path with
    | '/' :: rest => rest
    | '\\' :: rest => rest
    | path => path
  let segments := (splitWhere (fun c => c == '/' || c == '\\') path).map fun s =>
    String.ofList (s.flatMap (encodeChar unsafeInPath))
  "/" ++ "/".intercalate (resolve [] segments)

/-- The characters of a reference that count: no tabs and line ends, and no
blanks at its end. -/
def cleaned (reference : String) : List Char :=
  let cs := reference.toList.filter fun c => c != '\t' && c != '\n' && c != '\r'
  (cs.reverse.dropWhile fun c => c.toNat ≤ 0x20).reverse

/-- The target that cleaned characters after the origin stand for. -/
def targetOf (cs : List Char) : String :=
  let cs := cs.takeWhile (· != '#')
  let path := encodePath (cs.takeWhile (· != '?'))
  match cs.dropWhile (· != '?') with
  | [] => path
  | _ :: query => path ++ "?" ++ String.ofList (query.flatMap (encodeChar unsafeInQuery))

/-- The target that a reference after the origin of an address stands for.
There is none if the reference would change the origin. -/
def target? (reference : String) : Option String :=
  match cleaned reference with
  | [] => some (targetOf [])
  | c :: cs => if ['/', '\\', '?', '#'].contains c then some (targetOf (c :: cs)) else none

end RecordDispatch.Executor
