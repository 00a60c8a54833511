/-!
# JSON values

A request body is an arbitrary JSON value.  An object keeps its members in
increasing order of their keys and at most one member for each key, so two
objects that hold the same members are equal.
-/

namespace RecordDispatch

/-- A JSON number: an integer that fits a signed or an unsigned 64-bit word,
or the bits of a finite double. -/
inductive Json.Number
  | integer (value : Int)
  | double (bits : UInt64)
deriving DecidableEq

/-- A JSON value. -/
inductive Json
  | null
  | bool (value : Bool)
  | number (value : Json.Number)
  | string (value : String)
  | array (items : List Json)
  | object (members : List (String × Json))

namespace Json

/-- Put a member into a sorted member list.  A member with the same key is
replaced. -/
def insertMember (key : String) (value : Json) :
    List (String × Json) → List (String × Json)
  | [] => [(key, value)]
  | (k, v) :: rest =>
    if key < k then (key, value) :: (k, v) :: rest
    else if key = k then (key, value) :: rest
    else (k, v) :: insertMember key value rest

/-- The object with the given members; of two members with one key the later
counts. -/
def ofMembers (members : List (String × Json)) : Json :=
  .object (members.foldl (fun sorted m => insertMember m.1 m.2 sorted) [])

end Json
end RecordDispatch
