/-!
# Reading settings from the environment

A setting is an environment variable.  It has a default or is optional, and
a variable that is present but cannot be read is an error that names it.
-/

namespace RecordDispatch

/-- Environment variables with their values. -/
abbrev Environment := List (String × String)

namespace Environment

/-- The variable that cannot be read. -/
structure Unreadable where
  name : String
deriving DecidableEq

/-- The words for a variable that cannot be read. -/
def Unreadable.message (e : Unreadable) : String :=
  "Failed to parse environment variable " ++ e.name

/-- Read a setting, or its default. -/
def setting {α : Type} (env : Environment) (name default : String)
    (read : String → Option α) : Except Unreadable α :=
  match read ((env.lookup name).getD default) with
  | some a => .ok a
  | none => .error ⟨name⟩

/-- Read a setting that may be missing. -/
def optional {α : Type} (env : Environment) (name : String)
    (read : String → Option α) : Except Unreadable (Option α) :=
  match env.lookup name with
  | none => .ok none
  | some text =>
    match read text with
    | some a => .ok (some a)
    | none => .error ⟨name⟩

/-- Read a text as it is. -/
def readText (s : String) : Option String := some s

/-- Read `true` or `false`. -/
def readFlag (s : String) : Option Bool :=
  if s = "true" then some true else if s = "false" then some false else none

/-- The value of decimal digits. -/
def digitsValue (ds : List Char) : Nat :=
  ds.foldl (fun n d => 10 * n + (d.toNat - '0'.toNat)) 0

/-- Read a number of a given width in bits: digits, perhaps after a plus. -/
def readNumber (bits : Nat) (s : String) : Option Nat :=
  let digits :=
    match s.toList with
    | '+' :: ds => ds
    | ds => ds
  if digits.isEmpty || !digits.all Char.isDigit then none
  else
    let n := digitsValue digits
    if n < Nat.pow 2 bits then some n else none

end Environment
end RecordDispatch
