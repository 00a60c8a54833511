import RecordDispatch.Config.Environment

/-!
# Addresses of the server

The server listens on a host and a port, joined by a colon.  An address that
has not this form is refused at once; a host that is no address of this
machine is found out when the server begins to listen.
-/

namespace RecordDispatch.Server

/-- Why the server cannot listen on an address. -/
inductive Unusable
  /-- The text is no address. -/
  | malformed
  /-- The address belongs to another machine. -/
  | foreign
  /-- The host has no address. -/
  | unresolved
deriving DecidableEq

/-- Host and port of an address. -/
def splitAddress (address : String) : Option (String × String) :=
  match address.toList.reverse.span (· != ':') with
  | (port, _ :: host) => some (String.ofList host.reverse, String.ofList port.reverse)
  | (_, []) => none

/-- The four numbers of a numeric host. -/
def octets? (host : String) : Option (List Nat) :=
  let parts := host.splitOn "."
  if parts.length = 4 then
    parts.mapM fun part =>
      if part.length ≤ 3 && part.toList.all Char.isDigit then Environment.readNumber 8 part
      else none
  else none

/-- Whether a host is a long numeric address, in brackets. -/
def isBracketed (host : String) : Bool :=
  match host.toList, host.toList.getLast? with
  | '[' :: inner, some ']' =>
    inner.contains ':' && inner.dropLast.all fun c => c == ':' || c == '.' || c.isDigit ||
      ('a' ≤ c.toLower && c.toLower ≤ 'f')
  | _, _ => false

/-- Why the server cannot listen on an address that is of no use.  Numeric hosts
are taken for addresses of other machines, and names for unknown ones. -/
def unusable (address : String) : Unusable :=
  match splitAddress address with
  | none => .malformed
  | some (host, port) =>
    match Environment.readNumber 16 port with
    | none => .malformed
    | some _ => if (octets? host).isSome || isBracketed host then .foreign else .unresolved

end RecordDispatch.Server
