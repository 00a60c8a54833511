import RecordDispatch.Broker.Error

/-!
# Settings of the group member

The settings with which a member joins a consumer group, as the protocol
client takes them: texts under dotted names.  Offsets are committed by the
dispatcher, so the client never commits or stores them by itself.

`refusal?` says which settings the client does not take.
-/

namespace RecordDispatch.Member

/-- Settings of the protocol client by name. -/
abbrev Settings := List (String × String)

namespace Settings

/-- Change a setting, or add it. -/
def set (name value : String) : Settings → Settings
  | [] => [(name, value)]
  | (n, v) :: rest =>
    if n = name then (name, value) :: rest else (n, v) :: set name value rest

/-- The value of a setting. -/
def get? (s : Settings) (name : String) : Option String :=
  s.lookup name

/-- The session timeout in milliseconds.  Two polls may not be allowed to lie
less far apart. -/
def sessionTimeoutMillis : Nat := 60000

/-- The longest time in milliseconds that the client allows between two polls. -/
def longestPollIntervalMillis : Nat := 86400000

/-- The settings of a dispatcher's member. -/
def forDispatcher (servers group : String) : Settings :=
  [("bootstrap.servers", servers),
    ("group.id", group),
    ("enable.auto.offset.store", "false"),
    ("enable.auto.commit", "false"),
    ("enable.partition.eof", "false"),
    ("socket.timeout.ms", "10000"),
    ("session.timeout.ms", toString sessionTimeoutMillis),
    ("heartbeat.interval.ms", "5000"),
    ("max.poll.interval.ms", "300000")]

/-- Encrypt the connection. -/
def withTls (s : Settings) (enabled : Bool) : Settings :=
  if enabled then
    (s.set "security.protocol" "ssl").set "enable.ssl.certificate.verification" "false"
  else s

/-- Say where to begin without a committed offset. -/
def withOffsetReset (s : Settings) (policy : String) : Settings :=
  s.set "auto.offset.reset" policy

/-- Limit the time between two polls. -/
def withMaxPollInterval (s : Settings) (millis : Nat) : Settings :=
  s.set "max.poll.interval.ms" (toString millis)

/-! ## What the client refuses -/

/-- Where a member may begin without a committed offset.  Letter case does not
count. -/
def offsetResets : List String :=
  ["smallest", "earliest", "beginning", "largest", "latest", "end", "error"]

/-- The error with which the client refuses the place to begin and the time
between two polls, if it does. -/
def refusal? (offsetReset : String) (maxPollIntervalMillis : Nat) :
    Option Broker.ClientError :=
  let interval := toString maxPollIntervalMillis
  if !offsetResets.contains offsetReset.toLower then
    some (.configuration
      ("Invalid value " ++ Text.quoted offsetReset ++
        " for configuration property \"auto.offset.reset\"")
      "auto.offset.reset" offsetReset)
  else if maxPollIntervalMillis = 0 ∨ longestPollIntervalMillis < maxPollIntervalMillis then
    some (.configuration
      ("Configuration property \"max.poll.interval.ms\" value " ++ interval ++
        " is outside allowed range 1.." ++ toString longestPollIntervalMillis)
      "max.poll.interval.ms" interval)
  else if maxPollIntervalMillis < sessionTimeoutMillis then
    some (.refused .clientCreation
      "\x60max.poll.interval.ms\x60must be >= \x60session.timeout.ms\x60")
  else none

end Settings
end RecordDispatch.Member
