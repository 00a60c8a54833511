import RecordDispatch.Config.Environment
import RecordDispatch.Member.Settings
import RecordDispatch.Dispatch.Settings
import RecordDispatch.Handler

/-!
# The configuration of the service

`Config.load` reads the configuration from environment variables, `validate`
says what makes a configuration unusable, and the other functions derive from
it the settings of the parts of the service.
-/

namespace RecordDispatch

/-- The form of the log. -/
inductive LogFormat
  | text
  | json
deriving DecidableEq, Inhabited

namespace LogFormat

/-- The name of a form in printed settings. -/
def name : LogFormat → String
  | .text => "Text"
  | .json => "Json"

/-- Read a form.  Blanks around it and letter case do not count. -/
def parse? (s : String) : Option LogFormat :=
  match Text.keyword s with
  | "text" => some .text
  | "json" => some .json
  | _ => none

end LogFormat

/-- A credential of the configuration, which is never shown. -/
structure Secret where
  value : String
deriving DecidableEq

/-- The configuration of the service. -/
structure Config where
  hosts : String
  tls : Bool
  group : String
  topic : String
  offsetReset : String
  maxPollRecords : Nat
  maxPollIntervalMillis : Nat
  mode : Dispatch.Mode
  /-- The number of workers; without it, one for each processor of the machine. -/
  workers : Option Nat
  pollTimeoutMillis : Nat
  pollErrorBackoffMillis : Nat
  idleIntervalMillis : Nat
  commitIntervalMillis : Nat
  commitSync : Bool
  monitorIntervalMillis : Nat
  shutdownTimeoutMillis : Nat
  revokeDrainTimeoutMillis : Nat
  missingCredentialPolicy : MissingCredentialPolicy
  defaultApiKey : Option Secret
  /-- Where requests are sent; without it, they are only logged. -/
  executorUrl : Option String
  executorTimeoutMillis : Nat
  host : String
  port : Nat
  logFormat : LogFormat
deriving DecidableEq

namespace Config

open Environment in
/-- Read the configuration from the environment.  The first variable that
cannot be read is the error. -/
def load (env : Environment) : Except Unreadable Config := do
  return {
    hosts := ← env.setting "KAFKA_HOSTS" "localhost:9092" readText
    tls := ← env.setting "KAFKA_TLS" "false" readFlag
    group := ← env.setting "KAFKA_CONSUMER_GROUP" "partition-dispatcher" readText
    topic := ← env.setting "KAFKA_CONSUMER_TOPIC" "requests" readText
    offsetReset := ← env.setting "KAFKA_CONSUMER_OFFSET_RESET" "earliest" readText
    maxPollRecords := ← env.setting "KAFKA_MAX_POLL_RECORDS" "32" (readNumber 64)
    maxPollIntervalMillis :=
      ← env.setting "KAFKA_MAX_POLL_INTERVAL_MS" "300000" (readNumber 32)
    mode := ← env.setting "DISPATCH_MODE" "ordered" Dispatch.Mode.parse?
    workers := ← env.optional "WORKER_POOL_SIZE" (readNumber 64)
    pollTimeoutMillis := ← env.setting "POLL_TIMEOUT_MS" "250" (readNumber 64)
    pollErrorBackoffMillis := ← env.setting "POLL_ERROR_BACKOFF_MS" "1000" (readNumber 64)
    idleIntervalMillis := ← env.setting "IDLE_INTERVAL_MS" "0" (readNumber 64)
    commitIntervalMillis := ← env.setting "COMMIT_INTERVAL_MS" "3000" (readNumber 64)
    commitSync := ← env.setting "COMMIT_SYNC" "false" readFlag
    monitorIntervalMillis := ← env.setting "MONITOR_INTERVAL_MS" "5000" (readNumber 64)
    shutdownTimeoutMillis := ← env.setting "SHUTDOWN_TIMEOUT_MS" "10000" (readNumber 64)
    revokeDrainTimeoutMillis :=
      ← env.setting "REVOKE_DRAIN_TIMEOUT_MS" "30000" (readNumber 64)
    missingCredentialPolicy :=
      ← env.setting "MISSING_CREDENTIAL_POLICY" "drop" MissingCredentialPolicy.parse?
    defaultApiKey := ← env.optional "DEFAULT_API_KEY" fun s => some (⟨s⟩ : Secret)
    executorUrl := ← env.optional "EXECUTOR_URL" readText
    executorTimeoutMillis := ← env.setting "EXECUTOR_TIMEOUT_MS" "30000" (readNumber 64)
    host := ← env.setting "BIND_HOST" "0.0.0.0" readText
    port := ← env.setting "BIND_PORT" "8080" (readNumber 16)
    logFormat := ← env.setting "LOG_FORMAT" "text" LogFormat.parse? }

/-! ## Validity -/

/-- What makes a configuration unusable. -/
inductive Invalid
  | mustBePositive (name : String)
  | emptyTopic
deriving DecidableEq

/-- The words for what makes a configuration unusable. -/
def Invalid.message : Invalid → String
  | .mustBePositive name => name ++ " must be greater than zero"
  | .emptyTopic => "KAFKA_CONSUMER_TOPIC must not be empty"

/-- The first thing that makes a configuration unusable, if there is one. -/
def invalid? (c : Config) : Option Invalid :=
  if c.pollTimeoutMillis = 0 then some (.mustBePositive "POLL_TIMEOUT_MS")
  else if c.commitIntervalMillis = 0 then some (.mustBePositive "COMMIT_INTERVAL_MS")
  else if c.workers = some 0 then some (.mustBePositive "WORKER_POOL_SIZE")
  else if c.maxPollRecords = 0 then some (.mustBePositive "KAFKA_MAX_POLL_RECORDS")
  else if Text.isAllBlank c.topic then some .emptyTopic
  else none

/-! ## Settings of the parts -/

/-- The address of the HTTP server. -/
def bindAddress (c : Config) : String :=
  c.host ++ ":" ++ toString c.port

/-- The settings of the dispatcher. -/
def dispatcherSettings (c : Config) : Dispatch.Settings where
  pollTimeout := Duration.ofMillis c.pollTimeoutMillis
  pollErrorBackoff := Duration.ofMillis c.pollErrorBackoffMillis
  idleInterval := Duration.ofMillis c.idleIntervalMillis
  commitInterval := Duration.ofMillis c.commitIntervalMillis
  commitMode := if c.commitSync then .sync else .async
  monitorInterval := Duration.ofMillis c.monitorIntervalMillis
  shutdownTimeout := Duration.ofMillis c.shutdownTimeoutMillis
  revokeDrainTimeout := Duration.ofMillis c.revokeDrainTimeoutMillis

/-- The credential of records that carry none.  A key of blanks is none. -/
def defaultAuthentication (c : Config) : Option Authentication :=
  match c.defaultApiKey with
  | some key => if Text.isAllBlank key.value then none else some (.apiKey key.value)
  | none => none

/-- The settings of the group member. -/
def memberSettings (c : Config) : Member.Settings :=
  (((Member.Settings.forDispatcher c.hosts c.group).withTls c.tls).withOffsetReset
    c.offsetReset).withMaxPollInterval c.maxPollIntervalMillis

end Config
end RecordDispatch
