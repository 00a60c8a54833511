import RecordDispatch.Json.Printer
import RecordDispatch.Startup.Basic

/-!
# The program

The program takes its settings from environment variables, writes its log to
the standard output and, if it cannot start, an error to the standard error.
It has no connection to a broker, so a service that has started waits until it
is stopped.
-/

namespace RecordDispatch.Program

/-- The variables that are settings. -/
def settingNames : List String :=
  ["KAFKA_HOSTS", "KAFKA_TLS", "KAFKA_CONSUMER_GROUP", "KAFKA_CONSUMER_TOPIC",
    "KAFKA_CONSUMER_OFFSET_RESET", "KAFKA_MAX_POLL_RECORDS", "KAFKA_MAX_POLL_INTERVAL_MS",
    "DISPATCH_MODE", "WORKER_POOL_SIZE", "POLL_TIMEOUT_MS", "POLL_ERROR_BACKOFF_MS",
    "IDLE_INTERVAL_MS", "COMMIT_INTERVAL_MS", "COMMIT_SYNC", "MONITOR_INTERVAL_MS",
    "SHUTDOWN_TIMEOUT_MS", "REVOKE_DRAIN_TIMEOUT_MS", "MISSING_CREDENTIAL_POLICY",
    "DEFAULT_API_KEY", "EXECUTOR_URL", "EXECUTOR_TIMEOUT_MS", "BIND_HOST", "BIND_PORT",
    "LOG_FORMAT"]

/-- Read the settings that are present. -/
def readEnvironment : IO Environment := do
  let found ← settingNames.mapM fun name => do
    return (← IO.getEnv name).map fun value => (name, value)
  return found.filterMap id

/-- The text of a log line in a form of the log. -/
def logText (format : LogFormat) (line : Report.Line) : String :=
  match format with
  | .text => line.level.name ++ " " ++ Startup.partOf line ++ ": " ++ line.text
  | .json =>
    (Json.ofMembers
      [("level", .string line.level.name),
        ("target", .string (Startup.partOf line)),
        ("fields", Json.ofMembers (("message", .string line.message) ::
          line.fields.map fun f => (f.1, .string f.2.render)))]).render

/-- Wait for ever. -/
partial def idle (millis : UInt32) : IO UInt32 := do
  IO.sleep millis
  idle millis

end RecordDispatch.Program

open RecordDispatch Program

/-- Start the service.  The number of the machine's processors is not known
here, so that one worker serves if no number is set. -/
def main : IO UInt32 := do
  let env ← readEnvironment
  let outcome := Startup.run env 1
  let format := (outcome.config.map (·.logFormat)).getD .text
  for line in outcome.lines (← IO.getEnv "RUST_LOG") do
    IO.println (logText format line)
  match outcome.failure with
  | some f =>
    IO.eprintln f.report
    return 1
  | none => idle 1000
