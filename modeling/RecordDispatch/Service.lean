import RecordDispatch.Config.Basic
import RecordDispatch.Report.Metrics
import RecordDispatch.Workers

/-!
# Building and starting the service

A service is built from a valid configuration.  When it starts, it asks for
the number of partitions of its topic, creates its workers and joins the
consumer group.  No broker answers here, so the number of partitions stays
unknown, and joining fails if the protocol client refuses its settings.
-/

namespace RecordDispatch

/-- An error with the errors that caused it, the outermost first. -/
structure Failure where
  top : String
  causes : List String := []
deriving DecidableEq

namespace Failure

/-- The words for an error and all its causes. -/
def chain (f : Failure) : String :=
  ": ".intercalate (f.top :: f.causes)

/-- An error that occurred in the course of something else. -/
def during (f : Failure) (what : String) : Failure :=
  { top := what, causes := f.top :: f.causes }

/-- A cause in a numbered list, which begins at a number. -/
def numbered : Nat → List String → List String
  | _, [] => []
  | n, cause :: rest =>
    let digits := toString n
    (String.ofList (List.replicate (5 - digits.length) ' ') ++ digits ++ ": " ++ cause) ::
      numbered (n + 1) rest

/-- The text that ends a program: the error, and below it its causes, which are
numbered if there are several. -/
def report (f : Failure) : String :=
  let head := "Error: " ++ f.top
  match f.causes with
  | [] => head
  | [cause] => head ++ "\n\nCaused by:\n    " ++ cause
  | causes => head ++ "\n\nCaused by:\n" ++ "\n".intercalate (numbered 0 causes)

end Failure

namespace Service

/-- What building and starting a service tells. -/
inductive Event
  /-- Requests are only logged. -/
  | onlyLogging
  | partitionsUnknown (topic : String) (error : Broker.Error)
  | workers (event : Workers.Event)

open Report in
instance : Reported Event where
  line?
    | .onlyLogging => some
      { level := .warn
        source := "service"
        message := "EXECUTOR_URL not set, requests will only be logged" }
    | .partitionsUnknown topic e => some
      { level := .warn
        source := "service"
        message := "Could not fetch partition count, worker pool size is not capped"
        fields := [("topic", .text topic), ("error", .shown e.shown)] }
    | .workers e => Reported.line? e
  measurements
    | .workers e => Reported.measurements e
    | _ => []

/-- How messages name the topic and the group of a service. -/
def names (c : Config) (what : String) : String :=
  "topic '" ++ c.topic ++ "'" ++ what ++ " group '" ++ c.group ++ "'"

/-- Check the configuration of a service. -/
def check (c : Config) : Except Failure Unit :=
  match c.invalid? with
  | some e => .error
    { top := "Configuration validation failed for service with consumer " ++ names c " and"
      causes := [e.message] }
  | none => .ok ()

/-- Build a service. -/
def build (c : Config) : List Event × Except Failure Unit :=
  (if c.executorUrl.isNone then [.onlyLogging] else [], check c)

/-- Why the protocol client does not take the settings of a service, if it does
not. -/
def refusal? (c : Config) : Option Broker.Error :=
  (Member.Settings.refusal? c.offsetReset c.maxPollIntervalMillis).map .client

/-- Why the number of partitions of a topic is not known: the settings are
refused, or there is no broker to ask. -/
def partitionsError (c : Config) : Broker.Error :=
  (refusal? c).getD (.client (.code .metadataFetch .brokerTransportFailure))

/-- The causes of a refusal, the outermost first. -/
def refusalCauses (e : Broker.Error) : List String :=
  match e with
  | .client inner => [e.message, inner.message]
  | _ => [e.message]

/-- Start a service on a machine with a number of processors.  The answer is the
number of workers. -/
def start (c : Config) (machine : Nat) : List Event × Except Failure Nat :=
  let size := Workers.effectiveSize c.workers machine 0
  let events : List Event :=
    [.partitionsUnknown c.topic (partitionsError c), .workers (.created size)]
  match refusal? c with
  | some e => (events, .error
    { top := "Failed to create Kafka consumer for " ++ names c " with"
      causes := refusalCauses e })
  | none => (events, .ok size)

end Service
end RecordDispatch
