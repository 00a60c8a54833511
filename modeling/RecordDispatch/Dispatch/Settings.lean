import RecordDispatch.Broker.Request
import RecordDispatch.Duration
import RecordDispatch.Text.Keyword

/-!
# Settings of a dispatcher

How long a dispatcher waits, and how often it commits and reports.
-/

namespace RecordDispatch.Dispatch

/-- Whether the records of a partition are handled one after another. -/
inductive Mode
  /-- One processor for each partition, which takes its records in order. -/
  | ordered
  /-- One processor for each record. -/
  | unordered
deriving DecidableEq, Inhabited

namespace Mode

/-- The name of a mode in printed settings. -/
def name : Mode → String
  | .ordered => "Ordered"
  | .unordered => "Unordered"

/-- Read a mode.  Blanks around it and letter case do not count. -/
def parse? (s : String) : Option Mode :=
  match Text.keyword s with
  | "ordered" => some .ordered
  | "unordered" => some .unordered
  | _ => none

/-- The part of the dispatcher that log lines name. -/
def source : Mode → String
  | .ordered => "dispatcher::ordered"
  | .unordered => "dispatcher::unordered"

end Mode

/-- The settings of a dispatcher. -/
structure Settings where
  pollTimeout : Duration := Duration.ofMillis 250
  pollErrorBackoff : Duration := Duration.ofMillis 1000
  /-- How long to sleep after a cycle with nothing to do; zero for not at all. -/
  idleInterval : Duration := 0
  commitInterval : Duration := Duration.ofMillis 3000
  /-- The mode of commits that are not forced. -/
  commitMode : CommitMode := .async
  monitorInterval : Duration := Duration.ofMillis 5000
  shutdownTimeout : Duration := Duration.ofMillis 10000
  revokeDrainTimeout : Duration := Duration.ofMillis 30000

/-- The name of a commit mode in printed settings. -/
def shownCommitMode : CommitMode → String
  | .sync => "Sync"
  | .async => "Async"

/-- The printed form of settings. -/
def Settings.shown (s : Settings) : String :=
  let duration (name : String) (d : Duration) : String := name ++ ": " ++ Duration.render d
  "DispatcherSettings \x7b " ++ ", ".intercalate
    [duration "poll_timeout" s.pollTimeout,
      duration "poll_error_backoff" s.pollErrorBackoff,
      duration "idle_interval" s.idleInterval,
      duration "commit_interval" s.commitInterval,
      "commit_mode: " ++ shownCommitMode s.commitMode,
      duration "monitor_interval" s.monitorInterval,
      duration "shutdown_timeout" s.shutdownTimeout,
      duration "revoke_drain_timeout" s.revokeDrainTimeout] ++ " \x7d"

/-- What a cycle came to. -/
inductive Outcome
  /-- There was or is work. -/
  | busy
  /-- Nothing was polled, nothing runs and nothing waits for a commit. -/
  | idle
  /-- The poll failed. -/
  | backoff
deriving DecidableEq

/-- The name of a cycle's outcome. -/
def Outcome.name : Outcome → String
  | .busy => "Busy"
  | .idle => "Idle"
  | .backoff => "Backoff"

end RecordDispatch.Dispatch
