import RecordDispatch.Batch
import RecordDispatch.Broker.Change
import RecordDispatch.Broker.Code
import RecordDispatch.Broker.Error
import RecordDispatch.Broker.Memory
import RecordDispatch.Broker.Request
import RecordDispatch.Commit.Schedule
import RecordDispatch.Config.Basic
import RecordDispatch.Config.Environment
import RecordDispatch.Config.Shown
import RecordDispatch.Decimal.Shortest
import RecordDispatch.Dispatch.Basic
import RecordDispatch.Dispatch.Event
import RecordDispatch.Dispatch.Loop
import RecordDispatch.Dispatch.Ordered
import RecordDispatch.Dispatch.Run
import RecordDispatch.Dispatch.Settings
import RecordDispatch.Dispatch.Unordered
import RecordDispatch.Duration
import RecordDispatch.Envelope
import RecordDispatch.Executor.Http
import RecordDispatch.Executor.Target
import RecordDispatch.Gate
import RecordDispatch.Handler
import RecordDispatch.Json.Fault
import RecordDispatch.Json.Printer
import RecordDispatch.Json.Reader
import RecordDispatch.Json.Scan
import RecordDispatch.Json.Value
import RecordDispatch.Ledger
import RecordDispatch.Main
import RecordDispatch.Member.Notice
import RecordDispatch.Member.Offline
import RecordDispatch.Member.Settings
import RecordDispatch.Monitor
import RecordDispatch.Partition
import RecordDispatch.Processor
import RecordDispatch.Proofs.Cadence
import RecordDispatch.Proofs.Coherence
import RecordDispatch.Proofs.Concealment
import RecordDispatch.Proofs.Delivery
import RecordDispatch.Proofs.Dispatcher
import RecordDispatch.Proofs.DrainSteps
import RecordDispatch.Proofs.Envelope.Credential
import RecordDispatch.Proofs.Envelope.Parallel
import RecordDispatch.Proofs.Envelope.Payload
import RecordDispatch.Proofs.Envelope.RoundTrip
import RecordDispatch.Proofs.FailingCalls
import RecordDispatch.Proofs.Flow
import RecordDispatch.Proofs.Gate
import RecordDispatch.Proofs.Gauges
import RecordDispatch.Proofs.Grouping
import RecordDispatch.Proofs.Guarantees
import RecordDispatch.Proofs.Journal
import RecordDispatch.Proofs.Json.Grammar
import RecordDispatch.Proofs.Json.Numbers
import RecordDispatch.Proofs.Json.Printed
import RecordDispatch.Proofs.Json.Strings
import RecordDispatch.Proofs.Json.Tokens
import RecordDispatch.Proofs.Json.Values
import RecordDispatch.Proofs.Json.Written
import RecordDispatch.Proofs.Ledger
import RecordDispatch.Proofs.LedgerTracking
import RecordDispatch.Proofs.Loop
import RecordDispatch.Proofs.Matches
import RecordDispatch.Proofs.Metrics
import RecordDispatch.Proofs.MonitorHistory
import RecordDispatch.Proofs.Operator
import RecordDispatch.Proofs.Ordered.Account
import RecordDispatch.Proofs.Ordered.AccountsInvariant
import RecordDispatch.Proofs.Ordered.Cycle
import RecordDispatch.Proofs.Ordered.DrainSpec
import RecordDispatch.Proofs.Ordered.EntriesInvariant
import RecordDispatch.Proofs.Ordered.EventPromises
import RecordDispatch.Proofs.Ordered.Flow
import RecordDispatch.Proofs.Ordered.FlowInvariant
import RecordDispatch.Proofs.Ordered.GivenUp
import RecordDispatch.Proofs.Ordered.Guarantees
import RecordDispatch.Proofs.Ordered.Harvest
import RecordDispatch.Proofs.Ordered.Matches
import RecordDispatch.Proofs.Ordered.OneBatch
import RecordDispatch.Proofs.Ordered.Pressure
import RecordDispatch.Proofs.Ordered.Resumption
import RecordDispatch.Proofs.Ordered.Revocation
import RecordDispatch.Proofs.Ordered.RisingCommits
import RecordDispatch.Proofs.Ordered.RunningAlone
import RecordDispatch.Proofs.Override
import RecordDispatch.Proofs.Pool.Counter
import RecordDispatch.Proofs.Pool.Lives
import RecordDispatch.Proofs.Pool.Rest
import RecordDispatch.Proofs.Pool.Turns
import RecordDispatch.Proofs.Processor.Interleaved
import RecordDispatch.Proofs.Processor.Life
import RecordDispatch.Proofs.Processor.Through
import RecordDispatch.Proofs.Processor.View
import RecordDispatch.Proofs.Publications
import RecordDispatch.Proofs.Requests
import RecordDispatch.Proofs.RisingCommits
import RecordDispatch.Proofs.Secrecy
import RecordDispatch.Proofs.Snapshot
import RecordDispatch.Proofs.Sorted
import RecordDispatch.Proofs.Sums
import RecordDispatch.Proofs.Totals
import RecordDispatch.Proofs.Unordered.Cycle
import RecordDispatch.Proofs.Unordered.DrainSpec
import RecordDispatch.Proofs.Unordered.Flow
import RecordDispatch.Proofs.Unordered.Guarantees
import RecordDispatch.Proofs.Unordered.Marks
import RecordDispatch.Proofs.Unordered.RecordedProgress
import RecordDispatch.Proofs.Unordered.Revocation
import RecordDispatch.Proofs.Unordered.RisingCommits
import RecordDispatch.Proofs.Unordered.RoutineRuns
import RecordDispatch.Proofs.Unordered.Tally
import RecordDispatch.Proofs.Waits
import RecordDispatch.Rehearsal.Bench
import RecordDispatch.Rehearsal.Executor
import RecordDispatch.Rehearsal.Play
import RecordDispatch.Rehearsal.Release
import RecordDispatch.Rehearsal.Solo
import RecordDispatch.Rehearsal.Stage
import RecordDispatch.Report.Line
import RecordDispatch.Report.Metrics
import RecordDispatch.Server.Address
import RecordDispatch.Server.Exposition
import RecordDispatch.Server.Routes
import RecordDispatch.Service
import RecordDispatch.Startup.Basic
import RecordDispatch.Startup.Filter
import RecordDispatch.Table
import RecordDispatch.Text.Keyword
import RecordDispatch.Text.Quoted
import RecordDispatch.Work
import RecordDispatch.Workers
