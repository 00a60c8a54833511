import RecordDispatch.Config.Shown
import RecordDispatch.Service
import RecordDispatch.Startup.Filter

/-!
# The start of the program

The program loads its configuration, builds the service, starts the HTTP
server and then the service.  A start that fails ends the program with an
error text and a nonzero status.
-/

namespace RecordDispatch.Startup

/-- What the start of the program tells. -/
inductive Event
  | starting
  | loaded (config : Config)
  | serving (address : String)
  | service (event : Service.Event)

open Report in
instance : Reported Event where
  line?
    | .starting =>
      some { level := .info, source := "", message := "Starting partition dispatcher" }
    | .loaded c =>
      some { level := .info, source := "", message := "Configuration loaded: " ++ c.shown }
    | .serving address =>
      some { level := .info, source := "", message := "Started metrics server on " ++ address }
    | .service e => Reported.line? e
  measurements
    | .service e => Reported.measurements e
    | _ => []

/-- How a start went: the configuration if it was read, what was told, and the
error that ended it. -/
structure Outcome where
  config : Option Config := none
  events : List Event := []
  failure : Option Failure := none

/-- The error of a configuration that cannot be read. -/
def unloadable (e : Environment.Unreadable) : Failure where
  top := "Failed to load configuration from environment variables. " ++
    "Please check your environment setup."
  causes := [e.message]

/-- Start the program on a machine with a number of processors. -/
def run (env : Environment) (machine : Nat) : Outcome :=
  match Config.load env with
  | .error e => { failure := some (unloadable e) }
  | .ok c =>
    let (building, built) := Service.build c
    let events := .starting :: .loaded c :: building.map .service
    match built with
    | .error f =>
      { config := some c, events
        failure := some (f.during "Failed to create partition dispatcher service") }
    | .ok () =>
      let (starting, started) := Service.start c machine
      { config := some c
        events := events ++ .serving c.bindAddress :: starting.map .service
        failure := match started with
          | .error f => some f
          | .ok _ => none }

/-- The log lines of a start that pass the filter. -/
def Outcome.lines (o : Outcome) (filter : Option String) : List Report.Line :=
  (Report.lines o.events).filter (Filter.ofSetting filter).passes

end RecordDispatch.Startup
