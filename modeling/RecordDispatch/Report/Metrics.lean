import RecordDispatch.Report.Line

/-!
# Metrics and reported events

A series is a metric name with labels.  A measurement adds to a counter, sets
a gauge or records an observation of a histogram, and `Metrics` is what all
measurements so far add up to: counters summed, gauges at their last value,
histograms with the number of their observations.

What happens is recorded as events, each of a type of its own part of the
dispatcher.  An event may be told in the log and may be measured.  `Reported`
says how, so that log and metrics are two renderings of one history.
-/

namespace RecordDispatch.Report

/-! ## Measurements -/

/-- A metric name with labels. -/
structure Series where
  name : String
  labels : List (String × String) := []
deriving DecidableEq

/-- A series of the dispatcher's own metrics, whose names all begin alike. -/
def own (name : String) (labels : List (String × String) := []) : Series :=
  ⟨"partition_dispatcher_" ++ name, labels⟩

/-- One measurement. -/
inductive Measurement
  | count (series : Series) (amount : Nat)
  | gauge (series : Series) (value : Int)
  | observe (series : Series)
deriving DecidableEq

/-- The kinds of metric. -/
inductive Kind
  | counter
  | gauge
  | histogram
deriving DecidableEq

/-- The name of a kind. -/
def Kind.name : Kind → String
  | .counter => "counter"
  | .gauge => "gauge"
  | .histogram => "histogram"

/-- The series that were measured, each with its kind and value. -/
abbrev Metrics := List (Series × Kind × Int)

/-- Change the value of a series, which starts at zero. -/
def Metrics.update (series : Series) (kind : Kind) (f : Int → Int) : Metrics → Metrics
  | [] => [(series, kind, f 0)]
  | (s, k, v) :: rest =>
    if s = series then (s, k, f v) :: rest
    else (s, k, v) :: Metrics.update series kind f rest

/-- The metrics after a measurement. -/
def Metrics.add (m : Metrics) : Measurement → Metrics
  | .count series amount => m.update series .counter (· + amount)
  | .gauge series value => m.update series .gauge fun _ => value
  | .observe series => m.update series .histogram (· + 1)

/-- The metrics that measurements in their order add up to. -/
def Metrics.ofList (ms : List Measurement) : Metrics :=
  ms.foldl Metrics.add []

/-- The value of a series, if it was measured. -/
def Metrics.value? (m : Metrics) (series : Series) : Option Int :=
  (m.find? fun e => e.1 = series).map (·.2.2)

/-! ## Events that are reported -/

/-- Events of a type have a log line, if any, and measurements. -/
class Reported (ε : Type) where
  line? : ε → Option Line
  measurements : ε → List Measurement

/-- Events of two parts, told in one order, are reported as each part does. -/
instance {ε ζ : Type} [Reported ε] [Reported ζ] : Reported (ε ⊕ ζ) where
  line? := Sum.elim Reported.line? Reported.line?
  measurements := Sum.elim Reported.measurements Reported.measurements

/-- The log lines of events, in order. -/
def lines {ε : Type} [Reported ε] (events : List ε) : List Line :=
  events.filterMap Reported.line?

/-- The metrics that events add up to. -/
def metrics {ε : Type} [Reported ε] (events : List ε) : Metrics :=
  Metrics.ofList (events.flatMap Reported.measurements)

end RecordDispatch.Report
