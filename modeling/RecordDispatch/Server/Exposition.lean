import RecordDispatch.Report.Metrics

/-!
# The text of the metrics

The form in which the server gives out metrics: each metric with its kind and
then its series, with the labels in braces and their values in quotes.  Of a
histogram the number of observations is given, once as a bucket that holds
them all and once as the count.  How long requests took is not part of the
model, so the other buckets and the sum are left out.
-/

namespace RecordDispatch.Server

open Report

/-- The characters that stand for one character of a label's value. -/
def escapeLabel (c : Char) : List Char :=
  if c = '\\' then ['\\', '\\']
  else if c = '"' then ['\\', '"']
  else if c = '\n' then ['\\', 'n']
  else [c]

/-- A label. -/
def label (l : String × String) : String :=
  l.1 ++ "=\"" ++ String.ofList (l.2.toList.flatMap escapeLabel) ++ "\""

/-- A line of a series. -/
def sample (name : String) (labels : List (String × String)) (value : Int) : String :=
  let labels :=
    if labels.isEmpty then "" else "\x7b" ++ ",".intercalate (labels.map label) ++ "\x7d"
  name ++ labels ++ " " ++ toString value

/-- The lines of a series. -/
def samples (series : Series) (value : Int) : Kind → List String
  | .histogram =>
    [sample (series.name ++ "_bucket") (series.labels ++ [("le", "+Inf")]) value,
      sample (series.name ++ "_count") series.labels value]
  | _ => [sample series.name series.labels value]

/-- The names of the metrics with their kinds, each once. -/
def heads (m : Metrics) : List (String × Kind) :=
  (m.map fun e => (e.1.name, e.2.1)).eraseDups

/-- The lines of a metric. -/
def block (m : Metrics) (head : String × Kind) : List String :=
  ("# TYPE " ++ head.1 ++ " " ++ head.2.name) ::
    (m.filter fun e => e.1.name = head.1).flatMap fun e => samples e.1 e.2.2 e.2.1

/-- The text of metrics. -/
def exposition (m : Metrics) : String :=
  String.join ((heads m).map fun h =>
    String.join ((block m h).map (· ++ "\n")) ++ "\n")

/-- The error of a second attempt to collect metrics in one program. -/
def secondRecorder : String :=
  "failed to install exporter as global recorder: attempted to set a recorder after " ++
    "the metrics system was already initialized"

end RecordDispatch.Server
