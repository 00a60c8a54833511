import RecordDispatch.Partition
import RecordDispatch.Text.Quoted

/-!
# Log lines

A log line has a level, the name of the part that wrote it, a message and
named fields.  `Line.text` is the message followed by the fields.

Wall-clock durations are no part of the model.  A field that would hold one
is written with the placeholder `_`.
-/

namespace RecordDispatch.Report

/-- How important a log line is, from the least to the most. -/
inductive Level
  | debug
  | info
  | warn
  | error
deriving DecidableEq

/-- The name of a level. -/
def Level.name : Level → String
  | .debug => "DEBUG"
  | .info => "INFO"
  | .warn => "WARN"
  | .error => "ERROR"

/-- The position of a level in the order of importance. -/
def Level.rank : Level → Nat
  | .debug => 1
  | .info => 2
  | .warn => 3
  | .error => 4

/-- The value of a field. -/
inductive Value
  | text (value : String)
  | number (value : Int)
  | flag (value : Bool)
  /-- A value that is given in the form in which it is shown. -/
  | shown (form : String)
  /-- A wall-clock duration. -/
  | elapsed
deriving DecidableEq

/-- The text of a field's value. -/
def Value.render : Value → String
  | .text value => Text.quoted value
  | .number value => toString value
  | .flag value => toString value
  | .shown form => form
  | .elapsed => "_"

/-- A log line. -/
structure Line where
  level : Level
  source : String
  message : String
  fields : List (String × Value) := []
deriving DecidableEq

/-- The message of a line, followed by its fields. -/
def Line.text (line : Line) : String :=
  line.fields.foldl (fun text f => text ++ " " ++ f.1 ++ "=" ++ f.2.render) line.message

/-- The fields that name a partition. -/
def partitionFields (p : Partition) : List (String × Value) :=
  [("topic", .text p.topic), ("partition", .number p.number)]

/-- The form in which a log line shows a partition. -/
def showPartition (p : Partition) : String :=
  "Partition \x7b topic: " ++ Text.quoted p.topic ++ ", partition_number: " ++
    toString p.number ++ " \x7d"

/-- The form in which a log line shows a list of partitions. -/
def showPartitions (ps : List Partition) : String :=
  "[" ++ ", ".intercalate (ps.map showPartition) ++ "]"

end RecordDispatch.Report
