import RecordDispatch.Config.Environment
import RecordDispatch.Report.Line

/-!
# The filter of the log

A filter is a list of directives, separated by commas: a level for everything,
the name of a part to let through entirely, perhaps before an equals sign, or
a part with its level after an equals sign.  The
directive with the longest name that a line's part begins with decides.
Without any directive only errors pass, and a text that is no filter stands
for the filter that lets `INFO` and above pass.
-/

namespace RecordDispatch.Startup

open Report

/-- The least level that passes, by rank; above all ranks if nothing passes. -/
abbrev Threshold := Nat

/-- The thresholds by name. -/
def thresholds : List (String × Threshold) :=
  [("off", 5), ("error", 4), ("warn", 3), ("info", 2), ("debug", 1), ("trace", 0)]

/-- Read a threshold: a name in any letter case, or the number of levels that
pass. -/
def threshold? (s : String) : Option Threshold :=
  match Environment.readNumber 64 s with
  | some n => if n ≤ 5 then some (5 - n) else none
  | none => thresholds.lookup s.toLower

/-- A part of the program with the least level that passes. -/
structure Directive where
  part : String
  threshold : Threshold

/-- Whether a character may stand in the name of a part. -/
def isPartChar (c : Char) : Bool :=
  c.isAlphanum || c == '_' || c == ':' || c == '-'

/-- Read one directive. -/
def directive? (s : String) : Option Directive :=
  let cs := s.toList
  let part := cs.takeWhile (· != '=')
  if part.isEmpty || !part.all isPartChar then none
  else
    match cs.dropWhile (· != '=') with
    | [] => some
      (match threshold? s with
        | some threshold => ⟨"", threshold⟩
        | none => ⟨s, 0⟩)
    | [_] => some ⟨String.ofList part, 0⟩
    | _ :: level => (threshold? (String.ofList level)).map fun t => ⟨String.ofList part, t⟩

/-- A filter of log lines. -/
abbrev Filter := List Directive

/-- Read a filter. -/
def Filter.parse? (s : String) : Option Filter :=
  match (s.splitOn ",").filter fun d => !d.isEmpty with
  | [] => some [⟨"", 4⟩]
  | ds => ds.mapM directive?

/-- The filter that a text stands for, or the default. -/
def Filter.ofSetting (setting : Option String) : Filter :=
  (setting.bind Filter.parse?).getD [⟨"", 2⟩]

/-- The directive that decides about a part. -/
def Filter.deciding? (f : Filter) (part : String) : Option Directive :=
  (f.filter fun d => part.startsWith d.part).foldl
    (fun best d =>
      match best with
      | some b => if b.part.length ≤ d.part.length then some d else some b
      | none => some d)
    none

/-- The full name of the part that wrote a line. -/
def partOf (line : Line) : String :=
  if line.source.isEmpty then "partition_dispatcher"
  else "partition_dispatcher::" ++ line.source

/-- Whether a line passes. -/
def Filter.passes (f : Filter) (line : Line) : Bool :=
  match f.deciding? (partOf line) with
  | some d => decide (d.threshold ≤ line.level.rank)
  | none => false

end RecordDispatch.Startup
