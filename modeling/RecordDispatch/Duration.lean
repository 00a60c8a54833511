/-!
# Instants and durations

Time is counted in nanoseconds from the start.  An instant may lie before the
start, a duration is never negative.
-/

namespace RecordDispatch

/-- Nanoseconds since the start. -/
abbrev Instant := Int

/-- Nanoseconds. -/
abbrev Duration := Nat

namespace Duration

/-- Nanoseconds in a millisecond. -/
def perMilli : Nat := 1000000

/-- Nanoseconds in a second. -/
def perSecond : Nat := 1000000000

/-- A duration of whole milliseconds. -/
def ofMillis (n : Nat) : Duration :=
  n * perMilli

/-- The whole milliseconds in a duration. -/
def toMillis (d : Duration) : Nat :=
  d / perMilli

/-- The instant some time after another. -/
def after (start : Instant) (d : Duration) : Instant :=
  start + Int.ofNat d

/-- The time from one instant to another, zero if the second is not later. -/
def between (start stop : Instant) : Duration :=
  (stop - start).toNat

@[simp] theorem after_zero (t : Instant) : after t 0 = t := by
  simp [after]

/-- The digits after the point, without trailing zeros: `rest` counts units of
which `unit` make a whole. -/
def fraction (rest unit : Nat) : String :=
  if rest = 0 then ""
  else
    let digits := ((toString (unit + rest)).toList.drop 1).reverse.dropWhile (· = '0')
    "." ++ String.ofList digits.reverse

/-- The text of a duration, in the greatest unit that it fills. -/
def render (d : Duration) : String :=
  let inUnit (unit : Nat) (name : String) : String :=
    toString (d / unit) ++ fraction (d % unit) unit ++ name
  if perSecond ≤ d then inUnit perSecond "s"
  else if perMilli ≤ d then inUnit perMilli "ms"
  else if 1000 ≤ d then inUnit 1000 "µs"
  else inUnit 1 "ns"

end Duration
end RecordDispatch
