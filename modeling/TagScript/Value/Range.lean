/-!
# Ranges

A range starts at a number and goes on in steps while it is strictly before its end in the
direction of the step. Numbers are 64-bit integers, and their number is counted in 64 bits without
a sign, where the distance between any two of them has a place.
-/

namespace TagScript

/-- A range of whole numbers. -/
structure Range where
  /-- The first number. -/
  start : Int64
  /-- The bound, which is not reached. -/
  stop : Int64
  /-- The distance from one number to the next. -/
  step : Int64
  deriving DecidableEq, Repr

namespace Range

/-- How many numbers the range has: the distance divided by the step and rounded up. A step of zero
or away from the end gives none. -/
def length (r : Range) : UInt64 :=
  if 0 < r.step ∧ r.start < r.stop then
    (r.stop.toUInt64 - r.start.toUInt64 - 1) / r.step.toUInt64 + 1
  else if r.step < 0 ∧ r.stop < r.start then
    (r.start.toUInt64 - r.stop.toUInt64 - 1) / (-r.step).toUInt64 + 1
  else 0

/-- The range as a call that builds it. -/
def text (r : Range) : String :=
  "range(" ++ toString r.start.toInt ++ ", " ++ toString r.stop.toInt ++ ", " ++
    toString r.step.toInt ++ ")"

end Range

end TagScript
