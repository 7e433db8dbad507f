import SchemaScript.Number.Layout

/-!
# Times

The texts of a span of time and of a point in it, each given in whole seconds and nanoseconds.

A span is written in seconds with a point and the letter `s`.  Its two numbers have the same sign,
and it is no longer than ten thousand years of 365.25 days.

A point counts from the start of 1970 and is written as a date and a time of day.  Its nanoseconds
are not negative, and it lies in the years 1 to 9999 of the Gregorian calendar, without leap
seconds.

In both, a fraction of a second has three, six or nine digits, the fewest that show it, and is left
out with its point if it is zero.  What keeps to none of these bounds has no text.

A day is turned into a date by counting from the first of March of the year 0.  A year that starts
in March has its leap day at the end, so that the lengths of its months do not depend on it
(`Date.ofDays`).
-/

namespace SchemaScript.Time

/-! ## Fractions -/

/-- The nanoseconds of a second. -/
def nanosPerSecond : Nat :=
  1000000000

/-- The fraction of a second with its point. -/
def fractionText (nanos : Nat) : String :=
  if nanos = 0 then ""
  else if nanos % 1000000 = 0 then "." ++ padZeros 3 (Nat.repr (nanos / 1000000))
  else if nanos % 1000 = 0 then "." ++ padZeros 6 (Nat.repr (nanos / 1000))
  else "." ++ padZeros 9 (Nat.repr nanos)

/-! ## Spans -/

/-- The seconds of the longest span. -/
def maxSpan : Nat :=
  315576000000

/-- The text of a span. -/
def spanText? (seconds nanos : Int) : Option String :=
  if seconds.natAbs ≤ maxSpan ∧ nanos.natAbs < nanosPerSecond ∧
      ¬(seconds < 0 ∧ 0 < nanos) ∧ ¬(0 < seconds ∧ nanos < 0) then
    some ((if seconds < 0 ∨ nanos < 0 then "-" else "") ++ Nat.repr seconds.natAbs ++
      fractionText nanos.natAbs ++ "s")
  else
    none

/-! ## Dates -/

/-- A day of the Gregorian calendar. -/
structure Date where
  year : Nat
  /-- The month, from 1 on. -/
  month : Nat
  /-- The day in the month, from 1 on. -/
  day : Nat
deriving DecidableEq, Repr

/-- The days of four hundred years, after which the calendar repeats. -/
def daysPerEra : Nat :=
  146097

/-- The date that many days after the first of March of the year 0. -/
def Date.ofDays (days : Nat) : Date :=
  let inEra := days % daysPerEra
  let yearOfEra := (inEra - inEra / 1460 + inEra / 36524 - inEra / 146096) / 365
  let inYear := inEra - (365 * yearOfEra + yearOfEra / 4 - yearOfEra / 100)
  let monthFromMarch := (5 * inYear + 2) / 153
  let day := inYear - (153 * monthFromMarch + 2) / 5 + 1
  let year := 400 * (days / daysPerEra) + yearOfEra
  if monthFromMarch < 10 then ⟨year, monthFromMarch + 3, day⟩
  else ⟨year + 1, monthFromMarch - 9, day⟩

/-- A number in two digits. -/
def twoDigits (n : Nat) : String :=
  padZeros 2 (Nat.repr n)

/-- The text of a date. -/
def Date.text (d : Date) : String :=
  "-".intercalate [padZeros 4 (Nat.repr d.year), twoDigits d.month, twoDigits d.day]

/-! ## Points -/

/-- The seconds of a day. -/
def secondsPerDay : Nat :=
  86400

/-- The time of day after a count of seconds. -/
def clockText (seconds : Nat) : String :=
  ":".intercalate
    [twoDigits (seconds / 3600), twoDigits (seconds / 60 % 60), twoDigits (seconds % 60)]

/-- The days from the first of March of the year 0 to the start of 1970. -/
def daysTo1970 : Nat :=
  719468

/-- The text of a point in time. -/
def pointText? (seconds nanos : Int) : Option String :=
  if -62135596800 ≤ seconds ∧ seconds ≤ 253402300799 ∧ 0 ≤ nanos ∧
      nanos < (nanosPerSecond : Int) then
    let count := (seconds + (daysTo1970 * secondsPerDay : Nat)).toNat
    some ((Date.ofDays (count / secondsPerDay)).text ++ "T" ++ clockText (count % secondsPerDay) ++
      fractionText nanos.toNat ++ "Z")
  else
    none

example : spanText? 3 500000000 = some "3.500s" ∧ spanText? (-1) (-1) = some "-1.000000001s" := by
  decide +kernel
example : spanText? 1 (-1) = none := by decide +kernel
example : Date.ofDays daysTo1970 = ⟨1970, 1, 1⟩ ∧ Date.ofDays 11016 = ⟨30, 4, 29⟩ := by
  decide +kernel
example : pointText? 951782400 1000 = some "2000-02-29T00:00:00.000001Z" := by decide +kernel
example : pointText? (-62135596800) 0 = some "0001-01-01T00:00:00Z" ∧
    pointText? 253402300799 0 = some "9999-12-31T23:59:59Z" := by decide +kernel

end SchemaScript.Time
