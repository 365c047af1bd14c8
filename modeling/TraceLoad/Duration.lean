import TraceLoad.Decimal.Numeral

/-! # Lengths of time

A duration is a whole number of nanoseconds. It is read from texts such as `300`, `300s`, `250ms`,
`30m` and `1h`, and shown in the largest unit that it fills at least once.
-/

namespace TraceLoad

/-- A length of time. -/
structure Duration where
  nanos : Nat
deriving DecidableEq, Repr

namespace Duration

def zero : Duration := ⟨0⟩

def ofMillis (n : Nat) : Duration := ⟨n * 1000000⟩

def ofSecs (n : Nat) : Duration := ⟨n * 1000000000⟩

/-- Whole seconds. -/
def secs (d : Duration) : Nat := d.nanos / 1000000000

/-- What is left beside the whole seconds, in nanoseconds. -/
def subsecNanos (d : Duration) : Nat := d.nanos % 1000000000

/-- The units in which a duration can be given. -/
inductive TimeUnit where
  | milliseconds
  | seconds
  | minutes
  | hours
deriving DecidableEq, Repr

namespace TimeUnit

/-- The unit that a suffix names; a number alone counts seconds. -/
def ofSuffix? (suffix : List Char) : Option TimeUnit :=
  if suffix = ['m', 's'] then some milliseconds
  else if suffix = [] ∨ suffix = ['s'] then some seconds
  else if suffix = ['m'] then some minutes
  else if suffix = ['h'] then some hours
  else none

/-- How many seconds one unit has, where it has a whole number of them. -/
def inSecs : TimeUnit → Nat
  | milliseconds => 0
  | seconds => 1
  | minutes => 60
  | hours => 3600

def inNanos : TimeUnit → Nat
  | milliseconds => 1000000
  | seconds => 1000000000
  | minutes => 60000000000
  | hours => 3600000000000

end TimeUnit

/-- Reads decimal digits followed by a unit. Both the number and the whole seconds it makes have
to fit 64 bits. -/
def ofText? (text : List Char) : Option Duration :=
  let digits := text.takeWhile Decimal.isDigit
  match TimeUnit.ofSuffix? (text.dropWhile Decimal.isDigit),
      Decimal.boundedNumeral? UInt64.size digits with
  | some u, some n =>
    if digits ≠ [] ∧ n * u.inSecs < UInt64.size then some ⟨n * u.inNanos⟩ else none
  | _, _ => none

/-- A number of at most `places` decimal places, without its trailing zeros: nothing for a whole
number, otherwise a point and the digits. -/
def fraction (places n : Nat) : String :=
  let digits := (Nat.toDigits 10 n)
  let padded := List.replicate (places - digits.length) '0' ++ digits
  match (padded.reverse.dropWhile (· == '0')).reverse with
  | [] => ""
  | kept => "." ++ String.ofList kept

/-- The duration in seconds, milliseconds, microseconds or nanoseconds: the largest of them that
it fills, with a fraction where there is one. -/
def describe (d : Duration) : String :=
  if 1000000000 ≤ d.nanos then
    toString d.secs ++ fraction 9 d.subsecNanos ++ "s"
  else if 1000000 ≤ d.nanos then
    toString (d.nanos / 1000000) ++ fraction 6 (d.nanos % 1000000) ++ "ms"
  else if 1000 ≤ d.nanos then
    toString (d.nanos / 1000) ++ fraction 3 (d.nanos % 1000) ++ "µs"
  else
    toString d.nanos ++ "ns"

end Duration

end TraceLoad
