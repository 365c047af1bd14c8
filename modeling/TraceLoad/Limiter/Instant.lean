import TraceLoad.Binary64
import TraceLoad.Duration
import TraceLoad.Limiter

/-! # Limits in binary numbers and nanoseconds

The numbers and instants that runs use: tokens are counted in binary floating point, instants in
whole nanoseconds since the run began. A clock that is simulated shows whole milliseconds only.
Nobody sleeps for more than thirty years at a stretch.
-/

namespace TraceLoad

namespace Binary64

/-- A number of seconds as a duration: the nearest whole number of nanoseconds, the even one of two
equally near. Numbers of seconds that do not fit 64 bits have none. -/
def toDuration? (x : Binary64) : Option Duration :=
  if !x.isFinite then none
  else
    let m := x.magnitude
    let (num, den) : Nat × Nat :=
      if 0 ≤ m.exponent then ((m.mantissa <<< m.exponent.toNat) * 1000000000, 1)
      else (m.mantissa * 1000000000, 1 <<< (-m.exponent).toNat)
    let below := num / den
    let twice := 2 * (num % den)
    let nanos :=
      if twice < den then below
      else if den < twice then below + 1
      else if below % 2 = 0 then below else below + 1
    if num < UInt64.size * 1000000000 * den then some ⟨nanos⟩ else none

end Binary64

/-- A reading of the clock that limits are kept by, in nanoseconds since a run began. -/
abbrev Instant := Nat

/-- A duration in seconds as a binary number: its whole seconds and its nanoseconds are turned
into numbers first and added then. -/
def Duration.toSeconds (d : Duration) : Float :=
  (UInt64.ofNat d.secs).toFloat + (UInt64.ofNat d.subsecNanos).toFloat / 1e9

namespace Instant

/-- The longest sleep. -/
def longestSleep : Duration := .ofSecs (30 * 365 * 86400)

/-- When a sleep that begins at an instant and is to last a while is over. -/
def wake (start : Instant) (d : Duration) : Instant := start + min d.nanos longestSleep.nanos

/-- The first whole millisecond that is not before an instant. -/
def tick (t : Instant) : Instant := (t + 999999) / 1000000 * 1000000

def ofMillis (n : Nat) : Instant := n * 1000000

def toMillis (t : Instant) : Nat := t / 1000000

end Instant

/-- A wait is a sleep; the longest one if its seconds do not fit a duration. -/
instance : Timeline Float Instant where
  elapsed a b := Duration.toSeconds ⟨b - a⟩
  later now seconds :=
    Instant.wake now ((Binary64.ofFloat seconds).toDuration?.getD Instant.longestSleep)

/-- The rate that a number of permits per second sets. Zero, negative and infinite numbers, and
NaN, set none. -/
def Binary64.limit? (x : Binary64) : Option Float :=
  if x.isFinite ∧ 0.0 < x.toFloat then some x.toFloat else none

/-- A limiter that grants a number of permits per second. -/
def Limiter.perSecond (x : Binary64) (now : Instant) : Limiter Float Instant :=
  .ofRate x.limit? now

/-- A limiter that grants every permit. -/
def Limiter.unlimited (now : Instant) : Limiter Float Instant := .ofRate none now

end TraceLoad
