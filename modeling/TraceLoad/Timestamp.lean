import TraceLoad.Duration

/-! # Points in time

A timestamp counts nanoseconds since the epoch in 64 bits. Moving it forward stops at the last
representable instant instead of wrapping around.
-/

namespace TraceLoad

/-- Nanoseconds since the epoch. -/
@[ext] structure Timestamp where
  nanos : UInt64
deriving DecidableEq

namespace Timestamp

/-- The last representable instant. -/
def last : Timestamp := ⟨UInt64.ofNat (UInt64.size - 1)⟩

/-- The instant `d` later, or the last one if that cannot be represented. -/
def saturatingAdd (t : Timestamp) (d : Duration) : Timestamp :=
  ⟨UInt64.ofNat (min (t.nanos.toNat + d.nanos) (UInt64.size - 1))⟩

/-- How long after `earlier` this instant is, in nanoseconds; zero if it is not later. -/
def since (t earlier : Timestamp) : Nat := t.nanos.toNat - earlier.nanos.toNat

theorem toNat_saturatingAdd (t : Timestamp) (d : Duration) :
    (t.saturatingAdd d).nanos.toNat = min (t.nanos.toNat + d.nanos) (UInt64.size - 1) := by
  simp only [saturatingAdd, UInt64.toNat_ofNat', UInt64.size]
  omega

end Timestamp

end TraceLoad
