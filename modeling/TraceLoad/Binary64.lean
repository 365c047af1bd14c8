/-! # Binary floating-point numbers

Rates and real attributes are binary64 numbers. `Binary64` keeps the word that represents one, so
that two numbers can be compared and shown exactly; `magnitude` reads the word as a natural number
times a power of two, which is what exact arithmetic on it starts from.
-/

namespace TraceLoad

/-- A binary64 number, as the word that represents it. -/
structure Binary64 where
  bits : UInt64
deriving DecidableEq

namespace Binary64

def ofFloat (x : Float) : Binary64 := ⟨x.toBits⟩

def toFloat (x : Binary64) : Float := Float.ofBits x.bits

def isNegative (x : Binary64) : Bool := x.bits >>> 63 == 1

/-- The bits between sign and fraction. -/
def exponentField (x : Binary64) : Nat := ((x.bits >>> 52) &&& 0x7FF).toNat

def fractionField (x : Binary64) : Nat := (x.bits &&& 0xFFFFFFFFFFFFF).toNat

def isNaN (x : Binary64) : Bool := x.exponentField == 0x7FF && x.fractionField != 0

def isInfinite (x : Binary64) : Bool := x.exponentField == 0x7FF && x.fractionField == 0

def isFinite (x : Binary64) : Bool := x.exponentField != 0x7FF

/-- The number with its sign turned, which NaN has too. -/
def negate (x : Binary64) : Binary64 := ⟨x.bits ^^^ 0x8000000000000000⟩

def infinity : Binary64 := ⟨0x7FF0000000000000⟩

def nan : Binary64 := ⟨0x7FF8000000000000⟩

/-- The size of a finite number: `mantissa * 2 ^ exponent`. -/
structure Magnitude where
  mantissa : Nat
  exponent : Int
  /-- whether the gap to the number below is half the gap to the number above -/
  narrowBelow : Bool
deriving DecidableEq

def magnitude (x : Binary64) : Magnitude :=
  let e := x.exponentField
  let f := x.fractionField
  if e = 0 then ⟨f, -1074, false⟩
  else ⟨(1 <<< 52) + f, (e : Int) - 1075, decide (f = 0 ∧ 1 < e)⟩

end Binary64

end TraceLoad
