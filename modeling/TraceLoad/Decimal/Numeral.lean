/-! # Decimal numerals

Runs of ASCII decimal digits, and the natural numbers that they denote. A numeral can be far longer
than any number that is kept, so a reader with a bound gives up at the first digit that goes beyond
it: `boundedNumeral?` agrees with `numeral` below the bound, whatever the number of digits.
-/

namespace TraceLoad.Decimal

/-- An ASCII decimal digit. -/
def isDigit (c : Char) : Bool := '0' ≤ c && c ≤ '9'

/-- The number with one digit more at its end. -/
def pushDigit (n : Nat) (c : Char) : Nat := 10 * n + (c.toNat - '0'.toNat)

/-- The number that a list of decimal digits denotes; leading zeros do not count. -/
def numeral (digits : List Char) : Nat := digits.foldl pushDigit 0

/-- The number that digits denote behind those that make `n`, if it is below the bound. -/
def boundedFrom? (bound : Nat) : Nat → List Char → Option Nat
  | n, [] => some n
  | n, c :: rest => if pushDigit n c < bound then boundedFrom? bound (pushDigit n c) rest else none

/-- The number that digits denote, if it is below the bound. -/
def boundedNumeral? (bound : Nat) (digits : List Char) : Option Nat :=
  boundedFrom? bound 0 digits

/-- More digits never make less. -/
theorem le_foldl_pushDigit (digits : List Char) (n : Nat) : n ≤ digits.foldl pushDigit n := by
  induction digits generalizing n with
  | nil => exact Nat.le_refl n
  | cons c rest ih =>
    have first : n ≤ pushDigit n c := by unfold pushDigit; omega
    exact Nat.le_trans first (ih _)

theorem boundedFrom?_eq {bound n : Nat} (hn : n < bound) (digits : List Char) :
    boundedFrom? bound n digits =
      if digits.foldl pushDigit n < bound then some (digits.foldl pushDigit n) else none := by
  induction digits generalizing n with
  | nil => simp [boundedFrom?, hn]
  | cons c rest ih =>
    by_cases h : pushDigit n c < bound
    · rw [boundedFrom?, if_pos h, ih h, List.foldl_cons]
    · have := le_foldl_pushDigit rest (pushDigit n c)
      have beyond : ¬ rest.foldl pushDigit (pushDigit n c) < bound := by omega
      simp [boundedFrom?, h, beyond]

/-- Giving up early loses nothing. -/
theorem boundedNumeral?_eq {bound : Nat} (h : 0 < bound) (digits : List Char) :
    boundedNumeral? bound digits = if numeral digits < bound then some (numeral digits) else none :=
  boundedFrom?_eq h digits

/-- Digits and nothing else, and one of them at least. -/
def isNumeral (text : List Char) : Bool := !text.isEmpty && text.all isDigit

/-- Reads a natural number of at most 64 bits, which may have a plus sign in front. -/
def word? (text : List Char) : Option UInt64 :=
  let digits := match text with
    | '+' :: rest => rest
    | _ => text
  if isNumeral digits then (boundedNumeral? UInt64.size digits).map UInt64.ofNat else none

end TraceLoad.Decimal
