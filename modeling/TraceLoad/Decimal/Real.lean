import TraceLoad.Binary64
import TraceLoad.Decimal.Numeral

/-! # Reals in decimal notation

A real number is given by digits with at most one point among them, an exponent behind them, and a
sign in front. Infinity and NaN have names in letters of either case. The number meant is the
binary one closest to what is written, which is infinite beyond the largest and zero below the
least.
-/

namespace TraceLoad.Decimal

/-- Whether a sign turns the number behind it, and the number. -/
def splitSign : List Char → Bool × List Char
  | '+' :: rest => (false, rest)
  | '-' :: rest => (true, rest)
  | rest => (false, rest)

/-- An exponent of this size takes no more digits: behind fewer digits than that, all greater ones
make the same number. -/
def fullExponent : Nat := 0x10000

/-- The size of an exponent. -/
def exponentSize (digits : List Char) : Nat :=
  digits.foldl (fun n c => if n < fullExponent then pushDigit n c else n) 0

/-- The exponent behind the digits; zero if there is none. -/
def exponent? : List Char → Option Int
  | [] => some 0
  | c :: rest =>
    if c = 'e' ∨ c = 'E' then
      let (down, digits) := splitSign rest
      if isNumeral digits then
        some (if down then -(exponentSize digits : Int) else exponentSize digits)
      else none
    else none

/-- No finite binary number has a leading digit of a greater exponent. -/
def largestExponent : Int := 310

/-- Below this exponent of the leading digit, binary numbers are zero. -/
def leastExponent : Int := -330

/-- The binary number closest to `digits * 10 ^ e`. -/
def nearest (digits : List Char) (e : Int) : Binary64 :=
  let significant := digits.dropWhile (· = '0')
  let leading := significant.length + e
  if significant = [] ∨ leading < leastExponent then ⟨0⟩
  else if largestExponent < leading then .infinity
  else .ofFloat (Float.ofScientific (numeral significant) (e < 0) e.natAbs)

/-- The number of digits with a point and an exponent. -/
def unsigned? (text : List Char) : Option Binary64 :=
  let whole := text.takeWhile isDigit
  let (places, tail) := match text.dropWhile isDigit with
    | '.' :: rest => (rest.takeWhile isDigit, rest.dropWhile isDigit)
    | rest => ([], rest)
  match whole ++ places, exponent? tail with
  | [], _ | _, none => none
  | digits, some e => some (nearest digits (e - places.length))

/-- The numbers that have names. -/
def named? (text : List Char) : Option Binary64 :=
  match text.map Char.toLower with
  | ['i', 'n', 'f'] | ['i', 'n', 'f', 'i', 'n', 'i', 't', 'y'] => some .infinity
  | ['n', 'a', 'n'] => some .nan
  | _ => none

/-- Reads a real number. -/
def real? (text : List Char) : Option Binary64 :=
  let (negative, rest) := splitSign text
  let size := (unsigned? rest).or (named? rest)
  size.map fun x => if negative then x.negate else x

end TraceLoad.Decimal
