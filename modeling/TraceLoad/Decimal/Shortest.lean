import TraceLoad.Binary64

/-! # Shortest decimals

The shortest decimal of a binary number is the one with the fewest digits among all decimals that
are read back as that number; of several with equally few digits it is the closest. All arithmetic
is exact: a binary number is a decimal with finitely many places, and so are the two ends of the
interval of numbers that round to it.
-/

namespace TraceLoad

/-- The number `digits * 10 ^ exponent`. -/
structure Decimal where
  digits : Nat
  exponent : Int
deriving DecidableEq, Repr

namespace Decimal

/-- What to do when the number lies midway between two decimals that both serve. -/
inductive Tie where
  | toEven
  | upward
deriving DecidableEq

/-- The numbers that round to a binary number, in quarters of `10 ^ exponent`: everything between
`low` and `high`, the ends included if `closed`. The number itself is `middle`. -/
structure Window where
  low : Nat
  middle : Nat
  high : Nat
  closed : Bool
  exponent : Int

/-- With a negative power of two `2 ^ -j`, the number counts `5 ^ j` in units of `10 ^ -j`. -/
def Window.around (x : Binary64.Magnitude) : Window :=
  let (unit, exponent) : Nat × Int :=
    if 0 ≤ x.exponent then (1 <<< x.exponent.toNat, 0)
    else (Nat.pow 5 (-x.exponent).toNat, x.exponent)
  { low := (4 * x.mantissa - if x.narrowBelow then 1 else 2) * unit
    middle := 4 * x.mantissa * unit
    high := (4 * x.mantissa + 2) * unit
    closed := x.mantissa % 2 = 0
    exponent := exponent }

/-- Whether `n` whole units lie in the window. -/
def Window.contains (w : Window) (n : Nat) : Bool :=
  if w.closed then decide (w.low ≤ 4 * n ∧ 4 * n ≤ w.high)
  else decide (w.low < 4 * n ∧ 4 * n < w.high)

/-- The multiple of `step` in the window that is closest to the middle. Only the two neighbours of
the middle can be. -/
def Window.closest? (w : Window) (tie : Tie) (step : Nat) : Option Nat :=
  let below := w.middle / 4 / step
  let above := below + 1
  match w.contains (below * step), w.contains (above * step) with
  | true, false => some below
  | false, true => some above
  | false, false => none
  | true, true =>
    match compare (2 * w.middle) (4 * (below * step + above * step)), tie with
    | .lt, _ => some below
    | .gt, _ => some above
    | .eq, .upward => some above
    | .eq, .toEven => some (if below % 2 = 0 then below else above)

/-- How many decimal digits a number has. -/
def length (n : Nat) : Nat := (Nat.toDigits 10 n).length

/-- The same decimal without trailing zeros; `fuel` bounds how many are dropped. -/
def strip : Nat → Decimal → Decimal
  | 0, d => d
  | fuel + 1, d =>
    if d.digits % 10 = 0 then strip fuel ⟨d.digits / 10, d.exponent + 1⟩ else d

/-- The shortest decimal that is read back as `x`: one digit is tried first, then two, and so on
up to the number's own exact digits. -/
def shortest (tie : Tie) (x : Binary64.Magnitude) : Decimal :=
  if x.mantissa = 0 then ⟨0, 0⟩
  else
    let w := Window.around x
    let exact := w.middle / 4
    let size := length exact
    let found := (List.range size).findSome? fun i =>
      (w.closest? tie (Nat.pow 10 (size - 1 - i))).map fun c =>
        Decimal.mk c (w.exponent + (size - 1 - i : Nat))
    let d := found.getD ⟨exact, w.exponent⟩
    strip (length d.digits) d

/-- How a decimal is written. The exponent meant is that of the leading digit. -/
structure Layout where
  /-- the least exponent of the positional form -/
  plainFrom : Int
  /-- the least exponent above those of the positional form -/
  plainBelow : Int
  /-- whether a positive exponent shows its sign -/
  plusSign : Bool
  tie : Tie

/-- The digits with the point after `point` of them; zeros fill up at either side, and at least
one digit follows the point. -/
def positional (digits : List Char) (point : Int) : List Char :=
  if point ≤ 0 then
    '0' :: '.' :: (List.replicate (-point).toNat '0' ++ digits)
  else
    let whole := digits.take point.toNat
    let rest := digits.drop point.toNat
    whole ++ List.replicate (point.toNat - digits.length) '0' ++ '.' ::
      (if rest = [] then ['0'] else rest)

/-- The digits with the point after the first of them, and the exponent of the leading digit. -/
def scientific (plusSign : Bool) (digits : List Char) (e : Int) : List Char :=
  let mantissa := match digits with
    | [] => []
    | [d] => [d]
    | d :: rest => d :: '.' :: rest
  let sign := if e < 0 then ['-'] else if plusSign then ['+'] else []
  mantissa ++ 'e' :: (sign ++ Nat.toDigits 10 e.natAbs)

/-- The text of a decimal. -/
def Layout.write (l : Layout) (d : Decimal) : List Char :=
  let digits := Nat.toDigits 10 d.digits
  let e := d.exponent + digits.length - 1
  if d.digits = 0 then ['0', '.', '0']
  else if l.plainFrom ≤ e ∧ e < l.plainBelow then positional digits (e + 1)
  else scientific l.plusSign digits e

/-- The text of a finite binary number. -/
def Layout.writeBinary (l : Layout) (x : Binary64) : List Char :=
  let text := l.write (shortest l.tie x.magnitude)
  if x.isNegative then '-' :: text else text

end Decimal

end TraceLoad
