import TraceLoad.Json.Value

/-! # Scanning texts and numbers

The two tokens with an inside. Each has two scanners: one for a token whose content is kept, and
one for a token that is only passed over. The second checks less: it wants the right form, not a
code point for every escape, nor a number that can be represented, nor bytes that encode a text.

A scanner takes the bytes from the inside of the token on and gives what it found together with
the bytes that follow; a `Fault` says how reading failed.
-/

namespace TraceLoad.Json

/-- Why bytes are not what was to be read. -/
inductive Fault where
  /-- they could not be obtained at all -/
  | unreadable
  /-- they are not in the format, or a number or nesting exceeds what is kept -/
  | malformed
  /-- they are in the format up to here, but not of the shape that was wanted -/
  | mismatched
  /-- they end too early -/
  | truncated
deriving DecidableEq, Repr

/-- The value of a hexadecimal digit. -/
def hexValue? (b : UInt8) : Option Nat :=
  if 0x30 ≤ b ∧ b ≤ 0x39 then some (b.toNat - 0x30)
  else if 0x61 ≤ b ∧ b ≤ 0x66 then some (b.toNat - 0x61 + 10)
  else if 0x41 ≤ b ∧ b ≤ 0x46 then some (b.toNat - 0x41 + 10)
  else none

/-- The value of four hexadecimal digits. -/
def hexValue4? (a b c d : UInt8) : Option Nat := do
  let a ← hexValue? a
  let b ← hexValue? b
  let c ← hexValue? c
  let d ← hexValue? d
  pure (((a * 16 + b) * 16 + c) * 16 + d)

/-- The byte that a letter behind a backslash stands for. -/
def escapedByte? (b : UInt8) : Option UInt8 :=
  if b = quoteMark ∨ b = backslash ∨ b = 0x2F then some b
  else if b = 0x62 then some 0x08
  else if b = 0x66 then some 0x0C
  else if b = 0x6E then some 0x0A
  else if b = 0x72 then some 0x0D
  else if b = 0x74 then some 0x09
  else none

/-- The letter that announces four digits of a code unit. -/
def unitLetter : UInt8 := 0x75

/-- A code unit that is the first half of a character. -/
def isHighHalf (n : Nat) : Bool := 0xD800 ≤ n && n ≤ 0xDBFF

/-- A code unit that is the second half of a character. -/
def isLowHalf (n : Nat) : Bool := 0xDC00 ≤ n && n ≤ 0xDFFF

/-- The character of two halves. -/
def joinHalves (high low : Nat) : Char :=
  Char.ofNat ((high - 0xD800) * 0x400 + (low - 0xDC00) + 0x10000)

/-- Puts bytes in front of what was found. -/
def prepend (front : List UInt8) :
    Except Fault (List UInt8 × List UInt8) → Except Fault (List UInt8 × List UInt8)
  | .ok (found, rest) => .ok (front ++ found, rest)
  | .error e => .error e

/-- The content of a kept text, from behind its opening quote up to its closing one. A first half
of a character has to be followed by an escaped second half, and a second half never stands
alone. -/
def scanText : List UInt8 → Except Fault (List UInt8 × List UInt8)
  | [] => .error .truncated
  | b :: rest =>
    if b = quoteMark then .ok ([], rest)
    else if b = backslash then
      match rest with
      | [] => .error .truncated
      | c :: rest =>
        if c = unitLetter then
          match rest with
          | h₁ :: h₂ :: h₃ :: h₄ :: rest =>
            match hexValue4? h₁ h₂ h₃ h₄ with
            | none => .error .malformed
            | some n =>
              if isLowHalf n then .error .malformed
              else if isHighHalf n then
                match rest with
                | [] => .error .truncated
                | m :: rest =>
                  if m ≠ backslash then .error .malformed
                  else
                    match rest with
                    | [] => .error .truncated
                    | u :: rest =>
                      if u ≠ unitLetter then .error .malformed
                      else
                        match rest with
                        | l₁ :: l₂ :: l₃ :: l₄ :: rest =>
                          match hexValue4? l₁ l₂ l₃ l₄ with
                          | none => .error .malformed
                          | some l =>
                            if isLowHalf l then
                              prepend (String.utf8EncodeChar (joinHalves n l)) (scanText rest)
                            else .error .malformed
                        | _ => .error .truncated
              else prepend (String.utf8EncodeChar (Char.ofNat n)) (scanText rest)
          | _ => .error .truncated
        else
          match escapedByte? c with
          | some x => prepend [x] (scanText rest)
          | none => .error .malformed
    else if b < 0x20 then .error .malformed
    else prepend [b] (scanText rest)

/-- Passes over a text: escapes have to be well formed, but need not make characters. -/
def skipText : List UInt8 → Except Fault (List UInt8)
  | [] => .error .truncated
  | b :: rest =>
    if b = quoteMark then .ok rest
    else if b = backslash then
      match rest with
      | [] => .error .truncated
      | c :: rest =>
        if c = unitLetter then
          match rest with
          | h₁ :: h₂ :: h₃ :: h₄ :: rest =>
            match hexValue4? h₁ h₂ h₃ h₄ with
            | none => .error .malformed
            | some _ => skipText rest
          | _ => .error .truncated
        else
          match escapedByte? c with
          | some _ => skipText rest
          | none => .error .malformed
    else if b < 0x20 then .error .malformed
    else skipText rest

/-! ## Numbers -/

def isDigit (b : UInt8) : Bool := 0x30 ≤ b && b ≤ 0x39

def digitValue (b : UInt8) : Nat := b.toNat - 0x30

def point : UInt8 := 0x2E
def minus : UInt8 := 0x2D
def plus : UInt8 := 0x2B

/-- The letter in front of an exponent, in either case. -/
def isExponentLetter (b : UInt8) : Bool := b == 0x65 || b == 0x45

/-- A number keeps the leading digits that together fit a 64-bit word. This is the number with one
digit more, if that still fits. -/
-- irreducible, since evaluating the test on an unknown digit means counting down from the bound
@[irreducible] def pushDigit? (n : Nat) (b : UInt8) : Option Nat :=
  let m := 10 * n + digitValue b
  if m < UInt64.size then some m else none

theorem pushDigit?_of_lt {n : Nat} {b : UInt8} (h : 10 * n + digitValue b < UInt64.size) :
    pushDigit? n b = some (10 * n + digitValue b) := by
  unfold pushDigit?
  exact if_pos h

/-- Digits in front of the point, or of an exponent: the number that the kept ones make, how many
were left out, and the bytes behind them. From the first that is left out on, all are. -/
def wholeDigits (n : Nat) : List UInt8 → Nat × Nat × List UInt8
  | [] => (n, 0, [])
  | b :: rest =>
    if isDigit b then
      match pushDigit? n b with
      | some m => wholeDigits m rest
      | none => (n, 1 + (rest.takeWhile isDigit).length, rest.dropWhile isDigit)
    else (n, 0, b :: rest)

/-- Digits behind the point: the number that they make together with those in front of it, how
many were kept, and the bytes behind them. -/
def placeDigits (n : Nat) : List UInt8 → Nat × Nat × List UInt8
  | [] => (n, 0, [])
  | b :: rest =>
    if isDigit b then
      match pushDigit? n b with
      | some m =>
        let (m, kept, rest) := placeDigits m rest
        (m, kept + 1, rest)
      | none => (n, 0, rest.dropWhile isDigit)
    else (n, 0, b :: rest)

/-- The power of ten as a binary number. -/
def tenTo (n : Nat) : Float := Float.ofScientific 1 false n

/-- Divides by a power of ten in steps of at most 308, until nothing is left of the number. -/
def divideTen : Nat → Float → Nat → Float
  | 0, x, _ => x
  | fuel + 1, x, e =>
    if e ≤ 308 then x / tenTo e
    else if x == 0 then x
    else divideTen fuel (x / tenTo 308) (e - 308)

/-- The kept digits times a power of ten, as a binary number: the digits are rounded to one first,
and multiplied or divided then. There is none if the result is beyond the largest. -/
def scale? (n : Nat) (e : Int) : Option Binary64 :=
  let x := (UInt64.ofNat n).toFloat
  if e < 0 then
    some (.ofFloat (divideTen e.natAbs x e.natAbs))
  else if 308 < e then
    if n = 0 then some (.ofFloat x) else none
  else
    let y := Binary64.ofFloat (x * tenTo e.natAbs)
    if y.isInfinite then none else some y

/-- A scaled number with its sign, and the bytes behind it. -/
def signed (negative : Bool) (n : Nat) (e : Int) (rest : List UInt8) :
    Except Fault (Number × List UInt8) :=
  match scale? n e with
  | none => .error .malformed
  | some x => .ok (.real (if negative then x.negate else x), rest)

/-- From here on an exponent outweighs any digits whose last one stands for `10 ^ e`: with its sign
it makes them beyond the largest number or zero, unless they are zero already. -/
def fullExponent (e : Int) : Nat := e.natAbs + 1000

/-- The digits of an exponent, and the bytes behind them. Once the exponent is full it takes no
more digits. -/
def exponentDigits (full n : Nat) : List UInt8 → Nat × List UInt8
  | [] => (n, [])
  | b :: rest =>
    if isDigit b then exponentDigits full (if n < full then 10 * n + digitValue b else n) rest
    else (n, b :: rest)

/-- The exponent behind its letter, up to where it is full. -/
def scanExponent (full : Nat) (bytes : List UInt8) : Except Fault (Int × List UInt8) :=
  let (down, bytes) := match bytes with
    | b :: rest =>
      if b = minus then (true, rest)
      else if b = plus then (false, rest)
      else (false, b :: rest)
    | [] => (false, [])
  match bytes with
  | [] => .error .truncated
  | b :: rest =>
    if isDigit b then
      let (n, rest) := exponentDigits full 0 (b :: rest)
      .ok (if down then -(n : Int) else n, rest)
    else .error .malformed

/-- What may follow the digits of a number: an exponent, or nothing that belongs to it. -/
def scanTail (negative : Bool) (n : Nat) (e : Int) (bytes : List UInt8) :
    Except Fault (Number × List UInt8) :=
  match bytes with
  | b :: rest =>
    if isExponentLetter b then
      match scanExponent (fullExponent e) rest with
      | .error f => .error f
      | .ok (x, rest) => signed negative n (e + x) rest
    else signed negative n e (b :: rest)
  | [] => signed negative n e []

/-- The digits behind the point, of which there is at least one, and what follows them. -/
def scanPlaces (negative : Bool) (n dropped : Nat) (bytes : List UInt8) :
    Except Fault (Number × List UInt8) :=
  match bytes with
  | [] => .error .truncated
  | b :: _ =>
    if isDigit b then
      let (n, kept, rest) := placeDigits n bytes
      scanTail negative n ((dropped : Int) - kept) rest
    else .error .malformed

/-- A whole number with its sign. Negative zero, and what is below the least 64-bit integer, are
real numbers. -/
def wholeNumber (negative : Bool) (n : Nat) : Number :=
  if negative then
    if n = 0 ∨ UInt64.size / 2 < n then .real (Binary64.ofFloat (UInt64.ofNat n).toFloat).negate
    else .whole (-(n : Int))
  else .whole n

/-- A kept number, from behind its sign on. A number of more digits than fit is a real one even
without a point. -/
def scanNumber (negative : Bool) (bytes : List UInt8) : Except Fault (Number × List UInt8) :=
  match bytes with
  | [] => .error .truncated
  | b :: rest =>
    if !isDigit b then .error .malformed
    else
      let zeroLed := b = 0x30 ∧ (rest.head?.any isDigit)
      if zeroLed then .error .malformed
      else
        let (n, dropped, rest) := wholeDigits (digitValue b) rest
        match rest with
        | c :: tail =>
          if c = point then scanPlaces negative n dropped tail
          else if isExponentLetter c ∨ dropped ≠ 0 then scanTail negative n dropped rest
          else .ok (wholeNumber negative n, rest)
        | [] =>
          if dropped ≠ 0 then signed negative n dropped []
          else .ok (wholeNumber negative n, [])

/-- Passes over an exponent behind its letter. -/
def skipExponent (bytes : List UInt8) : Except Fault (List UInt8) :=
  let bytes := match bytes with
    | b :: rest => if b = minus ∨ b = plus then rest else b :: rest
    | [] => []
  match bytes with
  | b :: rest => if isDigit b then .ok (rest.dropWhile isDigit) else .error .malformed
  | [] => .error .malformed

/-- Passes over an exponent if there is one. -/
def skipTail (bytes : List UInt8) : Except Fault (List UInt8) :=
  match bytes with
  | b :: rest => if isExponentLetter b then skipExponent rest else .ok (b :: rest)
  | [] => .ok []

/-- Passes over a number, from behind its sign on. That it ends too early is seen only as a digit
that is missing. -/
def skipNumber (bytes : List UInt8) : Except Fault (List UInt8) :=
  match bytes with
  | [] => .error .malformed
  | b :: rest =>
    if !isDigit b then .error .malformed
    else
      let zeroLed := b = 0x30 ∧ (rest.head?.any isDigit)
      if zeroLed then .error .malformed
      else
        match (if b = 0x30 then rest else rest.dropWhile isDigit) with
        | c :: tail =>
          if c = point then
            match tail with
            | d :: more =>
              if isDigit d then skipTail (more.dropWhile isDigit) else .error .malformed
            | [] => .error .malformed
          else skipTail (c :: tail)
        | [] => .ok []

end TraceLoad.Json
