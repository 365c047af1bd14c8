import TraceLoad.Text.Pattern.Sign

/-! # Classes in brackets

A class of characters is written in brackets, and a caret behind the opening one means all other
characters. In the brackets stand signs, ranges that ascend, named classes such as `[:digit:]`,
further classes in brackets, and between them the operators `&&`, `--` and `~~`. Hyphens at the
beginning stand for themselves, and so does a closing bracket there.

Reading a class gives how deep it is nested (`nesting`).
-/

namespace TraceLoad.Text

/-- How deep things are nested that stand in a row: one level deeper than the deepest of them,
unless it is alone. -/
def nesting : List Nat → Nat
  | [] => 0
  | [depth] => depth
  | depths => depths.foldl max 0 + 1

/-- What has been read of a class whose closing bracket has not been met. -/
structure OpenClass where
  /-- how deep the left side of the operator is nested, if one has been met -/
  left : Option Nat := none
  /-- how deep the parts behind it are nested -/
  parts : List Nat := []
  /-- whether nothing but hyphens has been met -/
  isFresh : Bool := true
deriving DecidableEq

namespace OpenClass

/-- How deep the inside is nested. An operator is one level above its sides. -/
def depth (o : OpenClass) : Nat :=
  match o.left with
  | none => nesting o.parts
  | some left => max left (nesting o.parts) + 1

/-- One more part, of which so much is nested. -/
def withPart (o : OpenClass) (depth : Nat) : OpenClass :=
  { o with parts := depth :: o.parts, isFresh := false }

/-- An operator: what has been read is its left side. -/
def withOperator (o : OpenClass) : OpenClass :=
  { left := some o.depth, parts := [], isFresh := false }

/-- A character at the beginning that stands for itself there; behind a hyphen it still is the
beginning. -/
def withLead (o : OpenClass) (c : Char) : OpenClass :=
  { o.withPart 0 with isFresh := c = '-' }

/-- Whether a character stands for itself because it is at the beginning. -/
def isLead (o : OpenClass) (c : Char) : Bool :=
  o.isFresh && (c = '-' || (c = ']' && o.parts.isEmpty))

end OpenClass

/-- The words that name classes in brackets. -/
def classWords : List String :=
  ["alnum", "alpha", "ascii", "blank", "cntrl", "digit", "graph", "lower", "print", "punct",
   "space", "upper", "word", "xdigit"]

/-- A named class, from behind its opening bracket on: whether all others are meant, and what stands
behind it. -/
def namedClass? : List Char → Option (Bool × List Char)
  | ':' :: text =>
    let others := text.head? = some '^'
    let text := if others then text.tail else text
    match text.dropWhile (· ≠ ':') with
    | ':' :: ']' :: rest =>
      if String.ofList (text.takeWhile (· ≠ ':')) ∈ classWords then some (others, rest) else none
    | _ => none
  | _ => none

/-- Whether two characters are an operator. -/
def isClassOperator (c : Char) (behind : Option Char) : Bool :=
  behind = some c && (c = '&' || c = '-' || c = '~')

namespace PatternMode

open PatternReader

/-- The character that says what a hyphen in front of it means. Where gaps do not count it stands
behind the blanks; a number sign is passed over once, and blanks behind that. -/
def behindHyphen? (m : PatternMode) (text : List Char) : Option Char :=
  if m.hasGaps then
    match text.dropWhile isBlank with
    | '#' :: rest => (rest.dropWhile isBlank).head?
    | rest => rest.head?
  else text.head?

/-- Whether a text goes on with the second half of a range. -/
def continuesRange (m : PatternMode) : List Char → Bool
  | '-' :: rest => decide (m.behindHyphen? rest ∉ [some ']', some '-'])
  | _ => false

/-- A sign or a range in brackets that begins with a character. -/
def classPart (m : PatternMode) (first : Char) : PatternReader Unit := do
  let low ← m.signInBrackets first
  m.gap
  if m.continuesRange (← remaining) then
    advance 1
    m.gap
    let high ← m.signInBrackets (← next)
    match low, high with
    | .char a _, .char b _ => demand (m.hasInBrackets a && m.hasInBrackets b && decide (a ≤ b))
    | _, _ => refuse
  else
    match low with
    | .char c _ => demand (m.hasInBrackets c)
    | .charClass _ => demand (m.has low)
    | _ => refuse

/-- The beginning of a class behind its opening bracket. All others of a class of bytes would be
bytes beyond ASCII too. -/
def openClass (m : PatternMode) : PatternReader OpenClass := do
  m.gap
  if (← remaining).head? = some '^' then
    advance 1
    demand m.ofCharacters
  pure {}

/-- Reads on in a class, which stands in other ones, until the outermost is closed. Gives how deep
that one is nested. -/
def classWithin (m : PatternMode) :
    (bound : List Char) → OpenClass → (around : List OpenClass) → PatternReader Nat
  | [], _, _ => refuse
  | _ :: bound, o, around => do
    m.gap
    let c ← next
    let text ← remaining
    -- hyphens and a closing bracket at the beginning
    if o.isLead c then
      demand (m.hasInBrackets c)
      classWithin m bound (o.withLead c) around
    -- the class is a part of the one around, or the outermost
    else if c = ']' then
      match around with
      | [] => pure (o.depth + 1)
      | outer :: around => classWithin m bound (outer.withPart (o.depth + 1)) around
    -- a named class, or one more in brackets
    else if c = '[' then
      match namedClass? text with
      | some (others, rest) =>
        demand (m.hasNamed others)
        advance (text.length - rest.length)
        classWithin m bound (o.withPart 0) around
      | none => classWithin m bound (← m.openClass) (o :: around)
    else if isClassOperator c text.head? then
      advance 1
      classWithin m bound o.withOperator around
    else
      m.classPart c
      classWithin m bound (o.withPart 0) around

/-- A class, from behind its opening bracket on. -/
def brackets (m : PatternMode) : PatternReader Nat := do
  let o ← m.openClass
  classWithin m (← remaining) o []

end PatternMode

end TraceLoad.Text
