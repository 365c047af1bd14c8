import TraceLoad.Hex
import TraceLoad.Text.Blank

/-! # Signs

The smallest parts of a pattern: a character, which mostly stands for itself, or a backslash with
what belongs to it. How they are read depends on the mode, and so does which of them there are:

* patterns know no cases and no classes of characters beyond ASCII, so a mode of characters that
  ignores cases has no character, and one of characters has neither edges of words nor classes that
  letters name;
* what a pattern is about is a text, so a mode of bytes cannot mean single bytes beyond ASCII.
-/

namespace TraceLoad.Text

/-- How a pattern is read. -/
structure PatternMode where
  /-- letters stand for both of their cases -/
  ignoresCase : Bool := false
  /-- a pattern is about characters, and otherwise about bytes -/
  ofCharacters : Bool := true
  /-- blanks and comments between the signs do not count -/
  hasGaps : Bool := false
deriving DecidableEq

/-- Reads from the front of a pattern. -/
abbrev PatternReader := StateT (List Char) Option

namespace PatternReader

def refuse {α : Type} : PatternReader α := fun _ => none

/-- Goes on only if a condition holds. -/
def demand (condition : Bool) : PatternReader Unit := fun text =>
  if condition then some ((), text) else none

/-- What is left. Whatever takes a character in every round ends within as many rounds, so the
characters serve as the bound of such recursions. -/
def remaining : PatternReader (List Char) := fun text => some (text, text)

/-- Takes the first character; there has to be one. -/
def next : PatternReader Char
  | [] => none
  | c :: rest => some (c, rest)

/-- Drops so many characters. -/
def advance (n : Nat) : PatternReader Unit := fun text => some ((), text.drop n)

end PatternReader

/-- A text without the blanks and comments at its front. A comment begins at a number sign and ends
with its line. -/
def dropGap (inComment : Bool) : List Char → List Char
  | [] => []
  | c :: rest =>
    if inComment then dropGap (c ≠ '\n') rest
    else if isBlank c then dropGap false rest
    else if c = '#' then dropGap true rest
    else c :: rest

/-- What a sign stands for. -/
inductive PatternSign where
  /-- a character; whether it is written as a byte in hexadecimal digits -/
  | char (c : Char) (asByte : Bool)
  /-- any character -/
  | any
  /-- an end of the text or of a line -/
  | boundary
  /-- an edge of a word, or a place that is none -/
  | wordEdge
  /-- one of a class of characters, or one of all the others -/
  | charClass (others : Bool)
deriving DecidableEq

/-- What letters and angle brackets mean behind a backslash. -/
def escapes : List (Char × PatternSign) := [
  ('a', .char '\x07' false), ('f', .char '\x0C' false), ('n', .char '\n' false),
  ('r', .char '\r' false), ('t', .char '\t' false), ('v', .char '\x0B' false),
  ('A', .boundary), ('z', .boundary),
  ('b', .wordEdge), ('B', .wordEdge), ('<', .wordEdge), ('>', .wordEdge),
  ('d', .charClass false), ('s', .charClass false), ('w', .charClass false),
  ('D', .charClass true), ('S', .charClass true), ('W', .charClass true)]

/-- How many hexadecimal digits follow a letter behind a backslash, if a character is written in
them. -/
def codeLength? (c : Char) : Option Nat :=
  if c = 'x' then some 2 else if c = 'u' then some 4 else if c = 'U' then some 8 else none

namespace PatternMode

open PatternReader

/-- Passes over blanks and comments, where they do not count. -/
def gap (m : PatternMode) : PatternReader Unit := fun text =>
  some ((), if m.hasGaps then dropGap false text else text)

/-- The number that so many hexadecimal digits continue. -/
def code (m : PatternMode) : (digits : Nat) → Nat → PatternReader Nat
  | 0, n => pure n
  | digits + 1, n => do
    m.gap
    match Hex.value? (← next) with
    | some d => code m digits (16 * n + d)
    | none => refuse

/-- What stands behind a backslash. Every ASCII character that is no letter, digit or angle bracket
stands for itself there. -/
def escaped (m : PatternMode) : PatternReader PatternSign := do
  let c ← next
  match codeLength? c, escapes.lookup c with
  | some digits, _ =>
    let n ← m.code digits 0
    demand (decide n.isValidChar)
    pure (.char (Char.ofNat n) (digits = 2))
  | none, some sign => pure sign
  | none, none =>
    demand (c.toNat < 0x80 && !c.isAlphanum)
    pure (.char c false)

/-- A sign that begins with a character. -/
def sign (m : PatternMode) (first : Char) : PatternReader PatternSign :=
  if first = '\\' then m.escaped
  else if first = '.' then pure .any
  else if first = '^' ∨ first = '$' then pure .boundary
  else pure (.char first false)

/-- A sign in brackets that begins with a character. -/
def signInBrackets (m : PatternMode) (first : Char) : PatternReader PatternSign :=
  if first = '\\' then m.escaped else pure (.char first false)

/-- Whether a mode has a sign. -/
def has (m : PatternMode) : PatternSign → Bool
  | .char c asByte => if m.ofCharacters then !m.ignoresCase else !asByte || c.toNat < 0x80
  | .any => m.ofCharacters
  | .boundary => true
  | .wordEdge => !m.ofCharacters
  | .charClass others => !m.ofCharacters && !others

/-- Whether a mode has a character in brackets. -/
def hasInBrackets (m : PatternMode) (c : Char) : Bool :=
  if m.ofCharacters then !m.ignoresCase else c.toNat < 0x80

/-- Whether a mode has a class in brackets that a word names, or all the others. -/
def hasNamed (m : PatternMode) (others : Bool) : Bool :=
  if m.ofCharacters then !m.ignoresCase else !others

end PatternMode

end TraceLoad.Text
