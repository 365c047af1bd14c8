import TraceLoad.Text.Alphanumeric
import TraceLoad.Text.Pattern.Brackets

/-! # Patterns

Patterns are regular expressions. Nothing is matched here: `isPattern` only says whether a text is
one. Its parts are

* signs and classes in brackets, as the mode has them;
* groups `( … )`, which may have a name, `(?<name> … )`, or change the mode inside,
  `(?flags: … )`; `(?flags)` changes it up to the end of the group around;
* `*`, `+` and `?` behind a part that they repeat, and with another `?` behind them;
* `|` between alternatives.

A brace belongs to a counted repetition and has to be closed. A pattern with one is refused,
because patterns come from a place that a closing brace ends. A pattern that is nested too deep is
refused as well.
-/

namespace TraceLoad.Text

/-- How deep a pattern may be nested. -/
def maxPatternDepth : Nat := 250

/-- What has been read of a group, or of a pattern outside its groups. -/
structure OpenGroup where
  /-- how deep the alternatives before the current one are nested -/
  alternatives : List Nat := []
  /-- how deep the parts of the current one are nested, the last one first; flags are a part that
  has no depth, because it cannot be repeated -/
  parts : List (Option Nat) := []
deriving DecidableEq

namespace OpenGroup

/-- How deep the current alternative is nested. -/
def currentDepth (o : OpenGroup) : Nat := nesting (o.parts.map (·.getD 0))

/-- How deep the inside is nested. -/
def depth (o : OpenGroup) : Nat := nesting (o.currentDepth :: o.alternatives)

def withPart (o : OpenGroup) (part : Option Nat) : OpenGroup :=
  { o with parts := part :: o.parts }

/-- The end of an alternative. -/
def withBar (o : OpenGroup) : OpenGroup := ⟨o.currentDepth :: o.alternatives, []⟩

/-- The last part repeated, if there is one that can be. -/
def repeated? (o : OpenGroup) : Option OpenGroup :=
  match o.parts with
  | some depth :: parts => some { o with parts := some (depth + 1) :: parts }
  | _ => none

end OpenGroup

/-- The letters of the flags. -/
def flagLetters : List Char := ['i', 'm', 's', 'U', 'u', 'R', 'x']

/-- Whether characters are flags: no letter twice, and at most one hyphen, which turns the flags
behind it off and has some behind it. -/
def isFlags (text : List Char) : Bool :=
  decide text.Nodup && text.all (fun c => c = '-' || c ∈ flagLetters) && text.getLast? ≠ some '-'

namespace PatternMode

/-- The mode with a flag turned on or off. The other flags are about the meaning of signs only. -/
def setFlag (m : PatternMode) (isOn : Bool) (c : Char) : PatternMode :=
  if c = 'i' then { m with ignoresCase := isOn }
  else if c = 'u' then { m with ofCharacters := isOn }
  else if c = 'x' then { m with hasGaps := isOn }
  else m

/-- The mode with flags turned on, and off behind a hyphen. -/
def setFlags (m : PatternMode) (flags : List Char) : PatternMode :=
  let on := (flags.takeWhile (· ≠ '-')).foldl (setFlag · true ·) m
  (flags.dropWhile (· ≠ '-')).foldl (setFlag · false ·) on

end PatternMode

/-- How far the reading of a pattern has come. -/
structure PatternReading where
  mode : PatternMode := {}
  group : OpenGroup := {}
  /-- the groups around, the innermost first, each with the mode that comes back behind it -/
  around : List (PatternMode × OpenGroup) := []
  /-- the names of groups so far -/
  names : List (List Char) := []
deriving DecidableEq

namespace PatternReading

open PatternReader

def withPart (r : PatternReading) (part : Option Nat) : PatternReading :=
  { r with group := r.group.withPart part }

/-- The beginning of a group in whose inside a mode holds. -/
def opened (r : PatternReading) (mode : PatternMode) : PatternReading :=
  { r with mode := mode, group := {}, around := (r.mode, r.group) :: r.around }

/-- The name of a group, which a closing angle bracket ends: a letter or an underscore, and then
numbers, points and square brackets too. -/
def groupName : PatternReader (List Char) := do
  let text ← remaining
  let name := text.takeWhile (· ≠ '>')
  demand (name.length < text.length)
  advance (name.length + 1)
  match name with
  | [] => refuse
  | c :: cs =>
    demand ((c = '_' || isAlphabetic c) && cs.all fun c =>
      c ∈ ['_', '.', '[', ']'] || isAlphanumeric c)
    pure name

/-- A group with a name of its own. -/
def openNamed (r : PatternReading) : PatternReader PatternReading := do
  let name ← groupName
  demand (decide (name ∉ r.names))
  pure { r.opened r.mode with names := name :: r.names }

/-- Flags, and a colon if they are those of a new group. -/
def openFlagged (r : PatternReading) : PatternReader PatternReading := do
  let flags := (← remaining).takeWhile fun c => c ≠ ':' ∧ c ≠ ')'
  demand (isFlags flags)
  advance flags.length
  let mode := r.mode.setFlags flags
  if (← next) = ':' then pure (r.opened mode)
  else
    -- flags up to the end of the group around: there have to be some
    demand (!flags.isEmpty)
    pure { r.withPart none with mode := mode }

/-- What follows an opening parenthesis. -/
def openGroup (r : PatternReading) : PatternReader PatternReading := do
  r.mode.gap
  match ← remaining with
  | '?' :: 'P' :: '<' :: _ =>
    advance 3
    r.openNamed
  | '?' :: '<' :: _ =>
    advance 2
    r.openNamed
  | '?' :: _ =>
    advance 1
    r.openFlagged
  | _ => pure (r.opened r.mode)

/-- The end of a group, which is a part of the one around. -/
def closeGroup (r : PatternReading) : PatternReader PatternReading :=
  match r.around with
  | [] => refuse
  | (mode, group) :: around =>
    let closed := { r with mode := mode, group := group, around := around }
    pure (closed.withPart (some (r.group.depth + 1)))

/-- The last part repeated, with a question mark at once behind the operator or without. -/
def repeatLast (r : PatternReading) : PatternReader PatternReading := do
  match r.group.repeated? with
  | none => refuse
  | some group =>
    if (← remaining).head? = some '?' then advance 1
    pure { r with group := group }

/-- The next part, which begins with a character. -/
def step (r : PatternReading) (c : Char) : PatternReader PatternReading := do
  if c = '(' then r.openGroup
  else if c = ')' then r.closeGroup
  else if c = '|' then pure { r with group := r.group.withBar }
  else if c = '[' then
    let depth ← r.mode.brackets
    pure (r.withPart (some depth))
  else if c = '*' ∨ c = '+' ∨ c = '?' then r.repeatLast
  else if c = '\x7b' then refuse
  else
    let sign ← r.mode.sign c
    demand (r.mode.has sign)
    pure (r.withPart (some 0))

/-- Reads up to the end of the text. -/
def readWithin : (bound : List Char) → PatternReading → PatternReader PatternReading
  | [], r => pure r
  | _ :: bound, r => do
    r.mode.gap
    match ← remaining with
    | [] => pure r
    | c :: _ =>
      advance 1
      readWithin bound (← r.step c)

/-- Whether a reading that has come to the end of its text is one of a whole pattern. -/
def isWhole (r : PatternReading) : Bool :=
  r.around.isEmpty && r.group.depth ≤ maxPatternDepth

end PatternReading

/-- Whether a text is a pattern. -/
def isPattern (text : List Char) : Bool :=
  match PatternReading.readWithin text {} text with
  | some (r, _) => r.isWhole
  | none => false

end TraceLoad.Text
