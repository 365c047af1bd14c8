import TraceLoad.Decimal.Real
import TraceLoad.Notice
import TraceLoad.Text.Alphanumeric
import TraceLoad.Text.Blank
import TraceLoad.Text.Pattern

/-! # Filters

Which notices are shown. A filter is a list of rules with commas between them:

    info                   every notice up to a level
    store::disk=warn       those of a part of the program, up to a level
    store::disk            the same, up to the last level
    store[{size}]=warn     those of them that have a field

A rule can also name a stretch of work (`[connect]`) or demand the value of a field
(`[{size=1}]`). Both are about the work that is going on around a notice. The program marks no
stretches of work, so such rules are read but are about no notice.

* `NoticeRule.ofText?` reads a rule.
* `NoticeFilter.rule?` is the rule that decides on a notice: the one that says most about it.
-/

namespace TraceLoad

/-- A field that a rule asks for, and the pattern of its value if it asks for that too. -/
structure FieldDemand where
  name : String
  value : Option String
deriving DecidableEq

/-- One rule of a filter. -/
structure NoticeRule where
  /-- what the target of a notice begins with -/
  target : String := ""
  /-- the stretch of work around a notice -/
  stretch : Option String := none
  field : Option FieldDemand := none
  /-- the rank of the last level that is shown; zero shows none -/
  rank : Nat := Level.trace.rank
deriving DecidableEq

/-- A demand is a name, or a name and a pattern with `=` between them; more is not looked at. A
number is a pattern also where its sign would not be one. -/
def FieldDemand.ofText? (text : List Char) : Option FieldDemand :=
  let name := String.ofList (text.takeWhile (· ≠ '='))
  match text.dropWhile (· ≠ '=') with
  | [] => if text.isEmpty then none else some ⟨name, none⟩
  | _ :: rest =>
    let value := rest.takeWhile (· ≠ '=')
    if (Decimal.real? value).isSome ∨ Text.isPattern value then
      some ⟨name, some (String.ofList value)⟩
    else none

namespace NoticeRule

/-- The rank that a level's name or number stands for; `off` and zero show nothing. -/
def rankOfText? (text : List Char) : Option Nat :=
  match Decimal.word? text with
  | some n => if n.toNat ≤ Level.trace.rank then some n.toNat else none
  | none =>
    match String.ofList (text.map Char.toLower) with
    | "off" => some 0
    | "error" => some Level.error.rank
    | "warn" => some Level.warn.rank
    | "info" => some Level.info.rank
    | "debug" => some Level.debug.rank
    | "trace" => some Level.trace.rank
    | _ => none

/-- Whether a rule without brackets in front may begin with a character. -/
def isOpening (c : Char) : Bool := c ∈ ['-', ':', '_'] || Text.isAlphanumeric c

/-- A rule with the level behind its `=`; every level is shown if none stands there. -/
def withLevel? (r : NoticeRule) (text : List Char) : Option NoticeRule :=
  if text.isEmpty then some r else (rankOfText? text).map fun rank => { r with rank }

/-- The characters of a text from one place to another. -/
def part (text : List Char) (first behind : Nat) : List Char := (text.take behind).drop first

/-- What stands behind the brackets of a rule, at a place: nothing, or a level. -/
def behindBrackets? (r : NoticeRule) (text : List Char) (place : Nat) :
    List Char → Option NoticeRule
  | [] => some r
  | '=' :: _ => r.withLevel? (text.drop (place + 1))
  | _ => none

/-- What stands in the brackets of a rule, from a place on: a stretch of work, and a field in
braces. Brackets and braces have to be closed. -/
def inBrackets? (r : NoticeRule) (text : List Char) (place : Nat) (inside : List Char) :
    Option NoticeRule :=
  let stretch := inside.takeWhile fun c => c ≠ ']' ∧ c ≠ '\x7b'
  let behind := place + stretch.length
  let named := String.ofList (part text place behind)
  match inside.drop stretch.length with
  | [] => none
  | ']' :: rest => { r with stretch := some named }.behindBrackets? text (behind + 1) rest
  | _ :: rest =>
    let r := if named.isEmpty then r else { r with stretch := some named }
    let field := rest.takeWhile (· ≠ '\x7d')
    let last := behind + 1 + field.length
    match rest.drop field.length with
    | _ :: ']' :: rest => do
      let demand ← FieldDemand.ofText? (part text (behind + 1) last)
      { r with field := some demand }.behindBrackets? text (last + 2) rest
    | _ => none

/-- Reads a rule. Blanks at its ends do not count when places are counted, but they are there when
the text at these places is taken, so that a rule behind a blank is read one place off. -/
def ofText? (s : String) : Option NoticeRule :=
  let text := s.toList
  let counted := Text.trim text
  let front := counted.takeWhile fun c => c ≠ '=' ∧ c ≠ '['
  match counted with
  | [] => none
  | '[' :: rest => inBrackets? {} text 1 rest
  | c :: _ =>
    if isOpening c then
      let r : NoticeRule := { target := String.ofList (text.take front.length) }
      match counted.drop front.length with
      | [] => some (match rankOfText? text with
        | some rank => { rank }
        | none => { target := s })
      | '=' :: _ => r.withLevel? (text.drop (front.length + 1))
      | _ :: rest => r.inBrackets? text (front.length + 1) rest
    else none

/-- Whether a rule is about a notice. -/
def isAbout (r : NoticeRule) (n : Notice) : Bool :=
  r.stretch.isNone && r.target.toList.isPrefixOf n.target.toList &&
    match r.field with
    | none => true
    | some demand => demand.value.isNone && demand.name ∈ n.fieldNames

/-- Whether a rule that is about a notice yields to another one that is: the longer target says
more, then the demand of a field, and of two such demands that of the later name. -/
def yieldsTo (r other : NoticeRule) : Bool :=
  r.target.length < other.target.length ||
    r.target.length = other.target.length &&
      match r.field, other.field with
      | none, _ => true
      | some _, none => false
      | some a, some b => decide (a.name ≤ b.name)

end NoticeRule

/-- A filter of notices. -/
structure NoticeFilter where
  rules : List NoticeRule
deriving DecidableEq

namespace NoticeFilter

/-- Everything up to informative notices. -/
def default : NoticeFilter := ⟨[{ rank := Level.info.rank }]⟩

/-- Reads a filter. A text without any rule shows errors only, and one with a faulty rule is not
followed at all. -/
def ofText (s : String) : NoticeFilter :=
  match ((s.splitOn ",").filter (· ≠ "")).mapM NoticeRule.ofText? with
  | none => default
  | some [] => ⟨[{ rank := Level.error.rank }]⟩
  | some rules => ⟨rules⟩

/-- The rule that decides on a notice; of rules that say the same about it the last. -/
def rule? (f : NoticeFilter) (n : Notice) : Option NoticeRule :=
  (f.rules.filter (·.isAbout n)).foldl
    (fun best r =>
      match best with
      | none => some r
      | some b => if b.yieldsTo r then some r else some b)
    none

/-- Whether a notice is shown. -/
def shows (f : NoticeFilter) (n : Notice) : Bool :=
  match f.rule? n with
  | some r => n.level.rank ≤ r.rank
  | none => false

end NoticeFilter

end TraceLoad
