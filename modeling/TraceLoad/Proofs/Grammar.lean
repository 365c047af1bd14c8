import Mathlib.Data.List.Forall2
import TraceLoad.Json.Reader

/-! # The grammar of the data format

Which bytes are a value of the format, and which are a given text, as relations in which no reader
occurs. Blanks may stand around every part of a list or record (`Padded`), what stands between
brackets is empty or goes on from comma to comma (`Between`), and one character can be written in
several ways (`SpellsChar`). Of a text that is kept the characters are told (`IsTextOf`); for one
that is passed over the form is enough (`IsText`).
-/

namespace TraceLoad.Json

/-! ## Gaps and brackets -/

/-- Blanks only, or nothing at all. -/
def IsGap (bytes : List UInt8) : Prop := ∀ b ∈ bytes, blankByte b = true

theorem isGap_nil : IsGap [] := nofun

/-- Bytes with gaps around them. -/
structure Padded where
  before : List UInt8
  inner : List UInt8
  after : List UInt8
  blankBefore : IsGap before
  blankAfter : IsGap after

def Padded.bytes (p : Padded) : List UInt8 := p.before ++ (p.inner ++ p.after)

/-- Bytes without gaps. -/
def Padded.tight (bytes : List UInt8) : Padded where
  before := []
  inner := bytes
  after := []
  blankBefore := isGap_nil
  blankAfter := isGap_nil

/-- What stands between two brackets: parts with a comma between any two, or a gap. -/
inductive Between : List (List UInt8) → List UInt8 → Prop where
  | nothing {gap : List UInt8} (blank : IsGap gap) : Between [] gap
  | parts {part : List UInt8} {parts : List (List UInt8)} :
      Between (part :: parts) (joinItems (part :: parts))

/-- Parts between brackets, and the brackets. -/
def Bracketed (opening closing : UInt8) (parts : List (List UInt8)) (bytes : List UInt8) : Prop :=
  ∃ inside, Between parts inside ∧ bytes = opening :: (inside ++ [closing])

/-- A field of a record: its name, a colon and its value. -/
structure Entry where
  label : Padded
  value : Padded

def Entry.bytes (e : Entry) : List UInt8 := e.label.bytes ++ colon :: e.value.bytes

/-- The bytes of a list. -/
def IsList (items : List Padded) (bytes : List UInt8) : Prop :=
  Bracketed openList closeList (items.map (·.bytes)) bytes

/-- The bytes of a record. -/
def IsRecord (entries : List Entry) (bytes : List UInt8) : Prop :=
  Bracketed openRecord closeRecord (entries.map (·.bytes)) bytes

/-! ## Texts -/

/-- The letters behind a backslash, and the codes of the characters that they stand for. -/
def escapeLetters : List (UInt8 × Nat) := [
  (0x22, 0x22), (0x5C, 0x5C), (0x2F, 0x2F), (0x62, 0x08), (0x66, 0x0C), (0x6E, 0x0A), (0x72, 0x0D),
  (0x74, 0x09)]

/-- The letters are known to be ones, and none of them is the one in front of four digits. -/
theorem of_mem_escapeLetters : ∀ l ∈ escapeLetters,
    l.1 ≠ unitLetter ∧ escapedByte? l.1 = some (UInt8.ofNat l.2) ∧ l.2 < 0x80 := by
  decide

/-- A code unit as an escape of four digits. -/
inductive IsUnit (n : Nat) : List UInt8 → Prop where
  | digits {a b c d : UInt8} (value : hexValue4? a b c d = some n) :
      IsUnit n [backslash, unitLetter, a, b, c, d]

/-- The ways to write a character: as itself, by a letter, by its code, or by the two halves of a
code that has more than four digits. -/
inductive SpellsChar (c : Char) : List UInt8 → Prop where
  | plain (visible : 0x20 ≤ c.toNat) (quote : c.toNat ≠ 0x22) (mark : c.toNat ≠ 0x5C) :
      SpellsChar c (String.utf8EncodeChar c)
  | letter {b : UInt8} (letter : (b, c.toNat) ∈ escapeLetters) : SpellsChar c [backslash, b]
  | unit {bytes : List UInt8} (unit : IsUnit c.toNat bytes) : SpellsChar c bytes
  | halves {high low : Nat} {first second : List UInt8} (ahead : IsUnit (0xD800 + high) first)
      (behind : IsUnit (0xDC00 + low) second) (high_lt : high < 0x400) (low_lt : low < 0x400)
      (code : c.toNat = 0x10000 + high * 0x400 + low) : SpellsChar c (first ++ second)

/-- The bytes of a text between quotes, whichever way its characters are written. -/
def IsTextOf (s : String) (bytes : List UInt8) : Prop :=
  ∃ pieces, List.Forall₂ SpellsChar s.toList pieces ∧
    bytes = quoteMark :: (pieces.flatten ++ [quoteMark])

/-- A piece of some text. Halves need not come in pairs, and other bytes need not encode
characters. -/
inductive IsPiece : List UInt8 → Prop where
  | plain {b : UInt8} (visible : ¬ b < 0x20) (quote : b ≠ quoteMark) (mark : b ≠ backslash) :
      IsPiece [b]
  | letter {b : UInt8} {n : Nat} (letter : (b, n) ∈ escapeLetters) : IsPiece [backslash, b]
  | unit {n : Nat} {bytes : List UInt8} (unit : IsUnit n bytes) : IsPiece bytes

/-- The bytes of some text between quotes. -/
def IsText (bytes : List UInt8) : Prop :=
  ∃ pieces : List (List UInt8), (∀ p ∈ pieces, IsPiece p) ∧
    bytes = quoteMark :: (pieces.flatten ++ [quoteMark])

/-! ## Numbers -/

/-- One digit or more. -/
def AreDigits (bytes : List UInt8) : Prop := bytes ≠ [] ∧ ∀ b ∈ bytes, isDigit b = true

/-- The digits in front of the point, without a zero too many. -/
inductive IsWholePart : List UInt8 → Prop where
  | zero : IsWholePart [0x30]
  | digits {bytes : List UInt8} (digits : AreDigits bytes) (first : bytes.head? ≠ some 0x30) :
      IsWholePart bytes

inductive IsFraction : List UInt8 → Prop where
  | none : IsFraction []
  | places {bytes : List UInt8} (digits : AreDigits bytes) : IsFraction (point :: bytes)

inductive IsExponent : List UInt8 → Prop where
  | none : IsExponent []
  | unsigned {e : UInt8} {bytes : List UInt8} (letter : isExponentLetter e = true)
      (digits : AreDigits bytes) : IsExponent (e :: bytes)
  | signed {e b : UInt8} {bytes : List UInt8} (letter : isExponentLetter e = true)
      (sign : b = minus ∨ b = plus) (digits : AreDigits bytes) : IsExponent (e :: b :: bytes)

/-- A number from its first digit on. -/
def IsUnsigned (bytes : List UInt8) : Prop :=
  ∃ whole fraction exponent, IsWholePart whole ∧ IsFraction fraction ∧ IsExponent exponent ∧
    bytes = whole ++ (fraction ++ exponent)

inductive IsNumber : List UInt8 → Prop where
  | positive {bytes : List UInt8} (unsigned : IsUnsigned bytes) : IsNumber bytes
  | negative {bytes : List UInt8} (unsigned : IsUnsigned bytes) : IsNumber (minus :: bytes)

/-! ## Values -/

/-- The bytes of some value, nested to any depth. -/
inductive IsValue : List UInt8 → Prop where
  | word {bytes : List UInt8} (word : bytes ∈ [ascii "null", ascii "true", ascii "false"]) :
      IsValue bytes
  | number {bytes : List UInt8} (number : IsNumber bytes) : IsValue bytes
  | text {bytes : List UInt8} (text : IsText bytes) : IsValue bytes
  | list {items : List Padded} {bytes : List UInt8} (list : IsList items bytes)
      (values : ∀ i ∈ items, IsValue i.inner) : IsValue bytes
  | record {entries : List Entry} {bytes : List UInt8} (record : IsRecord entries bytes)
      (labels : ∀ e ∈ entries, IsText e.label.inner)
      (values : ∀ e ∈ entries, IsValue e.value.inner) : IsValue bytes

/-! ## Values of a given shape -/

/-- A field whose name is kept. -/
structure Field extends Entry where
  name : String
  spelled : IsTextOf name label.inner

/-- A list of given things, each written in some way. -/
def IsListOf {α : Type} (Written : α → List UInt8 → Prop) (xs : List α) (bytes : List UInt8) :
    Prop :=
  ∃ items, IsList items bytes ∧ List.Forall₂ (fun x i => Written x i.inner) xs items

/-- A record that binds given names to given things, in the order in which it stands there. -/
def IsTableOf {α : Type} (Written : α → List UInt8 → Prop) (table : List (String × α))
    (bytes : List UInt8) : Prop :=
  ∃ fs : List Field, IsRecord (fs.map (·.toEntry)) bytes ∧
    List.Forall₂ (fun e f => f.name = e.1 ∧ Written e.2 f.value.inner) table fs

/-- The fields that a record may have, with what their values are. -/
abbrev Layout := List (String × (List UInt8 → Prop))

def Layout.names (layout : Layout) : List String := layout.map (·.1)

/-- A record that has some fields of a layout, each of them once, and whatever else under other
names, all in any order. -/
def IsRecordOf (layout : Layout) (present : List String) (bytes : List UInt8) : Prop :=
  ∃ fs : List Field, IsRecord (fs.map (·.toEntry)) bytes ∧
    ((fs.map (·.name)).filter (· ∈ layout.names)).Perm present ∧
    (∀ f ∈ fs, ∀ Holds, (f.name, Holds) ∈ layout → Holds f.value.inner) ∧
    ∀ f ∈ fs, f.name ∉ layout.names → IsValue f.value.inner

end TraceLoad.Json
