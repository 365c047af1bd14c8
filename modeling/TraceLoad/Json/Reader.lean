import TraceLoad.Json.Scan

/-! # Reading by shape

A reader takes bytes, gives what it read and leaves the bytes behind it, or fails with the first
fault that is met from left to right. Readers know the shape that they want: a value of another
shape is refused where it begins, except that a text, number or word is read to its end first.

* `skip` passes over a value of any shape and any nesting;
* `items`, `element` and `members` read lists and records with a reader for what is inside;
* `value` reads a value of any shape, nested at most `room` levels deep;
* `document` reads a whole text, with blanks around the value and nothing else.
-/

namespace TraceLoad.Json

/-- Reads from the front of a list of bytes. -/
abbrev Reader := StateT (List UInt8) (Except Fault)

/-- How deeply lists and records may be nested in a value that is kept. -/
def maxNesting : Nat := 127

namespace Reader

def fail {α : Type} (f : Fault) : Reader α := fun _ => .error f

/-- The first byte behind blanks, which stays where it is; it has to be there. -/
def lead : Reader UInt8 := fun bytes =>
  match bytes.dropWhile blankByte with
  | [] => .error .truncated
  | b :: rest => .ok (b, b :: rest)

/-- Drops the first byte. -/
def advance : Reader Unit := fun bytes => .ok ((), bytes.tail)

/-- The bytes that are left. Whatever takes a byte at least in every round ends within as many
rounds, so they serve as the bound of such recursions. -/
def remaining : Reader (List UInt8) := fun bytes => .ok (bytes, bytes)

/-- Reads exactly the given bytes. -/
def exactly : List UInt8 → Reader Unit
  | [], bytes => .ok ((), bytes)
  | _ :: _, [] => .error .truncated
  | e :: es, b :: rest => if b = e then exactly es rest else .error .malformed

/-- The words of the format, by their first letter. -/
def word? (b : UInt8) : Option (List UInt8 × Json) :=
  if b = 0x6E then some (ascii "ull", .null)
  else if b = 0x74 then some (ascii "rue", .flag true)
  else if b = 0x66 then some (ascii "alse", .flag false)
  else none

/-- A kept text, from its opening quote on. Its bytes have to encode a text. -/
def quoted : Reader String := do
  advance
  let bytes ← scanText
  match textOfBytes? bytes with
  | some s => pure s
  | none => fail .malformed

/-- A kept number, from its sign or first digit on. -/
def number (first : UInt8) : Reader Number :=
  if first = minus then do
    advance
    scanNumber true
  else scanNumber false

/-- Whether a byte begins a number. -/
def beginsNumber (b : UInt8) : Bool := b == minus || isDigit b

/-- A value that is neither list nor record, beginning with the given byte. -/
def scalar (first : UInt8) : Reader Json :=
  if first = quoteMark then do
    let s ← quoted
    pure (.text s)
  else if beginsNumber first then do
    let n ← number first
    pure (.number n)
  else
    match word? first with
    | some (letters, v) => do
      advance
      exactly letters
      pure v
    | none => fail .malformed

/-- Whether a byte begins a list or a record. -/
def isOpening (b : UInt8) : Bool := b == openList || b == openRecord

/-- Refuses the value that begins with the given byte, because another shape was wanted. -/
def mismatch {α : Type} (first : UInt8) : Reader α :=
  if isOpening first then fail .mismatched
  else do
    let _ ← scalar first
    fail .mismatched

/-! ## Lists -/

/-- Whether one more item follows in a list; `first` says that none has been read yet. The closing
bracket stays where it is. -/
def another (first : Bool) : Reader Bool := do
  let b ← lead
  if b = closeList then pure false
  else if first then pure true
  else if b = comma then
    advance
    let b ← lead
    if b = closeList then fail .malformed else pure true
  else fail .malformed

/-- The next item of a list that has to have one. -/
def element {α : Type} (first : Bool) (item : Reader α) : Reader α := do
  if ← another first then item else fail .mismatched

/-- The end of a list that must have no more items. -/
def endList : Reader Unit := do
  let b ← lead
  if b = closeList then advance else fail .malformed

/-- The items up to the closing bracket, each of which takes a byte at least. -/
def itemsWithin {α : Type} (item : Reader α) : (bound : List UInt8) → Bool → Reader (List α)
  | [], _ => fail .truncated
  | _ :: bound, first => do
    if ← another first then
      let x ← item
      let xs ← itemsWithin item bound false
      pure (x :: xs)
    else
      advance
      pure []

/-- A list, from its opening bracket on. -/
def items {α : Type} (item : Reader α) : Reader (List α) := do
  advance
  itemsWithin item (← remaining) true

/-! ## Records -/

/-- The name of the next field of a record, if there is one, with the colon behind it still to be
read. The closing brace is dropped. -/
def nextName (first : Bool) : Reader (Option String) := do
  let b ← lead
  if b = closeRecord then
    advance
    pure none
  else
    let b ←
      if first then pure b
      else if b = comma then do
        advance
        lead
      else fail .malformed
    if b = quoteMark then some <$> quoted else fail .malformed

/-- The colon between a name and its value. -/
def separator : Reader Unit := do
  let b ← lead
  if b = colon then advance else fail .malformed

/-- The fields up to the closing brace. `field` says how the value of a name is read into what
has been gathered, or that the name is not welcome. -/
def membersWithin {σ : Type} (field : σ → String → Except Fault (Reader σ)) :
    (bound : List UInt8) → Bool → σ → Reader σ
  | [], _, _ => fail .truncated
  | _ :: bound, first, s => do
    match ← nextName first with
    | none => pure s
    | some name =>
      match field s name with
      | .error f => fail f
      | .ok value => do
        separator
        let s ← value
        membersWithin field bound false s

/-- A record, from its opening brace on. -/
def members {σ : Type} (field : σ → String → Except Fault (Reader σ)) (s : σ) : Reader σ := do
  advance
  membersWithin field (← remaining) true s

/-! ## Passing over values -/

/-- The brackets that are open around a place, the innermost first. -/
abbrev Open := List UInt8

/-- Passes over a text from its opening quote on. -/
def passText : Reader Unit := do
  advance
  fun bytes => (skipText bytes).map fun rest => ((), rest)

/-- Passes over a number from its sign or first digit on. -/
def passNumber (first : UInt8) : Reader Unit := do
  if first = minus then advance
  fun bytes => (skipNumber bytes).map fun rest => ((), rest)

/-- Passes over the name of a field and the colon behind it. -/
def passName : Reader Unit := do
  let b ← lead
  if b = quoteMark then
    passText
    separator
  else fail .malformed

/-- Behind a finished value: closes as many brackets as close here, and says which are open then.
With none left, all is passed; otherwise another value follows. -/
def passClosing : Open → Reader Open
  | [] => pure []
  | bracket :: outer => do
    let b ← lead
    if b = comma then
      advance
      if bracket = openRecord then passName
      pure (bracket :: outer)
    else if (bracket = openList ∧ b = closeList) ∨ (bracket = openRecord ∧ b = closeRecord) then
      advance
      passClosing outer
    else fail .malformed

/-- Passes over one value inside the open brackets, and on until all of them are closed. -/
def passWithin : (bound : List UInt8) → Open → Reader Unit
  | [], _ => fail .truncated
  | _ :: bound, outer => do
    let b ← lead
    let opened ←
      if isOpening b then do
        advance
        let c ← lead
        if (b = openList ∧ c = closeList) ∨ (b = openRecord ∧ c = closeRecord) then
          advance
          passClosing outer
        else
          if b = openRecord then passName
          pure (b :: outer)
      else do
        if b = quoteMark then passText
        else if beginsNumber b then passNumber b
        else
          match word? b with
          | some (letters, _) => do
            advance
            exactly letters
          | none => fail .malformed
        passClosing outer
    if opened.isEmpty then pure () else passWithin bound opened

/-- Passes over one value of any shape. -/
def skip : Reader Unit := do
  passWithin (← remaining) []

/-! ## Values of any shape -/

/-- A value nested at most `room` levels deep. -/
def value : (room : Nat) → Reader Json
  | 0 => do
    let b ← lead
    if isOpening b then fail .malformed else scalar b
  | room + 1 => do
    let b ← lead
    if b = openList then
      let xs ← items (value room)
      pure (.list xs)
    else if b = openRecord then
      let fs : List (String × Json) ←
        members (fun fs name => .ok ((fun v => (name, v) :: fs) <$> value room)) []
      pure (.record fs.reverse)
    else scalar b

/-! ## Particular shapes -/

/-- A text. -/
def text : Reader String := do
  let b ← lead
  if b = quoteMark then quoted else mismatch b

/-- A natural number of at most 64 bits. -/
def natural : Reader UInt64 := do
  let b ← lead
  if beginsNumber b then
    match ← number b with
    | .whole n => if 0 ≤ n then pure (UInt64.ofNat n.toNat) else fail .mismatched
    | .real _ => fail .mismatched
  else mismatch b

/-- A value or `null`. -/
def optional {α : Type} (r : Reader α) : Reader (Option α) := do
  let b ← lead
  if b = 0x6E then
    advance
    exactly (ascii "ull")
    pure none
  else some <$> r

/-- A list of anything, inside `room` levels. -/
def listOf {α : Type} (room : Nat) (item : Reader α) : Reader (List α) := do
  let b ← lead
  if b = openList then
    if room = 0 then fail .malformed else items item
  else mismatch b

/-- A record read field by field, inside `room` levels. -/
def recordOf {σ : Type} (room : Nat) (field : σ → String → Except Fault (Reader σ)) (s : σ) :
    Reader σ := do
  let b ← lead
  if b = openRecord then
    if room = 0 then fail .malformed else members field s
  else mismatch b

/-- A record, or a list of its fields' values in their order, inside `room` levels. -/
def structureOf {α : Type} (room : Nat) (asList asRecord : Reader α) : Reader α := do
  let b ← lead
  if b = openList ∨ b = openRecord then
    if room = 0 then fail .malformed
    else if b = openList then do
      advance
      let x ← asList
      endList
      pure x
    else asRecord
  else mismatch b

/-- Demands what a record has to have. -/
def require {α : Type} : Option α → Reader α
  | some x => pure x
  | none => fail .mismatched

/-- A value that may be given once: `set` keeps the first, a second one is refused. -/
def once {α σ : Type} (present : Option α) (r : Reader α) (set : α → σ) : Except Fault (Reader σ) :=
  match present with
  | some _ => .error .mismatched
  | none => .ok (set <$> r)

end Reader

/-- Reads a whole text: one value with blanks around it. -/
def document {α : Type} (r : Reader α) (bytes : List UInt8) : Except Fault α :=
  match r bytes with
  | .error f => .error f
  | .ok (x, rest) => if rest.dropWhile blankByte = [] then .ok x else .error .malformed

/-- Reads a value of any shape. -/
def read (bytes : List UInt8) : Except Fault Json := document (Reader.value maxNesting) bytes

end TraceLoad.Json
