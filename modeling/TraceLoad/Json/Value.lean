import TraceLoad.Decimal.Shortest

/-! # Values of the data format, and how they are written

Spans leave the program, and captured traces enter it, in a text format of nested lists and
records. A text of the format is a list of bytes. `write` is the compact form: no blanks, the
fields of a record in their order, and in a quoted text a mark in front of the quote, the
backslash and the control characters only; every other byte stands for itself.
-/

namespace TraceLoad

namespace Json

/-- A number: whole, or with a fraction or exponent. -/
inductive Number where
  | whole (n : Int)
  | real (x : Binary64)
deriving DecidableEq

end Json

/-- A value of the data format. -/
inductive Json where
  | null
  | flag (b : Bool)
  | number (n : Json.Number)
  | text (s : String)
  | list (items : List Json)
  | record (fields : List (String × Json))

namespace Json

/-- The bytes of an ASCII text. -/
def ascii (s : String) : List UInt8 := s.toList.map fun c => UInt8.ofNat c.toNat

def blankByte (b : UInt8) : Bool := b == 0x20 || b == 0x09 || b == 0x0A || b == 0x0D

def quoteMark : UInt8 := 0x22
def backslash : UInt8 := 0x5C
def comma : UInt8 := 0x2C
def colon : UInt8 := 0x3A
def openList : UInt8 := 0x5B
def closeList : UInt8 := 0x5D
def openRecord : UInt8 := 0x7B
def closeRecord : UInt8 := 0x7D

/-- The lower-case hexadecimal digit of a value below sixteen. -/
def hexByte (n : UInt8) : UInt8 := if n < 10 then 0x30 + n else 0x57 + n

/-- How a byte is written between quotes. -/
def escapeByte (b : UInt8) : List UInt8 :=
  if b = quoteMark then [backslash, quoteMark]
  else if b = backslash then [backslash, backslash]
  else if b = 0x08 then [backslash, 0x62]
  else if b = 0x0C then [backslash, 0x66]
  else if b = 0x0A then [backslash, 0x6E]
  else if b = 0x0D then [backslash, 0x72]
  else if b = 0x09 then [backslash, 0x74]
  else if b < 0x20 then [backslash, 0x75, 0x30, 0x30, hexByte (b / 16), hexByte (b % 16)]
  else [b]

/-- A text between quotes. -/
def writeText (s : String) : List UInt8 :=
  quoteMark :: (s.toUTF8.data.toList.flatMap escapeByte ++ [quoteMark])

/-- The digits of a natural number. -/
def writeNat (n : Nat) : List UInt8 := (Nat.toDigits 10 n).map fun c => UInt8.ofNat c.toNat

def writeInt (n : Int) : List UInt8 :=
  if n < 0 then 0x2D :: writeNat n.natAbs else writeNat n.natAbs

/-- Reals are written with the fewest digits that identify them, positionally from 0.00001 up to
10^16 and otherwise with a signed exponent. -/
def realLayout : Decimal.Layout where
  plainFrom := -5
  plainBelow := 16
  plusSign := true
  tie := .toEven

/-- A real number; the format has no infinity and no NaN, and writes `null` for them. -/
def writeReal (x : Binary64) : List UInt8 :=
  if x.isFinite then (realLayout.writeBinary x).map fun c => UInt8.ofNat c.toNat
  else ascii "null"

def Number.write : Number → List UInt8
  | .whole n => writeInt n
  | .real x => writeReal x

/-- Written items with a comma between any two. -/
def joinItems : List (List UInt8) → List UInt8
  | [] => []
  | [item] => item
  | item :: rest => item ++ comma :: joinItems rest

/-- A list of written items. -/
def writeList (items : List (List UInt8)) : List UInt8 :=
  openList :: (joinItems items ++ [closeList])

/-- A name and its written value. -/
def writeField (name : String) (value : List UInt8) : List UInt8 :=
  writeText name ++ colon :: value

/-- A record of written fields. -/
def writeRecord (fields : List (String × List UInt8)) : List UInt8 :=
  openRecord :: (joinItems (fields.map fun f => writeField f.1 f.2) ++ [closeRecord])

mutual

/-- A value in compact form. -/
def write : Json → List UInt8
  | .null => ascii "null"
  | .flag true => ascii "true"
  | .flag false => ascii "false"
  | .number n => n.write
  | .text s => writeText s
  | .list items => writeList (writeAll items)
  | .record fields => writeRecord (writeFields fields)

/-- Each value of a list in compact form. -/
def writeAll : List Json → List (List UInt8)
  | [] => []
  | v :: vs => v.write :: writeAll vs

/-- Each field of a record with its value in compact form. -/
def writeFields : List (String × Json) → List (String × List UInt8)
  | [] => []
  | (k, v) :: fs => (k, v.write) :: writeFields fs

end

/-- The text that bytes encode, if they encode one. -/
def textOfBytes? (bytes : List UInt8) : Option String := String.fromUTF8? ⟨bytes.toArray⟩

end Json

end TraceLoad
