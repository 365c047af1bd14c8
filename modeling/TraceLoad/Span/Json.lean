import TraceLoad.Json.Reader
import TraceLoad.Span

/-! # Spans as text

A finished span is written as one record on one line. This module writes and reads spans and their
parts: identifiers are quoted hexadecimal digits, timestamps are natural numbers, an attribute's
value is a text, number or flag, and a span is a record of eight fields in a fixed order.
-/

namespace TraceLoad

open Json (Reader)

namespace Ident

variable {n : Nat}

def write (i : Ident n) : List UInt8 := Json.writeText i.toHex

def reader (n : Nat) : Reader (Ident n) := do
  let s ← Reader.text
  match Ident.ofHex s with
  | .ok i => pure i
  | .error _ => Reader.fail .mismatched

end Ident

namespace Timestamp

def write (t : Timestamp) : List UInt8 := Json.writeNat t.nanos.toNat

def reader : Reader Timestamp := Timestamp.mk <$> Reader.natural

end Timestamp

namespace SpanKind

def write (k : SpanKind) : List UInt8 := Json.writeText k.name

/-- The kind that a name read as a text stands for. -/
def ofText (s : String) : Reader SpanKind :=
  match ofName? s with
  | some k => pure k
  | none => Reader.fail .mismatched

/-- Only the word `null`, as the value behind a kind's name. -/
def emptyValue : Reader Unit := do
  let b ← Reader.lead
  if b = 0x6E then
    Reader.advance
    Reader.exactly (Json.ascii "ull")
  else Reader.mismatch b

/-- A kind is read from its name alone, or from a record with its name and `null`. -/
def reader : Reader SpanKind := do
  let b ← Reader.lead
  if b = Json.openRecord then
    Reader.advance
    match ← Reader.nextName true with
    | none => Reader.fail .malformed
    | some name =>
      let k ← ofText name
      Reader.separator
      emptyValue
      let b ← Reader.lead
      if b = Json.closeRecord then
        Reader.advance
        pure k
      else Reader.fail .malformed
  else if b = Json.quoteMark then Reader.quoted >>= ofText
  else Reader.fail .malformed

end SpanKind

namespace AttributeValue

def write : AttributeValue → List UInt8
  | text s => Json.writeText s
  | int n => Json.writeInt n.toInt
  | real x => Json.writeReal x
  | flag true => Json.ascii "true"
  | flag false => Json.ascii "false"

/-- The attribute value of a value, which must be a text, number or flag. A whole number outside
the 64-bit integers counts as real. -/
def ofJson? : Json → Option AttributeValue
  | .text s => some (text s)
  | .flag b => some (flag b)
  | .number (.whole n) =>
    if Int64.minValue.toInt ≤ n ∧ n ≤ Int64.maxValue.toInt then some (int (Int64.ofInt n))
    else some (real (.ofFloat (UInt64.ofNat n.toNat).toFloat))
  | .number (.real x) => some (real x)
  | .null | .list _ | .record _ => none

/-- The value is read in full before its shape is looked at. -/
def reader (room : Nat) : Reader AttributeValue := do
  let v ← Reader.value room
  match ofJson? v with
  | some a => pure a
  | none => Reader.fail .mismatched

end AttributeValue

namespace Attributes

def write (a : Attributes) : List UInt8 :=
  Json.writeRecord (a.entries.map fun e => (e.1, e.2.write))

def reader (room : Nat) : Reader Attributes :=
  Reader.recordOf room
    (fun a name => .ok ((fun v => a.insert name v) <$> AttributeValue.reader (room - 1))) empty

end Attributes

namespace Span

/-- What an optional part is written as. -/
def writeOptional {α : Type} (write : α → List UInt8) : Option α → List UInt8
  | none => Json.ascii "null"
  | some x => write x

/-- The span's record. -/
def write (s : Span) : List UInt8 :=
  Json.writeRecord [
    ("trace_id", s.traceId.write),
    ("span_id", s.spanId.write),
    ("parent_span_id", writeOptional Ident.write s.parentSpanId),
    ("name", Json.writeText s.name),
    ("service_name", Json.writeText s.service),
    ("start_time", s.startTime.write),
    ("end_time", writeOptional Timestamp.write s.endTime),
    ("attributes", s.attributes.write)]

/-- The fields of a span that have been read so far. -/
structure Fields where
  traceId : Option TraceId := none
  spanId : Option SpanId := none
  parentSpanId : Option (Option SpanId) := none
  name : Option String := none
  service : Option String := none
  startTime : Option Timestamp := none
  endTime : Option (Option Timestamp) := none
  attributes : Option Attributes := none

namespace Fields

/-- How the value of a field is read. Unknown fields are passed over; a known one must not come
twice. -/
def field (room : Nat) (f : Fields) (name : String) : Except Json.Fault (Reader Fields) :=
  if name = "trace_id" then
    Reader.once f.traceId (Ident.reader 16) fun x => { f with traceId := some x }
  else if name = "span_id" then
    Reader.once f.spanId (Ident.reader 8) fun x => { f with spanId := some x }
  else if name = "parent_span_id" then
    Reader.once f.parentSpanId (Reader.optional (Ident.reader 8))
      fun x => { f with parentSpanId := some x }
  else if name = "name" then
    Reader.once f.name Reader.text fun x => { f with name := some x }
  else if name = "service_name" then
    Reader.once f.service Reader.text fun x => { f with service := some x }
  else if name = "start_time" then
    Reader.once f.startTime Timestamp.reader fun x => { f with startTime := some x }
  else if name = "end_time" then
    Reader.once f.endTime (Reader.optional Timestamp.reader) fun x => { f with endTime := some x }
  else if name = "attributes" then
    Reader.once f.attributes (Attributes.reader room) fun x => { f with attributes := some x }
  else .ok ((fun _ => f) <$> Reader.skip)

/-- The span of all fields; parent and end may be missing. -/
def toSpan? (f : Fields) : Option Span := do
  pure {
    traceId := ← f.traceId
    spanId := ← f.spanId
    parentSpanId := f.parentSpanId.getD none
    name := ← f.name
    service := ← f.service
    startTime := ← f.startTime
    endTime := f.endTime.getD none
    attributes := ← f.attributes }

end Fields

/-- The values of a span's fields in their order, as the items of a list. -/
def listReader (room : Nat) : Reader Span := do
  let traceId ← Reader.element true (Ident.reader 16)
  let spanId ← Reader.element false (Ident.reader 8)
  let parentSpanId ← Reader.element false (Reader.optional (Ident.reader 8))
  let name ← Reader.element false Reader.text
  let service ← Reader.element false Reader.text
  let startTime ← Reader.element false Timestamp.reader
  let endTime ← Reader.element false (Reader.optional Timestamp.reader)
  let attributes ← Reader.element false (Attributes.reader room)
  pure ⟨traceId, spanId, parentSpanId, name, service, startTime, endTime, attributes⟩

def recordReader (room : Nat) : Reader Span := do
  let f ← Reader.members (Fields.field room) {}
  Reader.require f.toSpan?

/-- A span inside `room` levels. -/
def reader (room : Nat) : Reader Span :=
  Reader.structureOf room (listReader (room - 1)) (recordReader (room - 1))

/-- Reads a text that holds one span. -/
def read (bytes : List UInt8) : Except Json.Fault Span :=
  Json.document (reader Json.maxNesting) bytes

end Span

end TraceLoad
