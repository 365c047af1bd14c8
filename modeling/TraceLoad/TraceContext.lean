import TraceLoad.Ident

/-! # Trace contexts and the `traceparent` header

A context says where in which trace a span stands. It crosses a service boundary as a header of
four fields joined by dashes: version `00`, trace identifier, span identifier, flags. The header
does not carry the parent, so a context that was read has none.
-/

namespace TraceLoad

/-- A span's place in its trace. -/
@[ext] structure TraceContext where
  traceId : TraceId
  spanId : SpanId
  parentSpanId : Option SpanId
  flags : UInt8
deriving DecidableEq

namespace TraceContext

variable {σ : Type} [WordSource σ]

/-- The context of a new trace, marked as sampled: draws the trace identifier, then the span
identifier. -/
def newRoot (s : σ) : TraceContext × σ :=
  let (traceId, s) := TraceId.draw s
  let (spanId, s) := SpanId.draw s
  (⟨traceId, spanId, none, 1⟩, s)

/-- The context of a child span: same trace and flags, a fresh span identifier. -/
def child (c : TraceContext) (s : σ) : TraceContext × σ :=
  let (spanId, s) := SpanId.draw s
  (⟨c.traceId, spanId, some c.spanId, c.flags⟩, s)

/-- The context without its parent: what a header preserves. -/
def orphan (c : TraceContext) : TraceContext := { c with parentSpanId := none }

/-- The header that carries a context across a service boundary. -/
def toTraceparent (c : TraceContext) : String :=
  "00-" ++ c.traceId.toHex ++ "-" ++ c.spanId.toHex ++ "-" ++ String.ofList (Hex.ofByte c.flags)

/-- The pieces between the dashes of a text, empty pieces included. -/
def pieces : List Char → List (List Char)
  | [] => [[]]
  | c :: cs =>
    if c = '-' then [] :: pieces cs
    else
      match pieces cs with
      | [] => [[c]]
      | p :: ps => (c :: p) :: ps

/-- The flags: two hexadecimal digits, or a plus sign and one digit. -/
def flags? : List Char → Option UInt8
  | ['+', lo] => (Hex.value? lo).map UInt8.ofNat
  | [hi, lo] => do
    let h ← Hex.value? hi
    let l ← Hex.value? lo
    pure (UInt8.ofNat (16 * h + l))
  | _ => none

/-- Reads the flags field; as for identifiers, the length in bytes is looked at first. -/
def readFlags (field : List Char) : Except ContextError UInt8 :=
  if (String.ofList field).utf8ByteSize ≠ 2 then
    .error .invalidLength
  else
    match flags? field with
    | some flags => .ok flags
    | none => .error .invalidHex

/-- Reads a header. The fields are checked from left to right, and the first fault is reported. -/
def ofTraceparent (header : String) : Except ContextError TraceContext :=
  match pieces header.toList with
  | [version, trace, span, flags] => do
    if version ≠ ['0', '0'] then throw .unsupportedVersion
    let traceId ← Ident.ofHex (String.ofList trace)
    let spanId ← Ident.ofHex (String.ofList span)
    let flags ← readFlags flags
    pure ⟨traceId, spanId, none, flags⟩
  | _ => .error .invalidFormat

end TraceContext

end TraceLoad
