import TraceLoad.Hex
import TraceLoad.Words

/-! # Trace and span identifiers

An identifier is a fixed number of bytes: sixteen for a trace, eight for a span. Outside the
program it is twice as many hexadecimal digits; `Ident.ofHex` says which of two things is wrong
with a text that is no identifier.
-/

namespace TraceLoad

/-- What can be wrong with an identifier or with a `traceparent` header. -/
inductive ContextError where
  | invalidFormat
  | unsupportedVersion
  | invalidHex
  | invalidLength
deriving DecidableEq, Repr

namespace ContextError

def message : ContextError → String
  | invalidFormat => "invalid traceparent format"
  | unsupportedVersion => "unsupported trace context version"
  | invalidHex => "invalid hex encoding"
  | invalidLength => "invalid length"

end ContextError

/-- An identifier of `n` bytes. -/
@[ext] structure Ident (n : Nat) where
  bytes : List UInt8
  length_bytes : bytes.length = n
deriving DecidableEq

/-- Identifies a trace. -/
abbrev TraceId := Ident 16

/-- Identifies a span within its trace. -/
abbrev SpanId := Ident 8

namespace Ident

variable {n : Nat}

/-- The identifier in lower-case digits. -/
def toHex (i : Ident n) : String := String.ofList (Hex.encode i.bytes)

/-- Reads an identifier. The length counts bytes of the text and is looked at first. -/
def ofHex (text : String) : Except ContextError (Ident n) :=
  if text.utf8ByteSize ≠ 2 * n then
    .error .invalidLength
  else
    match Hex.decode text.toList with
    | none => .error .invalidHex
    | some bytes =>
      if h : bytes.length = n then .ok ⟨bytes, h⟩ else .error .invalidLength

/-- Draws an identifier of `k` words. -/
def draw {σ : Type} [WordSource σ] (k : Nat) (s : σ) : Ident (4 * k) × σ :=
  (⟨(Words.bytes k s).1, Words.length_bytes k s⟩, (Words.bytes k s).2)

end Ident

/-- Draws a trace identifier. -/
def TraceId.draw {σ : Type} [WordSource σ] (s : σ) : TraceId × σ := Ident.draw 4 s

/-- Draws a span identifier. -/
def SpanId.draw {σ : Type} [WordSource σ] (s : σ) : SpanId × σ := Ident.draw 2 s

/-- How a trace identifier is shown to a developer. -/
def TraceId.describe (i : TraceId) : String := "TraceId(" ++ i.toHex ++ ")"

/-- How a span identifier is shown to a developer. -/
def SpanId.describe (i : SpanId) : String := "SpanId(" ++ i.toHex ++ ")"

end TraceLoad
