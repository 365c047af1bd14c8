import TraceLoad.Attributes
import TraceLoad.Timestamp
import TraceLoad.TraceContext

/-! # Spans

A span is one piece of work in a trace: who did it, when, and with which attributes. It is open
until it has an end.
-/

namespace TraceLoad

/-- The role of a span in an exchange of request and response. -/
inductive SpanKind where
  | client
  | server
deriving DecidableEq, Repr

namespace SpanKind

def name : SpanKind → String
  | client => "client"
  | server => "server"

/-- The kind of a name. -/
def ofName? (s : String) : Option SpanKind :=
  if s = "client" then some client else if s = "server" then some server else none

end SpanKind

/-- One span of a trace. -/
@[ext] structure Span where
  traceId : TraceId
  spanId : SpanId
  parentSpanId : Option SpanId
  name : String
  service : String
  startTime : Timestamp
  endTime : Option Timestamp
  attributes : Attributes
deriving DecidableEq

namespace Span

/-- An open span whose place in the trace is `context`. -/
def start (service : String) (context : TraceContext) (name : String) (attributes : Attributes)
    (startTime : Timestamp) : Span where
  traceId := context.traceId
  spanId := context.spanId
  parentSpanId := context.parentSpanId
  name := name
  service := service
  startTime := startTime
  endTime := none
  attributes := attributes

/-- The span with its end. -/
def finish (s : Span) (endTime : Timestamp) : Span := { s with endTime := some endTime }

/-- The length of a finished span in nanoseconds, zero if it ends before it starts. -/
def durationNanos (s : Span) : Option Nat := s.endTime.map fun e => e.since s.startTime

/-- The text under a name, if there is one. -/
def textAttribute (s : Span) (k : String) : Option String :=
  (s.attributes.get? k).bind AttributeValue.asText?

end Span

end TraceLoad
