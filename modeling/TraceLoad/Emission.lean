import TraceLoad.Registry
import TraceLoad.Span

/-! # Emitting traces

One emission stamps one trace from a topology. The kind, status and address that all its spans
share are drawn first. Then the root span is started; each descriptor below it, in preorder, has
its span started and ended at once; and the root span is ended last, whether or not everything
below it could be emitted.

An emission reads words and clock readings and writes events: it is a function from the
`Emission` state before it to the one after it, so that two emissions can be compared event by
event and word by word.
-/

namespace TraceLoad

/-- Something that happened to a span. -/
inductive Event where
  | started (span : Span)
  | ended (span : Span)
deriving DecidableEq

namespace Event

def span : Event → Span
  | started s => s
  | ended s => s

def isStart : Event → Bool
  | started _ => true
  | ended _ => false

/-- The span, if it has ended. -/
def finished? : Event → Option Span
  | started _ => none
  | ended s => some s

end Event

/-- A clock: what it shows at each reading, and how often it has been read. -/
structure Clock where
  reading : Nat → Timestamp
  used : Nat := 0

namespace Clock

/-- The clock that stands still. -/
def still (t : Timestamp) : Clock := ⟨fun _ => t, 0⟩

/-- Reads the clock. -/
def now (c : Clock) : Timestamp × Clock := (c.reading c.used, { c with used := c.used + 1 })

end Clock

/-- What emissions read and write: a stream of words, a clock, and the events so far. -/
structure Emission (σ : Type) where
  words : σ
  clock : Clock
  events : Array Event

/-- Why a trace could not be emitted. -/
inductive EmitError where
  | unknownSpan (id : String)
  | unknownService (service : String)
  | propagation (error : ContextError)
deriving DecidableEq, Repr

namespace EmitError

def message : EmitError → String
  | unknownSpan id => "span " ++ id ++ " is not part of the topology"
  | unknownService service => "no tracer registered for service " ++ service
  | propagation error => "failed to propagate trace context: " ++ error.message

end EmitError

/-- What all spans of one trace have in common. -/
structure TraceAttributes where
  kind : SpanKind
  statusCode : String
  url : String
deriving DecidableEq

namespace TraceAttributes

variable {σ : Type} [WordSource σ]

/-- The address that every span names. -/
def placeholderUrl : String :=
  "http://metadata.google.internal/computeMetadata/v1/instance/attributes/cluster-name(fakeurl)"

def drawKind (s : σ) : SpanKind × σ :=
  let (heads, s) := Words.coin s
  (if heads then .client else .server, s)

/-- One half of the outcomes is a success; the others have a tenth each. -/
def statusOf (n : Nat) : String :=
  if 1 ≤ n ∧ n ≤ 5 then "200"
  else if n = 6 then "500"
  else if n = 7 then "202"
  else if n = 8 then "402"
  else if n = 9 then "300"
  else "404"

def drawStatus (s : σ) : String × σ :=
  let (n, s) := Words.upTo 10 s
  (statusOf n, s)

/-- Draws the kind, then the status. -/
def draw (s : σ) : TraceAttributes × σ :=
  let (kind, s) := drawKind s
  let (statusCode, s) := drawStatus s
  (⟨kind, statusCode, placeholderUrl⟩, s)

/-- The attributes of a span of one service. -/
def forService (a : TraceAttributes) (service : String) : Attributes :=
  .ofList [
    ("span.kind", .text a.kind.name),
    ("service.name", .text service),
    ("http.status_code", .text a.statusCode),
    ("http.url", .text a.url)]

end TraceAttributes

/-- A started span with the context that its children inherit. -/
structure OpenSpan where
  span : Span
  context : TraceContext
deriving DecidableEq

namespace Tracer

variable {σ : Type} [WordSource σ]

/-- Starts a span in a given context at a given time. -/
def startAt (t : Tracer) (context : TraceContext) (name : String) (attributes : Attributes)
    (time : Timestamp) (e : Emission σ) : OpenSpan × Emission σ :=
  let span := Span.start t.service context name attributes time
  (⟨span, context⟩, { e with events := e.events.push (.started span) })

/-- Starts a span now: as a child if there is a parent, and as the root of a new trace if not. -/
def start (t : Tracer) (name : String) (parent : Option TraceContext) (attributes : Attributes)
    (e : Emission σ) : OpenSpan × Emission σ :=
  let (context, words) := match parent with
    | some p => p.child e.words
    | none => TraceContext.newRoot e.words
  let (time, clock) := e.clock.now
  t.startAt context name attributes time { e with words := words, clock := clock }

/-- Ends a span at a given time. -/
def finishAt (span : Span) (time : Timestamp) (e : Emission σ) : Emission σ :=
  { e with events := e.events.push (.ended (span.finish time)) }

end Tracer

/-- What emissions of a run have in common. -/
structure Emitter where
  topology : Topology
  registry : Registry
  /-- whether a context goes through its header at every hop -/
  propagate : Bool
deriving DecidableEq

namespace Emitter

variable {σ : Type} [WordSource σ]

/-- How long every span lasts. -/
def spanDuration : Duration := .ofMillis 100

def rootName : String := "lets-go"

def childName (d : Descriptor) : String := "message from span " ++ d.id

/-- Ends a span as long after the present as spans last. -/
def close (span : Span) (e : Emission σ) : Emission σ :=
  let (time, clock) := e.clock.now
  Tracer.finishAt span (time.saturatingAdd spanDuration) { e with clock := clock }

/-- The context as it arrives on the other side of a call. -/
def cross (m : Emitter) (c : TraceContext) : Except ContextError TraceContext :=
  if m.propagate then TraceContext.ofTraceparent c.toTraceparent else .ok c

/-- Emits the spans of a forest below a parent, and counts them. The first descriptor whose
service has no tracer ends the emission. -/
def emitForest (m : Emitter) (shared : TraceAttributes) :
    Forest → TraceContext → Emission σ → Except EmitError Nat × Emission σ
  | .nil, _, e => (.ok 0, e)
  | .cons d below beside, parent, e =>
    match m.registry.tracer? d.service with
    | none => (.error (.unknownService d.service), e)
    | some tracer =>
      match m.cross parent with
      | .error f => (.error (.propagation f), e)
      | .ok carried =>
        let (opened, e) :=
          tracer.start (childName d) (some carried) (shared.forService d.service) e
        let e := close opened.span e
        match emitForest m shared below opened.context e with
        | (.error f, e) => (.error f, e)
        | (.ok n, e) =>
          match emitForest m shared beside parent e with
          | (.error f, e) => (.error f, e)
          | (.ok k, e) => (.ok (1 + n + k), e)

/-- Emits the trace of a tree whose root's service has a tracer. -/
def emitTree (m : Emitter) (tracer : Tracer) (t : SpanTree) (e : Emission σ) :
    Except EmitError Nat × Emission σ :=
  let (shared, words) := TraceAttributes.draw e.words
  let (opened, e) :=
    tracer.start rootName none (shared.forService t.root.service) { e with words := words }
  let (result, e) := m.emitForest shared t.below opened.context e
  (result.map (1 + ·), close opened.span e)

/-- Emits one trace from the subtree of an id, and counts its spans. -/
def emit (m : Emitter) (id : String) (e : Emission σ) : Except EmitError Nat × Emission σ :=
  match m.topology.subtree? id with
  | none => (.error (.unknownSpan id), e)
  | some t =>
    match m.registry.tracer? t.root.service with
    | none => (.error (.unknownService t.root.service), e)
    | some tracer => m.emitTree tracer t e

end Emitter

end TraceLoad
