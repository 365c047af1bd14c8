import TraceLoad.Notice
import TraceLoad.Span.Json

/-! # Exporting spans

The exporter gathers finished spans and hands them to a sink in batches: when a hundred have
gathered, at every tick of a timer, and when no more can come. A batch that the sink fails to
write is lost and counted. A sink that breaks down takes no more.

`Exporter.step` is all that can happen, and the sink is a function from the number of a batch to
what becomes of it, so what is proved holds for every order of arrivals and ticks and for every
sink.
-/

namespace TraceLoad

/-- What becomes of a batch. -/
inductive SinkOutcome where
  | written
  | failed (reason : String)
  | panicked
deriving DecidableEq, Repr

/-- What has been exported. -/
structure ExportStats where
  /-- spans that were written -/
  spans : Nat := 0
  /-- batches that were handed to the sink -/
  batches : Nat := 0
  /-- batches that the sink did not write -/
  failedBatches : Nat := 0
deriving DecidableEq, Repr

/-- The state of the exporter. -/
structure Exporter where
  /-- the spans that have gathered -/
  batch : Array Span := #[]
  /-- the batches handed to the sink so far -/
  handed : Array (Array Span) := #[]
  /-- the spans that the sink has written -/
  written : Array Span := #[]
  stats : ExportStats := {}
  /-- whether it still takes spans -/
  running : Bool := true
  notices : Array Notice := #[]
deriving DecidableEq

namespace Exporter

/-- How many spans are a full batch. -/
def batchSize : Nat := 100

/-- The time from one tick to the next. -/
def flushInterval : Duration := .ofMillis 100

/-- What can happen next. -/
inductive Label where
  /-- a span arrives -/
  | receive (span : Span)
  /-- the timer ticks -/
  | tick
  /-- nobody is left who could send a span -/
  | close
deriving DecidableEq

/-- Hands the batch to the sink, unless it is empty. -/
def flush (sink : Nat → SinkOutcome) (e : Exporter) : Exporter :=
  if e.batch.isEmpty then e
  else
    let batch := e.batch
    let stats := { e.stats with batches := e.stats.batches + 1 }
    let failed := { stats with failedBatches := stats.failedBatches + 1 }
    let e := { e with batch := #[], handed := e.handed.push batch }
    match sink e.stats.batches with
    | .written =>
      { e with
        written := e.written ++ batch
        stats := { stats with spans := stats.spans + batch.size } }
    | .failed reason =>
      { e with stats := failed, notices := e.notices.push (.batchFailed reason batch.size) }
    | .panicked =>
      { e with stats := failed, running := false, notices := e.notices.push .sinkPanicked }

/-- The state after a step. An exporter that no longer runs ignores everything. -/
def step (sink : Nat → SinkOutcome) (e : Exporter) : Label → Exporter
  | .receive span =>
    if e.running then
      let e := { e with batch := e.batch.push span }
      if e.batch.size < batchSize then e else e.flush sink
    else e
  | .tick => if e.running then e.flush sink else e
  | .close => if e.running then { e.flush sink with running := false } else e

theorem flush_of_isEmpty (sink : Nat → SinkOutcome) {e : Exporter} (h : e.batch.isEmpty = true) :
    e.flush sink = e := by
  rw [flush, if_pos h]

/-- The state after a list of steps. -/
def steps (sink : Nat → SinkOutcome) (e : Exporter) (ls : List Label) : Exporter :=
  ls.foldl (step sink) e

/-- Ends a line. -/
def newline : UInt8 := 0x0A

/-- Spans as they are written: each on a line of its own. -/
def lines (spans : List Span) : List UInt8 := spans.flatMap fun s => s.write ++ [newline]

/-- Everything that has been written. -/
def output (e : Exporter) : List UInt8 := lines e.written.toList

/-- Passes time: the spans that were sent arrive, and then the timer ticks if a whole interval ends
in between; of several ticks the first one leaves nothing for the others. With no time to pass the
exporter does not get its turn. -/
def pass (sink : Nat → SinkOutcome) (e : Exporter) (sent : List Span) (now later : Duration) :
    Exporter × List Span :=
  if now.nanos < later.nanos then
    let ticks := decide (now.nanos / flushInterval.nanos < later.nanos / flushInterval.nanos)
    (e.steps sink (sent.map .receive ++ if ticks then [.tick] else []), [])
  else (e, sent)

/-- Takes what was sent last, and closes. -/
def shutdown (sink : Nat → SinkOutcome) (e : Exporter) (sent : List Span) : Exporter :=
  e.steps sink (sent.map .receive ++ [.close])

end Exporter

end TraceLoad
