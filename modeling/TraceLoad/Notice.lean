import TraceLoad.Config
import TraceLoad.Decimal.Shortest
import TraceLoad.Emission

/-! # Notices

What the program tells about itself while it runs. A notice is written as its level, the part of
the program that speaks, a message, and named fields.
-/

namespace TraceLoad

/-- How much a notice matters, the gravest first. -/
inductive Level where
  | error
  | warn
  | info
  | debug
  | trace
deriving DecidableEq, Repr

namespace Level

def name : Level → String
  | error => "ERROR"
  | warn => "WARN"
  | info => "INFO"
  | debug => "DEBUG"
  | trace => "TRACE"

def rank : Level → Nat
  | error => 1
  | warn => 2
  | info => 3
  | debug => 4
  | trace => 5

end Level

/-- The value of a notice's field. -/
inductive FieldValue where
  | count (n : Nat)
  | real (x : Binary64)
  | text (s : String)
deriving DecidableEq

namespace FieldValue

/-- Reals in notices are positional from 0.0001 up to 10^16, and a positive exponent shows no
sign. -/
def realLayout : Decimal.Layout where
  plainFrom := -4
  plainBelow := 16
  plusSign := false
  tie := .upward

def describeReal (x : Binary64) : String :=
  if x.isNaN then "NaN"
  else if x.isInfinite then (if x.isNegative then "-inf" else "inf")
  else String.ofList (realLayout.writeBinary x)

def describe : FieldValue → String
  | count n => toString n
  | real x => describeReal x
  | text s => s

end FieldValue

/-- One thing that the program tells. -/
inductive Notice where
  | topologyLoaded (spans depth services : Nat)
  | dryRunValid (stop : StopCondition)
  | runStarting (workers : Nat) (rate : Binary64) (stop : StopCondition) (spansPerTrace : Nat)
  | emitFailed (worker : Nat) (error : EmitError)
  | tracesGenerated (worker traces : Nat)
  | runDone (traces spans : Nat) (elapsed : Duration)
  | batchFailed (reason : String) (spans : Nat)
  | sinkPanicked
  | stoppingExporter
  | finished (workers traces spans exported failedBatches : Nat) (elapsed : Duration)
deriving DecidableEq

namespace Notice

def level : Notice → Level
  | emitFailed .. | sinkPanicked => .error
  | batchFailed .. => .warn
  | _ => .info

/-- The part of the program that speaks. -/
def target : Notice → String
  | runStarting .. | runDone .. => "tracegen::runner"
  | emitFailed .. | tracesGenerated .. => "tracegen::worker"
  | batchFailed .. | sinkPanicked => "tracegen::exporter"
  | topologyLoaded .. | dryRunValid .. | stoppingExporter | finished .. => "tracegen"

def message : Notice → String
  | topologyLoaded .. => "topology loaded"
  | dryRunValid .. => "dry run: configuration is valid"
  | runStarting .. => "starting trace generation"
  | emitFailed .. => "failed to emit trace"
  | tracesGenerated .. => "traces generated"
  | runDone .. => "generation of traces is done"
  | batchFailed .. => "failed to write span batch"
  | sinkPanicked => "span sink panicked, dropping further spans"
  | stoppingExporter => "stopping the exporter"
  | finished .. => "done"

def fields : Notice → List (String × FieldValue)
  | topologyLoaded spans depth services =>
    [("spans", .count spans), ("depth", .count depth), ("services", .count services)]
  | dryRunValid stop => [("stop", .text stop.describe)]
  | runStarting workers rate stop spansPerTrace =>
    [("workers", .count workers), ("rate", .real rate), ("stop", .text stop.describe),
      ("spans_per_trace", .count spansPerTrace)]
  | emitFailed worker error => [("worker", .count worker), ("error", .text error.message)]
  | tracesGenerated worker traces => [("worker", .count worker), ("traces", .count traces)]
  | runDone traces spans elapsed =>
    [("traces", .count traces), ("spans", .count spans), ("elapsed", .text elapsed.describe)]
  | batchFailed reason spans => [("error", .text reason), ("spans", .count spans)]
  | sinkPanicked => []
  | stoppingExporter => []
  | finished workers traces spans exported failedBatches elapsed =>
    [("workers", .count workers), ("traces", .count traces), ("spans", .count spans),
      ("exported", .count exported), ("failed_batches", .count failedBatches),
      ("elapsed", .text elapsed.describe)]

/-- The names under which a filter finds a notice: those of its fields, and that of its message. -/
def fieldNames (n : Notice) : List String := "message" :: n.fields.map (·.1)

/-- The worker that a notice is about. -/
def worker? : Notice → Option Nat
  | emitFailed worker _ | tracesGenerated worker _ => some worker
  | _ => none

/-- The notice on one line. -/
def line (n : Notice) : String :=
  n.level.name ++ " " ++ n.target ++ ": " ++ n.message ++
    String.join (n.fields.map fun f => " " ++ f.1 ++ "=" ++ f.2.describe)

end Notice

end TraceLoad
