import TraceLoad.Binary64
import TraceLoad.Duration
import TraceLoad.Text.Blank
import TraceLoad.Text.Quoted

/-! # Run configuration

How many workers a run has, at which rate they start traces, and what ends it.
-/

namespace TraceLoad

/-- What is wrong with a configuration or with one of its values. -/
inductive ConfigError where
  | noWorkers
  | invalidRate
  | zeroDuration
  | invalidDuration (text : String)
deriving DecidableEq, Repr

namespace ConfigError

def message : ConfigError → String
  | noWorkers => "at least one worker is required"
  | invalidRate => "rate must be a number, got NaN"
  | zeroDuration => "duration must be greater than zero"
  | invalidDuration text =>
    "invalid duration " ++ Text.quote text ++ ": expected e.g. 300, 300s, 250ms, 30m or 1h"

end ConfigError

/-- Reads a duration, with white space around it. -/
def Duration.parse (text : String) : Except ConfigError Duration :=
  let trimmed := Text.trim text.toList
  match Duration.ofText? trimmed with
  | some d => .ok d
  | none => .error (.invalidDuration (String.ofList trimmed))

/-- What ends a run. -/
inductive StopCondition where
  /-- every worker stops after so many traces -/
  | traces (n : Nat)
  /-- all workers stop when so much time has passed -/
  | duration (d : Duration)
  /-- nothing but an interruption -/
  | unbounded
deriving DecidableEq, Repr

namespace StopCondition

def describe : StopCondition → String
  | traces n => "Traces(" ++ toString n ++ ")"
  | duration d => "Duration(" ++ d.describe ++ ")"
  | unbounded => "Unbounded"

end StopCondition

/-- Where the topology comes from. -/
inductive TopologySource where
  | builtin
  | file (path : String)
deriving DecidableEq, Repr

namespace TopologySource

def describe : TopologySource → String
  | builtin => "Builtin"
  | file path => "File(" ++ Text.quote path ++ ")"

end TopologySource

/-- The configuration of a run. -/
structure Config where
  /-- how many workers run side by side -/
  workers : Nat := 1
  /-- traces per second over all workers -/
  rate : Binary64 := ⟨0x3FF0000000000000⟩
  /-- traces per worker; zero means no limit -/
  traces : Nat := 1
  /-- how long to run; takes the place of the number of traces -/
  duration : Option Duration := none
  /-- whether contexts go through their header at every hop -/
  propagateContext : Bool := false
  /-- the seed of the first worker -/
  seed : Option UInt64 := none
  /-- the path of a captured export -/
  topology : Option String := none
deriving DecidableEq

namespace Config

def validate (c : Config) : Except ConfigError Unit :=
  if c.workers = 0 then .error .noWorkers
  else if c.rate.isNaN then .error .invalidRate
  else if c.duration = some .zero then .error .zeroDuration
  else .ok ()

/-- A duration counts before a number of traces. -/
def stopCondition (c : Config) : StopCondition :=
  match c.duration with
  | some d => .duration d
  | none => if c.traces = 0 then .unbounded else .traces c.traces

/-- How many traces each worker may emit; zero if the run is bounded in another way. -/
def maxTracesPerWorker (c : Config) : Nat :=
  match c.stopCondition with
  | .traces n => n
  | .duration _ | .unbounded => 0

def source (c : Config) : TopologySource :=
  match c.topology with
  | some path => .file path
  | none => .builtin

/-- The seed of a worker: the configured one and the worker's number, modulo 2^64. -/
def seedOf (c : Config) (worker : Nat) : Option UInt64 :=
  c.seed.map fun s => s + UInt64.ofNat worker

end Config

end TraceLoad
