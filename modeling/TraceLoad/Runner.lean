import TraceLoad.Limiter.Instant
import TraceLoad.Run
import TraceLoad.Words.Keystream

/-! # Setting a run up, and summing it up

Before anything runs, the configuration is validated, and the topology has to have a root and a
tracer for each of its services; a run that passes these checks cannot fail for want of one.
Afterwards the reports of the workers are added up.
-/

namespace TraceLoad

/-- Why a run was not started. -/
inductive RunError where
  | config (error : ConfigError)
  | topology (error : TopologyError)
deriving DecidableEq

namespace RunError

def message : RunError → String
  | config e => e.message
  | topology e => e.message

end RunError

/-- What a run has done in total. -/
structure RunReport where
  workers : Nat
  traces : Nat
  spans : Nat
  elapsed : Duration
  /-- the workers' reports in the order of their numbers -/
  perWorker : List WorkerReport
deriving DecidableEq

namespace Runner

/-- The checks that come before a run. -/
def check (c : Config) (t : Topology) (r : Registry) : Except RunError Unit :=
  match c.validate with
  | .error e => .error (.config e)
  | .ok () =>
    match t.findRoot with
    | .error e => .error (.topology e)
    | .ok _ =>
      match r.ensureCovers t with
      | .error e => .error (.topology e)
      | .ok () => .ok ()

/-- What the workers of a run have in common. -/
def plan (c : Config) (t : Topology) (r : Registry) : Plan where
  emitter := ⟨t, r, c.propagateContext⟩
  root := t.root.id
  maxTraces := c.maxTracesPerWorker

/-- The workers, numbered from zero, each with a stream of words of its own. -/
def crew {σ τ : Type} (c : Config) (streams : Nat → σ) : List (Worker σ τ) :=
  (List.range c.workers).map fun i => { id := i, words := streams i }

/-- The crew whose streams are keystreams. Without a configured seed the seeds are those of
`fresh`. -/
def workers {τ : Type} (c : Config) (fresh : Nat → UInt64) : List (Worker Keystream τ) :=
  crew c fun i => Keystream.ofSeed ((c.seedOf i).getD (fresh i))

/-- The run before its first step. -/
def start (c : Config) (fresh : Nat → UInt64) (clock : Clock) : Run Keystream Float Instant :=
  Run.start (workers c fresh) (.perSecond c.rate 0) 0 clock

/-- When the run's own timer fires the stop signal, if it has one. -/
def timer (c : Config) : Option Instant :=
  match c.stopCondition with
  | .duration d => some (Instant.wake 0 d)
  | .traces _ | .unbounded => none

/-- The totals with one report more. -/
def add (sum : RunReport) (w : WorkerReport) : RunReport :=
  { sum with
    traces := sum.traces + w.traces
    spans := sum.spans + w.spans
    perWorker := sum.perWorker ++ [w] }

/-- Reports in the order of the workers' numbers. -/
def inOrder (reports : List WorkerReport) : List WorkerReport :=
  reports.mergeSort fun a b => a.worker ≤ b.worker

/-- The totals of a run. The workers' reports are added up as they come in, and sorted then. -/
def report {σ α : Type} (r : Run σ α Instant) : RunReport :=
  let sum := r.reports.toList.foldl add ⟨r.workers.size, 0, 0, ⟨r.now⟩, []⟩
  { sum with perWorker := inOrder sum.perWorker }

/-- What is told when a run starts. -/
def opening (c : Config) (t : Topology) : Notice :=
  .runStarting c.workers c.rate c.stopCondition t.size

/-- What is told when a run is over. -/
def closing (r : RunReport) : Notice := .runDone r.traces r.spans r.elapsed

end Runner

end TraceLoad
