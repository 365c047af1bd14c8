import TraceLoad.CommandLine
import TraceLoad.Exporter
import TraceLoad.Notice.Filter
import TraceLoad.Runner
import TraceLoad.Topology.Builtin
import TraceLoad.Topology.Export

/-! # Sessions

A session is one call of the program, from a command line that has been read to the last notice.
What it needs from its surroundings comes in as values: the contents of the export that is to be
loaded, and whether the output can be created. So the course of a session is a function, and the
checks of a dry run can be compared with those of a real one.

* `Session.rehearse` are the checks of a dry run, `Session.preflight` those before a run's first
  step.
* `Session.begin` says how a session goes on once the topology is there.
-/

namespace TraceLoad

/-- What the attempt to read a file gives. -/
inductive FileContents where
  | bytes (bytes : List UInt8)
  /-- it cannot be opened; the system says why -/
  | absent (reason : String)
  /-- it can be opened, but not be read; the system says why -/
  | unreadable (reason : String)
deriving DecidableEq

/-- Why a topology could not be loaded. -/
inductive LoadError where
  | io (path reason : String)
  | parse (fault : Json.Fault)
  | topology (error : TopologyError)
deriving DecidableEq

namespace LoadError

/-- What is wrong with an export, in words. -/
def describeFault : Json.Fault → String
  | .unreadable => "it cannot be read"
  | .malformed => "it is not in the format"
  | .mismatched => "it is not of the expected shape"
  | .truncated => "it ends too early"

def message : LoadError → String
  | io path reason => "failed to read trace export " ++ path ++ ": " ++ reason
  | parse fault => "malformed trace export: " ++ describeFault fault
  | topology error => error.message

/-- The message, and behind it what caused it. -/
def chain (e : LoadError) : List String :=
  match e with
  | io _ reason => [e.message, reason]
  | parse fault => [e.message, describeFault fault]
  | topology _ => [e.message]

end LoadError

/-- Why a session failed. -/
inductive Failure where
  | config (error : ConfigError)
  | load (source : TopologySource) (error : LoadError)
  | topology (error : TopologyError)
  | output (path reason : String)
deriving DecidableEq

namespace Failure

def message : Failure → String
  | config error => error.message
  | load source _ => "failed to load topology from " ++ source.describe
  | topology error => error.message
  | output path _ => "failed to create " ++ path

/-- What caused the failure, the nearest cause first. -/
def causes : Failure → List String
  | config _ | topology _ => []
  | load _ error => error.chain
  | output _ reason => [reason]

/-- A text with `front` before its first line and `more` before every other one. -/
def indent (front more : String) (text : String) : List String :=
  match text.splitOn "\n" with
  | [] => []
  | line :: lines => (front ++ line) :: lines.map (more ++ ·)

/-- The causes, indented. Several are numbered, a single one is not. -/
def causeLines : List String → List String
  | [cause] => indent "    " "    " cause
  | causes =>
    causes.zipIdx.flatMap fun (cause, i) => indent ("    " ++ toString i ++ ": ") "       " cause

/-- What is told about a failure. -/
def lines (f : Failure) : List String :=
  ("Error: " ++ f.message).splitOn "\n" ++
    match f.causes with
    | [] => []
    | causes => "" :: "Caused by:" :: causeLines causes

def ofRunError : RunError → Failure
  | .config error => config error
  | .topology error => topology error

end Failure

namespace Session

/-- The registry that runs of the program use. -/
def registry : Registry := .ofNames Tracer.mk Registry.defaultServices

/-- Loads the topology from its source, whose contents are those of the file if it is one. -/
def loadFrom (contents : FileContents) : TopologySource → Except LoadError Topology
  | .builtin => Topology.builtin.mapError .topology
  | .file path =>
    match contents with
    | .absent reason => .error (.io path reason)
    | .unreadable _ => .error (.parse .unreadable)
    | .bytes bytes =>
      (Topology.ofExport bytes).mapError fun
        | .parse fault => .parse fault
        | .topology error => .topology error

/-- Validates the configuration and loads the topology. -/
def load (c : Config) (contents : FileContents) : Except Failure Topology := do
  c.validate.mapError .config
  (loadFrom contents c.source).mapError (.load c.source)

/-- What a dry run demands of a topology. -/
def ensureServices (t : Topology) : Except Failure Unit :=
  (t.ensureKnown fun name => decide (name ∈ Registry.defaultServices)).mapError .topology

/-- What a run demands of its configuration and topology. -/
def ensureRunnable (c : Config) (t : Topology) : Except Failure Unit :=
  (Runner.check c t registry).mapError .ofRunError

/-- The checks of a dry run. -/
def rehearse (c : Config) (contents : FileContents) : Except Failure Topology := do
  let t ← load c contents
  ensureServices t
  pure t

/-- The checks of a run before its first step; that its output can be created is not one of
them. -/
def preflight (c : Config) (contents : FileContents) : Except Failure Topology := do
  let t ← load c contents
  ensureRunnable c t
  pure t

/-- How a session goes on. -/
inductive Course where
  | failed (failure : Failure)
  /-- the dry run is over -/
  | rehearsed
  /-- the output is to be created -/
  | loaded (topology : Topology)
deriving DecidableEq

/-- What is told when the topology is there. -/
def introduction (t : Topology) : Notice :=
  .topologyLoaded t.size t.depth t.serviceNames.length

/-- The first part of a session: what it tells, and how it goes on. -/
def begin (line : CommandLine) (contents : FileContents) : List Notice × Course :=
  match load line.config contents with
  | .error f => ([], .failed f)
  | .ok t =>
    if line.dryRun then
      match ensureServices t with
      | .error f => ([introduction t], .failed f)
      | .ok () => ([introduction t, .dryRunValid line.config.stopCondition], .rehearsed)
    else ([introduction t], .loaded t)

/-- What is told at the very end. -/
def farewell (report : RunReport) (stats : ExportStats) : Notice :=
  .finished report.workers report.traces report.spans stats.spans stats.failedBatches
    report.elapsed

end Session

end TraceLoad
