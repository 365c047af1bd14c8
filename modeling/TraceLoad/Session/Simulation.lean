import TraceLoad.Pipeline
import TraceLoad.Session.Files
import TraceLoad.Simulation

/-! # Sessions on a simulated clock

A session whose run has a simulated clock is a function of the files that it finds.

The exporter gets its turn when time passes: the spans that have ended arrive, and then its timer
ticks. What is left arrives when the run is over.
-/

namespace TraceLoad.Session

/-- A run on a simulated clock with the exporter behind it. -/
structure Staged where
  simulation : Simulation Keystream
  exporter : Exporter
  /-- what both have told, up to the present instant -/
  told : Array Notice

namespace Staged

/-- One round. The record and the notices of an instant are cleared away when it is over. -/
def next (p : Plan) (sink : Nat → SinkOutcome) (s : Staged) : Option Staged :=
  (s.simulation.next p).map fun after =>
    let now := s.simulation.run.now
    if now < after.run.now then
      let (exporter, _) := s.exporter.pass sink after.run.finishedSpans ⟨now⟩ ⟨after.run.now⟩
      { simulation := { after with run := after.run.cleared }
        exporter := { exporter with notices := #[] }
        told := s.told ++ after.run.notices ++ exporter.notices }
    else { s with simulation := after }

/-- At most `rounds` rounds. -/
def rounds (p : Plan) (sink : Nat → SinkOutcome) : Nat → Staged → Staged
  | 0, s => s
  | n + 1, s =>
    match next p sink s with
    | none => s
    | some s => rounds p sink n s

end Staged

/-- What a session has done. -/
structure Result where
  notices : List Notice
  failure : Option Failure
  /-- whether the output is what the program prints -/
  prints : Bool
  exporter : Exporter

/-- A session that fails or ends before its run. -/
def Result.early (notices : List Notice) (failure : Option Failure) : Result :=
  ⟨notices, failure, false, {}⟩

/-- The part of a session from the start of its run on. -/
def generate (rounds : Nat) (c : Config) (t : Topology) (sink : Nat → SinkOutcome)
    (fresh : Nat → UInt64) (clock : Clock) : List Notice × Exporter :=
  let start : Staged := ⟨Runner.simulation c t registry fresh clock none, {}, #[]⟩
  let s := start.rounds (Runner.plan c t registry) sink rounds
  let run := s.simulation.run
  let exporter := ((Pipeline.ended run s.exporter).settle sink).exporter
  let report := Runner.report run
  (Runner.opening c t :: (s.told ++ run.notices).toList ++
    Runner.closing report :: .stoppingExporter :: exporter.notices.toList ++
      [farewell report exporter.stats], exporter)

/-- A whole session, with a run of at most `rounds` rounds. -/
def simulate (rounds : Nat) (line : CommandLine) (files : Files) (fresh : Nat → UInt64)
    (clock : Clock) : Result :=
  match begin line (files.contentsOf line.config.source) with
  | (told, .failed f) => .early told (some f)
  | (told, .rehearsed) => .early told none
  | (told, .loaded t) =>
    match files.outputOf line with
    | .error f => .early told (some f)
    | .ok place =>
      match ensureRunnable line.config t with
      | .error f => .early told (some f)
      | .ok () =>
        let (notices, exporter) := generate rounds line.config t place.sink fresh clock
        ⟨told ++ notices, none, place = .device .output, exporter⟩

end TraceLoad.Session
