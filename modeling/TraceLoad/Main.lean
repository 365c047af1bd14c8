import Std.Time.Format
import TraceLoad.Session
import TraceLoad.Simulation

/-! # The program

The outermost layer: it reads the command line, files and clocks, writes spans and notices, and
sleeps while nobody can go on. What happens is decided by `Session`, `Simulation` and `Exporter`;
the simulation is brought to the instant that the real clock shows before each of its rounds.
-/

namespace TraceLoad.Program

/-- The system's word on an error. -/
def reasonOf : IO.Error → String
  | .alreadyExists _ code details | .noFileOrDirectory _ code details
  | .invalidArgument _ code details | .permissionDenied _ code details
  | .resourceExhausted _ code details | .inappropriateType _ code details
  | .noSuchThing _ code details | .interrupted _ code details | .otherError code details
  | .resourceBusy code details | .resourceVanished code details
  | .unsupportedOperation code details | .hardwareFault code details
  | .unsatisfiedConstraints code details | .illegalOperation code details
  | .protocolError code details | .timeExpired code details =>
    details ++ " (os error " ++ toString code ++ ")"
  | .unexpectedEof => "unexpected end of file"
  | .userError details => details

/-- Shows notices on the error stream, each with the time. -/
def tell (shown : NoticeFilter) (notices : List Notice) : IO Unit := do
  for n in notices do
    if shown.shows n then
      let now ← Std.Time.Timestamp.now
      let stamp := (Std.Time.DateTime.ofTimestampWithZone now Std.Time.TimeZone.UTC).toISO8601String
      let gap := String.ofList (List.replicate (6 - n.level.name.length) ' ')
      IO.eprintln (stamp ++ gap ++ n.line)

/-- Reports a failure. -/
def fail (f : Failure) : IO UInt32 := do
  for line in f.lines do
    IO.eprintln line
  return 1

/-- Reads the file that the topology comes from, if it comes from one. -/
def contents (source : TopologySource) : IO FileContents := do
  match source with
  | .builtin => return .absent ""
  | .file path =>
    match ← (IO.FS.Handle.mk path .read).toBaseIO with
    | .error e => return .absent (reasonOf e)
    | .ok handle =>
      match ← handle.readBinToEnd.toBaseIO with
      | .error e => return .unreadable (reasonOf e)
      | .ok bytes => return .bytes bytes.toList

/-- The time on the wall. -/
def wallClock : IO Timestamp := do
  let now ← Std.Time.Timestamp.now
  return ⟨UInt64.ofNat now.toNanosecondsSinceUnixEpoch.val.toNat⟩

/-- A random seed. -/
def freshSeed : IO UInt64 := do
  return (← IO.getRandomBytes 8).toUInt64LE!

/-- What changes while a session runs: the run, the exporter, and how often its timer has
ticked. -/
structure Progress where
  simulation : Simulation Keystream
  exporter : Exporter
  ticks : Nat

/-- What stays the same while a session runs. -/
structure Surroundings where
  plan : Plan
  write : ByteArray → IO Unit
  shown : NoticeFilter
  /-- the reading of the monotonic clock when the run began -/
  began : Nat

/-- Lets the exporter take a step. A batch that it hands over is written first, because what
becomes of it is a part of the step. -/
def advance (s : Surroundings) (e : Exporter) (label : Exporter.Label) : IO Exporter := do
  let trial := e.step (fun _ => .written) label
  let outcome ←
    match trial.handed.back? with
    | none => pure SinkOutcome.written
    | some batch =>
      match ← (s.write ⟨(Exporter.lines batch.toList).toArray⟩).toBaseIO with
      | .ok () => pure .written
      | .error err => pure (.failed (reasonOf err))
  let e := e.step (fun _ => outcome) label
  tell s.shown e.notices.toList
  return { e with handed := #[], written := #[], notices := #[] }

/-- Hands the spans that have ended to the exporter, and shows what the run tells. -/
def drain (s : Surroundings) (p : Progress) : IO Progress := do
  let run := p.simulation.run
  let mut e := p.exporter
  for span in run.finishedSpans do
    e ← advance s e (.receive span)
  tell s.shown run.notices.toList
  return { p with
    simulation := { p.simulation with run := run.cleared }
    exporter := e }

/-- Waits until an instant of the run, at most until the exporter's timer ticks. -/
def rest (elapsed : Instant) (until? : Option Instant) : IO Unit := do
  let tick := (elapsed / Exporter.flushInterval.nanos + 1) * Exporter.flushInterval.nanos
  let wake := min tick (until?.getD tick)
  IO.sleep (UInt32.ofNat ((wake - elapsed + 999999) / 1000000))

/-- Runs until every worker is done. -/
partial def run (s : Surroundings) (p : Progress) : IO Progress := do
  let elapsed : Instant := (← IO.monoNanosNow) - s.began
  let ticks := elapsed / Exporter.flushInterval.nanos
  let exporter ← if p.ticks < ticks then advance s p.exporter .tick else pure p.exporter
  let clock := Clock.still (← wallClock)
  let simulation :=
    { p.simulation with run := { p.simulation.run with clock := clock } }.reach s.plan elapsed
  let p := ⟨simulation, exporter, ticks⟩
  match simulation.queue with
  | [] =>
    if simulation.run.isOver then return p
    rest elapsed simulation.nextInstant
    run s p
  | i :: others =>
    let p ← drain s { p with simulation := simulation.proceed s.plan i others }
    run s p

/-- Generates traces from a topology, and gives the exit code. -/
def generate (shown : NoticeFilter) (c : Config) (t : Topology) (write : ByteArray → IO Unit) :
    IO UInt32 := do
  match Session.ensureRunnable c t with
  | .error f => fail f
  | .ok () =>
    let mut seeds : Array UInt64 := #[]
    for _ in [0:c.workers] do
      seeds := seeds.push (← freshSeed)
    tell shown [Runner.opening c t]
    let s : Surroundings := ⟨Runner.plan c t Session.registry, write, shown, ← IO.monoNanosNow⟩
    let start := Runner.start c (fun i => seeds.getD i 0) (.still (← wallClock))
    let p ← run s ⟨Simulation.ofRun s.plan start (Runner.timer c), {}, 0⟩
    let report := Runner.report p.simulation.run
    tell shown [Runner.closing report, .stoppingExporter]
    let e ← advance s p.exporter .close
    tell shown [Session.farewell report e.stats]
    return 0

/-- A session, from its command line to its exit code. -/
def session (shown : NoticeFilter) (line : CommandLine) : IO UInt32 := do
  let (told, course) := Session.begin line (← contents line.config.source)
  tell shown told
  match course with
  | .failed f => fail f
  | .rehearsed => return 0
  | .loaded t =>
    match line.output with
    | none =>
      let out ← IO.getStdout
      generate shown line.config t fun bytes => do
        out.write bytes
        out.flush
    | some path =>
      match ← (IO.FS.Handle.mk path .write).toBaseIO with
      | .error e => fail (.output path (reasonOf e))
      | .ok handle =>
        generate shown line.config t fun bytes => do
          handle.write bytes
          handle.flush

end TraceLoad.Program

/-- Reads the command line and runs a session. The notices that are shown are those that the
variable `TRACE_LOG` asks for. -/
def main (arguments : List String) : IO UInt32 := do
  let shown := match ← IO.getEnv "TRACE_LOG" with
    | some text => TraceLoad.NoticeFilter.ofText text
    | none => .default
  match TraceLoad.CommandLine.ofArguments arguments with
  | .error .displayHelp =>
    IO.println (TraceLoad.CommandLineError.displayHelp).message
    return 0
  | .error e =>
    IO.eprintln e.message
    return 2
  | .ok line => TraceLoad.Program.session shown line
