import TraceLoad.Notice
import TraceLoad.Worker

/-! # Runs

Several workers share a limiter, a clock, a record of events and a stop signal. `Run.step` is the
whole of what can happen: one worker goes on in its loop, the stop signal fires, time passes. A
step is refused where it cannot happen, so a sequence of labels is a schedule, and what every
schedule keeps is a law of runs.

A worker goes on by as little as it can: it looks at the stop signal, asks for its permit, has it
or leaves the queue, begins an emission, puts one event on the record, or takes the emission into
account. Other workers and the stop signal may come between any two of these.
-/

namespace TraceLoad

/-- What all workers of a run have in common and nothing changes. -/
structure Plan where
  emitter : Emitter
  /-- the id of the topology's root -/
  root : String
  /-- how many traces each worker may emit; zero for any number -/
  maxTraces : Nat
deriving DecidableEq

/-- An event with the worker that caused it. -/
structure Entry where
  worker : Nat
  event : Event
deriving DecidableEq

/-- The state of a run. -/
structure Run (σ α τ : Type) where
  workers : Array (Worker σ τ)
  limiter : Limiter α τ
  stopped : Bool
  now : τ
  clock : Clock
  /-- the events so far, the last one first -/
  past : List Entry
  notices : Array Notice
  /-- the reports of the workers that are done, in the order in which they came in -/
  reports : Array WorkerReport

namespace Run

/-- What can happen next. -/
inductive Label (τ : Type) where
  /-- a worker goes on -/
  | go (worker : Nat)
  /-- the stop signal fires -/
  | stop
  /-- time passes -/
  | pass (later : τ)
deriving DecidableEq

variable {σ α τ : Type}

/-- A run before its first step. -/
def start (workers : List (Worker σ τ)) (limiter : Limiter α τ) (now : τ) (clock : Clock) :
    Run σ α τ where
  workers := workers.toArray
  limiter := limiter
  stopped := false
  now := now
  clock := clock
  past := []
  notices := #[]
  reports := #[]

/-- Whether every worker is done. -/
def isOver (r : Run σ α τ) : Bool := r.workers.all fun w => !w.isRunning

/-- The events so far. -/
def entries (r : Run σ α τ) : List Entry := r.past.reverse

/-- The spans that have ended, in the order in which they did. -/
def finishedSpans (r : Run σ α τ) : List Span :=
  r.entries.filterMap fun e => e.event.finished?

/-- The spans that have ended since the record had a given length. -/
def finishedSince (r : Run σ α τ) (length : Nat) : List Span :=
  (r.entries.drop length).filterMap fun e => e.event.finished?

/-- The events of one worker. -/
def eventsOf (r : Run σ α τ) (worker : Nat) : List Event :=
  (r.entries.filter fun e => e.worker = worker).map (·.event)

/-- The run with its record and its notices cleared away. -/
def cleared (r : Run σ α τ) : Run σ α τ := { r with past := [], notices := #[] }

/-- Puts a worker back at its place. A worker that is done says how much it has emitted, and hands
in its report. -/
def put (r : Run σ α τ) (i : Nat) (w : Worker σ τ) : Run σ α τ :=
  let r := { r with workers := r.workers.setIfInBounds i w }
  match w.report? with
  | some report =>
    { r with
      notices := r.notices.push (.tracesGenerated w.id w.traces)
      reports := r.reports.push report }
  | none => r

/-- A worker puts an event on the record. -/
def record (r : Run σ α τ) (w : Worker σ τ) (event : Event) : Run σ α τ :=
  { r with past := ⟨w.id, event⟩ :: r.past }

/-- A worker takes an emission into account. -/
def settle (p : Plan) (r : Run σ α τ) (i : Nat) (w : Worker σ τ) (result : Except EmitError Nat) :
    Run σ α τ :=
  let r := match result with
    | .error f => { r with notices := r.notices.push (.emitFailed w.id f) }
    | .ok _ => r
  r.put i (w.settle p.maxTraces result)

variable [WordSource σ]

/-- A worker with a permit begins to emit a trace: the words and the clock are read, and the events
will follow. -/
def begin (p : Plan) (r : Run σ α τ) (i : Nat) (w : Worker σ τ) : Run σ α τ :=
  let (result, e) := p.emitter.emit p.root ⟨w.words, r.clock, #[]⟩
  { r with clock := e.clock }.put i { w with
    words := e.words
    phase := .emitting e.events.toList result }

variable [Add α] [Sub α] [Mul α] [Neg α] [Div α] [LE α] [DecidableLE α] [OfNat α 0] [OfNat α 1]
  [Timeline α τ] [LE τ] [DecidableLE τ]

/-- A worker goes on, if it can. One that waits for its permit goes on when the permit is due, or at
once when the stop signal has fired. -/
def go (p : Plan) (r : Run σ α τ) (i : Nat) (w : Worker σ τ) : Option (Run σ α τ) :=
  match w.phase with
  | .ready => some (r.put i (if r.stopped then w.stop .stopRequested else w.moveTo .asking))
  | .asking =>
    match r.limiter.acquire r.now with
    | (.granted, limiter) => some ({ r with limiter := limiter }.put i (w.moveTo .permitted))
    | (.queued due, limiter) => some ({ r with limiter := limiter }.put i (w.moveTo (.queued due)))
  | .queued due =>
    if r.stopped then
      some ({ r with limiter := r.limiter.giveBack }.put i (w.stop .stopRequested))
    else if due ≤ r.now then some (r.put i (w.moveTo .permitted))
    else none
  | .permitted => some (r.begin p i w)
  | .emitting (event :: left) result =>
    some ((r.record w event).put i (w.moveTo (.emitting left result)))
  | .emitting [] result => some (r.settle p i w result)
  | .done _ => none

/-- The state after a step, if the step can happen. -/
def step (p : Plan) (r : Run σ α τ) : Label τ → Option (Run σ α τ)
  | .go i =>
    match r.workers[i]? with
    | some w => go p r i w
    | none => none
  | .stop => some { r with stopped := true }
  | .pass later => if r.now ≤ later then some { r with now := later } else none

/-- The state after a schedule, if every step of it can happen. -/
def steps (p : Plan) (r : Run σ α τ) : List (Label τ) → Option (Run σ α τ)
  | [] => some r
  | l :: ls =>
    match step p r l with
    | some r => steps p r ls
    | none => none

end Run

end TraceLoad
