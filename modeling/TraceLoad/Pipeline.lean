import TraceLoad.Exporter
import TraceLoad.Run

/-! # From the workers to the sink

The spans that the workers of a run end go to the exporter through a channel, which keeps their
order and loses none. `Pipeline.step` is all that can happen: the run takes a step, a span arrives,
the exporter's timer ticks, or the channel is closed, which it is once the run is over and nothing
is left in it.
-/

namespace TraceLoad

/-- A run, the channel behind it, and the exporter behind that. -/
structure Pipeline (σ α τ : Type) where
  run : Run σ α τ
  /-- the spans that have ended and not yet arrived, in the order in which they ended -/
  channel : List Span
  exporter : Exporter

namespace Pipeline

/-- What can happen next. -/
inductive Label (τ : Type) where
  | run (label : Run.Label τ)
  /-- the first span in the channel arrives -/
  | deliver
  /-- the exporter's timer ticks -/
  | tick
  /-- the channel is closed -/
  | close
deriving DecidableEq

variable {σ α τ : Type}

/-- The pipeline before the first step of a run. -/
def start (r : Run σ α τ) : Pipeline σ α τ := ⟨r, [], {}⟩

/-- The pipeline of a run whose record holds just the spans that have not arrived. -/
def ended (r : Run σ α τ) (e : Exporter) : Pipeline σ α τ := ⟨r, r.finishedSpans, e⟩

/-- The pipeline when the run has returned and the exporter has been shut down: everything in the
channel has arrived, and the exporter has closed. -/
def settle (sink : Nat → SinkOutcome) (s : Pipeline σ α τ) : Pipeline σ α τ :=
  { s with channel := [], exporter := s.exporter.shutdown sink s.channel }

variable [WordSource σ] [Add α] [Sub α] [Mul α] [Neg α] [Div α] [LE α] [DecidableLE α]
  [OfNat α 0] [OfNat α 1] [Timeline α τ] [LE τ] [DecidableLE τ]

/-- The state after a step, if the step can happen. -/
def step (p : Plan) (sink : Nat → SinkOutcome) (s : Pipeline σ α τ) :
    Label τ → Option (Pipeline σ α τ)
  | .run label =>
    match Run.step p s.run label with
    | none => none
    | some r =>
      some { s with run := r, channel := s.channel ++ r.finishedSince s.run.entries.length }
  | .deliver =>
    match s.channel with
    | [] => none
    | span :: rest =>
      some { s with channel := rest, exporter := s.exporter.step sink (.receive span) }
  | .tick => some { s with exporter := s.exporter.step sink .tick }
  | .close =>
    if s.run.isOver ∧ s.channel = [] then some { s with exporter := s.exporter.step sink .close }
    else none

/-- The state after a schedule, if every step of it can happen. -/
def steps (p : Plan) (sink : Nat → SinkOutcome) (s : Pipeline σ α τ) :
    List (Label τ) → Option (Pipeline σ α τ)
  | [] => some s
  | l :: ls =>
    match step p sink s l with
    | some s => steps p sink s ls
    | none => none

end Pipeline

end TraceLoad
