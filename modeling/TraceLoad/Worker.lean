import TraceLoad.Emission
import TraceLoad.Limiter

/-! # Workers

A worker emits one trace after the other. Before each it looks whether it is to stop, and then
asks for a permit; it may have to queue for it, and leaves the queue when it is told to stop
meanwhile. A trace that has been started is always emitted in full.

The loop is cut wherever something else may happen in between, also between two events of one
emission: `Phase` says where the worker stands.
-/

namespace TraceLoad

/-- Why a worker left its loop. -/
inductive StopReason where
  | quotaReached
  | stopRequested
  | emitFailed
deriving DecidableEq, Repr

/-- Where a worker stands. -/
inductive Phase (τ : Type) where
  /-- about to look whether to stop -/
  | ready
  /-- not told to stop when it looked, and about to ask for a permit -/
  | asking
  /-- in the queue for a permit, up to an instant -/
  | queued (due : τ)
  /-- has a permit, and is about to emit a trace -/
  | permitted
  /-- emits a trace: the events that are still to come, and how it comes out -/
  | emitting (left : List Event) (result : Except EmitError Nat)
  /-- out of the loop -/
  | done (reason : StopReason)

/-- A worker: its number, its stream of words, what it has emitted, and where it stands. -/
structure Worker (σ τ : Type) where
  id : Nat
  words : σ
  traces : Nat := 0
  spans : Nat := 0
  phase : Phase τ := .ready

/-- What a worker tells when it is done. -/
structure WorkerReport where
  worker : Nat
  traces : Nat
  spans : Nat
  reason : StopReason
deriving DecidableEq, Repr

namespace Worker

variable {σ τ : Type}

/-- The worker further on in its loop. -/
def moveTo (w : Worker σ τ) (phase : Phase τ) : Worker σ τ := { w with phase := phase }

/-- The worker out of its loop. -/
def stop (w : Worker σ τ) (reason : StopReason) : Worker σ τ := w.moveTo (.done reason)

/-- The worker at the head of its loop again; its counters go on. -/
def restart (w : Worker σ τ) : Worker σ τ := w.moveTo .ready

/-- The worker after an emission: it counts a complete trace, and leaves its loop if the trace
failed or was the last one of its quota. A quota of zero is none. -/
def settle (maxTraces : Nat) (w : Worker σ τ) : Except EmitError Nat → Worker σ τ
  | .error _ => w.stop .emitFailed
  | .ok n =>
    let w := { w with traces := w.traces + 1, spans := w.spans + n }
    if maxTraces ≠ 0 ∧ maxTraces ≤ w.traces then w.stop .quotaReached else w.moveTo .ready

def report? (w : Worker σ τ) : Option WorkerReport :=
  match w.phase with
  | .done reason => some ⟨w.id, w.traces, w.spans, reason⟩
  | _ => none

/-- Whether the worker is still in its loop. -/
def isRunning (w : Worker σ τ) : Bool := w.report?.isNone

end Worker

end TraceLoad
