import TraceLoad.Runner

/-! # Runs on a clock of their own

A simulated run has a clock that moves only when nobody can go on, and then to the next instant at
which somebody can. Its hands show whole milliseconds, so a sleep is over at the first whole
millisecond that is not before its end.

Those who can go on do so in the order in which they became able to, and of those who wake together,
whoever fell asleep first is the first. A worker that has emitted a trace gives way until nobody
else can go on; of several that have, the last one is the first again. The stop signal has been
waited for from the beginning: it fires before any permit that is due with it.

The simulation decides nothing but the schedule: every change to the run is a `Run.step`.
-/

namespace TraceLoad

/-- A run with its schedule. -/
structure Simulation (σ : Type) where
  run : Run σ Float Instant
  /-- the workers that can go on -/
  queue : List Nat
  /-- the workers that have given way to those, the last one first -/
  yielded : List Nat
  /-- the workers that wait for a permit, in the order in which they fell asleep -/
  sleeping : List Nat
  /-- when the stop signal is to fire -/
  stopAt : Option Instant

namespace Simulation

variable {σ : Type}

/-- Where a worker stands. -/
def phaseOf (r : Run σ Float Instant) (i : Nat) : Option (Phase Instant) :=
  r.workers[i]?.map (·.phase)

/-- When a worker that waits for a permit wakes. -/
def wakeTime? (r : Run σ Float Instant) (i : Nat) : Option Instant :=
  match phaseOf r i with
  | some (.queued due) => some (Instant.tick due)
  | _ => none

/-- The earlier of two instants, either of which may be missing. -/
def earlier : Option Instant → Option Instant → Option Instant
  | some a, some b => some (min a b)
  | a, none => a
  | none, b => b

/-- The next instant at which somebody who waits can go on, if there is one. -/
def nextInstant (s : Simulation σ) : Option Instant :=
  earlier (s.sleeping.filterMap (wakeTime? s.run)).min? s.stopAt

/-- Gives a worker its place: it gives way to the others or falls asleep. -/
def place (s : Simulation σ) (i : Nat) : Simulation σ :=
  match phaseOf s.run i with
  | some .ready => { s with yielded := i :: s.yielded }
  | some (.queued _) => { s with sleeping := s.sleeping ++ [i] }
  | _ => s

/-- If nobody else can go on, those who have given way can again. -/
def resume (s : Simulation σ) : Simulation σ :=
  match s.queue with
  | [] => { s with queue := s.yielded, yielded := [] }
  | _ :: _ => s

variable [WordSource σ]

/-- A worker goes on, if it can. -/
def move (p : Plan) (i : Nat) (r : Run σ Float Instant) : Run σ Float Instant :=
  (Run.step p r (.go i)).getD r

/-- A worker goes on as far as an emission that it is about to begin takes it. -/
def finish (p : Plan) (i : Nat) (r : Run σ Float Instant) : Run σ Float Instant :=
  match phaseOf r i with
  | some .permitted =>
    let r := move p i r
    match phaseOf r i with
    | some (.emitting left _) => Nat.repeat (move p i) (left.length + 1) r
    | _ => r
  | _ => r

/-- A worker that looks for the stop signal, or wakes, does all that it can without sleep: a permit
that is due at once is had, and a trace that has been started is emitted in full. -/
def act (p : Plan) (r : Run σ Float Instant) (i : Nat) : Run σ Float Instant :=
  let r := move p i r
  let r := match phaseOf r i with
    | some .asking => move p i r
    | _ => r
  let r := if (wakeTime? r i).any (· ≤ r.now) then move p i r else r
  finish p i r

/-- Lets the first of those who can go on do so. -/
def proceed (p : Plan) (s : Simulation σ) (i : Nat) (rest : List Nat) : Simulation σ :=
  (place { s with run := act p s.run i, queue := rest } i).resume

/-- Moves the clock to an instant. -/
def moveTo (p : Plan) (s : Simulation σ) (t : Instant) : Run σ Float Instant :=
  (Run.step p s.run (.pass t)).getD s.run

/-- Fires the stop signal: all who sleep can go on. -/
def fire (p : Plan) (s : Simulation σ) (t : Instant) : Simulation σ :=
  let r := moveTo p s t
  { s with
    run := (Run.step p r .stop).getD r
    queue := s.queue ++ s.sleeping
    sleeping := []
    stopAt := none }

/-- Whether a worker wakes up to an instant, and before the stop signal fires. -/
def wakesBy (s : Simulation σ) (t : Instant) (i : Nat) : Bool :=
  (wakeTime? s.run i).any fun u => u ≤ t && s.stopAt.all (u < ·)

/-- Brings the clock to an instant. Those who wake by then can go on; only if there are none, the
stop signal fires. -/
def reach (p : Plan) (s : Simulation σ) (t : Instant) : Simulation σ :=
  match s.sleeping.filter (s.wakesBy t) with
  | [] => if s.stopAt.any (· ≤ t) then fire p s t else { s with run := moveTo p s t }
  | awake =>
    let inOrder := awake.mergeSort fun i j =>
      (wakeTime? s.run i).getD t ≤ (wakeTime? s.run j).getD t
    { s with
      run := moveTo p s t
      queue := s.queue ++ inOrder
      sleeping := s.sleeping.filter fun i => !s.wakesBy t i }

/-- One round; none if the run is over or nobody will ever go on. -/
def next (p : Plan) (s : Simulation σ) : Option (Simulation σ) :=
  match s.queue with
  | i :: rest => some (proceed p s i rest)
  | [] => if s.run.isOver then none else s.nextInstant.map (reach p s)

/-- At most `rounds` rounds. -/
def rounds (p : Plan) : Nat → Simulation σ → Simulation σ
  | 0, s => s
  | n + 1, s =>
    match next p s with
    | none => s
    | some s => rounds p n s

/-- A simulation at its start. A stop signal that fires at the very beginning has fired before any
worker looks at it. -/
def ofRun (p : Plan) (r : Run σ Float Instant) (stopAt : Option Instant) : Simulation σ :=
  let s : Simulation σ := ⟨r, [], [], [], stopAt⟩
  let s := if stopAt = some r.now then fire p s r.now else s
  { s with queue := List.range r.workers.size }

end Simulation

namespace Runner

/-- The simulation of a run, with the stop signal given from outside at `shutdown` if at all. -/
def simulation (c : Config) (t : Topology) (r : Registry) (fresh : Nat → UInt64) (clock : Clock)
    (shutdown : Option Instant) : Simulation Keystream :=
  .ofRun (plan c t r) (start c fresh clock)
    (Simulation.earlier ((timer c).map Instant.tick) shutdown)

/-- Simulates a run of at most `rounds` rounds. -/
def simulate (rounds : Nat) (c : Config) (t : Topology) (r : Registry) (fresh : Nat → UInt64)
    (clock : Clock) (shutdown : Option Instant) : Run Keystream Float Instant :=
  ((simulation c t r fresh clock shutdown).rounds (plan c t r) rounds).run

end Runner

end TraceLoad
