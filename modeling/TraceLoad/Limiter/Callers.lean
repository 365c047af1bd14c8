import TraceLoad.Limiter.Instant

/-! # Callers of a limiter

Several callers ask one limiter for permits, each at its own time and with its own patience: a
caller may give up after a while, and may be cancelled. `serve` says what becomes of each, on a
clock that moves from one whole millisecond to a later one.

What happens to the callers stands on an agenda. Things of one instant happen in the order in which
they were put there, so whoever fell asleep first goes on first of those who wake at one instant.
-/

namespace TraceLoad.Limiter

/-- When a caller asks for a permit, and for how long it waits. -/
structure Caller where
  /-- for how long it sleeps before it asks -/
  arrival : Duration
  /-- after how long it gives up -/
  patience : Option Duration := none
  /-- after how long it is cancelled; zero if it is so from the beginning -/
  cancellation : Option Duration := none
deriving DecidableEq

/-- What became of a caller. -/
inductive Outcome where
  | granted
  | timedOut
  | cancelled
deriving DecidableEq, Repr

/-- What a cancelled caller is told. -/
def cancelledMessage : String := "permit acquisition cancelled"

/-- Until when a caller that asks at an instant waits at most, and what becomes of it then. A
caller that is cancelled at the instant at which its patience ends is out of patience, unless it
was cancelled from the beginning. -/
def Caller.limit (c : Caller) (asked : Instant) : Option (Instant × Outcome) :=
  match c.cancellation, c.patience with
  | some x, some p =>
    some (if x.nanos < p.nanos ∨ x = .zero then (asked + x.nanos, .cancelled)
      else (asked + p.nanos, .timedOut))
  | some x, none => some (asked + x.nanos, .cancelled)
  | none, some p => some (asked + p.nanos, .timedOut)
  | none, none => none

/-- What becomes of a caller that asks at an instant: its outcome if that is known, and otherwise
the instant at which it will give up. -/
inductive Answer where
  | settled (outcome : Outcome) (time : Instant)
  | waits (outcome : Outcome) (time : Instant)
deriving DecidableEq

/-- Asks for a permit. A permit that is due at the instant of giving up is still had, unless the
caller was cancelled from the beginning. -/
def ask (l : Limiter Float Instant) (c : Caller) (now : Instant) :
    Answer × Limiter Float Instant :=
  match l.acquire now with
  | (.granted, l) => (.settled .granted now, l)
  | (.queued due, l) =>
    let due := Instant.tick due
    match c.limit now with
    | none => (.settled .granted due, l)
    | some (time, outcome) =>
      if due ≤ time ∧ c.cancellation ≠ some .zero then (.settled .granted due, l)
      else if time ≤ now then (.settled outcome now, l.giveBack)
      else (.waits outcome time, l)

/-! ## The agenda -/

/-- An item of the agenda, about the caller of a number. -/
inductive Item where
  /-- it begins, and sleeps until it asks -/
  | begins (number : Nat) (caller : Caller)
  | asks (number : Nat) (caller : Caller)
  /-- whoever is to cancel it falls asleep until an instant -/
  | arms (number : Nat) (time : Instant)
  /-- it is cancelled, and will notice -/
  | cancels (number : Nat)
  | leaves (number : Nat) (outcome : Outcome)
deriving DecidableEq

/-- What comes of an item: a caller is settled, or a further item is put on the agenda. -/
structure Consequence where
  settled : Option (Nat × Outcome × Instant)
  further : Option (Instant × Item)
  limiter : Limiter Float Instant

/-- A caller asks. If it waits, its patience begins at once; whoever is to cancel it gets a turn
first. -/
def heed (l : Limiter Float Instant) (now : Instant) (n : Nat) (c : Caller) : Consequence :=
  match l.ask c now with
  | (.settled outcome time, l) => ⟨some (n, outcome, time), none, l⟩
  | (.waits .cancelled time, l) => ⟨none, some (now, .arms n time), l⟩
  | (.waits outcome time, l) => ⟨none, some (time, .leaves n outcome), l⟩

/-- An item happens. A caller that does not have to sleep asks as soon as it begins. -/
def happen (l : Limiter Float Instant) (now : Instant) : Item → Consequence
  | .begins n c =>
    if c.arrival = .zero then l.heed now n c
    else ⟨none, some (Instant.tick (Instant.wake now c.arrival), .asks n c), l⟩
  | .asks n c => l.heed now n c
  | .arms n time => ⟨none, some (time, .cancels n), l⟩
  | .cancels n => ⟨none, some (now, .leaves n .cancelled), l⟩
  | .leaves n outcome => ⟨some (n, outcome, now), none, l.giveBack⟩

/-- The most items that there can be about one caller. -/
def itemsEach : Nat := 5

/-- Puts an item behind all items that are not later. -/
def schedule (t : Instant) (item : Item) : List (Instant × Item) → List (Instant × Item)
  | [] => [(t, item)]
  | (u, other) :: rest =>
    if u ≤ t then (u, other) :: schedule t item rest else (t, item) :: (u, other) :: rest

/-- Works through at most so many items of an agenda. Gives the outcomes of the callers that are
settled, by their numbers. -/
def work : Nat → List (Instant × Item) → Limiter Float Instant →
    List (Nat × Outcome × Instant) × Limiter Float Instant
  | 0, _, l => ([], l)
  | _ + 1, [], l => ([], l)
  | items + 1, (now, item) :: agenda, l =>
    let c := l.happen now item
    let agenda := match c.further with
      | some (time, item) => schedule time item agenda
      | none => agenda
    let (done, l) := work items agenda c.limiter
    (c.settled.toList ++ done, l)

/-- Serves callers that begin at an instant, in the order of the list. Gives the outcomes in the
order of the list. -/
def serve (start : Instant) (callers : List Caller) (l : Limiter Float Instant) :
    List (Option (Outcome × Instant)) × Limiter Float Instant :=
  let agenda := callers.zipIdx.map fun (c, n) => (start, Item.begins n c)
  let (done, l) := work (itemsEach * callers.length) agenda l
  ((List.range callers.length).map fun n => (done.find? fun d => d.1 = n).map (·.2), l)

/-- Takes permits one after the other until a deadline, and at most `most` of them. Gives their
number and the instant of the end. -/
def count (deadline : Instant) :
    (most : Nat) → Instant → Limiter Float Instant → Nat × Instant × Limiter Float Instant
  | 0, now, l => (0, now, l)
  | most + 1, now, l =>
    match l.serve now [{ arrival := .zero, patience := some ⟨deadline - now⟩ }] with
    | ([some (.granted, t)], l) =>
      let (n, t, l) := count deadline most t l
      (n + 1, t, l)
    | ([some (_, t)], l) => (0, t, l)
    | (_, l) => (0, now, l)

end TraceLoad.Limiter
