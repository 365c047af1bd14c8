/-! # The permit limiter

Traces are started at a limited rate. Permits are tokens in a bucket that holds one at most and
fills up at the rate. A caller takes its token at once, on credit if there is none; the debt says
how long it has to wait, so callers are served in the order in which they came. A caller that
gives up while it waits hands its token back.

The bucket is the same for every kind of number and of time (`Timeline`): runs use binary numbers
and nanoseconds, and the laws of the bucket are those of exact numbers.
-/

namespace TraceLoad

/-- Numbers that count tokens, and instants of a clock that measures in them. -/
class Timeline (α τ : Type) where
  /-- the seconds from the first instant to the second; none if the second is not later -/
  elapsed : τ → τ → α
  /-- the instant at which a wait of so many seconds is over -/
  later : τ → α → τ

/-- The tokens at hand, and when they were last counted. A negative number is a debt. -/
structure Bucket (α τ : Type) where
  tokens : α
  last : τ
deriving DecidableEq

namespace Bucket

variable {α τ : Type} [Add α] [Sub α] [Mul α] [Neg α] [Div α] [LE α] [DecidableLE α]
  [OfNat α 0] [OfNat α 1] [Timeline α τ]

/-- A bucket with the one token that it can hold. -/
def full (now : τ) : Bucket α τ := ⟨1, now⟩

/-- The bucket holds no more than one token. -/
def cap (x : α) : α := if x ≤ 1 then x else 1

/-- Counts the tokens that have come in since the last count. -/
def refill (rate : α) (now : τ) (b : Bucket α τ) : Bucket α τ :=
  ⟨cap (b.tokens + Timeline.elapsed b.last now * rate), now⟩

/-- Takes a token, on credit if need be. -/
def take (b : Bucket α τ) : Bucket α τ := { b with tokens := b.tokens - 1 }

/-- Hands a token back. -/
def giveBack (b : Bucket α τ) : Bucket α τ := { b with tokens := cap (b.tokens + 1) }

/-- How many seconds it takes to pay off a debt. -/
def debtTime (rate : α) (b : Bucket α τ) : α := -b.tokens / rate

end Bucket

/-- What a caller gets: the permit, or a place in the queue up to an instant. -/
inductive Permit (τ : Type) where
  | granted
  | queued (due : τ)
deriving DecidableEq

/-- A bucket and the rate at which it fills; without a rate permits are free. -/
structure Limiter (α τ : Type) where
  rate : Option α
  bucket : Bucket α τ
deriving DecidableEq

namespace Limiter

variable {α τ : Type} [Add α] [Sub α] [Mul α] [Neg α] [Div α] [LE α] [DecidableLE α]
  [OfNat α 0] [OfNat α 1] [Timeline α τ]

def ofRate (rate : Option α) (now : τ) : Limiter α τ := ⟨rate, .full now⟩

def isUnlimited (l : Limiter α τ) : Bool := l.rate.isNone

/-- Asks for a permit. -/
def acquire (now : τ) (l : Limiter α τ) : Permit τ × Limiter α τ :=
  match l.rate with
  | none => (.granted, l)
  | some rate =>
    let b := (l.bucket.refill rate now).take
    if 0 ≤ b.tokens then (.granted, { l with bucket := b })
    else (.queued (Timeline.later now (b.debtTime rate)), { l with bucket := b })

/-- Leaves the queue without the permit. -/
def giveBack (l : Limiter α τ) : Limiter α τ := { l with bucket := l.bucket.giveBack }

end Limiter

end TraceLoad
