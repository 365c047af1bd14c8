/-! # Streams of random words

Everything random in a generated trace is drawn from a stream of 32-bit words. A stream is any
state with a `next` function, so what is proved about draws holds for a seeded keystream, for a
list of words repeated for ever, and for any other source alike.

* `Words.take n s` is the next `n` words together with the stream after them; every draw below
  is a function of such a prefix, and says how many words it reads.
* `Repeating` is the stream that goes round a list of words.
-/

namespace TraceLoad

/-- A stream of 32-bit words: the word that comes next, and the stream behind it. -/
class WordSource (σ : Type) where
  next : σ → UInt32 × σ

namespace Words

variable {σ : Type} [WordSource σ]

/-- One word. -/
def word (s : σ) : UInt32 × σ := WordSource.next s

/-- The next `n` words, in the order in which the stream gives them. -/
def take : Nat → σ → List UInt32 × σ
  | 0, s => ([], s)
  | n + 1, s =>
    let (w, s) := word s
    let (ws, s) := take n s
    (w :: ws, s)

/-- The stream without its next `n` words. -/
def drop (n : Nat) (s : σ) : σ := (take n s).2

/-- Two words as one 64-bit number; the first word is the low half. -/
def wide (s : σ) : UInt64 × σ :=
  let (lo, s) := word s
  let (hi, s) := word s
  (hi.toUInt64 <<< 32 ||| lo.toUInt64, s)

/-- The four bytes of a word, the least significant first. -/
def bytesOf (w : UInt32) : List UInt8 :=
  [w.toUInt8, (w >>> 8).toUInt8, (w >>> 16).toUInt8, (w >>> 24).toUInt8]

/-- The bytes of `n` words. -/
def bytes (n : Nat) (s : σ) : List UInt8 × σ :=
  let (ws, s) := take n s
  (ws.flatMap bytesOf, s)

/-- A fair coin: heads iff a 64-bit number falls into the lower half of its range. -/
def coin (s : σ) : Bool × σ :=
  let (x, s) := wide s
  (decide (x.toNat < UInt64.size / 2), s)

/-- A number from 1 to `n`, by scaling a word to `n` parts of its range. When the low half of the
product leaves the result open, one more word decides whether to round up, and then the result
may be `n + 1`. -/
def upTo (n : Nat) (s : σ) : Nat × σ :=
  let (w, s) := word s
  let scaled := w.toNat * n
  let part := scaled / UInt32.size
  let low := scaled % UInt32.size
  if low > UInt32.size - n then
    let (w', s) := word s
    (1 + (if low + w'.toNat * n / UInt32.size ≥ UInt32.size then part + 1 else part), s)
  else
    (1 + part, s)

@[simp] theorem length_take (n : Nat) (s : σ) : (take n s).1.length = n := by
  induction n generalizing s with
  | zero => rfl
  | succ n ih => simp [take, ih]

@[simp] theorem length_bytes (n : Nat) (s : σ) : (bytes n s).1.length = 4 * n := by
  have four : ∀ ws : List UInt32, (ws.flatMap bytesOf).length = 4 * ws.length := by
    intro ws
    induction ws with
    | nil => rfl
    | cons w ws ih =>
      simp only [List.flatMap_cons, List.length_append, ih, List.length_cons]
      simp [bytesOf]
      omega
  simp [bytes, four]

end Words

/-- A list of words, said over and over: what is left of the present round, and the whole list.
The stream of the empty list is zero throughout. -/
structure Repeating where
  left : List UInt32
  all : List UInt32
deriving DecidableEq

namespace Repeating

def ofList (ws : List UInt32) : Repeating := ⟨ws, ws⟩

def next (r : Repeating) : UInt32 × Repeating :=
  match r.left, r.all with
  | w :: ws, all => (w, ⟨ws, all⟩)
  | [], w :: ws => (w, ⟨ws, w :: ws⟩)
  | [], [] => (0, r)

instance : WordSource Repeating := ⟨next⟩

end Repeating

end TraceLoad
