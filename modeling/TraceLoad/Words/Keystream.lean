import TraceLoad.Words

/-! # The keystream of a seed

A 64-bit seed fixes the whole stream of words: a small generator stretches the seed to a key of
eight words, and the stream is the keystream of the twelve-round block cipher under that key, its
64-bit block counter starting at zero. Two streams with one seed are therefore equal word for
word, whatever else differs between the runs that read them.
-/

namespace TraceLoad

/-- A keystream: the key, the number of the next block, and what is left of the present one. -/
structure Keystream where
  key : Vector UInt32 8
  counter : UInt64
  left : List UInt32
deriving DecidableEq

namespace Keystream

def rotateLeft (w : UInt32) (n : UInt32) : UInt32 := w <<< n ||| w >>> (32 - n)

def rotateRight (w : UInt32) (n : UInt32) : UInt32 :=
  if n = 0 then w else w >>> n ||| w <<< (32 - n)

/-- One word of the key: the generator's state moves on, and the new state is folded to a word
whose rotation the state's top bits choose. -/
def stretch (state : UInt64) : UInt32 × UInt64 :=
  let state := state * 6364136223846793005 + 11634580027462260723
  let folded := (((state >>> 18) ^^^ state) >>> 27).toUInt32
  (rotateRight folded (state >>> 59).toUInt32, state)

/-- `n` words stretched from a seed. -/
def stretchMany : (n : Nat) → UInt64 → Vector UInt32 n
  | 0, _ => #v[]
  | n + 1, state =>
    let (w, state) := stretch state
    (#v[w] ++ stretchMany n state).cast (Nat.add_comm 1 n)

def ofSeed (seed : UInt64) : Keystream := ⟨stretchMany 8 seed, 0, []⟩

/-- The mixing of four words of a block. -/
def quarterRound (s : Vector UInt32 16) (a b c d : Fin 16) : Vector UInt32 16 :=
  let s := s.set a (s[a] + s[b])
  let s := s.set d (rotateLeft (s[d] ^^^ s[a]) 16)
  let s := s.set c (s[c] + s[d])
  let s := s.set b (rotateLeft (s[b] ^^^ s[c]) 12)
  let s := s.set a (s[a] + s[b])
  let s := s.set d (rotateLeft (s[d] ^^^ s[a]) 8)
  let s := s.set c (s[c] + s[d])
  s.set b (rotateLeft (s[b] ^^^ s[c]) 7)

/-- Two rounds: the four columns of the block, then its four diagonals. -/
def doubleRound (s : Vector UInt32 16) : Vector UInt32 16 :=
  let s := quarterRound s 0 4 8 12
  let s := quarterRound s 1 5 9 13
  let s := quarterRound s 2 6 10 14
  let s := quarterRound s 3 7 11 15
  let s := quarterRound s 0 5 10 15
  let s := quarterRound s 1 6 11 12
  let s := quarterRound s 2 7 8 13
  quarterRound s 3 4 9 14

/-- `n` double rounds. -/
def mix : Nat → Vector UInt32 16 → Vector UInt32 16
  | 0, s => s
  | n + 1, s => mix n (doubleRound s)

/-- The block before it is mixed: four constant words, the key, the counter's low and high half,
and two zero words. -/
def layout (key : Vector UInt32 8) (counter : UInt64) : Vector UInt32 16 :=
  #v[0x61707865, 0x3320646e, 0x79622d32, 0x6b206574,
    key[0], key[1], key[2], key[3], key[4], key[5], key[6], key[7],
    counter.toUInt32, (counter >>> 32).toUInt32, 0, 0]

/-- The sixteen words of one block: twelve rounds over the layout, added to the layout. -/
def block (key : Vector UInt32 8) (counter : UInt64) : Vector UInt32 16 :=
  let plain := layout key counter
  (mix 6 plain).zipWith (· + ·) plain

def next (k : Keystream) : UInt32 × Keystream :=
  match k.left with
  | w :: ws => (w, { k with left := ws })
  | [] =>
    match (block k.key k.counter).toList with
    | w :: ws => (w, { k with counter := k.counter + 1, left := ws })
    | [] => (0, k)

instance : WordSource Keystream := ⟨next⟩

end Keystream

end TraceLoad
