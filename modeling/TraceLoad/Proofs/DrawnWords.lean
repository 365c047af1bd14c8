import TraceLoad.Proofs.Walk

/-! # Where the words of a trace stand

A trace reads its stream from front to back: what its spans share, then its identifier, then the
identifiers of its spans in preorder. A walk takes two words for each of its stamps, and walks one
after another take theirs one after another: `InTurn` is kept by `append`, which is what carries the
offset through the subtrees. So where an identifier stands depends only on the position of its span
(`Drawn`).
-/

namespace TraceLoad

namespace Words

variable {σ : Type} [WordSource σ]

/-! ## Places in a stream -/

/-- Words are left out in two parts as well as in one. -/
theorem drop_add (m n : Nat) (s : σ) : drop (m + n) s = drop n (drop m s) := by
  induction m generalizing s with
  | zero =>
    rw [Nat.zero_add]
    rfl
  | succ m ih =>
    rw [Nat.succ_add]
    exact ih (word s).2

/-- Words are taken in two parts as well as in one. -/
theorem take_add (m n : Nat) (s : σ) :
    (take (m + n) s).1 = (take m s).1 ++ (take n (drop m s)).1 := by
  induction m generalizing s with
  | zero =>
    rw [Nat.zero_add]
    rfl
  | succ m ih =>
    rw [Nat.succ_add]
    exact congrArg ((word s).1 :: ·) (ih (word s).2)

/-- The bytes of the `n` words that stand behind the first `i` ones. -/
def bytesAt (i n : Nat) (s : σ) : List UInt8 := (bytes n (drop i s)).1

/-- Behind words that are left out all others are counted from there. -/
theorem bytesAt_drop (i j n : Nat) (s : σ) : bytesAt j n (drop i s) = bytesAt (i + j) n s := by
  unfold bytesAt
  rw [drop_add]

/-- How many words `upTo n` reads. -/
def upToLength (n : Nat) (s : σ) : Nat :=
  if (word s).1.toNat * n % UInt32.size > UInt32.size - n then 2 else 1

/-- A number up to a bound takes one word, and a second one when the first leaves it open. -/
theorem upToLength_eq_one_or_two (n : Nat) (s : σ) : upToLength n s = 1 ∨ upToLength n s = 2 := by
  unfold upToLength
  split
  · exact .inr rfl
  · exact .inl rfl

/-- A number up to a bound leaves the stream behind the words that it takes. -/
theorem snd_upTo (n : Nat) (s : σ) : (upTo n s).2 = drop (upToLength n s) s := by
  unfold upTo upToLength
  dsimp only
  split
  · rfl
  · rfl

end Words

namespace Emitter

variable {σ : Type} [WordSource σ]

/-! ## What a trace reads first -/

/-- How many words are read for what the spans of a trace share: two for the kind, and one or two
for the status. -/
def shareLength (s : σ) : Nat := 2 + Words.upToLength 10 (Words.drop 2 s)

theorem snd_drawKind (s : σ) : (TraceAttributes.drawKind s).2 = Words.drop 2 s := rfl

theorem snd_drawStatus (s : σ) :
    (TraceAttributes.drawStatus (Words.drop 2 s)).2 = Words.drop (shareLength s) s := by
  unfold shareLength
  rw [Words.drop_add]
  exact Words.snd_upTo 10 (Words.drop 2 s)

/-- What a trace shares is drawn from its first words. -/
theorem snd_draw (s : σ) : (TraceAttributes.draw s).2 = Words.drop (shareLength s) s :=
  snd_drawStatus s

/-- What a trace shares takes three words or four. -/
theorem shareLength_eq (s : σ) : shareLength s = 2 + 1 ∨ shareLength s = 2 + 2 := by
  unfold shareLength
  rcases Words.upToLength_eq_one_or_two 10 (Words.drop 2 s) with hone | htwo
  · exact .inl (congrArg (2 + ·) hone)
  · exact .inr (congrArg (2 + ·) htwo)

/-! ## Two words for each stamp -/

/-- The span identifiers of some stamps stand in a stream one behind the other, two words for each,
and what is behind them is left. -/
structure InTurn (s : σ) (stamps : List Stamp) (s' : σ) : Prop where
  ids : stamps.map (·.context.spanId.bytes) =
    (List.range stamps.length).map fun k => Words.bytesAt (2 * k) 2 s
  left : s' = Words.drop (2 * stamps.length) s

namespace InTurn

theorem nil (s : σ) : InTurn s [] s := ⟨rfl, rfl⟩

/-- Stamps that are drawn in two turns are drawn in one. -/
theorem append {s s₁ s' : σ} {stamps stamps' : List Stamp} (h : InTurn s stamps s₁)
    (h' : InTurn s₁ stamps' s') : InTurn s (stamps ++ stamps') s' := by
  constructor
  case ids =>
    rw [List.map_append, List.length_append, List.range_add, List.map_append, List.map_map, h.ids,
      h'.ids, h.left]
    congr 1
    apply List.map_congr_left
    intro k _
    rw [Words.bytesAt_drop, Function.comp_apply, Nat.mul_add]
  case left =>
    rw [h'.left, h.left, ← Words.drop_add, List.length_append, Nat.mul_add]

end InTurn

theorem inTurn_stampBelow {tracer : Tracer} {shared : TraceAttributes} {d : Descriptor}
    {parent : TraceContext} {e : Emission σ} {s : Stamp}
    (first : s = stampBelow tracer shared d parent e) :
    InTurn e.words [s] (afterStamp s e).words := by
  subst first
  exact ⟨rfl, rfl⟩

/-- A walk takes two words for each stamp, also if it stops. -/
theorem Walk.inTurn {r : Registry} {shared : TraceAttributes} {f : Forest} {parent : TraceContext}
    {e e' : Emission σ} {stamps : List Stamp} {stop : Option Descriptor}
    (h : Walk r shared f parent e stamps stop e') : InTurn e.words stamps e'.words := by
  -- how a context is handed down and which tracer is bound makes no difference to the words
  induction h with
  | nil => exact .nil _
  | unbound _ => exact .nil _
  | stuck _ first _ ih => exact (inTurn_stampBelow first).append ih
  | cons _ first _ _ ihUnder ihNext =>
    exact ((inTurn_stampBelow first).append ihUnder).append ihNext

/-! ## The identifiers of a trace -/

/-- Behind what its spans share stands the identifier of a trace, and then those of its spans in
their order. -/
structure Drawn (s : σ) (stamps : List Stamp) : Prop where
  trace : ∀ st ∈ stamps, st.span.traceId.bytes = Words.bytesAt (shareLength s) 4 s
  spans : stamps.map (·.span.spanId.bytes) =
    (List.range stamps.length).map fun k => Words.bytesAt (shareLength s + 4 + 2 * k) 2 s

/-- The identifier of the trace is made of the four words behind what is shared. -/
theorem bytes_rootContext (e : Emission σ) :
    (rootContext e).1.traceId.bytes = Words.bytesAt (shareLength e.words) 4 e.words := by
  unfold Words.bytesAt
  rw [← snd_draw]
  rfl

/-- The root is stamped before the walk begins, behind the words that are read before that. -/
theorem Walk.inTurn_root {r : Registry} {shared : TraceAttributes} {f : Forest}
    {parent : TraceContext} {tracer : Tracer} {root : Descriptor} {e last : Emission σ}
    {stamps : List Stamp} {stop : Option Descriptor}
    (h : Walk r shared f parent (afterRoot tracer root e) stamps stop last) :
    InTurn (Words.drop (shareLength e.words + 4) e.words) (stampRoot tracer root e last :: stamps)
      last.words := by
  have hroot : InTurn (Words.drop (shareLength e.words + 4) e.words)
      [stampRoot tracer root e last] (afterRoot tracer root e).words := by
    rw [Words.drop_add, ← snd_draw]
    exact ⟨rfl, rfl⟩
  exact hroot.append h.inTurn

/-- Stamps that stand in turn behind the identifier of their trace, and whose spans say so, are
drawn. -/
theorem InTurn.drawn {r : Registry} {shared : TraceAttributes} {trace : TraceId} {s s' : σ}
    {stamps : List Stamp} (h : InTurn (Words.drop (shareLength s + 4) s) stamps s')
    (hfits : ∀ st ∈ stamps, ∃ name, Fits r shared trace name st)
    (htrace : trace.bytes = Words.bytesAt (shareLength s) 4 s) : Drawn s stamps := by
  constructor
  case trace =>
    intro st hst
    rcases hfits st hst with ⟨_, hst⟩
    rw [hst.traceId, htrace]
  case spans =>
    -- the span of a stamp has the identifier of its context
    have hids : stamps.map (·.span.spanId.bytes) = stamps.map (·.context.spanId.bytes) := by
      apply List.map_congr_left
      intro st hst
      rcases hfits st hst with ⟨_, hst⟩
      rw [hst.spanId]
    rw [hids, h.ids]
    apply List.map_congr_left
    intro k _
    rw [Words.bytesAt_drop]

end Emitter

end TraceLoad
