import TraceLoad.Proofs.Replay

/-! # The order in which words are read

Where an identifier stands in the stream depends only on the position of its span (`ReadsOff`), so
that traces of the same words have the same identifiers at the same places, whatever they are traces
of. A worker, who keeps its stream from one trace to the next, reads one segment of it after the
other (`Worker.Traces.segments`).
-/

namespace TraceLoad

namespace Words

variable {σ σ₂ : Type} [WordSource σ] [WordSource σ₂] {s : σ} {s₂ : σ₂}

/-! ## Streams of the same words -/

/-- Two streams, which may be kept in different ways, give the same words. -/
def Same (s : σ) (s₂ : σ₂) : Prop := ∀ n, (take n s).1 = (take n s₂).1

/-- What is the same stays the same when words are left out. -/
theorem Same.drop (h : Same s s₂) (m : Nat) : Same (Words.drop m s) (Words.drop m s₂) := by
  intro n
  have hall := h (m + n)
  rw [take_add, take_add, h m] at hall
  exact List.append_cancel_left hall

theorem Same.word (h : Same s s₂) : (Words.word s).1 = (Words.word s₂).1 :=
  (List.cons.inj (h 1)).1

theorem Same.bytesAt (h : Same s s₂) (i n : Nat) : bytesAt i n s = Words.bytesAt i n s₂ :=
  congrArg (List.flatMap bytesOf) (h.drop i n)

theorem Same.upToLength (h : Same s s₂) (n : Nat) : upToLength n s = Words.upToLength n s₂ := by
  unfold Words.upToLength
  rw [h.word]

end Words

/-- A stream that counts the words that are taken from it. -/
structure Counted (σ : Type) where
  stream : σ
  taken : Nat

namespace Counted

variable {σ : Type} [WordSource σ]

def next (c : Counted σ) : UInt32 × Counted σ :=
  ((WordSource.next c.stream).1, ⟨(WordSource.next c.stream).2, c.taken + 1⟩)

instance : WordSource (Counted σ) := ⟨next⟩

/-- A counted stream gives the words of the stream, and counts them. -/
theorem take_eq (n : Nat) (c : Counted σ) :
    Words.take n c = ((Words.take n c.stream).1, ⟨Words.drop n c.stream, c.taken + n⟩) := by
  induction n generalizing c with
  | zero => rfl
  | succ n ih =>
    have hsucc : Words.take (n + 1) c = ((Words.word c).1 :: (Words.take n (Words.word c).2).1,
        (Words.take n (Words.word c).2).2) := rfl
    have htaken : (Words.word c).2.taken + n = c.taken + (n + 1) := Nat.succ_add_eq_add_succ _ _
    rw [hsucc, ih, htaken]
    rfl

/-- Nobody can tell from the words that they are counted. -/
theorem same (c : Counted σ) : Words.Same c c.stream := by
  intro n
  rw [take_eq]

theorem taken_drop (n : Nat) (c : Counted σ) : (Words.drop n c).taken = c.taken + n := by
  unfold Words.drop
  rw [take_eq]

end Counted

namespace Emitter

variable {σ σ₂ : Type} [WordSource σ] [WordSource σ₂]

/-! ## How much a trace reads -/

/-- How many words a trace of `n` spans reads. -/
def traceLength (n : Nat) (s : σ) : Nat := shareLength s + 4 + 2 * n

/-- Streams that are the same share as many words. -/
theorem shareLength_same {s : σ} {s₂ : σ₂} (h : Words.Same s s₂) :
    shareLength s = shareLength s₂ := by
  unfold shareLength
  rw [(h.drop 2).upToLength 10]

/-- Streams that are the same give traces of the same length. -/
theorem traceLength_same {s : σ} {s₂ : σ₂} (h : Words.Same s s₂) (n : Nat) :
    traceLength n s = traceLength n s₂ := by
  unfold traceLength
  rw [shareLength_same h]

/-! ## Identifiers by position -/

/-- The identifiers of the spans that start in a log: of the trace, and of the span. -/
def identifiers (log : List Event) : List (List UInt8 × List UInt8) :=
  (log.filterMap Event.started?).map fun span => (span.traceId.bytes, span.spanId.bytes)

/-- The log of the trace of a tree that is read off a stream, and the stream that is left. -/
structure ReadsOff (s : σ) (tree : SpanTree) (log : List Event) (s' : σ) : Prop where
  /-- the spans start in preorder -/
  named : (log.filterMap Event.started?).map (·.name) = tree.preorder.map (spanName tree.root)
  /-- the first two words are the kind that all spans share, and one or two more the status -/
  share : (TraceAttributes.drawKind s).2 = Words.drop 2 s ∧
    (TraceAttributes.drawStatus (Words.drop 2 s)).2 = Words.drop (shareLength s) s ∧
    (shareLength s = 2 + 1 ∨ shareLength s = 2 + 2)
  shared : (log.filterMap Event.started?).map (·.attributes) =
    tree.preorder.map fun d => (TraceAttributes.draw s).1.forService d.service
  /-- the next four words identify the trace, and then two words each span -/
  ids : identifiers log = (List.range tree.preorder.length).map fun k =>
    (Words.bytesAt (shareLength s) 4 s, Words.bytesAt (shareLength s + 4 + 2 * k) 2 s)
  left : s' = Words.drop (traceLength tree.preorder.length s) s

/-- Of two logs that are read off streams of the same words, the identifiers of one begin those of
the other, whatever trees they are of. -/
theorem ReadsOff.oneBegins {s s' : σ} {s₂ s₂' : σ₂} {tree tree₂ : SpanTree}
    {log log₂ : List Event} (h : ReadsOff s tree log s') (h₂ : ReadsOff s₂ tree₂ log₂ s₂')
    (hsame : Words.Same s s₂) : OneBegins (identifiers log) (identifiers log₂) := by
  have hrange : ∀ {a b : Nat}, a ≤ b → List.range a <+: List.range b := by
    intro a b hab
    rw [← Nat.add_sub_cancel' hab, List.range_add]
    exact List.prefix_append _ _
  rw [h.ids, h₂.ids]
  simp only [hsame.bytesAt, shareLength_same hsame]
  rcases Nat.le_total tree.preorder.length tree₂.preorder.length with hle | hle
  · exact .inl ((hrange hle).map _)
  · exact .inr ((hrange hle).map _)

/-- The identifiers in the log of a trace are those that are drawn for it. -/
theorem identifiers_traceLog {r : Registry} {shared : TraceAttributes} {tree : SpanTree} {s : σ}
    {top : Stamp} {stamps : List Stamp} (h : Stamped r shared tree top stamps)
    (hdrawn : Drawn s (top :: stamps)) :
    identifiers (traceLog top stamps) = (List.range tree.preorder.length).map fun k =>
      (Words.bytesAt (shareLength s) 4 s, Words.bytesAt (shareLength s + 4 + 2 * k) 2 s) := by
  -- all spans have the identifier of the trace
  have hpairs : identifiers (traceLog top stamps) =
      ((top :: stamps).map (·.span.spanId.bytes)).map
        fun id => (Words.bytesAt (shareLength s) 4 s, id) := by
    unfold identifiers
    rw [started_traceLog, List.map_map, List.map_map]
    apply List.map_congr_left
    intro st hst
    rw [Function.comp_apply, Function.comp_apply, hdrawn.trace st hst]
  rw [hpairs, hdrawn.spans, List.map_map, ← h.descriptors, List.length_map]
  rfl

/-- An emission of a tree that succeeds, and reads the trace off its stream. -/
def EmitsInOrder (e : Emission σ) (tree : SpanTree)
    (outcome : Except EmitError Nat × Emission σ) : Prop :=
  ∃ log, outcome.1 = .ok tree.preorder.length ∧
    outcome.2.events.toList = e.events.toList ++ log ∧ ReadsOff e.words tree log outcome.2.words

/-- With a tracer for every service below its root a tree is emitted in order. -/
theorem emitTree_inOrder (m : Emitter) {ds : List Descriptor} {tree : SpanTree} {tracer : Tracer}
    (hs : tree.Follows ds) (hnodup : tree.preorder.Nodup)
    (bound : m.registry.tracer? tree.root.service = some tracer)
    (hcover : ∀ x ∈ tree.below.preorder, (m.registry.tracer? x.service).isSome) (e : Emission σ) :
    EmitsInOrder e tree (m.emitTree tracer tree e) := by
  rcases emitTree_walk m tracer tree e with ⟨stamps, stop, last, hwalk, hok, hwords, -, hlog⟩
  -- the walk gets through, since there is a tracer for everybody
  have hstop : stop = none := hwalk.stop_eq_none hcover
  subst hstop
  have hstamped := hwalk.stamped hs bound
  have hturn := hwalk.inTurn_root
  -- there is one stamp for each descriptor
  have hlength : tree.preorder.length = (stampRoot tracer tree.root e last :: stamps).length := by
    rw [← hstamped.descriptors, List.length_map]
  refine ⟨_, ?ok, hlog, ?reads⟩
  case ok =>
    rw [hok, SpanTree.length_preorder]
    rfl
  case reads =>
    constructor
    case named => exact hstamped.started_names hnodup
    case share => exact ⟨snd_drawKind _, snd_drawStatus _, shareLength_eq _⟩
    case shared =>
      rw [started_traceLog, ← hstamped.descriptors, List.map_map, List.map_map]
      apply List.map_congr_left
      intro st hst
      rcases hstamped.exists_fits hst with ⟨_, hfits⟩
      exact hfits.attributes
    case ids => exact identifiers_traceLog hstamped (hwalk.drawn hs bound)
    case left =>
      unfold traceLength
      rw [hwords, hturn.left, ← Words.drop_add, hlength]

/-- A descriptor of an accepted topology whose services all have tracers. -/
structure Ready (m : Emitter) (ds : List Descriptor) (d : Descriptor) : Prop where
  accepted : Topology.ofDescriptors ds = .ok m.topology
  covered : ∀ x ∈ ds, (m.registry.tracer? x.service).isSome
  mem : d ∈ ds

variable {m : Emitter} {ds : List Descriptor} {d : Descriptor} {tree : SpanTree}

/-- A descriptor that is ready has its subtree. -/
theorem Ready.exists_subtree? (h : Ready m ds d) :
    ∃ tree, m.topology.subtree? d.id = some tree ∧ tree.root = d ∧ tree.Follows ds := by
  rcases Topology.ofDescriptors_eq_ok_iff.1 h.accepted with ⟨rfl, hwell⟩
  rcases hwell.exists_subtree? h.mem with ⟨tree, htree, hroot⟩
  rcases hwell.of_subtree? htree with ⟨_, _, hfollows, _⟩
  exact ⟨tree, htree, hroot, hfollows⟩

/-- The emission of a descriptor that is ready reads its words in order. -/
theorem Ready.emit_inOrder (h : Ready m ds d) (htree : m.topology.subtree? d.id = some tree)
    (e : Emission σ) : EmitsInOrder e tree (m.emit d.id e) := by
  rcases Topology.ofDescriptors_eq_ok_iff.1 h.accepted with ⟨rfl, hwell⟩
  obtain ⟨tree', tracer, htree', _, hfollows, hnodup, bound, hbelow, hemit⟩ :=
    exists_emitTree (σ := σ) hwell h.mem h.covered
  obtain rfl := Option.some.inj (htree.symm.trans htree')
  rw [hemit]
  exact emitTree_inOrder m hfollows hnodup bound hbelow e

/-- As many words are taken as a trace of this length reads, and not one more. -/
theorem taken_of_inOrder {e : Emission (Counted σ)}
    {outcome : Except EmitError Nat × Emission (Counted σ)} (h : EmitsInOrder e tree outcome) :
    outcome.2.words.taken =
      e.words.taken + traceLength tree.preorder.length e.words.stream := by
  rcases h with ⟨log, _, _, hreads⟩
  rw [hreads.left, Counted.taken_drop, traceLength_same e.words.same]

end Emitter

namespace Worker

open Emitter (traceLength ReadsOff EmitsInOrder)

variable {σ τ : Type} [WordSource σ] {p : Plan} {tree : SpanTree} {s s' : σ} {k n size : Nat}
  {traces : List (List Event)} {w : Worker σ τ} {log : List Event}

/-! ## Segments of a worker's stream -/

/-- Where a trace begins in a stream from which traces of `n` spans are read. -/
def traceStart (n : Nat) (s : σ) : Nat → Nat
  | 0 => 0
  | k + 1 => traceStart n s k + traceLength n (Words.drop (traceStart n s k) s)

/-- A trace is read off the segment of a stream that has its number. -/
def ReadsSegment (s : σ) (tree : SpanTree) (k : Nat) (trace : List Event) : Prop :=
  ReadsOff (Words.drop (traceStart tree.preorder.length s k) s) tree trace
    (Words.drop (traceStart tree.preorder.length s (k + 1)) s)

/-- What is emitted where a segment begins is read off that segment. -/
theorem segment_of_emit {clock : Clock} {e : Emission σ}
    (hemit : ∀ e : Emission σ, EmitsInOrder e tree (p.emitter.emit p.root e))
    (hs : s' = Words.drop (traceStart tree.preorder.length s k) s)
    (emits : p.emitter.emit p.root ⟨s', clock, #[]⟩ = (.ok n, e)) :
    ReadsSegment s tree k e.events.toList ∧
      e.words = Words.drop (traceStart tree.preorder.length s (k + 1)) s := by
  rcases hemit ⟨s', clock, #[]⟩ with ⟨log, _, hlog, hreads⟩
  rw [emits] at hlog hreads
  rw [List.nil_append] at hlog
  -- a trace leaves the stream where the next one begins
  have hleft : e.words = Words.drop (traceStart tree.preorder.length s (k + 1)) s := by
    rw [hreads.left, hs, ← Words.drop_add]
    rfl
  constructor
  · unfold ReadsSegment
    rw [hlog, ← hleft, ← hs]
    exact hreads
  · exact hleft

/-- Traces one after another are read off one segment after another. -/
theorem Traces.segments (hemit : ∀ e : Emission σ, EmitsInOrder e tree (p.emitter.emit p.root e))
    (h : Traces p s traces s') :
    s' = Words.drop (traceStart tree.preorder.length s traces.length) s ∧
      ∀ k trace, traces[k]? = some trace → ReadsSegment s tree k trace := by
  induction h with
  | nil => exact ⟨rfl, by simp⟩
  | @snoc logs s' clock n e before emits ih =>
    rcases ih with ⟨hs', hlogs⟩
    rcases segment_of_emit hemit hs' emits with ⟨hsegment, hwords⟩
    rw [List.length_append, List.length_singleton]
    refine ⟨hwords, ?_⟩
    intro k trace htrace
    -- the trace is one of those before, or the last one
    rcases Nat.lt_or_ge k logs.length with hlt | hge
    · rw [List.getElem?_append_left hlt] at htrace
      exact hlogs k trace htrace
    · rw [List.getElem?_append_right hge, List.getElem?_singleton] at htrace
      split at htrace
      · next hlast =>
        have hk : k = logs.length := by omega
        rw [hk, ← Option.some.inj htrace]
        exact hsegment
      · cases htrace

/-- What a worker that began with the stream `s` has put on the record: traces that are read off one
segment of it after another, and the beginning of the next one. -/
structure InSegments (s : σ) (tree : SpanTree) (w : Worker σ τ) (log : List Event) : Prop where
  log : ∃ traces next rest, log = traces.flatten ++ rest ∧ traces.length = w.traces ∧
    rest <+: next ∧ ∀ k trace, (traces ++ [next])[k]? = some trace → ReadsSegment s tree k trace
  /-- the stream stands where the traces that have been begun end -/
  left : w.words = Words.drop (traceStart tree.preorder.length s w.begun) s

theorem Books.inSegments
    (hemit : ∀ e : Emission σ, EmitsInOrder e tree (p.emitter.emit p.root e))
    (h : Books p size s w log) : InSegments s tree w log := by
  have hok : ∀ (s : σ) clock, ∃ n e, p.emitter.emit p.root ⟨s, clock, #[]⟩ = (.ok n, e) := by
    intro s clock
    rcases hemit ⟨s, clock, #[]⟩ with ⟨_, hanswer, _⟩
    exact ⟨_, _, Prod.ext hanswer rfl⟩
  rcases h.log with ⟨traces, s', rest, htraces, hlog, hlength, hrest⟩
  rcases hrest.begins hok with ⟨clock, n, e, emits, hbegins⟩
  constructor
  case log =>
    have hall := (htraces.snoc emits).segments hemit
    exact ⟨traces, e.events.toList, rest, hlog, hlength, hbegins, hall.2⟩
  case left =>
    have hs' := (htraces.segments hemit).1
    rw [hlength] at hs'
    -- a trace that is emitted at the moment has taken its words already
    unfold Unfinished at hrest
    unfold begun
    split at hrest
    · rcases hrest with ⟨clock, e, emits, hwords, _⟩
      rcases hok s' clock with ⟨_, _, hanswer⟩
      rcases Prod.mk.inj (emits.symm.trans hanswer) with ⟨rfl, rfl⟩
      rw [hwords, (segment_of_emit hemit hs' emits).2]
    · rcases hrest with ⟨clock, f, e, emits, _⟩
      rcases hok s' clock with ⟨_, _, hanswer⟩
      cases emits.symm.trans hanswer
    · rw [hrest.1, hs']

end Worker

namespace Run

open Emitter (Ready EmitsInOrder identifiers traceLength callEmitter)
open Worker (Traces ReadsSegment traceStart InSegments)

variable {σ ρ α τ : Type} [WordSource σ] [WordSource ρ] [Add α] [Sub α] [Mul α] [Neg α] [Div α]
  [LE α] [DecidableLE α] [OfNat α 0] [OfNat α 1] [Timeline α τ] [LE τ] [DecidableLE τ]

/-- In every schedule a worker reads its stream in segments. -/
theorem inSegments {p : Plan} {tree : SpanTree} {ws : List (Worker σ τ)} {limiter : Limiter α τ}
    {now : τ} {clock : Clock} {ls : List (Label τ)} {r : Run σ α τ} {i : Nat} {w₀ : Worker σ τ}
    (hemit : ∀ e : Emission σ, EmitsInOrder e tree (p.emitter.emit p.root e)) (hfresh : Fresh ws)
    (hrun : (start ws limiter now clock).steps p ls = some r) (hw₀ : ws[i]? = some w₀) :
    ∃ w, r.workers[i]? = some w ∧ InSegments w₀.words tree w (r.eventsOf w₀.id) := by
  rcases path_of_start hfresh hrun hw₀ with ⟨w, hw, hpath⟩
  -- each trace is one of the whole tree
  have hsize : ∀ (s : σ) clock n e, p.emitter.emit p.root ⟨s, clock, #[]⟩ = (.ok n, e) →
      n = tree.preorder.length := by
    intro s clock n e emits
    rcases hemit ⟨s, clock, #[]⟩ with ⟨_, hok, _⟩
    rw [emits] at hok
    exact Except.ok.inj hok
  have hbooks := hpath.books hsize (hfresh.books (List.mem_of_getElem? hw₀) _)
  exact ⟨w, hw, hbooks.inSegments hemit⟩

variable (σ ρ α τ) in
/-- What emissions of a descriptor read, whose subtree is a tree. -/
structure ReadsInOrder (m : Emitter) (d : Descriptor) (tree : SpanTree) : Prop where
  /-- an emission reads its identifiers off its stream in preorder -/
  emission : ∀ e : Emission σ, EmitsInOrder e tree (m.emit d.id e)
  /-- and takes not one word more -/
  counted : ∀ e : Emission (Counted σ), (m.emit d.id e).2.words.taken =
    e.words.taken + traceLength tree.preorder.length e.words.stream
  /-- emissions one after another read segments one after another -/
  traces : ∀ (quota : Nat) (s s' : σ) (traces : List (List Event)),
    Traces ⟨m, d.id, quota⟩ s traces s' →
      s' = Words.drop (traceStart tree.preorder.length s traces.length) s ∧
        ∀ k trace, traces[k]? = some trace → ReadsSegment s tree k trace
  /-- and so do those of a worker in any schedule -/
  worker : ∀ (quota : Nat) (ws : List (Worker σ τ)) (limiter : Limiter α τ) (now : τ)
    (clock : Clock) (ls : List (Label τ)) (r : Run σ α τ) (i : Nat) (w₀ : Worker σ τ), Fresh ws →
      (start ws limiter now clock).steps ⟨m, d.id, quota⟩ ls = some r → ws[i]? = some w₀ →
        ∃ w, r.workers[i]? = some w ∧ InSegments w₀.words tree w (r.eventsOf w₀.id)
  /-- whatever else is emitted from the same words, the identifiers are the same at every place -/
  others : ∀ (m₂ : Emitter) (ds₂ : List Descriptor) (d₂ : Descriptor), Ready m₂ ds₂ d₂ →
    ∀ (e : Emission σ) (e₂ : Emission ρ), Words.Same e.words e₂.words →
      ∃ log log₂, (m.emit d.id e).2.events.toList = e.events.toList ++ log ∧
        (m₂.emit d₂.id e₂).2.events.toList = e₂.events.toList ++ log₂ ∧
        OneBegins (identifiers log) (identifiers log₂)

/-- With a tracer for every service of an accepted topology, the emissions of each descriptor read
the words of their stream in the order of its subtree. -/
theorem identifiers_read_in_order {m : Emitter} {ds : List Descriptor} {d : Descriptor}
    (h : Ready m ds d) :
    ∃ tree : SpanTree, tree.root = d ∧ tree.Follows ds ∧ ReadsInOrder σ ρ α τ m d tree := by
  rcases h.exists_subtree? with ⟨tree, htree, hroot, hfollows⟩
  have hemit : ∀ e : Emission σ, EmitsInOrder e tree (m.emit d.id e) := h.emit_inOrder htree
  refine ⟨tree, hroot, hfollows, ?_⟩
  constructor
  case emission => exact hemit
  case counted =>
    intro e
    exact Emitter.taken_of_inOrder (h.emit_inOrder htree e)
  case traces =>
    intro quota s s' traces htraces
    exact htraces.segments hemit
  case worker =>
    intro quota ws limiter now clock ls r i w₀ hfresh hrun hw₀
    exact inSegments (p := ⟨m, d.id, quota⟩) hemit hfresh hrun hw₀
  case others =>
    intro m₂ ds₂ d₂ h₂ e e₂ hsame
    rcases h₂.exists_subtree? with ⟨tree₂, htree₂, -, -⟩
    rcases hemit e with ⟨log, -, hlog, hreads⟩
    rcases h₂.emit_inOrder htree₂ e₂ with ⟨log₂, -, hlog₂, hreads₂⟩
    exact ⟨log, log₂, hlog, hlog₂, hreads.oneBegins hreads₂ hsame⟩

/-- The numbers below twelve, over and over. -/
def dozen : Repeating := .ofList ((List.range 12).map UInt32.ofNat)

/-- Of the front end and its call the first two traces read eleven words each. -/
theorem call_read_in_order :
    Ready callEmitter Topology.call ⟨"1", "", "frontend"⟩ ∧
      traceLength 2 dozen = 11 ∧ traceLength 2 (Words.drop 11 dozen) = 11 ∧
      ∃ (tree : SpanTree) (r : Run Repeating Float Instant) (w : Worker Repeating Instant),
        tree.root = ⟨"1", "", "frontend"⟩ ∧ tree.Follows Topology.call ∧
        ReadsInOrder Repeating Keystream Float Instant callEmitter ⟨"1", "", "frontend"⟩ tree ∧
        (start [{ id := 0, words := dozen }] (.unlimited 0) 0 (.still ⟨0⟩)).steps
          ⟨callEmitter, "1", 2⟩ (List.replicate 16 (.go 0)) = some r ∧
        (identifiers (r.eventsOf 0)).map (·.2) =
          [[7, 0, 0, 0, 8, 0, 0, 0], [9, 0, 0, 0, 10, 0, 0, 0],
            [6, 0, 0, 0, 7, 0, 0, 0], [8, 0, 0, 0, 9, 0, 0, 0]] ∧
        r.workers[0]? = some w ∧ InSegments dozen tree w (r.eventsOf 0) := by
  have hready : Ready callEmitter Topology.call ⟨"1", "", "frontend"⟩ :=
    ⟨Topology.ofDescriptors_call, by decide, by decide⟩
  rcases identifiers_read_in_order (σ := Repeating) (ρ := Keystream) (α := Float) (τ := Instant)
    hready with ⟨tree, hroot, hfollows, hreads⟩
  -- the second trace begins with the last of the twelve words and goes round
  have hend : ((start [{ id := 0, words := dozen }] (.unlimited 0) 0 (.still ⟨0⟩)).steps
      ⟨callEmitter, "1", 2⟩ (List.replicate 16 (.go 0))).map
        (fun r : Run Repeating Float Instant => (identifiers (r.eventsOf 0)).map (·.2)) =
      some [[7, 0, 0, 0, 8, 0, 0, 0], [9, 0, 0, 0, 10, 0, 0, 0],
        [6, 0, 0, 0, 7, 0, 0, 0], [8, 0, 0, 0, 9, 0, 0, 0]] := by
    decide +kernel
  rcases Option.map_eq_some_iff.1 hend with ⟨r, hrun, hids⟩
  have hfresh : Fresh [({ id := 0, words := dozen } : Worker Repeating Instant)] :=
    ⟨by decide, by simp⟩
  rcases hreads.worker 2 _ _ _ _ _ r 0 _ hfresh hrun rfl with ⟨w, hw, hsegments⟩
  exact ⟨hready, by decide, by decide, tree, r, w, hroot, hfollows, hreads, hrun, hids, hw,
    hsegments⟩

end Run

end TraceLoad
