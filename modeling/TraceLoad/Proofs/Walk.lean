import TraceLoad.Emission
import TraceLoad.Proofs.Header
import TraceLoad.Proofs.TreeOfLinks

/-! # What an emission does, step by step

The spans of a forest are emitted by a recursion that hands a context down and an emission state
through. `Walk` is that recursion as a derivation: which stamps it leaves, at which descriptor it
stops if it does, and in which state it ends. `emitForest_walk` says once that an emission is such
a walk; the laws of emissions are inductions over walks.

A walk does not ask how contexts cross a service boundary: what a header loses is not read by the
child on the other side (`exists_cross`).
-/

namespace TraceLoad

/-- What an emission leaves of one descriptor: its place in the trace, its span as it was started,
and the time that was noted as the end. -/
structure Stamp where
  descriptor : Descriptor
  context : TraceContext
  span : Span
  closed : Timestamp

namespace Stamp

/-- The span with its end. -/
def ended (s : Stamp) : Span := s.span.finish s.closed

/-- An ended span ends when its stamp was closed. -/
@[simp] theorem endTime_ended (s : Stamp) : s.ended.endTime = some s.closed := rfl

/-- An ended span has kept its start. -/
@[simp] theorem startTime_ended (s : Stamp) : s.ended.startTime = s.span.startTime := rfl

/-- The events of a span that ends as soon as it has started. -/
def events (s : Stamp) : List Event := [.started s.span, .ended s.ended]

/-- One stamp names another as its parent, and so do their descriptors. -/
def IsChildOf (s p : Stamp) : Prop :=
  s.descriptor.parent = p.descriptor.id ∧ s.context.parentSpanId = some p.context.spanId

end Stamp

namespace Emitter

variable {σ : Type} [WordSource σ]

/-- The stamp of a descriptor below a parent. -/
def stampBelow (tracer : Tracer) (shared : TraceAttributes) (d : Descriptor)
    (parent : TraceContext) (e : Emission σ) : Stamp where
  descriptor := d
  context := (parent.child e.words).1
  span := .start tracer.service (parent.child e.words).1 (childName d)
    (shared.forService d.service) e.clock.now.1
  closed := e.clock.now.2.now.1.saturatingAdd spanDuration

/-- The state after a descriptor below the root has been stamped. -/
def afterStamp (s : Stamp) (e : Emission σ) : Emission σ where
  words := (SpanId.draw e.words).2
  clock := e.clock.now.2.now.2
  events := (e.events.push (.started s.span)).push (.ended s.ended)

/-- The descriptors of a forest are stamped in preorder, up to one whose service has no tracer. -/
inductive Walk (r : Registry) (shared : TraceAttributes) : Forest → TraceContext → Emission σ →
    List Stamp → Option Descriptor → Emission σ → Prop where
  | nil {parent : TraceContext} {e : Emission σ} : Walk r shared .nil parent e [] none e
  | unbound {d : Descriptor} {below beside : Forest} {parent : TraceContext} {e : Emission σ}
      (missing : r.tracer? d.service = none) :
      Walk r shared (.cons d below beside) parent e [] (some d) e
  | stuck {d x : Descriptor} {below beside : Forest} {parent : TraceContext} {e e' : Emission σ}
      {tracer : Tracer} {s : Stamp} {stamps : List Stamp}
      (bound : r.tracer? d.service = some tracer) (first : s = stampBelow tracer shared d parent e)
      (under : Walk r shared below s.context (afterStamp s e) stamps (some x) e') :
      Walk r shared (.cons d below beside) parent e (s :: stamps) (some x) e'
  | cons {d : Descriptor} {below beside : Forest} {parent : TraceContext}
      {e e₁ e' : Emission σ} {tracer : Tracer} {s : Stamp} {stamps stamps' : List Stamp}
      {stop : Option Descriptor} (bound : r.tracer? d.service = some tracer)
      (first : s = stampBelow tracer shared d parent e)
      (under : Walk r shared below s.context (afterStamp s e) stamps none e₁)
      (next : Walk r shared beside parent e₁ stamps' stop e') :
      Walk r shared (.cons d below beside) parent e (s :: stamps ++ stamps') stop e'

/-- What is answered for a forest whose walk stops at a descriptor, or nowhere. -/
def answer (f : Forest) : Option Descriptor → Except EmitError Nat
  | none => .ok f.size
  | some d => .error (.unknownService d.service)

/-- A context always gets across, and its children cannot tell how it went. -/
theorem exists_cross (m : Emitter) (c : TraceContext) :
    ∃ c', m.cross c = .ok c' ∧ ∀ s : σ, c'.child s = c.child s := by
  unfold cross
  split
  · exact ⟨c.orphan, c.ofTraceparent_toTraceparent, fun _ => rfl⟩
  · exact ⟨c, rfl, fun _ => rfl⟩

/-- One step of the recursion: a stamp, then the forest below, then the trees beside. -/
theorem emitForest_cons (m : Emitter) (shared : TraceAttributes) {d : Descriptor}
    {below beside : Forest} {parent : TraceContext} {e : Emission σ} {tracer : Tracer}
    (bound : m.registry.tracer? d.service = some tracer) :
    m.emitForest shared (.cons d below beside) parent e =
      let s := stampBelow tracer shared d parent e
      match m.emitForest shared below s.context (afterStamp s e) with
      | (.error f, e) => (.error f, e)
      | (.ok n, e) =>
        match m.emitForest shared beside parent e with
        | (.error f, e) => (.error f, e)
        | (.ok k, e) => (.ok (1 + n + k), e) := by
  -- whether or not the context is handed over by a header, the child is the same
  obtain ⟨c', hc, hchild⟩ := exists_cross (σ := σ) m parent
  simp only [emitForest, bound, hc, Tracer.start, hchild]
  rfl

/-- Every emission of a forest is a walk. -/
theorem emitForest_walk (m : Emitter) (shared : TraceAttributes) (f : Forest)
    (parent : TraceContext) (e : Emission σ) :
    ∃ stamps stop e', Walk m.registry shared f parent e stamps stop e' ∧
      m.emitForest shared f parent e = (answer f stop, e') := by
  induction f generalizing parent e with
  | nil => exact ⟨[], none, e, .nil, rfl⟩
  | cons d below beside ihBelow ihBeside =>
    cases bound : m.registry.tracer? d.service with
    | none => exact ⟨[], some d, e, .unbound bound, by simp [emitForest, bound, answer]⟩
    | some tracer =>
      let s := stampBelow tracer shared d parent e
      obtain ⟨stamps, stop, e₁, hunder, heq⟩ := ihBelow s.context (afterStamp s e)
      rw [emitForest_cons m shared bound]
      -- a stop below `d` leaves out what is beside it
      cases stop with
      | some x => exact ⟨s :: stamps, some x, e₁, .stuck bound rfl hunder, by simp [s, heq, answer]⟩
      | none =>
        obtain ⟨stamps', stop, e', hnext, heq'⟩ := ihBeside parent e₁
        refine ⟨s :: stamps ++ stamps', stop, e', .cons bound rfl hunder hnext, ?_⟩
        cases stop with
        | some x => simp [s, heq, heq', answer]
        | none => simp [s, heq, heq', answer, Forest.size]

/-- The span of a stamp is one of its descriptor: open, where the context says, in the name of the
tracer that is bound to the descriptor's service, and with that service among its attributes. -/
structure Fits (r : Registry) (shared : TraceAttributes) (trace : TraceId) (name : String)
    (s : Stamp) : Prop where
  traceId : s.span.traceId = trace
  spanId : s.span.spanId = s.context.spanId
  parentSpanId : s.span.parentSpanId = s.context.parentSpanId
  name : s.span.name = name
  service : ∃ tracer, r.tracer? s.descriptor.service = some tracer ∧
    s.span.service = tracer.service
  attributes : s.span.attributes = shared.forService s.descriptor.service
  unended : s.span.endTime = none

theorem fits_stampBelow {r : Registry} {tracer : Tracer} {d : Descriptor}
    (bound : r.tracer? d.service = some tracer) (shared : TraceAttributes)
    (parent : TraceContext) (e : Emission σ) :
    Fits r shared parent.traceId (childName d) (stampBelow tracer shared d parent e) where
  traceId := rfl
  spanId := rfl
  parentSpanId := rfl
  name := rfl
  service := ⟨tracer, bound, rfl⟩
  attributes := rfl
  unended := rfl

namespace Walk

variable {r : Registry} {shared : TraceAttributes} {f : Forest} {parent : TraceContext}
  {e e' : Emission σ} {stamps : List Stamp} {stop : Option Descriptor} {id : String}

/-- The events of the stamps are appended, and nothing else. -/
theorem events (h : Walk r shared f parent e stamps stop e') :
    e'.events.toList = e.events.toList ++ stamps.flatMap Stamp.events := by
  induction h with
  | nil => simp
  | unbound _ => simp
  | stuck _ _ _ ih => simp [ih, afterStamp, Stamp.events]
  | cons _ _ _ _ ihUnder ihNext => simp [ihNext, ihUnder, afterStamp, Stamp.events]

/-- A walk stops at the first descriptor whose service has no tracer. -/
theorem stop_eq (h : Walk r shared f parent e stamps stop e') :
    stop = f.preorder.find? fun d => (r.tracer? d.service).isNone := by
  induction h with
  | nil => rfl
  | unbound missing => simp [missing]
  | stuck bound _ _ ih => simp [bound, List.find?_append, ← ih]
  | cons bound _ _ _ ihUnder ihNext => simp [bound, List.find?_append, ← ihUnder, ← ihNext]

/-- A walk that does not stop has stamped the whole forest in preorder. -/
theorem descriptors (h : Walk r shared f parent e stamps none e') :
    stamps.map (·.descriptor) = f.preorder := by
  generalize hstop : none = stop at h
  induction h with
  | nil => rfl
  | unbound _ => cases hstop
  | stuck _ _ _ _ => cases hstop
  | cons _ first _ _ ihUnder ihNext => simp [ihUnder rfl, ihNext hstop, first, stampBelow]

theorem fits (h : Walk r shared f parent e stamps stop e') :
    ∀ s ∈ stamps, Fits r shared parent.traceId (childName s.descriptor) s := by
  induction h with
  | nil => simp
  | unbound _ => simp
  | stuck bound first _ ih =>
    subst first
    intro s hs
    rcases List.mem_cons.1 hs with rfl | hs
    · exact fits_stampBelow bound _ _ _
    · exact ih s hs
  | cons bound first _ _ ihUnder ihNext =>
    subst first
    intro s hs
    -- the first tree with its root, and then the trees beside it
    rcases List.mem_append.1 hs with hs | hs
    · rcases List.mem_cons.1 hs with rfl | hs
      · exact fits_stampBelow bound _ _ _
      · exact ihUnder s hs
    · exact ihNext s hs

/-- In a forest that hangs from a stamped descriptor every stamp is a child of that stamp or of
another one of the walk. -/
theorem linked {top : Stamp} (h : Walk r shared f parent e stamps stop e')
    (hparent : parent = top.context) (hf : f.HangsFrom top.descriptor.id) :
    ∀ s ∈ stamps, ∃ p ∈ top :: stamps, s.IsChildOf p := by
  induction h generalizing top with
  | nil => simp
  | unbound _ => simp
  | stuck bound first _ ih =>
    subst first hparent
    obtain ⟨_, link, hbelow, _⟩ := hf
    intro s hs
    rcases List.mem_cons.1 hs with rfl | hs
    · exact ⟨top, List.mem_cons_self, link, rfl⟩
    · obtain ⟨p, hp, hchild⟩ := ih rfl hbelow s hs
      exact ⟨p, List.mem_cons_of_mem _ hp, hchild⟩
  | cons bound first _ _ ihUnder ihNext =>
    subst first hparent
    obtain ⟨_, link, hbelow, hbeside⟩ := hf
    intro s hs
    rcases List.mem_append.1 hs with hs | hs
    · rcases List.mem_cons.1 hs with rfl | hs
      · exact ⟨top, List.mem_cons_self, link, rfl⟩
      · obtain ⟨p, hp, hchild⟩ := ihUnder rfl hbelow s hs
        exact ⟨p, List.mem_cons_of_mem _ (List.mem_append_left _ hp), hchild⟩
    · -- a stamp beside is linked to one beside, or to the one that all of them hang from
      obtain ⟨p, hp, hchild⟩ := ihNext rfl hbeside s hs
      refine ⟨p, ?_, hchild⟩
      rcases List.mem_cons.1 hp with rfl | hp
      · exact List.mem_cons_self
      · exact List.mem_cons_of_mem _ (List.mem_append_right _ hp)

end Walk

/-! ## Whole traces -/

/-- What all spans of a trace share, as it is drawn first. -/
def drawnShare (e : Emission σ) : TraceAttributes := (TraceAttributes.draw e.words).1

/-- The context of the root span, as it is drawn next. -/
def rootContext (e : Emission σ) : TraceContext × σ :=
  TraceContext.newRoot (TraceAttributes.draw e.words).2

def rootSpan (tracer : Tracer) (root : Descriptor) (e : Emission σ) : Span :=
  .start tracer.service (rootContext e).1 rootName ((drawnShare e).forService root.service)
    e.clock.now.1

/-- The state after the root span has started. -/
def afterRoot (tracer : Tracer) (root : Descriptor) (e : Emission σ) : Emission σ where
  words := (rootContext e).2
  clock := e.clock.now.2
  events := e.events.push (.started (rootSpan tracer root e))

/-- The stamp of the root, whose span ends in a later state than it starts in. -/
def stampRoot (tracer : Tracer) (root : Descriptor) (e last : Emission σ) : Stamp where
  descriptor := root
  context := (rootContext e).1
  span := rootSpan tracer root e
  closed := last.clock.now.1.saturatingAdd spanDuration

theorem fits_stampRoot {r : Registry} {tracer : Tracer} {root : Descriptor}
    (bound : r.tracer? root.service = some tracer) (e last : Emission σ) :
    Fits r (drawnShare e) (rootContext e).1.traceId rootName (stampRoot tracer root e last) where
  traceId := rfl
  spanId := rfl
  parentSpanId := rfl
  name := rfl
  service := ⟨tracer, bound, rfl⟩
  attributes := rfl
  unended := rfl

/-- The log of a trace: the root starts, everything below it starts and ends, the root ends. -/
def traceLog (top : Stamp) (stamps : List Stamp) : List Event :=
  .started top.span :: stamps.flatMap Stamp.events ++ [.ended top.ended]

/-- The emission of a tree is a walk through what is below its root, and the root's span is ended
however the walk came out. -/
theorem emitTree_walk (m : Emitter) (tracer : Tracer) (t : SpanTree) (e : Emission σ) :
    ∃ stamps stop last,
      Walk m.registry (drawnShare e) t.below (rootContext e).1 (afterRoot tracer t.root e)
        stamps stop last ∧
      (m.emitTree tracer t e).1 = (answer t.below stop).map (1 + ·) ∧
      (m.emitTree tracer t e).2.words = last.words ∧
      (m.emitTree tracer t e).2.clock = last.clock.now.2 ∧
      (m.emitTree tracer t e).2.events.toList =
        e.events.toList ++ traceLog (stampRoot tracer t.root e last) stamps := by
  obtain ⟨stamps, stop, last, hwalk, heq⟩ := emitForest_walk m (drawnShare e) t.below
    (rootContext e).1 (afterRoot tracer t.root e)
  -- the root's span is ended after the walk, with whatever answer that had
  have hresult : m.emitTree tracer t e =
      ((m.emitForest (drawnShare e) t.below (rootContext e).1 (afterRoot tracer t.root e)).1.map
          (1 + ·),
        close (rootSpan tracer t.root e)
          (m.emitForest (drawnShare e) t.below (rootContext e).1 (afterRoot tracer t.root e)).2) :=
    rfl
  rw [heq] at hresult
  refine ⟨stamps, stop, last, hwalk, by rw [hresult], by rw [hresult]; rfl,
    by rw [hresult]; rfl, ?_⟩
  have hclose : (close (rootSpan tracer t.root e) last).events =
      last.events.push (.ended (stampRoot tracer t.root e last).ended) := rfl
  rw [hresult, hclose, Array.toList_push, hwalk.events]
  simp [afterRoot, traceLog, stampRoot]

end Emitter

end TraceLoad
