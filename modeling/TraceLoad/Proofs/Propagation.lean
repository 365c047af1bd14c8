import TraceLoad.Proofs.Walk

/-! # Headers make no difference

An emission hands its contexts over either as they are or through the `traceparent` header, which
does not carry the parent. Nobody can tell which: the answer, the words that are read and the
events are the same, and so the switch may be flipped without a change to what is generated. Only
the times differ, since two runs do not read the same clock; they are left out of the comparison.
-/

namespace TraceLoad

/-- The span without its times; whether it has ended is kept. -/
def Span.timeless (s : Span) : Span :=
  { s with startTime := ⟨0⟩, endTime := s.endTime.map fun _ => ⟨0⟩ }

/-- The event without its times. -/
def Event.timeless : Event → Event
  | .started s => .started s.timeless
  | .ended s => .ended s.timeless

/-- The stamp without its times. -/
def Stamp.timeless (s : Stamp) : Stamp := { s with span := s.span.timeless, closed := ⟨0⟩ }

theorem Stamp.map_timeless_events (s : Stamp) :
    s.events.map Event.timeless = s.timeless.events := rfl

namespace Emitter

variable {σ : Type} [WordSource σ]

theorem map_timeless_traceLog (top : Stamp) (stamps : List Stamp) :
    (traceLog top stamps).map Event.timeless =
      traceLog top.timeless (stamps.map Stamp.timeless) := by
  have hstamps : (stamps.flatMap Stamp.events).map Event.timeless =
      (stamps.map Stamp.timeless).flatMap Stamp.events := by
    simp only [List.map_flatMap, List.flatMap_map, Stamp.map_timeless_events]
  rw [traceLog, List.map_append, List.map_cons, hstamps]
  rfl

/-- One descriptor below one parent is stamped alike, times aside, from the same words. -/
theorem stampBelow_agree {r : Registry} {shared : TraceAttributes} {d : Descriptor}
    {parent : TraceContext} {e e₂ : Emission σ} {tracer tracer₂ : Tracer} {s s₂ : Stamp}
    (hwords : e.words = e₂.words) (bound : r.tracer? d.service = some tracer)
    (bound₂ : r.tracer? d.service = some tracer₂) (first : s = stampBelow tracer shared d parent e)
    (first₂ : s₂ = stampBelow tracer₂ shared d parent e₂) :
    s.timeless = s₂.timeless ∧ s₂.context = s.context := by
  subst first first₂
  obtain rfl := Option.some.inj (bound.symm.trans bound₂)
  constructor
  · simp only [stampBelow, Stamp.timeless, Span.timeless, Span.start, hwords, Option.map_none]
  · simp only [stampBelow, hwords]

/-- What a span leaves of the stream does not depend on its clock. -/
theorem words_afterStamp {e e₂ : Emission σ} (hwords : e.words = e₂.words) (s s₂ : Stamp) :
    (afterStamp s e).words = (afterStamp s₂ e₂).words := by
  simp only [afterStamp, hwords]

/-- Two walks through one forest that read the same words leave the same stamps, times aside, stop
at the same descriptor, and have read equally far. -/
theorem Walk.agree {r : Registry} {shared : TraceAttributes} {f : Forest}
    {parent : TraceContext} {e e' e₂ e₂' : Emission σ} {stamps stamps₂ : List Stamp}
    {stop stop₂ : Option Descriptor} (h : Walk r shared f parent e stamps stop e')
    (h₂ : Walk r shared f parent e₂ stamps₂ stop₂ e₂') (hwords : e.words = e₂.words) :
    stamps.map Stamp.timeless = stamps₂.map Stamp.timeless ∧ stop = stop₂ ∧
      e'.words = e₂'.words := by
  induction h generalizing e₂ stamps₂ stop₂ e₂' with
  | nil =>
    cases h₂
    exact ⟨rfl, rfl, hwords⟩
  | unbound missing =>
    cases h₂ with
    | unbound _ => exact ⟨rfl, rfl, hwords⟩
    | stuck bound₂ _ _ => exact absurd (missing.symm.trans bound₂) nofun
    | cons bound₂ _ _ _ => exact absurd (missing.symm.trans bound₂) nofun
  | stuck bound first _ ih =>
    cases h₂ with
    | unbound missing₂ => exact absurd (missing₂.symm.trans bound) nofun
    | stuck bound₂ first₂ under₂ =>
      obtain ⟨hstamp, hcontext⟩ := stampBelow_agree hwords bound bound₂ first first₂
      obtain ⟨hstamps, hstop, hlast⟩ := ih (hcontext ▸ under₂) (words_afterStamp hwords _ _)
      exact ⟨by simp only [List.map_cons, hstamp, hstamps], hstop, hlast⟩
    | cons bound₂ first₂ under₂ _ =>
      -- one walk stops below this descriptor, so the other one does
      obtain ⟨_, hcontext⟩ := stampBelow_agree hwords bound bound₂ first first₂
      obtain ⟨_, hstop, _⟩ := ih (hcontext ▸ under₂) (words_afterStamp hwords _ _)
      cases hstop
  | cons bound first _ _ ihUnder ihNext =>
    cases h₂ with
    | unbound missing₂ => exact absurd (missing₂.symm.trans bound) nofun
    | stuck bound₂ first₂ under₂ =>
      obtain ⟨_, hcontext⟩ := stampBelow_agree hwords bound bound₂ first first₂
      obtain ⟨_, hstop, _⟩ := ihUnder (hcontext ▸ under₂) (words_afterStamp hwords _ _)
      cases hstop
    | cons bound₂ first₂ under₂ next₂ =>
      obtain ⟨hstamp, hcontext⟩ := stampBelow_agree hwords bound bound₂ first first₂
      obtain ⟨hstamps, _, hbetween⟩ :=
        ihUnder (hcontext ▸ under₂) (words_afterStamp hwords _ _)
      obtain ⟨hstamps', hstop, hlast⟩ := ihNext next₂ hbetween
      refine ⟨?_, hstop, hlast⟩
      simp only [List.map_append, List.map_cons, hstamp, hstamps, hstamps']

/-- Two emissions come out alike: with one answer, streams that have been read equally far, and the
same events behind those that were there before, times aside. -/
structure Alike (events events₂ : Array Event) (x x₂ : Except EmitError Nat × Emission σ) :
    Prop where
  answer : x.1 = x₂.1
  words : x.2.words = x₂.2.words
  log : ∃ log log₂, x.2.events.toList = events.toList ++ log ∧
    x₂.2.events.toList = events₂.toList ++ log₂ ∧
    log.map Event.timeless = log₂.map Event.timeless

/-- Emitters that have the same registry emit a tree alike. -/
theorem emitTree_alike {m m₂ : Emitter} (hregistry : m.registry = m₂.registry) (tracer : Tracer)
    (t : SpanTree) {e e₂ : Emission σ} (hwords : e.words = e₂.words) :
    Alike e.events e₂.events (m.emitTree tracer t e) (m₂.emitTree tracer t e₂) := by
  obtain ⟨stamps, stop, last, hwalk, hanswer, hlast, -, hlog⟩ := emitTree_walk m tracer t e
  obtain ⟨stamps₂, stop₂, last₂, hwalk₂, hanswer₂, hlast₂, -, hlog₂⟩ :=
    emitTree_walk m₂ tracer t e₂
  have hshare : drawnShare e₂ = drawnShare e := by rw [drawnShare, drawnShare, hwords]
  have hroot : rootContext e₂ = rootContext e := by rw [rootContext, rootContext, hwords]
  have hafter : (afterRoot tracer t.root e).words = (afterRoot tracer t.root e₂).words := by
    rw [afterRoot, afterRoot, hroot]
  -- the attributes and the root's context are drawn before anything else, from the same words
  rw [← hregistry, hshare, hroot] at hwalk₂
  obtain ⟨hstamps, rfl, hwords'⟩ := hwalk.agree hwalk₂ hafter
  have htop : (stampRoot tracer t.root e last).timeless =
      (stampRoot tracer t.root e₂ last₂).timeless := by
    simp only [stampRoot, rootSpan, Stamp.timeless, Span.timeless, Span.start, hshare, hroot,
      Option.map_none]
  exact {
    answer := by rw [hanswer, hanswer₂]
    words := by rw [hlast, hlast₂, hwords']
    log := ⟨_, _, hlog, hlog₂, by
      rw [map_timeless_traceLog, map_timeless_traceLog, htop, hstamps]⟩ }

omit [WordSource σ] in
/-- Emissions that are refused before they begin. -/
theorem alike_of_refused (answer : Except EmitError Nat) {e e₂ : Emission σ}
    (hwords : e.words = e₂.words) : Alike e.events e₂.events (answer, e) (answer, e₂) where
  answer := rfl
  words := hwords
  log := ⟨[], [], by simp, by simp, rfl⟩

/-- An emission never fails on the way across a service boundary. -/
theorem emit_ne_propagation (m : Emitter) (id : String) (e : Emission σ) (f : ContextError) :
    (m.emit id e).1 ≠ .error (.propagation f) := by
  unfold emit
  split
  · simp
  · split
    · simp
    · obtain ⟨_, stop, _, _, hanswer, -⟩ := emitTree_walk m _ _ e
      rw [hanswer]
      cases stop with
      | none => simp [answer, Except.map]
      | some _ => simp [answer, Except.map]

/-- Emitters that differ in nothing but how contexts are handed over emit alike. -/
theorem emit_alike {m m₂ : Emitter} (htopology : m.topology = m₂.topology)
    (hregistry : m.registry = m₂.registry) (id : String) (e e₂ : Emission σ)
    (hwords : e.words = e₂.words) :
    Alike e.events e₂.events (m.emit id e) (m₂.emit id e₂) := by
  unfold emit
  rw [← htopology, ← hregistry]
  cases m.topology.subtree? id with
  | none => exact alike_of_refused _ hwords
  | some t =>
    dsimp only
    cases m.registry.tracer? t.root.service with
    | none => exact alike_of_refused _ hwords
    | some tracer => exact emitTree_alike hregistry tracer t hwords

/-- The emitter with the headers switched on or off. -/
def withHeaders (m : Emitter) (propagate : Bool) : Emitter := { m with propagate := propagate }

/-- With and without headers an emission comes out alike, whichever clocks are read, and neither
fails at a service boundary. -/
theorem emit_same_without_headers (m : Emitter) (id : String) (words : σ)
    (clock clock₂ : Clock) (events events₂ : Array Event) :
    Alike events events₂ ((m.withHeaders true).emit id ⟨words, clock, events⟩)
        ((m.withHeaders false).emit id ⟨words, clock₂, events₂⟩) ∧
      ∀ (propagate : Bool) (e : Emission σ) (f : ContextError),
        ((m.withHeaders propagate).emit id e).1 ≠ .error (.propagation f) := by
  have htopology : (m.withHeaders true).topology = (m.withHeaders false).topology := rfl
  have hregistry : (m.withHeaders true).registry = (m.withHeaders false).registry := rfl
  constructor
  · exact emit_alike htopology hregistry id ⟨words, clock, events⟩ ⟨words, clock₂, events₂⟩ rfl
  · intro propagate e f
    exact emit_ne_propagation _ id e f

end Emitter

end TraceLoad
