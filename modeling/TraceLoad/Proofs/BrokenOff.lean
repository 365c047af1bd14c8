import TraceLoad.Proofs.TraceShape

/-! # Emissions that break off

An emission refuses an id that it does not know, and one whose service has no tracer, before it does
anything. From then on it goes through the subtree in preorder, and breaks off at the first
descriptor whose service has no tracer (`Walk.preorder_eq`). However it comes out, the log is that
of the descriptors that it has come to: the root of the subtree starts, all others start and end,
and the root ends last, so that nothing is left open (`Balanced`).
-/

namespace TraceLoad

/-- Whatever starts also ends: every span that has started has ended once, later on, and the span
that started first has ended last. Spans are told apart by their names. -/
structure Balanced (log : List Event) : Prop where
  distinct : ((log.filterMap Event.started?).map (·.name)).Nodup
  once : ((log.filterMap Event.finished?).map (·.name)).Perm
    ((log.filterMap Event.started?).map (·.name))
  later : ∀ before span after, log = before ++ .started span :: after →
    ∃ time, .ended (span.finish time) ∈ after
  last : ∀ span rest, log = .started span :: rest →
    ∃ time, log.getLast? = some (.ended (span.finish time))

theorem balanced_nil : Balanced [] where
  distinct := List.nodup_nil
  once := .refl _
  later := by
    intro before span after h
    simp at h
  last := by
    intro span rest h
    cases h

namespace Emitter

variable {σ : Type} [WordSource σ] {r : Registry} {shared : TraceAttributes} {top : Stamp}
  {stamps : List Stamp}

/-! ## Nothing is left open -/

/-- A span that starts after the root's is ended at once. -/
theorem ended_of_started {tail : Event} {before after : List Event} {span : Span}
    (htail : Event.started? tail = none)
    (h : stamps.flatMap Stamp.events ++ [tail] = before ++ .started span :: after) :
    ∃ time, .ended (span.finish time) ∈ after := by
  induction stamps generalizing before with
  | nil =>
    have hmem : Event.started span ∈ [tail] := by
      rw [show [tail] = before ++ .started span :: after from h]
      simp
    rw [← List.mem_singleton.1 hmem] at htail
    cases htail
  | cons st stamps ih =>
    rw [List.flatMap_cons, List.append_assoc] at h
    -- the two events of the first stamp, and then the rest
    rcases before with _ | ⟨first, before⟩
    · rcases List.cons.inj h with ⟨hstart, rfl⟩
      cases hstart
      exact ⟨st.closed, List.mem_cons_self⟩
    · rcases List.cons.inj h with ⟨-, h⟩
      rcases before with _ | ⟨second, before⟩
      · rcases List.cons.inj h with ⟨hend, -⟩
        cases hend
      · rcases List.cons.inj h with ⟨-, h⟩
        exact ih h

/-- The log of a trace is balanced if its spans have different names. -/
theorem balanced_traceLog (hnames : ((top :: stamps).map (·.span.name)).Nodup) :
    Balanced (traceLog top stamps) := by
  constructor
  case distinct =>
    rw [started_traceLog, List.map_map]
    exact hnames
  case once =>
    rw [started_traceLog, finished_traceLog, List.map_map, List.map_map]
    exact (List.perm_append_singleton top stamps).map _
  case later =>
    intro before span after h
    unfold traceLog at h
    -- the first event is the start of the root, and whatever starts later is of a stamp
    rcases before with _ | ⟨first, before⟩
    · rcases List.cons.inj h with ⟨hstart, rfl⟩
      cases hstart
      exact ⟨top.closed, List.mem_append_right _ List.mem_cons_self⟩
    · rcases List.cons.inj h with ⟨-, h⟩
      exact ended_of_started rfl h
  case last =>
    intro span rest h
    unfold traceLog at h ⊢
    rcases List.cons.inj h with ⟨hstart, -⟩
    cases hstart
    exact ⟨top.closed, List.getLast?_concat⟩

/-! ## How far a walk comes -/

/-- The descriptors that a walk has stamped are the first ones in preorder, up to the one at which
it stops. -/
theorem Walk.preorder_eq {f : Forest} {parent : TraceContext} {e e' : Emission σ}
    {stop : Option Descriptor} (h : Walk r shared f parent e stamps stop e') :
    ∃ rest, f.preorder = stamps.map (·.descriptor) ++ (stop.toList ++ rest) ∧
      (stop = none → rest = []) := by
  induction h with
  | nil => exact ⟨[], rfl, fun _ => rfl⟩
  | @unbound d below beside _ _ missing =>
    exact ⟨below.preorder ++ beside.preorder, Forest.preorder_cons _ _ _, nofun⟩
  | @stuck d x below beside _ _ _ _ s stamps bound first under ih =>
    -- the trees beside are not reached either
    rcases ih with ⟨rest, hrest, -⟩
    refine ⟨rest ++ beside.preorder, ?_, nofun⟩
    rw [Forest.preorder_cons, hrest, first]
    simp [stampBelow]
  | @cons d below beside _ _ _ _ _ s stamps stamps' stop bound first under next ihUnder ihNext =>
    -- the walk below gets through, so what is left over stands beside
    rcases ihNext with ⟨rest, hrest, hnone⟩
    refine ⟨rest, ?_, hnone⟩
    rw [Forest.preorder_cons, hrest, ← under.descriptors, first]
    simp [stampBelow]

/-- A walk stops only where there is no tracer. -/
theorem Walk.missing_of_stop {f : Forest} {parent : TraceContext} {e e' : Emission σ}
    {x : Descriptor} (h : Walk r shared f parent e stamps (some x) e') :
    r.tracer? x.service = none := by
  have hfound := List.find?_some h.stop_eq.symm
  exact Option.isNone_iff_eq_none.1 hfound

/-! ## The log of a part of a subtree -/

/-- The log of some descriptors, of which the first one is the root: the root starts, each of the
others starts and ends, and the root ends. -/
structure LogsFirst (r : Registry) (root : Descriptor) (others : List Descriptor)
    (log : List Event) : Prop where
  shape : ∃ shared top stamps, log = traceLog top stamps ∧ top.descriptor = root ∧
    stamps.map (·.descriptor) = others ∧
    Fits r shared top.context.traceId rootName top ∧
    ∀ st ∈ stamps, Fits r shared top.context.traceId (childName st.descriptor) st
  /-- the starts are those of the descriptors, in their order -/
  started : (log.filterMap Event.started?).map (·.name) =
    (root :: others).map (spanName root)
  ended : (log.filterMap Event.finished?).map (·.name) =
    (others ++ [root]).map (spanName root)
  balanced : Balanced log

/-- The stamps of descriptors that differ from one another leave the log of these descriptors. -/
theorem logsFirst_traceLog {ds others : List Descriptor} {root : Descriptor} (hu : UniqueIds ds)
    (hds : ∀ y ∈ root :: others, y ∈ ds) (hnodup : (root :: others).Nodup)
    (htop : top.descriptor = root) (hstamps : stamps.map (·.descriptor) = others)
    (htopFits : Fits r shared top.context.traceId rootName top)
    (hfits : ∀ st ∈ stamps, Fits r shared top.context.traceId (childName st.descriptor) st) :
    LogsFirst r root others (traceLog top stamps) := by
  have htopName : top.span.name = spanName root root := by
    rw [htopFits.name, spanName_root]
  have hnames : stamps.map (·.span.name) = others.map (spanName root) := by
    rw [← hstamps, List.map_map]
    apply List.map_congr_left
    intro st hst
    -- the root is not among the others, so each of these has a name of its own
    have hne : st.descriptor ≠ root := by
      intro heq
      apply (List.nodup_cons.1 hnodup).1
      rw [← heq, ← hstamps]
      exact List.mem_map.2 ⟨st, hst, rfl⟩
    rw [(hfits st hst).name, Function.comp_apply, spanName_of_ne hne]
  have hall : (top :: stamps).map (·.span.name) = (root :: others).map (spanName root) := by
    rw [List.map_cons, List.map_cons, htopName, hnames]
  have hdistinct : ((root :: others).map (spanName root)).Nodup := by
    apply hnodup.map_on
    intro x hx y hy hname
    exact spanName_injOn hu root (hds x hx) (hds y hy) hname
  constructor
  case shape => exact ⟨shared, top, stamps, rfl, htop, hstamps, htopFits, hfits⟩
  case started =>
    rw [started_traceLog, List.map_map]
    exact hall
  case ended =>
    rw [finished_traceLog, List.map_map, List.map_append, List.map_append, ← hnames,
      List.map_singleton, List.map_singleton, ← htopName]
    rfl
  case balanced =>
    apply balanced_traceLog
    rw [hall]
    exact hdistinct

/-! ## How emissions come out -/

variable {m : Emitter} {ds : List Descriptor} {d : Descriptor} {id : String}

/-- How an emission of an id comes out, and in which state it leaves what it reads and writes. -/
inductive Ending (m : Emitter) (ds : List Descriptor) (id : String) (e : Emission σ) :
    Except EmitError Nat → Emission σ → Prop where
  /-- no descriptor has the id -/
  | unknown (absent : ∀ d ∈ ds, d.id ≠ id) : Ending m ds id e (.error (.unknownSpan id)) e
  /-- the service of the descriptor has no tracer -/
  | refused {d : Descriptor} (mem : d ∈ ds) (named : d.id = id)
      (missing : m.registry.tracer? d.service = none) :
      Ending m ds id e (.error (.unknownService d.service)) e
  /-- the first descriptor of the subtree whose service has no tracer is not its root -/
  | brokenOff {s : SpanTree} {before rest : List Descriptor} {x : Descriptor} {log : List Event}
      {e' : Emission σ} (mem : s.root ∈ ds) (named : s.root.id = id) (follows : s.Follows ds)
      (split : s.preorder = s.root :: (before ++ x :: rest))
      (bound : ∀ y ∈ s.root :: before, (m.registry.tracer? y.service).isSome)
      (missing : m.registry.tracer? x.service = none)
      (logs : LogsFirst m.registry s.root before log)
      (appended : e'.events.toList = e.events.toList ++ log) :
      Ending m ds id e (.error (.unknownService x.service)) e'
  /-- all services of the subtree have tracers -/
  | whole {s : SpanTree} {log : List Event} {e' : Emission σ} (mem : s.root ∈ ds)
      (named : s.root.id = id) (follows : s.Follows ds)
      (bound : ∀ y ∈ s.preorder, (m.registry.tracer? y.service).isSome)
      (logs : LogsFirst m.registry s.root s.below.preorder log)
      (appended : e'.events.toList = e.events.toList ++ log) :
      Ending m ds id e (.ok s.preorder.length) e'

/-- From a tree whose root has a tracer either all is emitted, or all that comes before the first
descriptor without a tracer. -/
theorem emitTree_ending {s : SpanTree} {tracer : Tracer} (hu : UniqueIds ds) (hs : s.Follows ds)
    (hroot : s.root ∈ ds) (hnodup : s.preorder.Nodup)
    (bound : m.registry.tracer? s.root.service = some tracer) (e : Emission σ) :
    Ending m ds s.root.id e (m.emitTree tracer s e).1 (m.emitTree tracer s e).2 := by
  rcases emitTree_walk m tracer s e with ⟨stamps, stop, last, hwalk, hanswer, -, -, hlog⟩
  rcases hwalk.preorder_eq with ⟨rest, hpreorder, hnone⟩
  have hstamped : ∀ y ∈ stamps.map (·.descriptor), (m.registry.tracer? y.service).isSome := by
    intro y hy
    rcases List.mem_map.1 hy with ⟨st, hst, rfl⟩
    rcases (hwalk.fits st hst).service with ⟨tracer', hbound, -⟩
    rw [hbound]
    rfl
  have hbound : ∀ y ∈ s.root :: stamps.map (·.descriptor),
      (m.registry.tracer? y.service).isSome := by
    intro y hy
    rcases List.mem_cons.1 hy with rfl | hy
    · rw [bound]
      rfl
    · exact hstamped y hy
  -- what has been stamped comes first in preorder
  have hsub : (s.root :: stamps.map (·.descriptor)).Sublist s.preorder := by
    unfold SpanTree.preorder
    rw [hpreorder]
    exact (List.sublist_append_left _ _).cons_cons _
  have hds : ∀ y ∈ s.root :: stamps.map (·.descriptor), y ∈ ds := by
    intro y hy
    exact hs.mem_of_mem_preorder hroot (hsub.subset hy)
  have hlogs : LogsFirst m.registry s.root (stamps.map (·.descriptor))
      (traceLog (stampRoot tracer s.root e last) stamps) :=
    logsFirst_traceLog hu hds (hnodup.sublist hsub) rfl rfl (fits_stampRoot bound e last) hwalk.fits
  rw [hanswer]
  cases stop with
  | none =>
    have hall : stamps.map (·.descriptor) = s.below.preorder := by
      rw [hpreorder, hnone rfl]
      simp
    have hok : (answer s.below none).map (1 + ·) = .ok s.preorder.length := by
      rw [SpanTree.length_preorder]
      rfl
    rw [hall] at hlogs hbound
    rw [hok]
    exact .whole hroot rfl hs hbound hlogs hlog
  | some x =>
    have hsplit : s.preorder = s.root :: (stamps.map (·.descriptor) ++ x :: rest) :=
      congrArg (s.root :: ·) hpreorder
    exact .brokenOff hroot rfl hs hsplit hbound hwalk.missing_of_stop hlogs hlog

/-- An emission comes out in one of four ways. -/
theorem emit_ending (h : m.topology.WellFormed) (id : String) (e : Emission σ) :
    Ending m m.topology.descriptors id e (m.emit id e).1 (m.emit id e).2 := by
  by_cases hid : ∃ d ∈ m.topology.descriptors, d.id = id
  · rcases hid with ⟨d, hd, rfl⟩
    rcases h.exists_subtree? hd with ⟨s, hs, rfl⟩
    rcases h.of_subtree? hs with ⟨-, hroot, hfollows, hnodup⟩
    -- without a tracer for the root nothing is begun
    cases bound : m.registry.tracer? s.root.service with
    | none =>
      have hemit : m.emit s.root.id e = (.error (.unknownService s.root.service), e) := by
        simp [emit, hs, bound]
      rw [hemit]
      exact .refused hd rfl bound
    | some tracer =>
      rw [emit_eq_emitTree hs bound]
      exact emitTree_ending h.unique hfollows hroot hnodup bound e
  · -- a subtree would have a descriptor of that name
    have habsent : ∀ d ∈ m.topology.descriptors, d.id ≠ id := by
      intro d hd heq
      exact hid ⟨d, hd, heq⟩
    have hemit : m.emit id e = (.error (.unknownSpan id), e) := by
      have hnone : m.topology.subtree? id = none := by
        rw [Option.eq_none_iff_forall_ne_some]
        intro s hs
        rcases h.of_subtree? hs with ⟨hname, hroot, -, -⟩
        exact habsent s.root hroot hname
      simp [emit, hnone]
    rw [hemit]
    exact .unknown habsent

omit [WordSource σ] in
/-- However an emission comes out, it leaves nothing open. -/
theorem Ending.balanced {e e' : Emission σ} {result : Except EmitError Nat}
    (h : Ending m ds id e result e') :
    ∃ log, e'.events.toList = e.events.toList ++ log ∧ Balanced log := by
  cases h with
  | unknown absent => exact ⟨[], (List.append_nil _).symm, balanced_nil⟩
  | refused mem named missing => exact ⟨[], (List.append_nil _).symm, balanced_nil⟩
  | brokenOff mem named follows split bound missing logs appended =>
    exact ⟨_, appended, logs.balanced⟩
  | whole mem named follows bound logs appended => exact ⟨_, appended, logs.balanced⟩

/-- An emission of any id of an accepted topology: it is refused and nothing has happened, or it
breaks off at the first descriptor of the subtree whose service has no tracer, or it goes through
the whole subtree; and in each case nothing is left open. -/
theorem emit_leaves_nothing_open (ht : Topology.ofDescriptors ds = .ok m.topology) (id : String)
    (e : Emission σ) :
    Ending m ds id e (m.emit id e).1 (m.emit id e).2 ∧
      ∃ log, (m.emit id e).2.events.toList = e.events.toList ++ log ∧ Balanced log := by
  rcases Topology.ofDescriptors_eq_ok_iff.1 ht with ⟨rfl, h⟩
  have hending := emit_ending h id e
  exact ⟨hending, hending.balanced⟩

/-- The front end with its one call, of which the cart service has no tracer. -/
def cartlessEmitter : Emitter := { callEmitter with registry := .ofNames Tracer.mk ["frontend"] }

/-- The call breaks off at the cart service: the front end's span has started and ended. -/
theorem cartless_breaks_off :
    Topology.ofDescriptors Topology.call = .ok cartlessEmitter.topology ∧
      (cartlessEmitter.emit "1" fresh).1 = .error (.unknownService "cartservice") ∧
      (cartlessEmitter.emit "1" fresh).2.events.toList.map Event.isStart = [true, false] ∧
      Ending cartlessEmitter Topology.call "1" fresh (cartlessEmitter.emit "1" fresh).1
        (cartlessEmitter.emit "1" fresh).2 ∧
      ∃ log, (cartlessEmitter.emit "1" fresh).2.events.toList = fresh.events.toList ++ log ∧
        Balanced log := by
  have hloads : Topology.ofDescriptors Topology.call = .ok cartlessEmitter.topology :=
    Topology.ofDescriptors_call
  exact ⟨hloads, by decide, by decide, emit_leaves_nothing_open hloads "1" fresh⟩

end Emitter

end TraceLoad
