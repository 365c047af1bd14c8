import TraceLoad.Proofs.DrawnWords
import TraceLoad.Proofs.Verdict

/-! # The shape of a trace

An emission that starts at a descriptor of an accepted topology, with a tracer for every service,
leaves the trace of the subtree below it: `Stamped` says which stamps it consists of, and
`traceLog` in which order their events come. From the stamps follow the two laws that a reader of
the log relies on. `LogsSubtree`: every descriptor of the subtree is started and ended once, after
its parent. `Mirrors`: the links, names and attributes of the spans are those of the descriptors.
-/

namespace TraceLoad

/-- The span, if it has started only. -/
def Event.started? : Event → Option Span
  | .started s => some s
  | .ended _ => none

theorem Event.started?_started (span : Span) : Event.started? (.started span) = some span := rfl

namespace Emitter

variable {σ : Type} [WordSource σ]

/-- The name of a descriptor's span in a trace that starts at `top`. -/
def spanName (top d : Descriptor) : String := if d = top then rootName else childName d

/-- The stamps of the trace of a subtree: one for its root, which has no parent, and one for
each descriptor below, in preorder, which is linked to the stamp of the parent. -/
structure Stamped (r : Registry) (shared : TraceAttributes) (s : SpanTree) (top : Stamp)
    (stamps : List Stamp) : Prop where
  root : top.descriptor = s.root
  rest : stamps.map (·.descriptor) = s.below.preorder
  orphan : top.context.parentSpanId = none
  topFits : Fits r shared top.context.traceId rootName top
  fits : ∀ st ∈ stamps, Fits r shared top.context.traceId (childName st.descriptor) st
  linked : ∀ st ∈ stamps, ∃ p ∈ top :: stamps, st.IsChildOf p

/-- What is started in a trace are its stamps, the root first. -/
theorem started_traceLog (top : Stamp) (stamps : List Stamp) :
    (traceLog top stamps).filterMap Event.started? = (top :: stamps).map (·.span) := by
  have hstamps : (stamps.flatMap Stamp.events).filterMap Event.started? = stamps.map (·.span) := by
    induction stamps with
    | nil => rfl
    | cons s stamps ih => simp [Stamp.events, Event.started?, List.filterMap_cons, ih]
  simp [traceLog, Event.started?, List.filterMap_cons, hstamps]

/-- What is finished in a trace are its stamps, the root last. -/
theorem finished_traceLog (top : Stamp) (stamps : List Stamp) :
    (traceLog top stamps).filterMap Event.finished? = (stamps ++ [top]).map Stamp.ended := by
  have hstamps : (stamps.flatMap Stamp.events).filterMap Event.finished? =
      stamps.map Stamp.ended := by
    induction stamps with
    | nil => rfl
    | cons s stamps ih => simp [Stamp.events, Event.finished?, List.filterMap_cons, ih]
  simp [traceLog, Event.finished?, List.filterMap_cons, hstamps]

/-! ## The trace that an emission leaves -/

variable {m : Emitter} {ds : List Descriptor} {d : Descriptor} {s : SpanTree}

/-- A walk through services that all have tracers does not stop. -/
theorem Walk.stop_eq_none {r : Registry} {shared : TraceAttributes} {f : Forest}
    {parent : TraceContext} {e e' : Emission σ} {stamps : List Stamp} {stop : Option Descriptor}
    (h : Walk r shared f parent e stamps stop e')
    (hcover : ∀ x ∈ f.preorder, (r.tracer? x.service).isSome) : stop = none := by
  rw [h.stop_eq, List.find?_eq_none]
  intro x hx
  simp [Option.isNone_iff_eq_none, Option.isSome_iff_ne_none.1 (hcover x hx)]

/-- A walk through all that is below a root leaves, together with the root's stamp, the trace of
the tree. -/
theorem Walk.stamped {r : Registry} {tracer : Tracer} {e last : Emission σ} {stamps : List Stamp}
    (h : Walk r (drawnShare e) s.below (rootContext e).1 (afterRoot tracer s.root e) stamps none
      last) (hs : s.Follows ds) (bound : r.tracer? s.root.service = some tracer) :
    Stamped r (drawnShare e) s (stampRoot tracer s.root e last) stamps where
  root := rfl
  rest := h.descriptors
  orphan := rfl
  topFits := fits_stampRoot bound e last
  fits := h.fits
  linked := h.linked rfl hs.hangsFrom

/-- Every stamp's span fits its descriptor, under some name. -/
theorem Stamped.exists_fits {r : Registry} {shared : TraceAttributes} {top st : Stamp}
    {stamps : List Stamp} (h : Stamped r shared s top stamps) (hst : st ∈ top :: stamps) :
    ∃ name, Fits r shared top.context.traceId name st := by
  rcases List.mem_cons.1 hst with rfl | hst
  · exact ⟨_, h.topFits⟩
  · exact ⟨_, h.fits st hst⟩

/-- The identifiers of such a trace are the words that are drawn for it. -/
theorem Walk.drawn {r : Registry} {tracer : Tracer} {e last : Emission σ} {stamps : List Stamp}
    (h : Walk r (drawnShare e) s.below (rootContext e).1 (afterRoot tracer s.root e) stamps none
      last) (hs : s.Follows ds) (bound : r.tracer? s.root.service = some tracer) :
    Drawn e.words (stampRoot tracer s.root e last :: stamps) := by
  have hstamped := h.stamped hs bound
  exact h.inTurn_root.drawn (fun _ hst => hstamped.exists_fits hst) (bytes_rootContext e)

/-- With a tracer for every service of the subtree the whole subtree is stamped. -/
theorem emitTree_stamped (m : Emitter) {tracer : Tracer} (hs : s.Follows ds)
    (bound : m.registry.tracer? s.root.service = some tracer)
    (hcover : ∀ x ∈ s.below.preorder, (m.registry.tracer? x.service).isSome) (e : Emission σ) :
    ∃ shared top stamps, Stamped m.registry shared s top stamps ∧
      (m.emitTree tracer s e).1 = .ok s.size ∧
      (m.emitTree tracer s e).2.events.toList = e.events.toList ++ traceLog top stamps := by
  obtain ⟨stamps, stop, last, hwalk, hok, -, -, hlog⟩ := emitTree_walk m tracer s e
  have hstop : stop = none := hwalk.stop_eq_none hcover
  subst hstop
  exact ⟨_, _, stamps, hwalk.stamped hs bound, hok, hlog⟩

/-- With a tracer for its root a subtree is emitted. -/
theorem emit_eq_emitTree {id : String} {tracer : Tracer} (hs : m.topology.subtree? id = some s)
    (bound : m.registry.tracer? s.root.service = some tracer) (e : Emission σ) :
    m.emit id e = m.emitTree tracer s e := by
  simp [emit, hs, bound]

/-- To emit a descriptor of an accepted topology is to emit the tree below it. -/
theorem exists_emitTree (h : m.topology.WellFormed) (hd : d ∈ m.topology.descriptors)
    (hcover : ∀ x ∈ m.topology.descriptors, (m.registry.tracer? x.service).isSome) :
    ∃ s tracer, m.topology.subtree? d.id = some s ∧ s.root = d ∧
      s.Follows m.topology.descriptors ∧ s.preorder.Nodup ∧
      m.registry.tracer? s.root.service = some tracer ∧
      (∀ x ∈ s.below.preorder, (m.registry.tracer? x.service).isSome) ∧
      ∀ e : Emission σ, m.emit d.id e = m.emitTree tracer s e := by
  obtain ⟨s, hs, rfl⟩ := h.exists_subtree? hd
  obtain ⟨_, hroot, hfollows, hnodup⟩ := h.of_subtree? hs
  obtain ⟨tracer, bound⟩ := Option.isSome_iff_exists.1 (hcover s.root hd)
  have hbelow : ∀ x ∈ s.below.preorder, (m.registry.tracer? x.service).isSome := fun x hx =>
    hcover x (hfollows.mem_of_mem_preorder hroot (List.mem_cons_of_mem _ hx))
  exact ⟨s, tracer, hs, rfl, hfollows, hnodup, bound, hbelow, emit_eq_emitTree hs bound⟩

/-- The emission of a descriptor of an accepted topology. -/
theorem emit_stamped (h : m.topology.WellFormed) (hd : d ∈ m.topology.descriptors)
    (hcover : ∀ x ∈ m.topology.descriptors, (m.registry.tracer? x.service).isSome)
    (e : Emission σ) :
    ∃ s shared top stamps, m.topology.subtree? d.id = some s ∧ s.root = d ∧
      Stamped m.registry shared s top stamps ∧ (m.emit d.id e).1 = .ok s.size ∧
      (m.emit d.id e).2.events.toList = e.events.toList ++ traceLog top stamps := by
  obtain ⟨s, tracer, hs, hroot, hfollows, _, bound, hbelow, hemit⟩ :=
    exists_emitTree (σ := σ) h hd hcover
  obtain ⟨shared, top, stamps, hstamped, hok, hlog⟩ := emitTree_stamped m hfollows bound hbelow e
  rw [← hemit] at hok hlog
  exact ⟨s, shared, top, stamps, hs, hroot, hstamped, hok, hlog⟩

/-! ## Spans are told apart by their names -/

/-- The name of a child tells its identifier. -/
theorem id_eq_of_childName_eq {x y : Descriptor} (h : childName x = childName y) :
    x.id = y.id := by
  unfold childName at h
  exact (String.append_right_inj _).1 h

/-- No child has the name of the root. -/
theorem rootName_ne_childName (x : Descriptor) : rootName ≠ childName x := by
  unfold rootName childName
  intro h
  have hroot : ("lets-go" : String).toList.head? = some 'l' := by decide
  have hchild : ("message from span " ++ x.id).toList.head? = some 'm' := by
    rw [String.toList_append, List.head?_append]
    rfl
  rw [h, hchild] at hroot
  exact absurd hroot (by decide)

theorem spanName_root (top : Descriptor) : spanName top top = rootName := if_pos rfl

theorem spanName_of_ne {top x : Descriptor} (h : x ≠ top) : spanName top x = childName x :=
  if_neg h

/-- Different descriptors of a list with unique ids have spans of different names. -/
theorem spanName_injOn (hu : UniqueIds ds) (top : Descriptor) {x y : Descriptor} (hx : x ∈ ds)
    (hy : y ∈ ds) (h : spanName top x = spanName top y) : x = y := by
  by_cases hxt : x = top
  · by_cases hyt : y = top
    · rw [hxt, hyt]
    · rw [hxt, spanName_root, spanName_of_ne hyt] at h
      exact absurd h (rootName_ne_childName y)
  · by_cases hyt : y = top
    · rw [hyt, spanName_root, spanName_of_ne hxt] at h
      exact absurd h.symm (rootName_ne_childName x)
    · rw [spanName_of_ne hxt, spanName_of_ne hyt] at h
      exact hu.eq_of_id_eq hx hy (id_eq_of_childName_eq h)

namespace Stamped

variable {r : Registry} {shared : TraceAttributes} {top : Stamp} {stamps : List Stamp}

/-- The stamps are those of the tree, in preorder. -/
theorem descriptors (h : Stamped r shared s top stamps) :
    (top :: stamps).map (·.descriptor) = s.preorder := by
  rw [List.map_cons, h.root, h.rest]
  rfl

theorem mem_preorder (h : Stamped r shared s top stamps) {st : Stamp}
    (hst : st ∈ top :: stamps) : st.descriptor ∈ s.preorder := by
  rw [← h.descriptors]
  exact List.mem_map.2 ⟨st, hst, rfl⟩

/-- The root has no stamp but its own. -/
theorem eq_top (h : Stamped r shared s top stamps) (hnodup : s.preorder.Nodup) {st : Stamp}
    (hst : st ∈ top :: stamps) (hroot : st.descriptor = s.root) : st = top := by
  rcases List.mem_cons.1 hst with rfl | hst
  · rfl
  · have hbelow : st.descriptor ∈ s.below.preorder := h.rest ▸ List.mem_map.2 ⟨st, hst, rfl⟩
    exact absurd (hroot ▸ hbelow) (List.nodup_cons.1 hnodup).1

/-- Every stamp's span has the name that its descriptor has in the trace. -/
theorem name_eq (h : Stamped r shared s top stamps) (hnodup : s.preorder.Nodup) {st : Stamp}
    (hst : st ∈ top :: stamps) : st.span.name = spanName s.root st.descriptor := by
  by_cases hroot : st.descriptor = s.root
  · rw [h.eq_top hnodup hst hroot, h.topFits.name, h.root, spanName_root]
  · have hbelow : st ∈ stamps :=
      (List.mem_cons.1 hst).resolve_left fun htop => hroot (htop ▸ h.root)
    rw [(h.fits st hbelow).name, spanName_of_ne hroot]

/-- The names in the order of the starts are those of the subtree in preorder. -/
theorem started_names (h : Stamped r shared s top stamps) (hnodup : s.preorder.Nodup) :
    ((traceLog top stamps).filterMap Event.started?).map (·.name) =
      s.preorder.map (spanName s.root) := by
  rw [started_traceLog, ← h.descriptors, List.map_map, List.map_map]
  exact List.map_congr_left fun st hst => h.name_eq hnodup hst

/-- The names in the order of the ends: those below the root, then the root's. -/
theorem finished_names (h : Stamped r shared s top stamps) (hnodup : s.preorder.Nodup) :
    ((traceLog top stamps).filterMap Event.finished?).map (·.name) =
      (s.below.preorder ++ [s.root]).map (spanName s.root) := by
  have hdescriptors : s.below.preorder ++ [s.root] = (stamps ++ [top]).map (·.descriptor) := by
    rw [List.map_append, h.rest, List.map_singleton, h.root]
  rw [finished_traceLog, hdescriptors, List.map_map, List.map_map]
  refine List.map_congr_left fun st hst => h.name_eq hnodup ?_
  rcases List.mem_append.1 hst with hst | hst
  · exact List.mem_cons_of_mem _ hst
  · exact List.mem_singleton.1 hst ▸ List.mem_cons_self

/-- Every event is of a stamp. -/
theorem exists_stamp_of_mem {ev : Event} (h : ev ∈ traceLog top stamps) :
    ∃ st ∈ top :: stamps, ev.span.name = st.span.name := by
  simp only [traceLog, List.mem_append, List.mem_cons, List.mem_flatMap, List.not_mem_nil,
    or_false] at h
  rcases h with (rfl | ⟨st, hst, hev⟩) | rfl
  · exact ⟨top, List.mem_cons_self, rfl⟩
  · refine ⟨st, List.mem_cons_of_mem _ hst, ?_⟩
    simp only [Stamp.events, List.mem_cons, List.not_mem_nil, or_false] at hev
    rcases hev with rfl | rfl
    · rfl
    · rfl
  · exact ⟨top, List.mem_cons_self, rfl⟩

/-- Before a descriptor below the root starts, its parent has started. -/
theorem parent_started (h : Stamped r shared s top stamps) (hu : UniqueIds ds)
    (hs : s.Follows ds) (hroot : s.root ∈ ds) (hnodup : s.preorder.Nodup) {x : Descriptor}
    (hx : x ∈ s.below.preorder) {before after : List Event} {span : Span}
    (hsplit : traceLog top stamps = before ++ .started span :: after)
    (hname : span.name = spanName s.root x) :
    ∃ p ∈ s.preorder, x.parent = p.id ∧
      ∃ earlier, .started earlier ∈ before ∧ earlier.name = spanName s.root p := by
  have hnames := h.started_names hnodup
  -- the starts are in preorder, so where the log is split the preorder is split too
  rw [hsplit, List.filterMap_append, List.filterMap_cons_some (Event.started?_started span),
    List.map_append, List.map_cons] at hnames
  obtain ⟨before', rest, hpreorder, hbefore, hrest⟩ := List.map_eq_append_iff.1 hnames.symm
  obtain ⟨x', after', rfl, hx', _⟩ := List.map_eq_cons_iff.1 hrest
  have hmem : ∀ y ∈ s.preorder, y ∈ ds := fun y hy => hs.mem_of_mem_preorder hroot hy
  have hxmem : x ∈ s.preorder := List.mem_cons_of_mem _ hx
  have hx'mem : x' ∈ s.preorder := by simp [hpreorder]
  have hxx : x' = x :=
    spanName_injOn hu s.root (hmem x' hx'mem) (hmem x hxmem) (hx'.trans hname)
  subst hxx
  -- the parent comes earlier in preorder, and so does its start in the log
  have hbelow : x' ≠ s.root := fun heq => (List.nodup_cons.1 hnodup).1 (heq ▸ hx)
  obtain ⟨p, hp, hlink⟩ := hs.parent_first hpreorder hbelow
  have hpname : spanName s.root p ∈ (before.filterMap Event.started?).map (·.name) := by
    rw [← hbefore]
    exact List.mem_map.2 ⟨p, hp, rfl⟩
  obtain ⟨earlier, hearlier, hename⟩ := List.mem_map.1 hpname
  obtain ⟨ev, hev, hspan⟩ := List.mem_filterMap.1 hearlier
  refine ⟨p, by simp [hpreorder, hp], hlink, earlier, ?_, hename⟩
  cases ev with
  | started span' => exact Option.some.inj hspan ▸ hev
  | ended _ => cases hspan

end Stamped

/-! ## The log of a subtree -/

/-- The log of a whole subtree of a list of descriptors. An event is of a descriptor if its span
has the descriptor's name. -/
structure LogsSubtree (r : Registry) (ds : List Descriptor) (s : SpanTree) (log : List Event) :
    Prop where
  /-- the root starts, everything below it starts and ends in preorder, and the root ends -/
  shape : ∃ shared top stamps, Stamped r shared s top stamps ∧ log = traceLog top stamps
  startedOnce : ∀ x ∈ s.preorder,
    ((log.filterMap Event.started?).map (·.name)).count (spanName s.root x) = 1
  endedOnce : ∀ x ∈ s.preorder,
    ((log.filterMap Event.finished?).map (·.name)).count (spanName s.root x) = 1
  inside : ∀ ev ∈ log, ∃ x ∈ s.preorder, ev.span.name = spanName s.root x
  notOutside : ∀ x ∈ ds, x ∉ s.preorder → ∀ ev ∈ log, ev.span.name ≠ spanName s.root x
  parentFirst : ∀ x ∈ s.below.preorder, ∀ before span after,
    log = before ++ .started span :: after → span.name = spanName s.root x →
      ∃ p ∈ s.preorder, x.parent = p.id ∧
        ∃ earlier, .started earlier ∈ before ∧ earlier.name = spanName s.root p

theorem Stamped.logsSubtree {r : Registry} {shared : TraceAttributes} {top : Stamp}
    {stamps : List Stamp} (h : Stamped r shared s top stamps) (hu : UniqueIds ds)
    (hs : s.Follows ds) (hroot : s.root ∈ ds) (hnodup : s.preorder.Nodup) :
    LogsSubtree r ds s (traceLog top stamps) := by
  have hmem : ∀ y ∈ s.preorder, y ∈ ds := fun y hy => hs.mem_of_mem_preorder hroot hy
  -- in a tree no two descriptors have the same name, so a name is as good as the descriptor
  have hnames : (s.preorder.map (spanName s.root)).Nodup :=
    hnodup.map_on fun x hx y hy => spanName_injOn hu s.root (hmem x hx) (hmem y hy)
  have hperm : (s.below.preorder ++ [s.root]).Perm s.preorder := List.perm_append_singleton _ _
  -- every event is of a span with the name of a descriptor in the tree
  have hinside : ∀ ev ∈ traceLog top stamps,
      ∃ x ∈ s.preorder, ev.span.name = spanName s.root x := by
    intro ev hev
    obtain ⟨st, hst, hname⟩ := exists_stamp_of_mem hev
    exact ⟨st.descriptor, h.mem_preorder hst, hname.trans (h.name_eq hnodup hst)⟩
  exact {
    shape := ⟨shared, top, stamps, h, rfl⟩
    startedOnce := by
      intro x hx
      rw [h.started_names hnodup]
      exact List.count_eq_one_of_mem hnames (List.mem_map.2 ⟨x, hx, rfl⟩)
    endedOnce := by
      intro x hx
      rw [h.finished_names hnodup, (hperm.map _).count_eq]
      exact List.count_eq_one_of_mem hnames (List.mem_map.2 ⟨x, hx, rfl⟩)
    inside := hinside
    notOutside := by
      intro x hx hout ev hev heq
      obtain ⟨y, hy, hname⟩ := hinside ev hev
      exact hout (spanName_injOn hu s.root hx (hmem y hy) (heq.symm.trans hname) ▸ hy)
    parentFirst := fun x hx before span after hsplit hname =>
      h.parent_started hu hs hroot hnodup hx hsplit hname }

/-- Emitting a descriptor of an accepted topology succeeds and appends the log of its subtree; the
count is the number of descriptors there, which is all of them if it starts at the root. -/
theorem emit_logs_subtree (ht : Topology.ofDescriptors ds = .ok m.topology)
    (hcover : ∀ x ∈ ds, (m.registry.tracer? x.service).isSome) (hd : d ∈ ds) (e : Emission σ) :
    ∃ s log, s.root = d ∧ s.Follows ds ∧ LogsSubtree m.registry ds s log ∧
      (m.emit d.id e).1 = .ok s.preorder.length ∧
      (m.emit d.id e).2.events.toList = e.events.toList ++ log ∧
      (d = m.topology.root → s.preorder.length = m.topology.size) := by
  obtain ⟨rfl, h⟩ := Topology.ofDescriptors_eq_ok_iff.1 ht
  obtain ⟨s, shared, top, stamps, hs, rfl, hstamped, hok, hlog⟩ := emit_stamped h hd hcover e
  obtain ⟨_, hroot, hfollows, hnodup⟩ := h.of_subtree? hs
  refine ⟨s, traceLog top stamps, rfl, hfollows,
    hstamped.logsSubtree h.unique hfollows hroot hnodup, ?_, hlog, fun htop => ?_⟩
  · rw [hok, SpanTree.length_preorder]
  · -- the subtree of the root is the whole tree
    rw [htop, Topology.subtree?_root] at hs
    rw [← Option.some.inj hs, SpanTree.length_preorder, h.size_tree]

/-- The shop, with a tracer for each of the default services. -/
def shopEmitter : Emitter where
  topology := ⟨Topology.shop, Topology.shopTree⟩
  registry := .ofNames Tracer.mk Registry.defaultServices
  propagate := true

/-- The front end with its one call, in the registry of the shop. -/
def callEmitter : Emitter where
  topology := ⟨Topology.call, Topology.callTree⟩
  registry := shopEmitter.registry
  propagate := false

/-- Before anything has been emitted: three words over and over, and a clock that stands still. -/
def fresh : Emission Repeating := ⟨.ofList [1, 2, 3], .still ⟨0⟩, #[]⟩

/-- The checkout of the shop, which is neither its root nor a leaf, logs its subtree. -/
theorem shop_logs_checkout :
    Topology.ofDescriptors Topology.shop = .ok shopEmitter.topology ∧
      (∀ x ∈ Topology.shop, (shopEmitter.registry.tracer? x.service).isSome) ∧
      ⟨"5", "1", "checkoutservice"⟩ ∈ Topology.shop ∧
      ∃ s log, s.root = ⟨"5", "1", "checkoutservice"⟩ ∧ s.Follows Topology.shop ∧
        LogsSubtree shopEmitter.registry Topology.shop s log ∧
        (shopEmitter.emit "5" fresh).1 = .ok s.preorder.length ∧
        (shopEmitter.emit "5" fresh).2.events.toList = fresh.events.toList ++ log ∧
        (⟨"5", "1", "checkoutservice"⟩ = shopEmitter.topology.root →
          s.preorder.length = shopEmitter.topology.size) := by
  have hloads : Topology.ofDescriptors Topology.shop = .ok shopEmitter.topology :=
    Topology.builtin_eq
  have hcover : ∀ x ∈ Topology.shop, (shopEmitter.registry.tracer? x.service).isSome := by decide
  have hcheckout : ⟨"5", "1", "checkoutservice"⟩ ∈ Topology.shop := by decide
  exact ⟨hloads, hcover, hcheckout,
    emit_logs_subtree hloads hcover hcheckout fresh⟩

/-! ## The spans of a whole trace -/

theorem entries_forService (a : TraceAttributes) (service : String) :
    (a.forService service).entries = [
      ("http.status_code", .text a.statusCode),
      ("http.url", .text a.url),
      ("service.name", .text service),
      ("span.kind", .text a.kind.name)] := by
  have hservice : "service.name" < "span.kind" := by decide
  have hstatus : "http.status_code" < "service.name" := by decide
  have hurl : ¬ "http.url" < "http.status_code" := by decide
  have hother : "http.url" ≠ "http.status_code" := by decide
  have hlast : "http.url" < "service.name" := by decide
  -- each of the four is put at its place among those before it
  unfold TraceAttributes.forService Attributes.ofList
  rw [List.foldl_cons, List.foldl_cons, List.foldl_cons, List.foldl_cons, List.foldl_nil]
  unfold Attributes.insert Attributes.empty
  dsimp only
  rw [Attributes.insertEntry, Attributes.insertEntry, if_pos hservice]
  rw [Attributes.insertEntry, if_pos hstatus]
  rw [Attributes.insertEntry, if_neg hurl, if_neg hother, Attributes.insertEntry, if_pos hlast]

theorem get?_forService_service (a : TraceAttributes) (service : String) :
    (a.forService service).get? "service.name" = some (.text service) := by
  rw [Attributes.get?, entries_forService]
  rfl

/-- But for the service, the attributes are those that are shared. -/
theorem get?_forService_of_mem (a : TraceAttributes) (service service' : String) {key : String}
    (h : key ∈ ["span.kind", "http.status_code", "http.url"]) :
    (a.forService service).get? key = (a.forService service').get? key := by
  rw [Attributes.get?, Attributes.get?, entries_forService, entries_forService]
  simp only [List.mem_cons, List.not_mem_nil, or_false] at h
  rcases h with rfl | rfl | rfl
  · rfl
  · rfl
  · rfl

/-- Where tracers carry the names that they are bound to, a service's tracer carries its name. -/
theorem service_of_tracer? {r : Registry} (hnames : ∀ b ∈ r.bindings, b.2.service = b.1)
    {service : String} {tracer : Tracer} (h : r.tracer? service = some tracer) :
    tracer.service = service := by
  obtain ⟨b, hb, rfl⟩ := Option.map_eq_some_iff.1 h
  have hservice : b.1 = service := by simpa using List.find?_some hb
  rw [hnames b (List.mem_of_find?_eq_some hb), hservice]

/-- The stamps of a trace that is drawn from a stream mirror a list of descriptors that form one
tree. -/
structure Mirrors (ds : List Descriptor) (root : Descriptor) (s : σ) (stamps : List Stamp) :
    Prop where
  /-- every descriptor has one span -/
  each : (stamps.map (·.descriptor)).Perm ds
  oneTrace : ∀ a ∈ stamps, ∀ b ∈ stamps, a.span.traceId = b.span.traceId
  /-- its identifier and those of its spans are the words that are drawn for them -/
  drawn : Drawn s stamps
  top : ∀ a ∈ stamps, a.descriptor = root →
    a.span.parentSpanId = none ∧ a.span.name = "lets-go"
  name : ∀ a ∈ stamps, a.descriptor ≠ root →
    a.span.name = "message from span " ++ a.descriptor.id
  /-- the parent span is that of the descriptor which is named as the parent -/
  link : ∀ a ∈ stamps, a.descriptor ≠ root → ∃ p ∈ stamps,
    p.descriptor.id = a.descriptor.parent ∧ a.span.parentSpanId = some p.span.spanId
  service : ∀ a ∈ stamps, a.span.service = a.descriptor.service ∧
    a.span.attributes.get? "service.name" = some (.text a.descriptor.service)
  shared : ∀ a ∈ stamps, ∀ b ∈ stamps, ∀ key ∈ ["span.kind", "http.status_code", "http.url"],
    a.span.attributes.get? key = b.span.attributes.get? key
  keys : ∀ a ∈ stamps, a.span.attributes.entries.map (·.1) =
    ["http.status_code", "http.url", "service.name", "span.kind"]

namespace Stamped

variable {r : Registry} {shared : TraceAttributes} {top : Stamp} {stamps : List Stamp}

/-- A trace that is stamped and drawn mirrors the descriptors of its tree. -/
theorem mirrors {words : σ} (h : Stamped r shared s top stamps) (hnodup : s.preorder.Nodup)
    (hperm : s.preorder.Perm ds) (hnames : ∀ b ∈ r.bindings, b.2.service = b.1)
    (hdrawn : Drawn words (top :: stamps)) : Mirrors ds s.root words (top :: stamps) := by
  -- all spans are given the attributes that the trace shares, and their service
  have hattributes : ∀ a ∈ top :: stamps,
      a.span.attributes = shared.forService a.descriptor.service := by
    intro a ha
    obtain ⟨_, hfits⟩ := h.exists_fits ha
    exact hfits.attributes
  exact {
    each := h.descriptors ▸ hperm
    oneTrace := by
      intro a ha b hb
      obtain ⟨_, hafits⟩ := h.exists_fits ha
      obtain ⟨_, hbfits⟩ := h.exists_fits hb
      rw [hafits.traceId, hbfits.traceId]
    drawn := hdrawn
    top := by
      intro a ha hroot
      rw [h.name_eq hnodup ha, hroot, spanName_root, h.eq_top hnodup ha hroot]
      exact ⟨h.topFits.parentSpanId.trans h.orphan, rfl⟩
    name := by
      intro a ha hne
      rw [h.name_eq hnodup ha, spanName_of_ne hne]
      rfl
    link := by
      intro a ha hne
      -- all stamps but the first are linked to one that is among them
      have hbelow : a ∈ stamps :=
        (List.mem_cons.1 ha).resolve_left fun htop => hne (htop ▸ h.root)
      obtain ⟨p, hp, hlink, hcontext⟩ := h.linked a hbelow
      obtain ⟨_, hafits⟩ := h.exists_fits ha
      obtain ⟨_, hpfits⟩ := h.exists_fits hp
      exact ⟨p, hp, hlink.symm, by rw [hafits.parentSpanId, hcontext, hpfits.spanId]⟩
    service := by
      intro a ha
      obtain ⟨_, hfits⟩ := h.exists_fits ha
      obtain ⟨tracer, hbound, hservice⟩ := hfits.service
      refine ⟨hservice.trans (service_of_tracer? hnames hbound), ?_⟩
      rw [hattributes a ha, get?_forService_service]
    shared := by
      intro a ha b hb key hkey
      rw [hattributes a ha, hattributes b hb]
      exact get?_forService_of_mem _ _ _ hkey
    keys := by
      intro a ha
      rw [hattributes a ha, entries_forService]
      rfl }

end Stamped

/-- Emitting an accepted topology from its root succeeds, and the spans that it appends mirror the
descriptors: each is started as one of the stamps says, in their order, and ended once. -/
theorem emit_mirrors_topology (ht : Topology.ofDescriptors ds = .ok m.topology)
    (hcover : ∀ x ∈ ds, (m.registry.tracer? x.service).isSome)
    (hnames : ∀ b ∈ m.registry.bindings, b.2.service = b.1) (e : Emission σ) :
    ∃ stamps log, ds.find? (·.isRoot) = some m.topology.root ∧
      Mirrors ds m.topology.root e.words stamps ∧
      (m.emit m.topology.root.id e).1 = .ok ds.length ∧
      (m.emit m.topology.root.id e).2.events.toList = e.events.toList ++ log ∧
      log.filterMap Event.started? = stamps.map (·.span) ∧
      (log.filterMap Event.finished?).Perm (stamps.map Stamp.ended) := by
  obtain ⟨rfl, h⟩ := Topology.ofDescriptors_eq_ok_iff.1 ht
  obtain ⟨s, tracer, hs, _, hfollows, _, bound, hbelow, hemit⟩ :=
    exists_emitTree (σ := σ) h h.root_mem hcover
  rw [Topology.subtree?_root] at hs
  cases hs
  obtain ⟨stamps, stop, last, hwalk, hok, -, -, hlog⟩ :=
    emitTree_walk m tracer m.topology.tree e
  obtain rfl := hwalk.stop_eq_none hbelow
  have hstamped := hwalk.stamped hfollows bound
  rw [← hemit] at hok hlog
  refine ⟨_, _, h.find?_isRoot,
    hstamped.mirrors h.nodup_preorder h.preorder_perm hnames (hwalk.drawn hfollows bound), ?_, hlog,
    started_traceLog _ stamps, ?_⟩
  · -- the answer counts the root and all that is below it, which is the whole list
    have hsize : m.topology.tree.size = m.topology.descriptors.length := h.size_tree
    rw [hok, ← hsize]
    rfl
  · -- the root ends last, and is the first of the stamps
    rw [finished_traceLog]
    exact (List.perm_append_singleton _ stamps).map _

/-- The trace of the shop mirrors it. -/
theorem shop_mirrors_topology :
    Topology.ofDescriptors Topology.shop = .ok shopEmitter.topology ∧
      (∀ x ∈ Topology.shop, (shopEmitter.registry.tracer? x.service).isSome) ∧
      (∀ b ∈ shopEmitter.registry.bindings, b.2.service = b.1) ∧
      ∃ stamps log, Topology.shop.find? (·.isRoot) = some shopEmitter.topology.root ∧
        Mirrors Topology.shop shopEmitter.topology.root fresh.words stamps ∧
        (shopEmitter.emit shopEmitter.topology.root.id fresh).1 = .ok Topology.shop.length ∧
        (shopEmitter.emit shopEmitter.topology.root.id fresh).2.events.toList =
          fresh.events.toList ++ log ∧
        log.filterMap Event.started? = stamps.map (·.span) ∧
        (log.filterMap Event.finished?).Perm (stamps.map Stamp.ended) := by
  have hloads : Topology.ofDescriptors Topology.shop = .ok shopEmitter.topology :=
    Topology.builtin_eq
  have hcover : ∀ x ∈ Topology.shop, (shopEmitter.registry.tracer? x.service).isSome := by decide
  have hnames : ∀ b ∈ shopEmitter.registry.bindings, b.2.service = b.1 := by decide
  exact ⟨hloads, hcover, hnames,
    emit_mirrors_topology hloads hcover hnames fresh⟩

end Emitter

end TraceLoad
