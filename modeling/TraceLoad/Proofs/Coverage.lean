import TraceLoad.Proofs.TraceShape

/-! # A tracer for every service

Whether a topology can be emitted is decided by its services alone: the check that comes before a
run asks for a tracer for each of them (`ensureCovers_eq_ok_iff`), and an emission from the root
comes out well exactly then (`emit_root_of_covered`, `covered_of_emit_root`), with the log of the
whole tree.
-/

namespace TraceLoad

namespace Topology

variable {n name : String} {ns : List String} {known : String → Bool} {t : Topology}

/-- To put a name in adds that name and no other. -/
theorem mem_insertName : n ∈ insertName name ns ↔ n = name ∨ n ∈ ns := by
  induction ns with
  | nil => simp [insertName]
  | cons m ns ih =>
    simp only [insertName]
    split
    · exact List.mem_cons
    · split
      · next heq => simp [heq]
      · rw [List.mem_cons, ih, List.mem_cons]
        exact or_left_comm

/-- The names are those of the services of the descriptors. -/
theorem mem_serviceNames : n ∈ t.serviceNames ↔ ∃ d ∈ t.descriptors, d.service = n := by
  have hfold : ∀ (ds : List Descriptor) (names : List String),
      n ∈ ds.foldl (fun names d => insertName d.service names) names ↔
        n ∈ names ∨ ∃ d ∈ ds, d.service = n := by
    intro ds
    induction ds with
    | nil => simp
    | cons d ds ih =>
      intro names
      rw [List.foldl_cons, ih, mem_insertName]
      simp only [List.mem_cons, exists_eq_or_imp, eq_comm (a := n), or_assoc, or_left_comm]
  rw [serviceNames, hfold]
  simp

/-- The check passes if every service is known. -/
theorem ensureKnown_eq_ok_iff :
    t.ensureKnown known = .ok () ↔ ∀ d ∈ t.descriptors, known d.service = true := by
  unfold ensureKnown
  split
  · next missing hfind =>
    obtain ⟨d, hd, rfl⟩ := mem_serviceNames.1 (List.mem_of_find?_eq_some hfind)
    have hunknown : known d.service ≠ true := by simpa using List.find?_some hfind
    exact ⟨nofun, fun h => absurd (h d hd) hunknown⟩
  · next hfind =>
    refine ⟨fun _ d hd => ?_, fun _ => rfl⟩
    simpa using List.find?_eq_none.1 hfind d.service (mem_serviceNames.2 ⟨d, hd, rfl⟩)

end Topology

/-- The check that comes before a run. -/
theorem Registry.ensureCovers_eq_ok_iff {r : Registry} {t : Topology} :
    r.ensureCovers t = .ok () ↔ ∀ d ∈ t.descriptors, (r.tracer? d.service).isSome :=
  Topology.ensureKnown_eq_ok_iff

namespace Emitter

variable {σ : Type} [WordSource σ] {m : Emitter}

/-- With a tracer for every service, an emission from the root succeeds and logs the whole tree. -/
theorem emit_root_of_covered (h : m.topology.WellFormed)
    (hcover : ∀ x ∈ m.topology.descriptors, (m.registry.tracer? x.service).isSome)
    (e : Emission σ) : ∃ log, (m.emit m.topology.root.id e).1 = .ok m.topology.size ∧
      LogsSubtree m.registry m.topology.descriptors m.topology.tree log ∧
      (m.emit m.topology.root.id e).2.events.toList = e.events.toList ++ log := by
  obtain ⟨s, shared, top, stamps, hs, _, hstamped, hok, hlog⟩ := emit_stamped h h.root_mem hcover e
  rw [Topology.subtree?_root] at hs
  obtain rfl := Option.some.inj hs
  exact ⟨traceLog top stamps, h.size_tree ▸ hok,
    hstamped.logsSubtree h.unique h.follows h.root_mem h.nodup_preorder, hlog⟩

/-- An emission from the root that succeeds has found a tracer for every service. -/
theorem covered_of_emit_root (h : m.topology.WellFormed) {e : Emission σ} {n : Nat}
    (hok : (m.emit m.topology.root.id e).1 = .ok n) :
    ∀ x ∈ m.topology.descriptors, (m.registry.tracer? x.service).isSome := by
  unfold emit at hok
  rw [Topology.subtree?_root] at hok
  cases hbound : m.registry.tracer? m.topology.tree.root.service with
  | none => simp [hbound] at hok
  | some tracer =>
    simp only [hbound] at hok
    obtain ⟨stamps, stop, last, hwalk, hanswer, _⟩ := emitTree_walk m tracer m.topology.tree e
    rw [hanswer] at hok
    -- the walk has not stopped, so it has found a tracer for everything below the root
    cases stop with
    | some x => cases hok
    | none =>
      intro x hx
      rcases List.mem_cons.1 (h.mem_preorder_iff.2 hx) with rfl | hbelow
      · rw [hbound]
        rfl
      · simpa [Option.isSome_iff_ne_none] using List.find?_eq_none.1 hwalk.stop_eq.symm x hbelow

/-- With a tracer for every service every emission from the root comes out well. -/
theorem exists_emit_ok {ds : List Descriptor} (ht : Topology.ofDescriptors ds = .ok m.topology)
    (hcover : m.registry.ensureCovers m.topology = .ok ()) (words : σ) (clock : Clock) :
    ∃ n e, m.emit m.topology.root.id ⟨words, clock, #[]⟩ = (.ok n, e) := by
  obtain ⟨rfl, hwell⟩ := Topology.ofDescriptors_eq_ok_iff.1 ht
  have hbound := Registry.ensureCovers_eq_ok_iff.1 hcover
  obtain ⟨log, hok, -⟩ := emit_root_of_covered hwell hbound ⟨words, clock, #[]⟩
  exact ⟨_, _, Prod.ext hok rfl⟩

end Emitter

end TraceLoad
