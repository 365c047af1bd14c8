import Mathlib.Data.List.Sort
import TraceLoad.Proofs.Coverage
import TraceLoad.Proofs.TextBytes
import TraceLoad.Words.Keystream

/-! # The services of a topology

The names of a topology's services are told in ascending order, each once. So the first of them
that is not known is the least, and it is the one that the check before a run names. An emission
from the root looks services up in the order of the tree instead: what it fails for is the first
descriptor in preorder whose service has no tracer (`emit_root_eq`). Both fail together
(`ensureCovers_decides`), though not always for the same service.
-/

namespace TraceLoad

namespace Topology

variable {name s : String} {ns : List String} {known : String → Bool} {t : Topology}

/-- A name is put where it belongs. -/
theorem pairwise_insertName (h : ns.Pairwise (· < ·)) : (insertName name ns).Pairwise (· < ·) := by
  induction ns with
  | nil => exact List.pairwise_singleton _ _
  | cons n ns ih =>
    rcases List.pairwise_cons.1 h with ⟨hfirst, hrest⟩
    simp only [insertName]
    split
    · -- the name goes in front of all
      next hlt =>
      refine List.pairwise_cons.2 ⟨?_, h⟩
      intro m hm
      rcases List.mem_cons.1 hm with rfl | hm
      · exact hlt
      · exact lt_trans hlt (hfirst m hm)
    · next hnlt =>
      split
      · exact h
      · -- it goes somewhere behind the first
        next hne =>
        refine List.pairwise_cons.2 ⟨?_, ih hrest⟩
        intro m hm
        rcases mem_insertName.1 hm with rfl | hm
        · exact lt_of_le_of_ne (not_lt.1 hnlt) (Ne.symm hne)
        · exact hfirst m hm

/-- The names of the services ascend. -/
theorem pairwise_serviceNames (t : Topology) : t.serviceNames.Pairwise (· < ·) := by
  have hfold : ∀ (ds : List Descriptor) (names : List String), names.Pairwise (· < ·) →
      (ds.foldl (fun names d => insertName d.service names) names).Pairwise (· < ·) := by
    intro ds
    induction ds with
    | nil =>
      intro names h
      exact h
    | cons d ds ih =>
      intro names h
      exact ih _ (pairwise_insertName h)
  exact hfold t.descriptors [] List.Pairwise.nil

/-- Of an ascending list the first name that passes a test is the least one that does. -/
theorem find?_eq_some_iff_of_pairwise {test : String → Bool} (h : ns.Pairwise (· < ·)) :
    ns.find? test = some s ↔ s ∈ ns ∧ test s = true ∧ ∀ s' ∈ ns, test s' = true → s ≤ s' := by
  induction ns with
  | nil => simp
  | cons n ns ih =>
    rcases List.pairwise_cons.1 h with ⟨hfirst, hrest⟩
    -- the first name that passes the test comes before all that follow it
    by_cases hn : test n = true
    · rw [List.find?_cons_of_pos hn, Option.some_inj]
      constructor
      · rintro rfl
        refine ⟨List.mem_cons_self, hn, ?_⟩
        intro s' hs' _
        rcases List.mem_cons.1 hs' with rfl | hs'
        · exact le_refl _
        · exact le_of_lt (hfirst s' hs')
      · rintro ⟨hs, _, hleast⟩
        rcases List.mem_cons.1 hs with rfl | hs
        · rfl
        · exact absurd (hfirst s hs) (not_lt.2 (hleast n List.mem_cons_self hn))
    · rw [List.find?_cons_of_neg hn, ih hrest]
      constructor
      · rintro ⟨hs, htest, hleast⟩
        refine ⟨List.mem_cons_of_mem _ hs, htest, ?_⟩
        intro s' hs' htest'
        rcases List.mem_cons.1 hs' with rfl | hs'
        · exact absurd htest' hn
        · exact hleast s' hs' htest'
      · rintro ⟨hs, htest, hleast⟩
        rcases List.mem_cons.1 hs with rfl | hs
        · exact absurd htest hn
        · exact ⟨hs, htest, fun s' hs' => hleast s' (List.mem_cons_of_mem _ hs')⟩

/-- The check names the least of the services that are not known. -/
theorem ensureKnown_eq_error_iff {error : TopologyError} :
    t.ensureKnown known = .error error ↔
      ∃ s ∈ t.serviceNames, error = .unknownService s ∧ known s = false ∧
        ∀ s' ∈ t.serviceNames, known s' = false → s ≤ s' := by
  -- the first name that is unknown is the least, since the names are ordered
  have hfound : ∀ s, (t.serviceNames.find? fun name => !known name) = some s ↔
      s ∈ t.serviceNames ∧ known s = false ∧
        ∀ s' ∈ t.serviceNames, known s' = false → s ≤ s' := by
    intro s
    rw [find?_eq_some_iff_of_pairwise (pairwise_serviceNames t)]
    simp
  unfold ensureKnown
  constructor
  · intro h
    split at h
    · next s hfind =>
      cases h
      rcases (hfound s).1 hfind with ⟨hs, hunknown, hleast⟩
      exact ⟨s, hs, rfl, hunknown, hleast⟩
    · cases h
  · rintro ⟨s, hs, rfl, hunknown, hleast⟩
    rw [(hfound s).2 ⟨hs, hunknown, hleast⟩]

/-- The root can be found. -/
theorem WellFormed.findRoot_eq (h : t.WellFormed) : t.findRoot = .ok t.root.id := by
  rw [findRoot, h.find?_isRoot]

end Topology

namespace Registry

variable {make : String → Tracer} {names seen : List String} {s : String}

/-- A name is kept unless it was seen before. -/
theorem mem_distinct : s ∈ distinct seen names ↔ s ∈ names ∧ s ∉ seen := by
  induction names generalizing seen with
  | nil => simp [distinct]
  | cons n names ih =>
    simp only [distinct]
    split
    · next hseen =>
      rw [ih, List.mem_cons]
      constructor
      · rintro ⟨hs, hfresh⟩
        exact ⟨Or.inr hs, hfresh⟩
      · rintro ⟨rfl | hs, hfresh⟩
        · exact absurd hseen hfresh
        · exact ⟨hs, hfresh⟩
    · next hnew =>
      rw [List.mem_cons, ih, List.mem_cons, List.mem_cons]
      by_cases hs : s = n
      · subst hs
        simp [hnew]
      · simp [hs]

/-- A service has a tracer iff its name is among those that the registry is made of, and it is the
one that has been made for that name. -/
theorem tracer?_ofNames (make : String → Tracer) (names : List String) (s : String) :
    (ofNames make names).tracer? s = if s ∈ names then some (make s) else none := by
  rw [tracer?, ofNames]
  dsimp only
  rw [List.find?_map, Option.map_map]
  cases hfind : (distinct [] names).find? ((fun b => decide (b.1 = s)) ∘ fun n => (n, make n)) with
  | none =>
    -- a name that is listed is kept once, so it would be found
    have hno : s ∉ names := by
      intro hs
      have hother := List.find?_eq_none.1 hfind s (mem_distinct.2 ⟨hs, List.not_mem_nil⟩)
      simp at hother
    rw [if_neg hno]
    rfl
  | some n =>
    have hn : n = s := by simpa using List.find?_some hfind
    subst hn
    rw [if_pos (mem_distinct.1 (List.mem_of_find?_eq_some hfind)).1]
    rfl

theorem isNone_tracer?_ofNames (make : String → Tracer) (names : List String) (s : String) :
    ((ofNames make names).tracer? s).isNone = decide (s ∉ names) := by
  rw [tracer?_ofNames]
  by_cases hs : s ∈ names
  · simp [hs]
  · simp [hs]

/-- The check of a registry asks which names it is made of. -/
theorem ensureCovers_ofNames (make : String → Tracer) (names : List String) (t : Topology) :
    (ofNames make names).ensureCovers t = t.ensureKnown fun s => decide (s ∈ names) := by
  unfold ensureCovers
  congr 1
  funext s
  rw [← Option.not_isNone, isNone_tracer?_ofNames, decide_not, Bool.not_not]

end Registry

namespace Emitter

variable {σ : Type} [WordSource σ] {m : Emitter}

/-- An emission from the root comes out well unless some service has no tracer, and fails for the
first such descriptor in preorder. -/
theorem emit_root_eq (h : m.topology.WellFormed) (e : Emission σ) :
    (m.emit m.topology.root.id e).1 =
      match m.topology.tree.preorder.find? fun d => (m.registry.tracer? d.service).isNone with
      | some d => .error (.unknownService d.service)
      | none => .ok m.topology.size := by
  unfold emit
  rw [Topology.subtree?_root]
  dsimp only
  rw [SpanTree.preorder, List.find?_cons]
  -- the root is the first to be looked up, before anything is begun
  cases hbound : m.registry.tracer? m.topology.tree.root.service with
  | none => rfl
  | some tracer =>
    rcases emitTree_walk m tracer m.topology.tree e with ⟨_, stop, _, hwalk, hanswer, _⟩
    rw [hanswer, ← hwalk.stop_eq]
    -- the walk stops at the first descriptor without a tracer, in preorder
    cases stop with
    | some d => rfl
    | none =>
      have hsize : 1 + m.topology.tree.below.size = m.topology.size := h.size_tree
      simp [answer, Except.map, hsize]

end Emitter

/-- How the check for tracers decides on a topology, when the registry is made of a list of
names. -/
structure Registry.Decides (r : Registry) (names : List String) (t : Topology) : Prop where
  /-- it asks for the names in the list -/
  asks : r.ensureCovers t = t.ensureKnown fun s => decide (s ∈ names)
  /-- it lets a topology pass iff no emission from the root can fail -/
  passes : ∃ root, t.findRoot = .ok root ∧
    (r.ensureCovers t = .ok () ↔
      ∀ (σ : Type) [WordSource σ] (propagate : Bool) (e : Emission σ),
        ∃ n, ((⟨t, r, propagate⟩ : Emitter).emit root e).1 = .ok n)
  /-- with one that it refuses every emission from the root fails, for the first descriptor in
  preorder whose service is not in the list -/
  refuses : ∀ error, r.ensureCovers t = .error error →
    ∃ d, (t.tree.preorder.find? fun d => decide (d.service ∉ names)) = some d ∧
      ∀ (σ : Type) [WordSource σ] (propagate : Bool) (e : Emission σ),
        ((⟨t, r, propagate⟩ : Emitter).emit t.root.id e).1 = .error (.unknownService d.service)
  /-- what it names is the least of the topology's services that are not in the list, by the bytes
  of the names -/
  least : ∀ error, r.ensureCovers t = .error error →
    ∃ s, error = .unknownService s ∧ s ∉ names ∧ (∃ d ∈ t.descriptors, d.service = s) ∧
      ∀ d ∈ t.descriptors, d.service ∉ names → d.service ≠ s →
        s.toUTF8.data.toList < d.service.toUTF8.data.toList

namespace Registry

variable {ds : List Descriptor} {t : Topology}

/-- The check that comes before a run decides whether traces can be emitted, and names the least
of the services that are missing. -/
theorem ensureCovers_decides (ht : Topology.ofDescriptors ds = .ok t) (make : String → Tracer)
    (names : List String) : (ofNames make names).Decides names t := by
  rcases Topology.ofDescriptors_eq_ok_iff.1 ht with ⟨rfl, h⟩
  refine {
    asks := ensureCovers_ofNames make names t
    passes := ⟨t.root.id, h.findRoot_eq, ?passes⟩
    refuses := ?refuses
    least := ?least }
  case passes =>
    constructor
    · intro hcover σ _ propagate e
      rcases Emitter.emit_root_of_covered (m := ⟨t, ofNames make names, propagate⟩) h
        (ensureCovers_eq_ok_iff.1 hcover) e with ⟨_, hok, _⟩
      exact ⟨_, hok⟩
    · intro hemit
      -- one emission that comes out well is enough
      rcases hemit Keystream true ⟨Keystream.ofSeed 0, .still ⟨0⟩, #[]⟩ with ⟨n, hok⟩
      exact ensureCovers_eq_ok_iff.2
        (Emitter.covered_of_emit_root (m := ⟨t, ofNames make names, true⟩) h hok)
  case refuses =>
    intro error herror
    rw [ensureCovers_ofNames] at herror
    rcases Topology.ensureKnown_eq_error_iff.1 herror with ⟨s, hs, _, hunknown, _⟩
    rcases Topology.mem_serviceNames.1 hs with ⟨d, hd, rfl⟩
    have hno : d.service ∉ names := by simpa using hunknown
    cases hfirst : t.tree.preorder.find? fun d => decide (d.service ∉ names) with
    | none =>
      have hall := List.find?_eq_none.1 hfirst d (h.mem_preorder_iff.2 hd)
      simp [hno] at hall
    | some first =>
      refine ⟨first, rfl, ?_⟩
      intro σ _ propagate e
      rw [Emitter.emit_root_eq (m := ⟨t, ofNames make names, propagate⟩) h e]
      simp only [isNone_tracer?_ofNames, hfirst]
  case least =>
    intro error herror
    rw [ensureCovers_ofNames] at herror
    rcases Topology.ensureKnown_eq_error_iff.1 herror with ⟨s, hs, heq, hunknown, hleast⟩
    refine ⟨s, heq, by simpa using hunknown, Topology.mem_serviceNames.1 hs, ?_⟩
    intro d hd hmissing hne
    have hmem : d.service ∈ t.serviceNames := Topology.mem_serviceNames.2 ⟨d, hd, rfl⟩
    have hle : s ≤ d.service := hleast d.service hmem (by simpa using hmissing)
    exact lt_iff_utf8_lt.1 (lt_of_le_of_ne hle (Ne.symm hne))

/-- Without the services of a call the check names the one that is called, because it comes first
among the names, and an emission fails for the front end, because it comes first in the tree. -/
theorem call_uncovered : Topology.ofDescriptors Topology.call = .ok Emitter.callEmitter.topology ∧
    (ofNames Tracer.mk ["adservice", "adservice"]).Decides ["adservice", "adservice"]
      Emitter.callEmitter.topology ∧
    (ofNames Tracer.mk ["adservice", "adservice"]).ensureCovers Emitter.callEmitter.topology =
      .error (.unknownService "cartservice") ∧
    ∀ (σ : Type) [WordSource σ] (propagate : Bool) (e : Emission σ),
      ((⟨Emitter.callEmitter.topology, ofNames Tracer.mk ["adservice", "adservice"], propagate⟩ :
        Emitter).emit "1" e).1 = .error (.unknownService "frontend") := by
  have hloads : Topology.ofDescriptors Topology.call = .ok Emitter.callEmitter.topology :=
    Topology.ofDescriptors_call
  have hdecides := ensureCovers_decides hloads Tracer.mk ["adservice", "adservice"]
  have hrefused : (ofNames Tracer.mk ["adservice", "adservice"]).ensureCovers
      Emitter.callEmitter.topology = .error (.unknownService "cartservice") := by decide
  refine ⟨hloads, hdecides, hrefused, ?_⟩
  -- the check reports the least of the names, an emission the first on its way
  rcases hdecides.refuses _ hrefused with ⟨d, hd, hfails⟩
  have hfirst : d = ⟨"1", "", "frontend"⟩ := by
    apply Option.some.inj
    rw [← hd]
    decide
  subst hfirst
  exact hfails

end Registry

end TraceLoad
