import TraceLoad.Proofs.Levels
import TraceLoad.Proofs.Lookup
import TraceLoad.Proofs.ServiceNames

/-! # The order of descriptors

In which order the descriptors of a topology are listed makes no difference but for the order of
what is listed: of children, and of the ids that an error reports. A list and a permutation of it
are both accepted or refused for the same kind of reason (`ofDescriptors_perm`), because every
condition on a list is one on its members and on how often they occur. Only which id is found to
occur twice and which parent is found missing depends on what comes first.
-/

namespace TraceLoad

variable {ds ds' : List Descriptor} {d e root : Descriptor} {k : Nat} {id : String}

/-- A chain of parent links is one in every list that has its descriptors. -/
theorem Climb.mono (h : Climb ds k d e) (hsub : ds ⊆ ds') : Climb ds' k d e := by
  induction h with
  | stay mem => exact .stay (hsub mem)
  | up mem low link _ ih => exact .up (hsub mem) low link ih

/-- A descriptor that arrives at the root does so among more of them, too. -/
theorem Arrives.mono (h : Arrives ds d) (hsub : ds ⊆ ds') : Arrives ds' d := by
  rcases h with ⟨k, r, hr, hk⟩
  exact ⟨k, r, hr, hk.mono hsub⟩

theorem Resolves.mono (h : Resolves ds d) (hsub : ds ⊆ ds') : Resolves ds' d := by
  rcases h with top | ⟨p, hp, link⟩
  · exact Or.inl top
  · exact Or.inr ⟨p, hsub hp, link⟩

theorem UniqueIds.of_perm (hu : UniqueIds ds) (h : ds.Perm ds') : UniqueIds ds' :=
  (h.map _).nodup_iff.1 hu

theorem rootsOf_perm (h : ds.Perm ds') : (rootsOf ds).Perm (rootsOf ds') := h.filter _

/-- The one root is the same in any order. -/
theorem rootsOf_of_perm (hroots : rootsOf ds = [root]) (h : ds.Perm ds') :
    rootsOf ds' = [root] := by
  have hperm := rootsOf_perm h
  rw [hroots] at hperm
  exact (List.singleton_perm.1 hperm).symm

/-- In any order the same descriptors arrive at the root. -/
theorem arrives_iff_of_perm (h : ds.Perm ds') : Arrives ds d ↔ Arrives ds' d := by
  constructor
  · intro hd
    exact hd.mono h.subset
  · intro hd
    exact hd.mono h.symm.subset

open Classical in
theorem astray_perm (h : ds.Perm ds') : (astray ds).Perm (astray ds') := by
  have hsame : astray ds' = ds'.filter fun d => ¬ Arrives ds d := by
    apply List.filter_congr
    intro d _
    simp [arrives_iff_of_perm h]
  rw [hsame]
  exact h.filter _

/-- The same kind of reason to refuse a list. What is found first may differ, and what is reported
as a whole differs in its order. -/
inductive SameReason : TopologyError → TopologyError → Prop where
  | empty : SameReason .empty .empty
  | duplicateSpan {id id' : String} : SameReason (.duplicateSpan id) (.duplicateSpan id')
  | missingRoot : SameReason .missingRoot .missingRoot
  | multipleRoots {ids ids' : List String} (same : ids.Perm ids') :
      SameReason (.multipleRoots ids) (.multipleRoots ids')
  | unresolvedParent {id id' parent parent' : String} :
      SameReason (.unresolvedParent id parent) (.unresolvedParent id' parent')
  | unreachable {ids ids' : List String} (same : ids.Perm ids') :
      SameReason (.unreachable ids) (.unreachable ids')

/-- Two lists are both accepted, and what is made of them is the same in some sense, or both
refused for the same kind of reason. -/
inductive SameAnswer {α : Type} (Same : α → α → Prop) :
    Except TopologyError α → Except TopologyError α → Prop where
  | accepted {a b : α} (same : Same a b) : SameAnswer Same (.ok a) (.ok b)
  | refused {e e' : TopologyError} (same : SameReason e e') : SameAnswer Same (.error e) (.error e')

namespace Topology

/-- Two topologies differ in nothing but the order of what they list. -/
structure SameShape (t u : Topology) : Prop where
  descriptors : t.descriptors.Perm u.descriptors
  root : t.root = u.root
  findRoot : t.findRoot = u.findRoot
  size : t.size = u.size
  depth : t.depth = u.depth
  serviceNames : t.serviceNames = u.serviceNames
  get? : ∀ id, t.get? id = u.get? id
  childrenOf : ∀ id, (t.childrenOf id).Perm (u.childrenOf id)

/-- The same for tables. -/
structure Table.SameShape (t u : Table) : Prop where
  spans : t.spans.toList.Perm u.spans.toList
  findRoot : t.findRoot = u.findRoot
  get? : ∀ id, t.get? id = u.get? id
  childrenOf : ∀ id, (t.childrenOf id).Perm (u.childrenOf id)

namespace WellFormed

variable {t u : Topology}

theorem root_eq (ht : t.WellFormed) (hu : u.WellFormed) (h : t.descriptors.Perm u.descriptors) :
    t.root = u.root := by
  have hsingle := rootsOf_of_perm ht.single h
  rw [hu.single] at hsingle
  exact (List.head_eq_of_cons_eq hsingle).symm

/-- In no order is a topology deeper than in another. -/
theorem depth_le (ht : t.WellFormed) (hu : u.WellFormed)
    (h : t.descriptors.Perm u.descriptors) : t.depth ≤ u.depth := by
  -- what stands on the lowest level of the one tree stands as low in the other
  rcases ht.exists_deepest with ⟨d, k, hk, hdepth⟩
  have hk' : Climb u.descriptors k d u.root := ht.root_eq hu h ▸ hk.mono h.subset
  have hlt := hu.lt_depth hk'
  omega

theorem sameShape (ht : t.WellFormed) (hu : u.WellFormed)
    (h : t.descriptors.Perm u.descriptors) : SameShape t u where
  descriptors := h
  root := ht.root_eq hu h
  findRoot := by rw [ht.findRoot_eq, hu.findRoot_eq, ht.root_eq hu h]
  size := h.length_eq
  depth := Nat.le_antisymm (ht.depth_le hu h) (hu.depth_le ht h.symm)
  serviceNames := by
    -- both lists of names are ordered, and have the same names in them
    apply (pairwise_serviceNames t).eq_of_mem_iff (pairwise_serviceNames u)
    intro name
    rw [mem_serviceNames, mem_serviceNames]
    simp only [h.mem_iff]
  get? id := by
    apply Option.ext
    intro d
    rw [ht.get?_eq_some_iff, hu.get?_eq_some_iff, h.mem_iff]
  childrenOf id := by
    rw [ht.childrenOf_eq, hu.childrenOf_eq]
    exact (h.filter _).map _

end WellFormed

theorem Table.Holds.sameShape {t u : Topology} {tb ub : Table} (ht : tb.Holds t)
    (hu : ub.Holds u) (hwt : t.WellFormed) (hwu : u.WellFormed) (h : Topology.SameShape t u) :
    Table.SameShape tb ub where
  spans := by
    rw [ht.spans, hu.spans]
    exact h.descriptors
  findRoot := by rw [ht.findRoot_eq hwt, hu.findRoot_eq hwu, h.root]
  get? id := by rw [ht.get?_eq hwt, hu.get?_eq hwu, h.get?]
  childrenOf id := by
    rw [ht.childrenOf_eq hwt, hu.childrenOf_eq hwu]
    exact h.childrenOf id

/-- A list in which an id occurs twice is refused for that. -/
theorem exists_duplicateSpan (h : ¬ UniqueIds ds) :
    ∃ id, ofDescriptors ds = .error (.duplicateSpan id) := by
  cases hfirst : firstRepeated ∅ ds with
  | none => exact absurd (firstRepeated_eq_none_iff.1 hfirst).1 h
  | some id => exact ⟨id, ofDescriptors_of_firstRepeated hfirst⟩

/-- With one root, a list that lacks a parent is refused for that. -/
theorem exists_unresolvedParent (hu : UniqueIds ds) (hroots : rootsOf ds = [root])
    (h : ¬ ∀ e ∈ ds, Resolves ds e) :
    ∃ id parent, ofDescriptors ds = .error (.unresolvedParent id parent) := by
  rcases exists_first_dangling h with ⟨before, d, after, hsplit, hbefore, hd⟩
  exact ⟨d.id, d.parent, ofDescriptors_of_dangling hu hroots hsplit hbefore hd⟩

/-- Whatever a list is refused for, a permutation of it is refused for the same kind of reason. -/
theorem exists_error_of_perm {e : TopologyError} (he : ofDescriptors ds = .error e)
    (h : ds.Perm ds') : ∃ e', ofDescriptors ds' = .error e' ∧ SameReason e e' := by
  -- each check depends on what is listed and not on the order, so the same one fails
  cases ofDescriptors_eq_iff.1 he with
  | empty nothing =>
    subst nothing
    rw [h.nil_eq] at he
    exact ⟨_, he, .empty⟩
  | duplicateSpan split fresh again =>
    have hrepeated : ¬ UniqueIds ds' := by
      intro hu
      have hids := hu.of_perm h.symm
      rw [split, UniqueIds, List.map_append, List.map_cons] at hids
      exact List.disjoint_of_nodup_append hids again List.mem_cons_self
    rcases exists_duplicateSpan hrepeated with ⟨id, herror⟩
    exact ⟨_, herror, .duplicateSpan⟩
  | missingRoot something unique rootless =>
    have hne : ds' ≠ [] := by
      rintro rfl
      exact something h.eq_nil
    have hroots : rootsOf ds' = [] := by
      have hperm := rootsOf_perm h
      rw [rootless] at hperm
      exact hperm.nil_eq.symm
    exact ⟨_, ofDescriptors_of_rootless hne (unique.of_perm h) hroots, .missingRoot⟩
  | multipleRoots unique many =>
    rw [(rootsOf_perm h).length_eq] at many
    exact ⟨_, ofDescriptors_of_many (unique.of_perm h) many,
      .multipleRoots ((rootsOf_perm h).map _)⟩
  | @unresolvedParent root before after d unique single split resolved dangling =>
    have hd : d ∈ ds' := by
      apply h.subset
      simp [split]
    -- another descriptor may come first now, but one without its parent there is
    have hlacking : ¬ ∀ e ∈ ds', Resolves ds' e := by
      intro hall
      exact dangling ((hall d hd).mono h.symm.subset)
    rcases exists_unresolvedParent (unique.of_perm h) (rootsOf_of_perm single h) hlacking with
      ⟨id, parent, herror⟩
    exact ⟨_, herror, .unresolvedParent⟩
  | unreachable unique single resolved lost =>
    have hres : ∀ e ∈ ds', Resolves ds' e := by
      intro e he
      exact (resolved e (h.mem_iff.2 he)).mono h.subset
    have hlost : astray ds' ≠ [] := by
      intro hnil
      have hperm := astray_perm h
      rw [hnil] at hperm
      exact lost hperm.eq_nil
    exact ⟨_, ofDescriptors_of_astray (unique.of_perm h) (rootsOf_of_perm single h) hres hlost,
      .unreachable ((astray_perm h).map _)⟩

/-- A permutation of a list that is accepted is accepted, too. -/
theorem WellFormed.exists_of_perm {t : Topology} (ht : t.WellFormed) (h : t.descriptors.Perm ds') :
    ∃ u, ofDescriptors ds' = .ok u ∧ SameShape t u := by
  have harrive : ∀ d ∈ ds', Arrives ds' d := by
    intro d hd
    exact ((arrives_iff_climb ht.single).2 (ht.climb (h.mem_iff.2 hd))).mono h.subset
  have hu := ofDescriptors_of_arrives (ht.unique.of_perm h) (rootsOf_of_perm ht.single h) harrive
  exact ⟨_, hu, ht.sameShape (ofDescriptors_eq_ok_iff.1 hu).2 h⟩

/-- In which order descriptors are listed decides neither whether they are accepted nor for what
kind of reason they are refused, and it decides nothing but orders in what is made of them. -/
theorem ofDescriptors_perm (h : ds.Perm ds') :
    SameAnswer SameShape (ofDescriptors ds) (ofDescriptors ds') ∧
    SameAnswer Table.SameShape (Table.ofDescriptors ds) (Table.ofDescriptors ds') := by
  cases hr : ofDescriptors ds with
  | error e =>
    rcases exists_error_of_perm hr h with ⟨e', he', hsame⟩
    rw [he', Table.ofDescriptors_of_error hr, Table.ofDescriptors_of_error he']
    exact ⟨.refused hsame, .refused hsame⟩
  | ok t =>
    rcases ofDescriptors_eq_ok_iff.1 hr with ⟨rfl, ht⟩
    -- the tables follow, since they hold what the topologies say
    rcases ht.exists_of_perm h with ⟨u, hu, hsame⟩
    rcases Table.exists_holds hr with ⟨tb, htb, hholds⟩
    rcases Table.exists_holds hu with ⟨ub, hub, hholds'⟩
    rw [hu, htb, hub]
    have hwu : u.WellFormed := (ofDescriptors_eq_ok_iff.1 hu).2
    exact ⟨.accepted hsame, .accepted (hholds.sameShape hholds' ht hwu hsame)⟩

/-- The shop from its last descriptor to its first is the shop. -/
theorem shop_reversed : shop.Perm shop.reverse ∧
    SameAnswer SameShape (ofDescriptors shop) (ofDescriptors shop.reverse) ∧
    ∃ u, ofDescriptors shop.reverse = .ok u ∧ SameShape ⟨shop, shopTree⟩ u ∧ u.depth = 3 := by
  have hperm : shop.Perm shop.reverse := shop.reverse_perm.symm
  -- what is accepted in one order cannot be refused in the other
  have hanswer := (ofDescriptors_perm hperm).1
  refine ⟨hperm, hanswer, ?_⟩
  have hloads : ofDescriptors shop = .ok ⟨shop, shopTree⟩ := builtin_eq
  rw [hloads] at hanswer
  cases hr : ofDescriptors shop.reverse with
  | error e =>
    rw [hr] at hanswer
    cases hanswer
  | ok u =>
    rw [hr] at hanswer
    cases hanswer with
    | accepted same => exact ⟨u, rfl, same, same.depth.symm.trans (by decide)⟩

end Topology

end TraceLoad
