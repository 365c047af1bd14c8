import TraceLoad.Proofs.Places

/-! # What an accepted topology knows of its list

Look-ups in an accepted list find the descriptor of an id and nothing else, children come in the
order of the list, and every chain of parent links ends at the root. The tree of a topology and the
tables that are filled from the list agree in all this, and the tables point nowhere but into the
list (`ofDescriptors_exact`).
-/

namespace TraceLoad

namespace Topology

variable {ds : List Descriptor} {t : Topology} {d e : Descriptor} {id : String} {i j : Nat}

/-- With a name for it, a child is whatever names that parent; only the root names none. -/
theorem childrenIn_of_ne (hid : id ≠ "") :
    childrenIn ds id = ds.filter fun d => d.parent = id := by
  refine List.filter_congr fun d _ => ?_
  by_cases hparent : d.parent = id
  · have hlow : d.isRoot = false := by
      rw [Descriptor.isRoot, hparent]
      exact beq_false_of_ne hid
    simp [hparent, hlow]
  · simp [hparent]

namespace WellFormed

/-- Whoever names no parent is the root. -/
theorem eq_root (h : t.WellFormed) (hd : d ∈ t.descriptors) (top : d.isRoot = true) :
    d = t.root := by
  have hmem : d ∈ rootsOf t.descriptors := List.mem_filter.2 ⟨hd, top⟩
  rwa [h.single, List.mem_singleton] at hmem

/-- A parent that is named is in the list. -/
theorem exists_parent (h : t.WellFormed) (hd : d ∈ t.descriptors) (low : d.isRoot = false) :
    ∃ p ∈ t.descriptors, d.parent = p.id := by
  rcases ((arrives_iff_climb h.single).2 (h.climb hd)).resolves with top | hparent
  · rw [low] at top
    cases top
  · exact hparent

/-- An id that no descriptor has as its own has no children either. -/
theorem childrenIn_eq_nil (h : t.WellFormed) (hnone : ∀ d ∈ t.descriptors, d.id ≠ id) :
    childrenIn t.descriptors id = [] := by
  refine List.filter_eq_nil_iff.2 fun d hd hchild => ?_
  obtain ⟨-, low, link⟩ := mem_childrenIn.1 (List.mem_filter.2 ⟨hd, hchild⟩)
  obtain ⟨p, hp, hparent⟩ := h.exists_parent hd low
  exact hnone p hp (hparent.symm.trans link)

/-- What is found under an id is the descriptor of that id. -/
theorem get?_eq_some_iff (h : t.WellFormed) :
    t.get? id = some d ↔ d ∈ t.descriptors ∧ d.id = id := by
  constructor
  · intro hget
    exact ⟨List.mem_of_find?_eq_some hget, by simpa using List.find?_some hget⟩
  · rintro ⟨hd, rfl⟩
    cases hget : t.get? d.id with
    | none => exact absurd (List.find?_eq_none.1 hget d hd) (by simp)
    | some e =>
      have hid : e.id = d.id := by simpa using List.find?_some hget
      rw [h.unique.eq_of_id_eq (List.mem_of_find?_eq_some hget) hd hid]

/-- Nothing is found under an id that no descriptor has. -/
theorem get?_eq_none_iff (h : t.WellFormed) :
    t.get? id = none ↔ ∀ d ∈ t.descriptors, d.id ≠ id := by
  rw [Option.eq_none_iff_forall_ne_some]
  constructor
  · intro hno d hd hid
    exact hno d (h.get?_eq_some_iff.2 ⟨hd, hid⟩)
  · intro hno d hget
    obtain ⟨hd, hid⟩ := h.get?_eq_some_iff.1 hget
    exact hno d hd hid

/-- The children that the tree has for an id are those that the list has. -/
theorem childrenOf_eq (h : t.WellFormed) (id : String) :
    t.childrenOf id = (childrenIn t.descriptors id).map (·.id) := by
  unfold childrenOf
  cases hs : t.subtree? id with
  | some s =>
    obtain ⟨hid, -, hfollows, -⟩ := h.of_subtree? hs
    dsimp only
    rw [SpanTree.children, hfollows.1, hid]
  | none =>
    -- an id that no tree has is the id of no descriptor
    have hnone : ∀ d ∈ t.descriptors, d.id ≠ id := by
      rintro d hd rfl
      obtain ⟨s, hsome, -⟩ := h.exists_subtree? hd
      rw [hs] at hsome
      cases hsome
    rw [h.childrenIn_eq_nil hnone]
    rfl

end WellFormed

/-! ## Look-ups in tables -/

namespace Table.Holds

variable {tb : Table}

theorem getElem?_spans (h : tb.Holds t) (i : Nat) : tb.spans[i]? = t.descriptors[i]? := by
  rw [← h.spans, Array.getElem?_toList]

/-- The index has no place for an id that no descriptor has. -/
theorem index_eq_none_iff (h : tb.Holds t) :
    tb.index[id]? = none ↔ ∀ d ∈ t.descriptors, d.id ≠ id := by
  rw [Option.eq_none_iff_forall_ne_some]
  constructor
  · intro hno d hd hid
    obtain ⟨i, hi⟩ := List.mem_iff_getElem?.1 hd
    exact hno i ((h.index id i).2 ⟨d, hi, hid⟩)
  · intro hno i hi
    obtain ⟨d, hd, hid⟩ := (h.index id i).1 hi
    exact hno d (List.mem_of_getElem? hd) hid

theorem get?_eq (h : tb.Holds t) (hw : t.WellFormed) (id : String) : tb.get? id = t.get? id := by
  unfold Table.get?
  cases hi : tb.index[id]? with
  | none => exact (hw.get?_eq_none_iff.2 (h.index_eq_none_iff.1 hi)).symm
  | some i =>
    obtain ⟨d, hd, hid⟩ := (h.index id i).1 hi
    rw [Option.bind_some, h.getElem?_spans, hd]
    exact (hw.get?_eq_some_iff.2 ⟨List.mem_of_getElem? hd, hid⟩).symm

theorem childrenOf_eq (h : tb.Holds t) (hw : t.WellFormed) (id : String) :
    tb.childrenOf id = t.childrenOf id := by
  rw [hw.childrenOf_eq, Table.childrenOf]
  cases hi : tb.index[id]? with
  | none =>
    rw [hw.childrenIn_eq_nil (h.index_eq_none_iff.1 hi)]
    rfl
  | some i =>
    obtain ⟨d, hd, rfl⟩ := (h.index id i).1 hi
    dsimp only
    rw [Array.getD_eq_getD_getElem?, h.children.listed i d hd, Option.getD_some]
    simp only [h.getElem?_spans]
    rw [childrenIn, ← Table.filterMap_places, List.map_filterMap]

theorem findRoot_eq (h : tb.Holds t) (hw : t.WellFormed) : tb.findRoot = .ok t.root.id := by
  have hfind := hw.find?_isRoot
  rw [← h.spans, Array.find?_toList] at hfind
  rw [Table.findRoot, hfind]

/-- Only descriptors have children, and only descriptors that name them as their parent. -/
theorem exists_of_mem_getD (h : tb.Holds t) (hj : j ∈ tb.children.getD i #[]) :
    ∃ p d, t.descriptors[i]? = some p ∧ t.descriptors[j]? = some d ∧ d.isRoot = false ∧
      d.parent = p.id := by
  cases hp : t.descriptors[i]? with
  | none =>
    have hout : tb.children[i]? = none := by
      rw [Array.getElem?_eq_none_iff, h.children.size]
      exact List.getElem?_eq_none_iff.1 hp
    rw [Array.getD_eq_getD_getElem?, hout] at hj
    simp at hj
  | some p =>
    obtain ⟨d, hd, low, link⟩ := (h.children.mem_getD hp).1 hj
    exact ⟨p, d, rfl, hd, low, link⟩

/-- The place of a descriptor below the root is listed once, at the place of its parent. -/
theorem count_getD (h : tb.Holds t) (hw : t.WellFormed) {p : Nat} {parent : Descriptor}
    (hd : t.descriptors[j]? = some d) (low : d.isRoot = false)
    (hp : t.descriptors[p]? = some parent) (link : d.parent = parent.id) (i : Nat) :
    (tb.children.getD i #[]).count j = if i = p then 1 else 0 := by
  rcases eq_or_ne i p with rfl | hne
  · -- it is listed under its parent, and a place is listed once only
    have hmem := (h.children.mem_getD hp).2 ⟨d, hd, low, link⟩
    rw [if_pos rfl]
    rw [Array.getD_eq_getD_getElem?, h.children.listed i parent hp, Option.getD_some] at hmem ⊢
    rw [List.count_toArray]
    exact List.count_eq_one_of_mem (Table.nodup_places _ _) (List.mem_toArray.1 hmem)
  · rw [if_neg hne, Array.count_eq_zero]
    intro hmem
    -- whoever lists it is its parent, who stands at one place
    obtain ⟨q, d', hq, hd', -, hlink⟩ := h.exists_of_mem_getD hmem
    obtain rfl := Option.some.inj (hd.symm.trans hd')
    exact hne (hw.unique.place_eq hq hp (hlink.symm.trans link))

/-- The root is nobody's child. -/
theorem root_not_mem_getD (h : tb.Holds t) (hw : t.WellFormed) (i : Nat) :
    tb.root ∉ tb.children.getD i #[] := by
  intro hroot
  obtain ⟨p, d, -, hd, low, -⟩ := h.exists_of_mem_getD hroot
  rw [h.root] at hd
  obtain rfl := Option.some.inj hd
  rw [hw.isRoot_root] at low
  cases low

end Table.Holds

/-! ## What is kept of a list -/

/-- All that is kept of a list is as the list and its parent links say. -/
structure Exact (ds : List Descriptor) (t : Topology) (tb : Table) : Prop where
  same : t.descriptors = ds ∧ tb.spans.toList = ds
  /-- an id has the one descriptor whose id it is, and any other text has none -/
  found : ∀ id d, tb.get? id = some d ↔ d ∈ ds ∧ d.id = id
  missing : ∀ id, tb.get? id = none ↔ ∀ d ∈ ds, d.id ≠ id
  /-- the children of an id are those that name it as their parent, in the order of the list; an
  empty text names no parent, even where it is somebody's id -/
  children : ∀ id, tb.childrenOf id =
    (ds.filter fun d => !d.isRoot && d.parent == id).map (·.id)
  named : ∀ id, id ≠ "" → tb.childrenOf id = (ds.filter fun d => d.parent = id).map (·.id)
  childless : ∀ id, (∀ d ∈ ds, d.id ≠ id) → tb.childrenOf id = []
  /-- the tree has the same answers -/
  alike : ∀ id, t.get? id = tb.get? id ∧ t.childrenOf id = tb.childrenOf id
  /-- the tree holds the list, every descriptor of it once -/
  held : t.tree.preorder.Perm ds
  /-- its root is the one that names no parent, and stands at the place that is kept for it -/
  top : ds.find? (·.isRoot) = some t.root ∧ tb.findRoot = .ok t.root.id
  rootAt : ∃ hi : tb.root < ds.length, ds[tb.root] = t.root
  /-- an id has the place at which it stands, and no place leads out of the list -/
  indexAt : ∀ id i, tb.index[id]? = some i ↔ ∃ hi : i < ds.length, ds[i].id = id
  filed : tb.children.size = ds.length ∧
    ∀ i, ∀ j ∈ tb.children.getD i #[], i < ds.length ∧ j < ds.length
  /-- at the place of a descriptor are the places of its children, in ascending order -/
  childrenAt : ∀ i (hi : i < ds.length), (tb.children.getD i #[]).toList =
    (List.range ds.length).filter fun j => ds[j]?.any fun d => !d.isRoot && d.parent == ds[i].id
  /-- every descriptor below the root is listed as a child once, at the place of its parent -/
  once : ∀ j (hj : j < ds.length), j ≠ tb.root → ∃ p, ∃ hp : p < ds.length,
    ds[j].parent = ds[p].id ∧
      ∀ i, (tb.children.getD i #[]).count j = if i = p then 1 else 0
  orphan : ∀ i, tb.root ∉ tb.children.getD i #[]
  /-- fewer links than there are descriptors lead to the root -/
  climbs : ∀ d ∈ ds, ∃ k < ds.length, Climb ds k d t.root

/-- Whatever list is accepted, all that is kept of it is exact. -/
theorem ofDescriptors_exact (ht : ofDescriptors ds = .ok t) :
    ∃ tb, Table.ofDescriptors ds = .ok tb ∧ Exact ds t tb := by
  obtain ⟨tb, htb, hholds⟩ := Table.exists_holds ht
  obtain ⟨rfl, h⟩ := ofDescriptors_eq_ok_iff.1 ht
  refine ⟨tb, htb, {
    same := ⟨rfl, hholds.spans⟩
    found := ?found
    missing := ?missing
    children := ?children
    named := ?named
    childless := ?childless
    alike := fun id => ⟨(hholds.get?_eq h id).symm, (hholds.childrenOf_eq h id).symm⟩
    held := h.preorder_perm
    top := ⟨h.find?_isRoot, hholds.findRoot_eq h⟩
    rootAt := List.getElem?_eq_some_iff.1 hholds.root
    indexAt := ?indexAt
    filed := ?filed
    childrenAt := ?childrenAt
    once := ?once
    orphan := hholds.root_not_mem_getD h
    climbs := ?climbs }⟩
  case found =>
    intro id d
    rw [hholds.get?_eq h, h.get?_eq_some_iff]
  case missing =>
    intro id
    rw [hholds.get?_eq h, h.get?_eq_none_iff]
  case children =>
    intro id
    rw [hholds.childrenOf_eq h, h.childrenOf_eq, childrenIn]
  case named =>
    intro id hid
    rw [hholds.childrenOf_eq h, h.childrenOf_eq, childrenIn_of_ne hid]
  case childless =>
    intro id hnone
    rw [hholds.childrenOf_eq h, h.childrenOf_eq, h.childrenIn_eq_nil hnone]
    rfl
  case indexAt =>
    intro id i
    rw [hholds.index]
    constructor
    · rintro ⟨d, hd, rfl⟩
      obtain ⟨hi, rfl⟩ := List.getElem?_eq_some_iff.1 hd
      exact ⟨hi, rfl⟩
    · rintro ⟨hi, rfl⟩
      exact ⟨_, List.getElem?_eq_getElem hi, rfl⟩
  case filed =>
    refine ⟨hholds.children.size, fun i j hj => ?_⟩
    obtain ⟨p, d, hp, hd, -, -⟩ := hholds.exists_of_mem_getD hj
    exact ⟨(List.getElem?_eq_some_iff.1 hp).1, (List.getElem?_eq_some_iff.1 hd).1⟩
  case childrenAt =>
    intro i hi
    rw [Array.getD_eq_getD_getElem?, hholds.children.listed i _ (List.getElem?_eq_getElem hi),
      Option.getD_some, Table.places_eq]
  case once =>
    intro j hj hne
    have hd := List.getElem?_eq_getElem hj
    -- only the root stands at the place of the root
    have low : t.descriptors[j].isRoot = false := by
      refine Bool.eq_false_iff.2 fun top => hne ?_
      have hroot := h.eq_root (List.getElem_mem hj) top
      exact h.unique.place_eq hd hholds.root (congrArg _ hroot)
    obtain ⟨parent, hmem, link⟩ := h.exists_parent (List.getElem_mem hj) low
    obtain ⟨p, hp, rfl⟩ := List.mem_iff_getElem.1 hmem
    exact ⟨p, hp, link, hholds.count_getD h hd low (List.getElem?_eq_getElem hp) link⟩
  case climbs =>
    intro d hd
    obtain ⟨k, hk⟩ := h.climb hd
    exact ⟨k, climb_lt_length h.unique hk h.isRoot_root, hk⟩

/-- The shop is kept as it is: its checkout stands at place 4 and has six children. -/
theorem shop_exact : ofDescriptors shop = .ok ⟨shop, shopTree⟩ ∧
    ∃ tb, Table.ofDescriptors shop = .ok tb ∧ Exact shop ⟨shop, shopTree⟩ tb ∧
      tb.index["5"]? = some 4 ∧ (tb.children.getD 4 #[]).toList = [5, 6, 7, 8, 9, 10] := by
  have hloads : ofDescriptors shop = .ok ⟨shop, shopTree⟩ := builtin_eq
  obtain ⟨tb, htb, hexact⟩ := ofDescriptors_exact hloads
  refine ⟨hloads, tb, htb, hexact, ?_, ?_⟩
  · exact (hexact.indexAt "5" 4).2 ⟨by decide, rfl⟩
  · rw [hexact.childrenAt 4 (by decide)]
    decide

end Topology

end TraceLoad
