import TraceLoad.Proofs.TreeOfLinks
import TraceLoad.Topology.Builtin

/-! # What a list of descriptors is judged to be

`Verdict ds r` states, without any table or tree that is built on the way, which answer a list of
descriptors deserves: six reasons to refuse it, each with what it reports, and the topology
otherwise. `ofDescriptors` answers exactly that (`ofDescriptors_eq_iff`). What it accepts is
described once more by `Topology.WellFormed`, the invariant that everything after the loading of a
topology rests on (`ofDescriptors_eq_ok_iff`).
-/

namespace TraceLoad

/-- The descriptors that name no parent. -/
def rootsOf (ds : List Descriptor) : List Descriptor := ds.filter (·.isRoot)

open Classical in
/-- The descriptors whose chain of parent links never ends at a root, in the order of the list. -/
noncomputable def astray (ds : List Descriptor) : List Descriptor :=
  ds.filter fun d => ¬ Arrives ds d

/-- The answer that a list of descriptors deserves. The conditions of one case contain that no
earlier case applies. -/
inductive Verdict (ds : List Descriptor) : Except TopologyError Topology → Prop where
  | empty (nothing : ds = []) : Verdict ds (.error .empty)
  | duplicateSpan {before after : List Descriptor} {d : Descriptor}
      (split : ds = before ++ d :: after) (fresh : UniqueIds before)
      (again : d.id ∈ before.map (·.id)) : Verdict ds (.error (.duplicateSpan d.id))
  | missingRoot (something : ds ≠ []) (unique : UniqueIds ds) (rootless : rootsOf ds = []) :
      Verdict ds (.error .missingRoot)
  | multipleRoots (unique : UniqueIds ds) (many : 2 ≤ (rootsOf ds).length) :
      Verdict ds (.error (.multipleRoots ((rootsOf ds).map (·.id))))
  | unresolvedParent {root : Descriptor} {before after : List Descriptor} {d : Descriptor}
      (unique : UniqueIds ds) (single : rootsOf ds = [root])
      (split : ds = before ++ d :: after) (resolved : ∀ e ∈ before, Resolves ds e)
      (dangling : ¬ Resolves ds d) : Verdict ds (.error (.unresolvedParent d.id d.parent))
  | unreachable {root : Descriptor} (unique : UniqueIds ds) (single : rootsOf ds = [root])
      (resolved : ∀ e ∈ ds, Resolves ds e) (lost : astray ds ≠ []) :
      Verdict ds (.error (.unreachable ((astray ds).map (·.id))))
  | accepted {t : Topology} (unique : UniqueIds ds) (single : rootsOf ds = [t.tree.root])
      (arrive : ∀ d ∈ ds, Arrives ds d) (same : t.descriptors = ds)
      (follows : t.tree.Follows ds) : Verdict ds (.ok t)

/-- What every accepted topology is like. -/
structure Topology.WellFormed (t : Topology) : Prop where
  unique : UniqueIds t.descriptors
  single : rootsOf t.descriptors = [t.tree.root]
  follows : t.tree.Follows t.descriptors
  complete : ∀ d ∈ t.descriptors, d ∈ t.tree.preorder

variable {ds before after : List Descriptor} {d root : Descriptor} {x : String}

/-- The one root is a descriptor of the list. -/
theorem mem_of_rootsOf_eq (h : rootsOf ds = [root]) : root ∈ ds ∧ root.isRoot = true := by
  have hmem : root ∈ rootsOf ds := by simp [h]
  exact List.mem_filter.1 hmem

/-- With a single root, to arrive is to climb to that root. -/
theorem arrives_iff_climb (h : rootsOf ds = [root]) :
    Arrives ds d ↔ ∃ k, Climb ds k d root := by
  constructor
  · rintro ⟨k, r, hr, hk⟩
    have hmem : r ∈ rootsOf ds := List.mem_filter.2 ⟨hk.mem_right, hr⟩
    rw [h, List.mem_singleton] at hmem
    exact ⟨k, hmem ▸ hk⟩
  · rintro ⟨k, hk⟩
    exact ⟨k, root, (mem_of_rootsOf_eq h).2, hk⟩

/-- A descriptor that arrives has a parent in the list or needs none. -/
theorem Arrives.resolves (h : Arrives ds d) : Resolves ds d := by
  obtain ⟨k, r, hr, hk⟩ := h
  cases hk with
  | stay _ => exact Or.inl hr
  | up _ _ link rest => exact Or.inr ⟨_, rest.mem_left, link⟩

/-- Those who are astray are the ones who do not arrive. -/
theorem mem_astray : d ∈ astray ds ↔ d ∈ ds ∧ ¬ Arrives ds d := by
  simp [astray]

/-- Nobody is astray if all arrive. -/
theorem astray_eq_nil_iff : astray ds = [] ↔ ∀ d ∈ ds, Arrives ds d := by
  simp [astray]

namespace Topology

/-! ## The checks one by one -/

/-- Nothing is repeated in a list of unique identifiers that are all new. -/
theorem firstRepeated_eq_none_iff {seen : Std.HashSet String} :
    firstRepeated seen ds = none ↔ UniqueIds ds ∧ ∀ d ∈ ds, d.id ∉ seen := by
  induction ds generalizing seen with
  | nil => simp [firstRepeated, UniqueIds]
  | cons d ds ih =>
    simp only [firstRepeated, UniqueIds, List.map_cons, List.nodup_cons, List.mem_cons,
      forall_eq_or_imp, Std.HashSet.contains_iff_mem]
    by_cases hd : d.id ∈ seen
    · simp [hd]
    · simp only [hd, if_false, ih, UniqueIds, Std.HashSet.mem_insert, List.mem_map]
      grind

/-- The first repetition stands behind a part of the list without any. -/
theorem exists_split_of_firstRepeated {seen : Std.HashSet String}
    (h : firstRepeated seen ds = some x) : ∃ before d after, ds = before ++ d :: after ∧
      d.id = x ∧ UniqueIds before ∧ (∀ e ∈ before, e.id ∉ seen) ∧
      (d.id ∈ seen ∨ d.id ∈ before.map (·.id)) := by
  induction ds generalizing seen with
  | nil => simp [firstRepeated] at h
  | cons e ds ih =>
    simp only [firstRepeated, Std.HashSet.contains_iff_mem] at h
    by_cases he : e.id ∈ seen
    · -- the list starts with the id that has occurred before
      rw [if_pos he] at h
      exact ⟨[], e, ds, rfl, Option.some.inj h, List.nodup_nil, by simp, Or.inl he⟩
    · rw [if_neg he] at h
      obtain ⟨before, d, after, rfl, hx, hu, hfresh, hagain⟩ := ih h
      refine ⟨e :: before, d, after, rfl, hx, ?_, ?_, ?_⟩
      · refine List.nodup_cons.2 ⟨fun hmem => ?_, hu⟩
        obtain ⟨e', he', hid⟩ := List.mem_map.1 hmem
        exact hfresh e' he' (by simp [hid])
      · intro e' he'
        rcases List.mem_cons.1 he' with rfl | he'
        · exact he
        · exact fun hseen => hfresh e' he' (Std.HashSet.mem_insert.2 (Or.inr hseen))
      · rcases hagain with hseen | hmem
        · rcases Std.HashSet.mem_insert.1 hseen with hid | hseen
          · exact Or.inr (by simp [eq_of_beq hid])
          · exact Or.inl hseen
        · exact Or.inr (List.mem_cons_of_mem _ hmem)

/-- What repeats something behind such a part is the first repetition. -/
theorem firstRepeated_append_cons {seen : Std.HashSet String} (hu : UniqueIds before)
    (hfresh : ∀ e ∈ before, e.id ∉ seen) (hagain : d.id ∈ seen ∨ d.id ∈ before.map (·.id)) :
    firstRepeated seen (before ++ d :: after) = some d.id := by
  induction before generalizing seen with
  | nil =>
    have hd : d.id ∈ seen := by simpa using hagain
    simp [firstRepeated, hd]
  | cons e before ih =>
    obtain ⟨hnot, hu⟩ := List.nodup_cons.1 hu
    simp only [List.mem_cons, forall_eq_or_imp] at hfresh
    -- the first one is new, so it is only remembered
    have hstep : firstRepeated seen (e :: before ++ d :: after) =
        firstRepeated (seen.insert e.id) (before ++ d :: after) := by
      simp [firstRepeated, hfresh.1]
    rw [hstep]
    refine ih hu (fun e' he' hseen => ?_) ?_
    · rcases Std.HashSet.mem_insert.1 hseen with hid | hseen
      · exact hnot (List.mem_map.2 ⟨e', he', (eq_of_beq hid).symm⟩)
      · exact hfresh.2 e' he' hseen
    · rcases hagain with hseen | hmem
      · exact Or.inl (Std.HashSet.mem_insert.2 (Or.inr hseen))
      · rcases List.mem_cons.1 hmem with hid | hmem
        · exact Or.inl (by simp [hid])
        · exact Or.inr hmem

/-- The set has the identifiers of the list. -/
theorem contains_idSet : (idSet ds).contains x = true ↔ ∃ d ∈ ds, d.id = x := by
  simp [idSet, Std.HashSet.contains_ofList]

/-- The test for a parent that no descriptor has as its id. -/
theorem dangling_iff : (!d.isRoot && !(idSet ds).contains d.parent) = true ↔ ¬ Resolves ds d := by
  have hcontains : (idSet ds).contains d.parent = true ↔ ∃ e ∈ ds, e.id = d.parent :=
    contains_idSet
  simp only [Resolves, Bool.and_eq_true, Bool.not_eq_true', not_or, ← Bool.not_eq_true, hcontains]
  simp only [eq_comm]

/-- The tree that is grown from a root. -/
def grownTree (ds : List Descriptor) (root : Descriptor) : SpanTree :=
  ⟨root, grow (childIndex ds) ds.length root.id⟩

/-- The tree that is grown from the root follows the list. -/
theorem grownTree_follows (hu : UniqueIds ds) (h : rootsOf ds = [root]) :
    (grownTree ds root).Follows ds := by
  obtain ⟨hmem, hr⟩ := mem_of_rootsOf_eq h
  exact grow_follows hu (.stay hmem) hr (Nat.le_add_left _ _)

/-- What the grown tree does not reach is what never arrives at the root. -/
theorem filter_unreached (hu : UniqueIds ds) (h : rootsOf ds = [root]) :
    (ds.filter fun d => !(idSet (grownTree ds root).preorder).contains d.id) = astray ds := by
  have hfollows := grownTree_follows hu h
  have hmem : (grownTree ds root).root ∈ ds := (mem_of_rootsOf_eq h).1
  refine List.filter_congr fun d hd => ?_
  have harrives : Arrives ds d ↔ d ∈ (grownTree ds root).preorder :=
    (arrives_iff_climb h).trans (hfollows.mem_preorder_iff hmem).symm
  -- the tree is looked up by identifiers, which stand for one descriptor each
  have hreached : (idSet (grownTree ds root).preorder).contains d.id = true ↔ Arrives ds d := by
    rw [contains_idSet, harrives]
    constructor
    · rintro ⟨e, he, hid⟩
      exact hu.eq_of_id_eq (hfollows.mem_of_mem_preorder hmem he) hd hid ▸ he
    · exact fun hd' => ⟨d, hd', rfl⟩
  by_cases ha : Arrives ds d
  · simp [ha, hreached.2 ha]
  · have hno := mt hreached.1 ha
    simp [ha, hno]

/-! ## The answers one by one -/

/-- The first check is for identifiers that are repeated. -/
theorem ofDescriptors_of_firstRepeated (h : firstRepeated ∅ ds = some x) :
    ofDescriptors ds = .error (.duplicateSpan x) := by
  have hne : ds ≠ [] := by
    rintro rfl
    simp [firstRepeated] at h
  simp [ofDescriptors, hne, h]

/-- The second check is for a root. -/
theorem ofDescriptors_of_rootless (hne : ds ≠ []) (hu : UniqueIds ds) (h : rootsOf ds = []) :
    ofDescriptors ds = .error .missingRoot := by
  have hfirst : firstRepeated ∅ ds = none := firstRepeated_eq_none_iff.2 ⟨hu, by simp⟩
  rw [rootsOf] at h
  simp only [ofDescriptors, hne, if_false, hfirst, h]

/-- The third check is for further roots. -/
theorem ofDescriptors_of_many (hu : UniqueIds ds) (h : 2 ≤ (rootsOf ds).length) :
    ofDescriptors ds = .error (.multipleRoots ((rootsOf ds).map (·.id))) := by
  have hfirst : firstRepeated ∅ ds = none := firstRepeated_eq_none_iff.2 ⟨hu, by simp⟩
  have hne : ds ≠ [] := by
    rintro rfl
    simp [rootsOf] at h
  obtain ⟨r, r', rest, hroots⟩ : ∃ r r' rest, rootsOf ds = r :: r' :: rest := by
    match hroots : rootsOf ds with
    | [] => simp [hroots] at h
    | [_] => simp [hroots] at h
    | r :: r' :: rest => exact ⟨r, r', rest, rfl⟩
  rw [hroots]
  rw [rootsOf] at hroots
  simp only [ofDescriptors, hne, if_false, hfirst, hroots]

/-- With a single root the parents are looked up first, and then what the root reaches. -/
theorem ofDescriptors_of_single (hu : UniqueIds ds) (h : rootsOf ds = [root]) :
    ofDescriptors ds =
      match ds.find? fun d => !d.isRoot && !(idSet ds).contains d.parent with
      | some d => .error (.unresolvedParent d.id d.parent)
      | none =>
        match astray ds with
        | [] => .ok ⟨ds, grownTree ds root⟩
        | lost => .error (.unreachable (lost.map (·.id))) := by
  have hfirst : firstRepeated ∅ ds = none := firstRepeated_eq_none_iff.2 ⟨hu, by simp⟩
  have hne : ds ≠ [] := List.ne_nil_of_mem (mem_of_rootsOf_eq h).1
  rw [← filter_unreached hu h]
  rw [rootsOf] at h
  simp only [ofDescriptors, hne, if_false, hfirst, h]
  rfl

/-- The first parent that is missing is reported next. -/
theorem ofDescriptors_of_dangling (hu : UniqueIds ds) (h : rootsOf ds = [root])
    (hsplit : ds = before ++ d :: after) (hres : ∀ e ∈ before, Resolves ds e)
    (hd : ¬ Resolves ds d) : ofDescriptors ds = .error (.unresolvedParent d.id d.parent) := by
  have hfind : (ds.find? fun d => !d.isRoot && !(idSet ds).contains d.parent) = some d := by
    refine List.find?_eq_some_iff_append.2 ⟨dangling_iff.2 hd, before, after, hsplit, ?_⟩
    intro e he
    rw [Bool.not_eq_true']
    exact Bool.eq_false_iff.2 (mt dangling_iff.1 (not_not_intro (hres e he)))
  rw [ofDescriptors_of_single hu h, hfind]

/-- Where a parent is missing there is a first one that is. -/
theorem exists_first_dangling (h : ¬ ∀ e ∈ ds, Resolves ds e) :
    ∃ before d after, ds = before ++ d :: after ∧ (∀ e ∈ before, Resolves ds e) ∧
      ¬ Resolves ds d := by
  -- the search finds one, with nothing of the kind before it
  cases hfind : ds.find? fun d => !d.isRoot && !(idSet ds).contains d.parent with
  | none =>
    refine absurd (fun e he => ?_) h
    by_contra hno
    exact List.find?_eq_none.1 hfind e he (dangling_iff.2 hno)
  | some d =>
    obtain ⟨hd, before, after, hsplit, hbefore⟩ := List.find?_eq_some_iff_append.1 hfind
    refine ⟨before, d, after, hsplit, fun e he => ?_, dangling_iff.1 hd⟩
    by_contra hno
    have hbad := hbefore e he
    rw [dangling_iff.2 hno] at hbad
    exact absurd hbad (by decide)

/-- Where all parents are known the search finds none. -/
theorem find?_dangling_eq_none (hres : ∀ e ∈ ds, Resolves ds e) :
    (ds.find? fun d => !d.isRoot && !(idSet ds).contains d.parent) = none :=
  List.find?_eq_none.2 fun e he => mt dangling_iff.1 (not_not_intro (hres e he))

/-- The last check is for those who do not arrive at the root. -/
theorem ofDescriptors_of_astray (hu : UniqueIds ds) (h : rootsOf ds = [root])
    (hres : ∀ e ∈ ds, Resolves ds e) (hlost : astray ds ≠ []) :
    ofDescriptors ds = .error (.unreachable ((astray ds).map (·.id))) := by
  rw [ofDescriptors_of_single hu h, find?_dangling_eq_none hres]
  dsimp only
  split
  · rename_i hnil
    exact absurd hnil hlost
  · rfl

/-- A list is accepted if all its descriptors arrive at the root. -/
theorem ofDescriptors_of_arrives (hu : UniqueIds ds) (h : rootsOf ds = [root])
    (harrive : ∀ d ∈ ds, Arrives ds d) : ofDescriptors ds = .ok ⟨ds, grownTree ds root⟩ := by
  have hres : ∀ e ∈ ds, Resolves ds e := fun e he => (harrive e he).resolves
  rw [ofDescriptors_of_single hu h, find?_dangling_eq_none hres, astray_eq_nil_iff.2 harrive]

/-! ## The judgement -/

/-- Every list deserves the answer that it gets. -/
theorem verdict_ofDescriptors (ds : List Descriptor) : Verdict ds (ofDescriptors ds) := by
  by_cases hne : ds = []
  · subst hne
    exact .empty rfl
  cases hfirst : firstRepeated ∅ ds with
  | some x =>
    rw [ofDescriptors_of_firstRepeated hfirst]
    obtain ⟨before, d, after, rfl, rfl, hu, _, hagain⟩ := exists_split_of_firstRepeated hfirst
    exact .duplicateSpan rfl hu (by simpa using hagain)
  | none =>
    have hu : UniqueIds ds := (firstRepeated_eq_none_iff.1 hfirst).1
    match hroots : rootsOf ds with
    | [] =>
      rw [ofDescriptors_of_rootless hne hu hroots]
      exact .missingRoot hne hu hroots
    | _ :: _ :: _ =>
      have hmany : 2 ≤ (rootsOf ds).length := by simp [hroots]
      rw [ofDescriptors_of_many hu hmany]
      exact .multipleRoots hu hmany
    | [root] =>
      by_cases hres : ∀ e ∈ ds, Resolves ds e
      · -- every parent is there, so what is left to go wrong is a cycle
        by_cases hlost : astray ds = []
        · have harrive := astray_eq_nil_iff.1 hlost
          rw [ofDescriptors_of_arrives hu hroots harrive]
          exact .accepted hu hroots harrive rfl (grownTree_follows hu hroots)
        · rw [ofDescriptors_of_astray hu hroots hres hlost]
          exact .unreachable hu hroots hres hlost
      · obtain ⟨before, d, after, hsplit, hbefore, hd⟩ := exists_first_dangling hres
        rw [ofDescriptors_of_dangling hu hroots hsplit hbefore hd]
        exact .unresolvedParent hu hroots hsplit hbefore hd

/-- A list deserves one answer only. -/
theorem ofDescriptors_eq_of_verdict {r : Except TopologyError Topology} (h : Verdict ds r) :
    ofDescriptors ds = r := by
  cases h with
  | empty nothing =>
    subst nothing
    rfl
  | duplicateSpan split fresh again =>
    rw [split]
    exact ofDescriptors_of_firstRepeated
      (firstRepeated_append_cons fresh (by simp) (Or.inr again))
  | missingRoot something unique rootless =>
    exact ofDescriptors_of_rootless something unique rootless
  | multipleRoots unique many => exact ofDescriptors_of_many unique many
  | unresolvedParent unique single split resolved dangling =>
    exact ofDescriptors_of_dangling unique single split resolved dangling
  | unreachable unique single resolved lost =>
    exact ofDescriptors_of_astray unique single resolved lost
  | @accepted t unique single arrive same follows =>
    rw [ofDescriptors_of_arrives unique single arrive]
    -- a tree that follows the list is determined by its root
    have htree : grownTree ds t.tree.root = t.tree :=
      (grownTree_follows unique single).unique follows rfl
    rw [htree, ← same]

/-- The answer to a list is the one that the verdict allows. -/
theorem ofDescriptors_eq_iff {r : Except TopologyError Topology} :
    ofDescriptors ds = r ↔ Verdict ds r :=
  ⟨fun h => h ▸ verdict_ofDescriptors ds, ofDescriptors_eq_of_verdict⟩

/-! ## Accepted topologies -/

namespace WellFormed

variable {t : Topology} {s : SpanTree}

/-- The root of a topology is one of its descriptors. -/
theorem root_mem (h : t.WellFormed) : t.root ∈ t.descriptors := (mem_of_rootsOf_eq h.single).1

theorem isRoot_root (h : t.WellFormed) : t.root.isRoot = true := (mem_of_rootsOf_eq h.single).2

/-- The root is the first descriptor that names no parent, and the only one. -/
theorem find?_isRoot (h : t.WellFormed) : t.descriptors.find? (·.isRoot) = some t.root := by
  rw [← List.head?_filter]
  exact congrArg List.head? h.single

/-- The tree of a topology has its descriptors and no others. -/
theorem mem_preorder_iff (h : t.WellFormed) {d : Descriptor} :
    d ∈ t.tree.preorder ↔ d ∈ t.descriptors :=
  ⟨h.follows.mem_of_mem_preorder h.root_mem, h.complete d⟩

/-- Every descriptor climbs to the root. -/
theorem climb (h : t.WellFormed) {d : Descriptor} (hd : d ∈ t.descriptors) :
    ∃ k, Climb t.descriptors k d t.root :=
  (h.follows.mem_preorder_iff h.root_mem).1 (h.complete d hd)

/-- No descriptor comes up twice in the tree. -/
theorem nodup_preorder (h : t.WellFormed) : t.tree.preorder.Nodup :=
  h.follows.nodup_preorder h.unique (.stay h.root_mem) h.isRoot_root

/-- The tree holds every descriptor once. -/
theorem preorder_perm (h : t.WellFormed) : t.tree.preorder.Perm t.descriptors :=
  (List.perm_ext_iff_of_nodup h.nodup_preorder h.unique.nodup).2 fun _ => h.mem_preorder_iff

/-- The tree is as large as the list. -/
theorem size_tree (h : t.WellFormed) : t.tree.size = t.size := by
  rw [← SpanTree.length_preorder, h.preorder_perm.length_eq]
  rfl

/-- The parent links form the tree. -/
theorem isLinked (h : t.WellFormed) : t.tree.IsLinked := ⟨h.isRoot_root, h.follows.hangsFrom⟩

/-- The subtree of an id stands below the descriptor of that id, follows the list and holds no
descriptor twice. -/
theorem of_subtree? (h : t.WellFormed) {id : String} (hs : t.subtree? id = some s) :
    s.root.id = id ∧ s.root ∈ t.descriptors ∧ s.Follows t.descriptors ∧ s.preorder.Nodup := by
  obtain ⟨hid, hmem, hfollows⟩ := h.follows.of_find? hs
  have hroot : s.root ∈ t.descriptors := h.mem_preorder_iff.1 hmem
  obtain ⟨k, hk⟩ := h.climb hroot
  exact ⟨hid, hroot, hfollows, hfollows.nodup_preorder h.unique hk h.isRoot_root⟩

/-- A descriptor has its subtree. -/
theorem exists_subtree? (h : t.WellFormed) {d : Descriptor} (hd : d ∈ t.descriptors) :
    ∃ s, t.subtree? d.id = some s ∧ s.root = d := by
  obtain ⟨s, hs⟩ := SpanTree.exists_find? (h.complete d hd)
  obtain ⟨hid, hroot, _, _⟩ := h.of_subtree? hs
  exact ⟨s, hs, h.unique.eq_of_id_eq hroot hd hid⟩

end WellFormed

/-- The subtree of the root is the whole tree. -/
theorem subtree?_root (t : Topology) : t.subtree? t.root.id = some t.tree := by
  simp [subtree?, root, SpanTree.find?]

/-- What is accepted is exactly what is well-formed. -/
theorem ofDescriptors_eq_ok_iff {t : Topology} :
    ofDescriptors ds = .ok t ↔ t.descriptors = ds ∧ t.WellFormed := by
  rw [ofDescriptors_eq_iff]
  constructor
  · intro h
    cases h with
    | accepted unique single arrive same follows =>
      subst same
      -- what arrives at the root is what the tree has in it
      refine ⟨rfl, unique, single, follows, fun d hd => ?_⟩
      have hmem := (mem_of_rootsOf_eq single).1
      exact (follows.mem_preorder_iff hmem).2 ((arrives_iff_climb single).1 (arrive d hd))
  · rintro ⟨rfl, h⟩
    refine .accepted h.unique h.single (fun d hd => ?_) rfl h.follows
    exact (arrives_iff_climb h.single).2 (h.climb hd)

/-- A list is accepted iff its parent links form one tree that holds all of it. -/
theorem exists_ok_iff : (∃ t, ofDescriptors ds = .ok t) ↔
    UniqueIds ds ∧ ∃ tree : SpanTree, tree.IsLinked ∧ tree.preorder.Perm ds := by
  constructor
  · rintro ⟨t, ht⟩
    obtain ⟨rfl, h⟩ := ofDescriptors_eq_ok_iff.1 ht
    exact ⟨h.unique, t.tree, h.isLinked, h.preorder_perm⟩
  · rintro ⟨hu, tree, ⟨htop, hhangs⟩, hperm⟩
    have hmem : ∀ {d : Descriptor}, d ∈ tree.preorder → d ∈ ds := fun hd => hperm.subset hd
    -- in a tree that hangs together only the top is a root
    have hbelow : tree.below.preorder.filter (·.isRoot) = [] :=
      List.filter_eq_nil_iff.2 fun d hd => by simp [hhangs.isRoot_eq_false hd]
    have hroots : rootsOf ds = [tree.root] := by
      have hfilter : (tree.preorder.filter (·.isRoot)).Perm (rootsOf ds) := hperm.filter _
      rw [SpanTree.preorder, List.filter_cons_of_pos htop, hbelow] at hfilter
      exact List.singleton_perm.1 hfilter |>.symm
    refine ⟨_, ofDescriptors_of_arrives hu hroots fun d hd => (arrives_iff_climb hroots).2 ?_⟩
    have hroot : tree.root ∈ ds := hmem tree.root_mem_preorder
    rcases List.mem_cons.1 (hperm.mem_iff.2 hd) with rfl | hd
    · exact ⟨0, .stay hroot⟩
    · obtain ⟨k, hk⟩ := hhangs.climb hroot (fun y hy => hmem (List.mem_cons_of_mem _ hy)) hd
      exact ⟨k + 1, hk⟩

/-- The descriptors reported as unreachable are those whose chain runs into a cycle. -/
theorem mem_unreachable_iff {ids : List String}
    (h : ofDescriptors ds = .error (.unreachable ids)) (hd : d ∈ ds) :
    d.id ∈ ids ↔ Circles ds d := by
  rw [ofDescriptors_eq_iff] at h
  cases h with
  | unreachable unique single resolved lost =>
    -- with all parents known, whoever does not arrive goes round in circles
    rw [circles_iff_not_arrives unique resolved hd]
    constructor
    · intro hid
      obtain ⟨e, he, heid⟩ := List.mem_map.1 hid
      obtain ⟨hmem, hno⟩ := mem_astray.1 he
      exact unique.eq_of_id_eq hmem hd heid ▸ hno
    · intro hno
      exact List.mem_map.2 ⟨d, mem_astray.2 ⟨hd, hno⟩, rfl⟩

/-- Every list of descriptors gets the answer that it deserves, and no other; what is reported as
unreachable has run into a cycle; and the lists that are accepted are those whose parent links
form one tree that holds all of them. -/
theorem ofDescriptors_judges (ds : List Descriptor) :
    (∀ r, ofDescriptors ds = r ↔ Verdict ds r) ∧
    (∀ ids, ofDescriptors ds = .error (.unreachable ids) →
      ∀ d ∈ ds, d.id ∈ ids ↔ Circles ds d) ∧
    ((∃ t, ofDescriptors ds = .ok t) ↔
      UniqueIds ds ∧ ∃ tree : SpanTree, tree.IsLinked ∧ tree.preorder.Perm ds) := by
  refine ⟨fun r => ofDescriptors_eq_iff, fun ids h d hd => ?_, exists_ok_iff⟩
  exact mem_unreachable_iff h hd

/-! ## The built-in topology -/

/-- The tree of the shop. -/
def shopTree : SpanTree where
  root := ⟨"1", "", "frontend"⟩
  below :=
    .cons ⟨"2", "1", "adservice"⟩ .nil <|
    .cons ⟨"3", "1", "cartservice"⟩ (.cons ⟨"4", "3", "redis-cart"⟩ .nil .nil) <|
    .cons ⟨"5", "1", "checkoutservice"⟩
      (.cons ⟨"6", "5", "cartservice"⟩ .nil <|
        .cons ⟨"7", "5", "productcatalogservice"⟩ .nil <|
        .cons ⟨"8", "5", "currencyservice"⟩ .nil <|
        .cons ⟨"9", "5", "shippingservice"⟩ .nil <|
        .cons ⟨"10", "5", "paymentservice"⟩ .nil <|
        .cons ⟨"11", "5", "emailservice"⟩ .nil .nil) <|
    .cons ⟨"12", "1", "recommendationservice"⟩
      (.cons ⟨"13", "12", "productcatalogservice"⟩ .nil .nil) .nil

/-- The built-in topology can be loaded. -/
theorem builtin_eq : builtin = .ok ⟨shop, shopTree⟩ :=
  ofDescriptors_eq_ok_iff.2 ⟨rfl, {
    unique := by decide
    single := by decide
    follows := by decide
    complete := by decide }⟩

/-- A front end and the one call that it makes. -/
def call : List Descriptor := [⟨"1", "", "frontend"⟩, ⟨"2", "1", "cartservice"⟩]

def callTree : SpanTree := ⟨⟨"1", "", "frontend"⟩, .cons ⟨"2", "1", "cartservice"⟩ .nil .nil⟩

/-- The front end with its call can be loaded. -/
theorem ofDescriptors_call : ofDescriptors call = .ok ⟨call, callTree⟩ :=
  ofDescriptors_eq_ok_iff.2 ⟨rfl, {
    unique := by decide
    single := by decide
    follows := by decide
    complete := by decide }⟩

end Topology

end TraceLoad
