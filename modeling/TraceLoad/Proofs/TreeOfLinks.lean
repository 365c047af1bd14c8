import TraceLoad.Proofs.ParentLinks

/-! # The tree that parent links form

A forest can be related to parent links in two ways. `HangsFrom` looks up: every node names the
node above it as its parent. `Follows` looks down: below every node stand all its children, in
the order of the list, and nothing else. A tree that follows a list is determined by its root
(`Follows.unique`), holds exactly what climbs to the root (`mem_preorder_iff`) and holds it once
(`nodup_preorder`). Growing a tree from a root gives one that follows the list
(`grow_follows`): as many levels as there are descriptors are enough for every chain.
-/

namespace TraceLoad

/-- The descriptors that name an id as their parent, in the order of the list. -/
def childrenIn (ds : List Descriptor) (id : String) : List Descriptor :=
  ds.filter fun d => !d.isRoot && d.parent == id

variable {ds : List Descriptor} {d p r x : Descriptor} {id : String}

/-- The children of an identifier are those who name it as their parent. -/
@[simp] theorem mem_childrenIn :
    x ∈ childrenIn ds id ↔ x ∈ ds ∧ x.isRoot = false ∧ x.parent = id := by
  simp [childrenIn]

/-- No child is listed twice. -/
theorem UniqueIds.nodup_childrenIn (h : UniqueIds ds) (id : String) : (childrenIn ds id).Nodup :=
  h.nodup.filter _

/-- From a child it is one link up. -/
theorem Climb.of_mem_childrenIn (hx : x ∈ childrenIn ds p.id) (hp : p ∈ ds) : Climb ds 1 x p := by
  obtain ⟨hmem, low, link⟩ := mem_childrenIn.1 hx
  exact .one hmem hp low link

namespace Forest

variable {f g below beside : Forest}

theorem mem_preorder_of_mem_roots (h : x ∈ f.roots) : x ∈ f.preorder := by
  induction f with
  | nil => simp [roots] at h
  | cons d below beside _ ih =>
    rcases List.mem_cons.1 h with rfl | h
    · simp
    · simp [ih h]

/-- Every node names the one above it as its parent, and the topmost ones name `id`. -/
def HangsFrom (id : String) : Forest → Prop
  | nil => True
  | cons d below beside =>
    d.isRoot = false ∧ d.parent = id ∧ below.HangsFrom d.id ∧ beside.HangsFrom id

/-- What hangs from an identifier is linked to it. -/
theorem HangsFrom.link (h : f.HangsFrom id) (hx : x ∈ f.roots) :
    x.isRoot = false ∧ x.parent = id := by
  induction f with
  | nil => simp [roots] at hx
  | cons d below beside _ ih =>
    obtain ⟨low, link, _, hbeside⟩ := h
    rcases List.mem_cons.1 hx with rfl | hx
    · exact ⟨low, link⟩
    · exact ih hbeside hx

/-- Every node climbs to the root of the tree that it stands in, by fewer links than the forest is
deep. -/
theorem HangsFrom.exists_climb_lt_depth (h : f.HangsFrom id) (hsub : ∀ y ∈ f.preorder, y ∈ ds)
    (hx : x ∈ f.preorder) : ∃ b ∈ f.roots, ∃ k < f.depth, Climb ds k x b := by
  induction f generalizing id with
  | nil => simp at hx
  | cons d below beside ihBelow ihBeside =>
    obtain ⟨low, _, hbelow, hbeside⟩ := h
    simp only [preorder_cons, List.mem_cons, List.mem_append, forall_eq_or_imp] at hsub hx
    obtain ⟨hd, hsub⟩ := hsub
    rcases hx with rfl | hx | hx
    · exact ⟨x, by simp [roots], 0, by simp only [depth]; omega, .stay hd⟩
    · obtain ⟨b, hb, k, hlt, hk⟩ := ihBelow hbelow (fun y hy => hsub y (Or.inl hy)) hx
      obtain ⟨blow, blink⟩ := hbelow.link hb
      -- from below it is one link more to the root of the first tree
      have hbd : Climb ds 1 b d := .one hk.mem_right hd blow blink
      exact ⟨d, by simp [roots], k + 1, by simp only [depth]; omega, hk.trans hbd⟩
    · obtain ⟨b, hb, k, hlt, hk⟩ := ihBeside hbeside (fun y hy => hsub y (Or.inr hy)) hx
      exact ⟨b, by simp [roots, hb], k, by simp only [depth]; omega, hk⟩

/-- Every node climbs to the root of the tree that it stands in. -/
theorem HangsFrom.exists_climb (h : f.HangsFrom id) (hsub : ∀ y ∈ f.preorder, y ∈ ds)
    (hx : x ∈ f.preorder) : ∃ b ∈ f.roots, ∃ k, Climb ds k x b := by
  obtain ⟨b, hb, k, _, hk⟩ := h.exists_climb_lt_depth hsub hx
  exact ⟨b, hb, k, hk⟩

/-- Every node climbs to what the forest hangs from. -/
theorem HangsFrom.climb (h : f.HangsFrom p.id) (hp : p ∈ ds) (hsub : ∀ y ∈ f.preorder, y ∈ ds)
    (hx : x ∈ f.preorder) : ∃ k, Climb ds (k + 1) x p := by
  obtain ⟨b, hb, k, hk⟩ := h.exists_climb hsub hx
  obtain ⟨low, link⟩ := h.link hb
  exact ⟨k, hk.trans (.one hk.mem_right hp low link)⟩

/-- No node of a hanging forest is a root. -/
theorem HangsFrom.isRoot_eq_false (h : f.HangsFrom id) (hx : x ∈ f.preorder) :
    x.isRoot = false := by
  induction f generalizing id with
  | nil => simp at hx
  | cons d below beside ihBelow ihBeside =>
    obtain ⟨low, _, hbelow, hbeside⟩ := h
    simp only [preorder_cons, List.mem_cons, List.mem_append] at hx
    rcases hx with rfl | hx | hx
    · exact low
    · exact ihBelow hbelow hx
    · exact ihBeside hbeside hx

/-- In preorder a node comes after the one that it names as its parent. -/
theorem HangsFrom.parent_first {before after : List Descriptor} (h : f.HangsFrom id)
    (hsplit : f.preorder = before ++ x :: after) :
    x.parent = id ∨ ∃ p ∈ before, x.parent = p.id := by
  induction f generalizing id before after with
  | nil => simp at hsplit
  | cons d below beside ihBelow ihBeside =>
    obtain ⟨_, link, hbelow, hbeside⟩ := h
    rw [preorder_cons] at hsplit
    rcases List.cons_eq_append_iff.1 hsplit with ⟨rfl, htail⟩ | ⟨before', rfl, htail⟩
    · obtain ⟨rfl, _⟩ := List.cons.inj htail
      exact Or.inl link
    -- `x` comes after `d`: beside it, or below it unless what is below ends right before `x`
    rcases List.append_eq_append_iff.1 htail with ⟨rest, rfl, hrest⟩ | ⟨rest, hrest, htail⟩
    · rcases ihBeside hbeside hrest with hid | ⟨p, hp, hid⟩
      · exact Or.inl hid
      · exact Or.inr ⟨p, by simp [hp], hid⟩
    · cases rest with
      | nil =>
        have hsplit : beside.preorder = [] ++ x :: after := htail.symm
        rcases ihBeside hbeside hsplit with hid | ⟨_, hp, _⟩
        · exact Or.inl hid
        · cases hp
      | cons y rest =>
        obtain ⟨rfl, _⟩ := List.cons.inj htail
        rcases ihBelow hbelow hrest with hid | ⟨p, hp, hid⟩
        · exact Or.inr ⟨d, by simp, hid⟩
        · exact Or.inr ⟨p, by simp [hp], hid⟩

/-- Below every node stand its children in the list, in their order. -/
def Follows (ds : List Descriptor) : Forest → Prop
  | nil => True
  | cons d below beside =>
    below.roots = childrenIn ds d.id ∧ below.Follows ds ∧ beside.Follows ds

instance decidableFollows (ds : List Descriptor) : (f : Forest) → Decidable (f.Follows ds)
  | nil => .isTrue trivial
  | cons d below beside =>
    have := decidableFollows ds below
    have := decidableFollows ds beside
    inferInstanceAs
      (Decidable (below.roots = childrenIn ds d.id ∧ below.Follows ds ∧ beside.Follows ds))

/-- A forest of children hangs from their parent. -/
theorem Follows.hangsFrom (h : f.Follows ds) (hroots : ∀ b ∈ f.roots, b ∈ childrenIn ds id) :
    f.HangsFrom id := by
  induction f generalizing id with
  | nil => trivial
  | cons d below beside ihBelow ihBeside =>
    obtain ⟨hchildren, hbelow, hbeside⟩ := h
    simp only [roots, List.mem_cons, forall_eq_or_imp] at hroots
    obtain ⟨_, low, link⟩ := mem_childrenIn.1 hroots.1
    exact ⟨low, link, ihBelow hbelow fun b hb => hchildren ▸ hb, ihBeside hbeside hroots.2⟩

/-- A forest has no other descriptors than the list. -/
theorem Follows.mem_of_mem_preorder (h : f.Follows ds) (hroots : ∀ b ∈ f.roots, b ∈ ds)
    (hx : x ∈ f.preorder) : x ∈ ds := by
  induction f with
  | nil => simp at hx
  | cons d below beside ihBelow ihBeside =>
    obtain ⟨hchildren, hbelow, hbeside⟩ := h
    simp only [roots, List.mem_cons, forall_eq_or_imp] at hroots
    simp only [preorder_cons, List.mem_cons, List.mem_append] at hx
    rcases hx with rfl | hx | hx
    · exact hroots.1
    · -- children are in the list by their definition
      refine ihBelow hbelow (fun b hb => ?_) hx
      rw [hchildren] at hb
      exact (mem_childrenIn.1 hb).1
    · exact ihBeside hbeside hroots.2 hx

/-- With a node its children are in the forest. -/
theorem Follows.mem_of_mem_children (h : f.Follows ds) (hp : p ∈ f.preorder)
    (hx : x ∈ childrenIn ds p.id) : x ∈ f.preorder := by
  induction f with
  | nil => simp at hp
  | cons d below beside ihBelow ihBeside =>
    obtain ⟨hchildren, hbelow, hbeside⟩ := h
    simp only [preorder_cons, List.mem_cons, List.mem_append] at hp ⊢
    rcases hp with rfl | hp | hp
    · rw [← hchildren] at hx
      exact Or.inr (Or.inl (mem_preorder_of_mem_roots hx))
    · exact Or.inr (Or.inl (ihBelow hbelow hp))
    · exact Or.inr (Or.inr (ihBeside hbeside hp))

/-- The roots determine a forest that follows a list. -/
theorem Follows.unique (hf : f.Follows ds) (hg : g.Follows ds) (hroots : f.roots = g.roots) :
    f = g := by
  induction f generalizing g with
  | nil =>
    cases g with
    | nil => rfl
    | cons => simp [roots] at hroots
  | cons d below beside ihBelow ihBeside =>
    cases g with
    | nil => simp [roots] at hroots
    | cons d' below' beside' =>
      obtain ⟨rfl, hbesides⟩ := List.cons.inj hroots
      -- the children of the same descriptor are the same, in the same order
      have hbelows : below.roots = below'.roots := hf.1.trans hg.1.symm
      rw [ihBelow hf.2.1 hg.2.1 hbelows, ihBeside hf.2.2 hg.2.2 hbesides]

/-- Every node of a forest that stands below `p` climbs to one of its roots. -/
theorem Follows.exists_climb (h : f.Follows ds) (hroots : ∀ b ∈ f.roots, b ∈ childrenIn ds id)
    (hx : x ∈ f.preorder) : ∃ b ∈ f.roots, ∃ k, Climb ds k x b := by
  have hmem : ∀ b ∈ f.roots, b ∈ ds := fun b hb => (mem_childrenIn.1 (hroots b hb)).1
  exact (h.hangsFrom hroots).exists_climb (fun y hy => h.mem_of_mem_preorder hmem hy) hx

/-- Every node of a forest that stands below `p` climbs to `p`. -/
theorem Follows.climb (h : f.Follows ds) (hroots : ∀ b ∈ f.roots, b ∈ childrenIn ds p.id)
    (hp : p ∈ ds) (hx : x ∈ f.preorder) : ∃ k, Climb ds (k + 1) x p := by
  obtain ⟨b, hb, k, hk⟩ := h.exists_climb hroots hx
  exact ⟨k, hk.trans (.of_mem_childrenIn (hroots b hb) hp)⟩

/-- No descriptor occurs twice in a forest that stands below `p`: how many links lead from it up
to the root of all, and through which child of `p`, is fixed by its chain. -/
theorem Follows.nodup_preorder {n : Nat} (hu : UniqueIds ds) (h : f.Follows ds)
    (hnodup : f.roots.Nodup) (hroots : ∀ b ∈ f.roots, b ∈ childrenIn ds p.id)
    (hp : Climb ds n p r) (hr : r.isRoot = true) : f.preorder.Nodup := by
  induction f generalizing n p with
  | nil => simp
  | cons d below beside ihBelow ihBeside =>
    obtain ⟨hchildren, hbelow, hbeside⟩ := h
    simp only [roots, List.nodup_cons, List.mem_cons, forall_eq_or_imp] at hnodup hroots
    have hlevel : ∀ b ∈ childrenIn ds p.id, Climb ds (1 + n) b r := fun b hb =>
      (Climb.of_mem_childrenIn hb hp.mem_left).trans hp
    have hd : Climb ds (1 + n) d r := hlevel d hroots.1
    have hroots' : ∀ b ∈ below.roots, b ∈ childrenIn ds d.id := fun b hb => hchildren ▸ hb
    have hunder : ∀ x ∈ below.preorder, ∃ k, Climb ds (k + 1) x d := fun x hx =>
      hbelow.climb hroots' hd.mem_left hx
    -- what stands in a tree beside `d` climbs to another root on the level of `d`
    have hapart : ∀ x ∈ beside.preorder, ∀ k, ¬ Climb ds k x d := by
      intro x hx k hk
      obtain ⟨b, hb, j, hj⟩ := hbeside.exists_climb hroots.2 hx
      have hdb : d = b := hd.eq_of_level hu (hlevel b (hroots.2 b hb)) hr hk hj
      exact hnodup.1 (hdb ▸ hb)
    have hfresh : d ∉ below.preorder ++ beside.preorder := by
      intro hx
      rcases List.mem_append.1 hx with hx | hx
      · obtain ⟨_, hk⟩ := hunder d hx
        exact hd.not_self hu hr hk
      · exact hapart d hx 0 (.stay hd.mem_left)
    have hbelows : below.preorder.Nodup :=
      ihBelow hbelow (hchildren ▸ hu.nodup_childrenIn d.id) hroots' hd
    have hbesides : beside.preorder.Nodup := ihBeside hbeside hnodup.2 hroots.2 hp
    have hdisjoint : below.preorder.Disjoint beside.preorder := by
      intro x hx hx'
      obtain ⟨k, hk⟩ := hunder x hx
      exact hapart x hx' _ hk
    rw [preorder_cons]
    exact List.nodup_cons.2 ⟨hfresh, hbelows.append hbesides hdisjoint⟩

/-! ## Subtrees -/

/-- A descriptor of a forest is found by its identifier. -/
theorem exists_find? (hx : x ∈ f.preorder) : ∃ s, f.find? x.id = some s := by
  induction f with
  | nil => simp at hx
  | cons d below beside ihBelow ihBeside =>
    by_cases hd : d.id = x.id
    · exact ⟨⟨d, below⟩, by simp [find?, hd]⟩
    · simp only [find?, hd, if_false]
      simp only [preorder_cons, List.mem_cons, List.mem_append] at hx
      rcases hx with rfl | hx | hx
      · exact absurd rfl hd
      · obtain ⟨s, hs⟩ := ihBelow hx
        exact ⟨s, by simp [hs]⟩
      · -- one of that identifier may be found below before, which is as good
        obtain ⟨s, hs⟩ := ihBeside hx
        cases hb : below.find? x.id with
        | none => exact ⟨s, by simp [hs]⟩
        | some s' => exact ⟨s', by simp⟩

end Forest

/-- The root's children stand below it, and the forest there follows the list. -/
def SpanTree.Follows (ds : List Descriptor) (t : SpanTree) : Prop :=
  t.below.roots = childrenIn ds t.root.id ∧ t.below.Follows ds

instance (ds : List Descriptor) (t : SpanTree) : Decidable (t.Follows ds) :=
  inferInstanceAs (Decidable (_ ∧ _))

/-- A tree of parent links: its root names no parent, and all else names the node above it. -/
def SpanTree.IsLinked (t : SpanTree) : Prop :=
  t.root.isRoot = true ∧ t.below.HangsFrom t.root.id

namespace Forest

variable {f : Forest} {s : SpanTree}

/-- The subtree of an id has its root there, in the forest, and follows the list if the forest
does. -/
theorem Follows.of_find? (h : f.Follows ds) (hs : f.find? id = some s) :
    s.root.id = id ∧ s.root ∈ f.preorder ∧ s.Follows ds := by
  induction f with
  | nil => simp [find?] at hs
  | cons d below beside ihBelow ihBeside =>
    obtain ⟨hchildren, hbelow, hbeside⟩ := h
    simp only [find?] at hs
    split at hs
    · rename_i hd
      obtain rfl := Option.some.inj hs
      exact ⟨hd, by simp, hchildren, hbelow⟩
    · -- what is found below comes before what is found beside
      rcases Option.or_eq_some_iff.1 hs with hs | ⟨_, hs⟩
      · obtain ⟨hid, hmem, hfollows⟩ := ihBelow hbelow hs
        exact ⟨hid, by simp [hmem], hfollows⟩
      · obtain ⟨hid, hmem, hfollows⟩ := ihBeside hbeside hs
        exact ⟨hid, by simp [hmem], hfollows⟩

end Forest

namespace SpanTree

variable {t s : SpanTree}

@[simp] theorem root_mem_preorder (t : SpanTree) : t.root ∈ t.preorder := by
  simp [preorder]

theorem length_preorder (t : SpanTree) : t.preorder.length = t.size := by
  simp [preorder, size, Forest.length_preorder, Nat.add_comm]

namespace Follows

/-- A list has one tree with a given root. -/
theorem unique (ht : t.Follows ds) (hs : s.Follows ds) (hroot : t.root = s.root) : t = s := by
  have hroots : t.below.roots = s.below.roots := by rw [ht.1, hs.1, hroot]
  have hbelow : t.below = s.below := ht.2.unique hs.2 hroots
  cases t
  cases s
  exact congr (congrArg _ hroot) hbelow

theorem mem_of_mem_preorder (h : t.Follows ds) (hroot : t.root ∈ ds) (hx : x ∈ t.preorder) :
    x ∈ ds := by
  rcases List.mem_cons.1 hx with rfl | hx
  · exact hroot
  · refine h.2.mem_of_mem_preorder (fun b hb => ?_) hx
    rw [h.1] at hb
    exact (mem_childrenIn.1 hb).1

theorem hangsFrom (h : t.Follows ds) : t.below.HangsFrom t.root.id :=
  h.2.hangsFrom fun _ hb => h.1 ▸ hb

/-- In preorder what stands below the root comes after the one that it names as its parent. -/
theorem parent_first {before after : List Descriptor} (h : t.Follows ds)
    (hsplit : t.preorder = before ++ x :: after) (hx : x ≠ t.root) :
    ∃ p ∈ before, x.parent = p.id := by
  rcases List.cons_eq_append_iff.1 hsplit with ⟨rfl, htail⟩ | ⟨before', rfl, htail⟩
  · exact absurd (List.cons.inj htail).1 hx
  · rcases h.hangsFrom.parent_first htail with hid | ⟨p, hp, hid⟩
    · exact ⟨t.root, List.mem_cons_self, hid⟩
    · exact ⟨p, List.mem_cons_of_mem _ hp, hid⟩

/-- What stands below the root climbs to it. -/
theorem climb (h : t.Follows ds) (hroot : t.root ∈ ds) (hx : x ∈ t.below.preorder) :
    ∃ k, Climb ds (k + 1) x t.root :=
  h.2.climb (fun _ hb => h.1 ▸ hb) hroot hx

/-- The tree holds exactly what climbs to its root. -/
theorem mem_preorder_iff (h : t.Follows ds) (hroot : t.root ∈ ds) :
    x ∈ t.preorder ↔ ∃ k, Climb ds k x t.root := by
  constructor
  · intro hx
    rcases List.mem_cons.1 hx with rfl | hx
    · exact ⟨0, .stay hroot⟩
    · obtain ⟨k, hk⟩ := h.climb hroot hx
      exact ⟨k + 1, hk⟩
  · rintro ⟨k, hk⟩
    generalize he : t.root = e at hk
    -- from the root down the chain: with a node its children are in the tree
    induction hk with
    | stay _ => exact he ▸ t.root_mem_preorder
    | @up k x p e mem low link rest ih =>
      have hp : p ∈ t.preorder := ih he
      have hx : x ∈ childrenIn ds p.id := mem_childrenIn.2 ⟨mem, low, link⟩
      rcases List.mem_cons.1 hp with rfl | hp
      · rw [← h.1] at hx
        exact List.mem_cons_of_mem _ (Forest.mem_preorder_of_mem_roots hx)
      · exact List.mem_cons_of_mem _ (h.2.mem_of_mem_children hp hx)

/-- No descriptor occurs twice in a tree whose root climbs to a root of the list. -/
theorem nodup_preorder {n : Nat} (hu : UniqueIds ds) (h : t.Follows ds)
    (hroot : Climb ds n t.root r) (hr : r.isRoot = true) : t.preorder.Nodup := by
  have hbelow : t.below.preorder.Nodup :=
    h.2.nodup_preorder hu (h.1 ▸ hu.nodup_childrenIn _) (fun _ hb => h.1 ▸ hb) hroot hr
  refine List.nodup_cons.2 ⟨fun hx => ?_, hbelow⟩
  obtain ⟨_, hk⟩ := h.climb hroot.mem_left hx
  exact hroot.not_self hu hr hk

/-- What is found in a tree is a subtree of it. -/
theorem of_find? (h : t.Follows ds) {id : String} (hs : t.find? id = some s) :
    s.root.id = id ∧ s.root ∈ t.preorder ∧ s.Follows ds := by
  simp only [find?] at hs
  split at hs
  · rename_i hid
    obtain rfl := Option.some.inj hs
    exact ⟨hid, t.root_mem_preorder, h⟩
  · obtain ⟨hid, hmem, hfollows⟩ := h.2.of_find? hs
    exact ⟨hid, List.mem_cons_of_mem _ hmem, hfollows⟩

end Follows

/-- A descriptor of a tree is found by its identifier. -/
theorem exists_find? (hx : x ∈ t.preorder) : ∃ s, t.find? x.id = some s := by
  by_cases hid : t.root.id = x.id
  · exact ⟨t, by simp [find?, hid]⟩
  · rcases List.mem_cons.1 hx with rfl | hx
    · exact absurd rfl hid
    · obtain ⟨s, hs⟩ := Forest.exists_find? hx
      exact ⟨s, by simp [find?, hid, hs]⟩

end SpanTree

/-! ## Growing the tree -/

namespace Forest

/-- A tree for each descriptor of a list, with the forest that `below` gives for it. -/
def plant (below : Descriptor → Forest) (ds : List Descriptor) : Forest :=
  ds.foldr (fun d beside => .cons d (below d) beside) .nil

variable {below : Descriptor → Forest} {es : List Descriptor}

@[simp] theorem roots_plant : (plant below es).roots = es := by
  induction es with
  | nil => rfl
  | cons d es ih => exact congrArg (d :: ·) ih

/-- A forest follows the list if what is below each of its roots does. -/
theorem follows_plant (h : ∀ d ∈ es, (below d).roots = childrenIn ds d.id ∧ (below d).Follows ds) :
    (plant below es).Follows ds := by
  induction es with
  | nil => trivial
  | cons d es ih =>
    simp only [List.mem_cons, forall_eq_or_imp] at h
    exact ⟨h.1.1, h.1.2, ih h.2⟩

end Forest

namespace Topology

/-- The index lists the children of an identifier in their order. -/
theorem getD_childIndex (ds : List Descriptor) (id : String) :
    (childIndex ds).getD id [] = childrenIn ds id := by
  induction ds with
  | nil => simp [childIndex, childrenIn]
  | cons d ds ih =>
    simp only [childIndex]
    split
    · rename_i top
      rw [ih]
      simp [childrenIn, top]
    · rename_i low
      rw [Std.HashMap.getD_insert, ih]
      -- the child goes in front of those with the same parent, and the other lists stay
      by_cases hid : d.parent = id
      · subst hid
        simp [childrenIn, low, ih]
      · simp [childrenIn, hid]

theorem grow_succ (index : Std.HashMap String (List Descriptor)) (levels : Nat) (id : String) :
    grow index (levels + 1) id =
      Forest.plant (fun d => grow index levels d.id) (index.getD id []) := rfl

/-- With as many levels as there are descriptors not yet on the chain, nothing is cut off. -/
theorem grow_follows {k levels : Nat} (hu : UniqueIds ds) (hp : Climb ds k p r)
    (hr : r.isRoot = true) (henough : ds.length ≤ k + levels) :
    (grow (childIndex ds) levels p.id).roots = childrenIn ds p.id ∧
      (grow (childIndex ds) levels p.id).Follows ds := by
  induction levels generalizing k p with
  | zero =>
    -- no chain to a root is as long as the list
    have hlt : k < ds.length := climb_lt_length hu hp hr
    omega
  | succ levels ih =>
    rw [grow_succ, getD_childIndex]
    refine ⟨Forest.roots_plant, Forest.follows_plant fun d hd => ?_⟩
    exact ih ((Climb.of_mem_childrenIn hd hp.mem_left).trans hp) (by omega)

end Topology

end TraceLoad
