import TraceLoad.Proofs.Verdict

/-! # Levels of a tree

How deep a tree is can be told from the parent links alone. No descriptor has as many links up to
the root as the tree is deep (`WellFormed.lt_depth`), and one of them has all but one as many
(`WellFormed.exists_deepest`).
-/

namespace TraceLoad

namespace Forest

variable {ds : List Descriptor} {f : Forest} {id : String}

/-- In a forest that is not empty some node stands on the lowest level. -/
theorem HangsFrom.exists_deepest (h : f.HangsFrom id) (hsub : ∀ y ∈ f.preorder, y ∈ ds)
    (hne : f ≠ .nil) :
    ∃ x ∈ f.preorder, ∃ b ∈ f.roots, ∃ k, Climb ds k x b ∧ f.depth = k + 1 := by
  induction f generalizing id with
  | nil => exact absurd rfl hne
  | cons d below beside ihBelow ihBeside =>
    rcases h with ⟨_, _, hbelow, hbeside⟩
    simp only [preorder_cons, List.mem_cons, List.mem_append, forall_eq_or_imp] at hsub
    rcases hsub with ⟨hd, hsub⟩
    by_cases hdeep : 1 + below.depth < beside.depth
    · -- the lowest level is one of the trees beside
      have hsome : beside ≠ .nil := by
        rintro rfl
        simp [depth] at hdeep
      have hmem : ∀ y ∈ beside.preorder, y ∈ ds := by
        intro y hy
        exact hsub y (Or.inr hy)
      rcases ihBeside hbeside hmem hsome with ⟨x, hx, b, hb, k, hk, hdepth⟩
      refine ⟨x, by simp [hx], b, by simp [roots, hb], k, hk, ?_⟩
      simp only [depth]
      omega
    · -- it is one of the first tree, which may be a single node
      by_cases hsome : below = .nil
      · subst hsome
        refine ⟨d, by simp, d, by simp [roots], 0, .stay hd, ?_⟩
        simp only [depth] at hdeep ⊢
        omega
      · have hmem : ∀ y ∈ below.preorder, y ∈ ds := by
          intro y hy
          exact hsub y (Or.inl hy)
        rcases ihBelow hbelow hmem hsome with ⟨x, hx, b, hb, k, hk, hdepth⟩
        rcases hbelow.link hb with ⟨low, link⟩
        have hbd : Climb ds 1 b d := .one hk.mem_right hd low link
        refine ⟨x, by simp [hx], d, by simp [roots], k + 1, hk.trans hbd, ?_⟩
        simp only [depth]
        omega

end Forest

namespace Topology.WellFormed

variable {t : Topology} {d : Descriptor} {k : Nat}

theorem mem_of_mem_below (h : t.WellFormed) (hd : d ∈ t.tree.below.preorder) :
    d ∈ t.descriptors :=
  h.mem_preorder_iff.1 (List.mem_cons_of_mem _ hd)

/-- A chain of parent links up to the root has fewer links than the tree has levels. -/
theorem lt_depth (h : t.WellFormed) (hk : Climb t.descriptors k d t.root) : k < t.depth := by
  show k < 1 + t.tree.below.depth
  rcases List.mem_cons.1 (h.mem_preorder_iff.2 hk.mem_left) with hroot | hbelow
  · have hzero : k = 0 := (hk.eq_of_isRoot (hroot ▸ h.isRoot_root)).1
    omega
  · -- the chain leads to a child of the root, and from there by one link more
    have hmem : ∀ y ∈ t.tree.below.preorder, y ∈ t.descriptors := by
      intro y hy
      exact h.mem_of_mem_below hy
    rcases h.isLinked.2.exists_climb_lt_depth hmem hbelow with ⟨b, hb, j, hlt, hj⟩
    rcases h.isLinked.2.link hb with ⟨low, link⟩
    have hlast : Climb t.descriptors 1 b t.root := .one hj.mem_right h.root_mem low link
    have hsteps : k = j + 1 :=
      (hk.steps_unique h.unique h.isRoot_root (hj.trans hlast) h.isRoot_root).1
    omega

/-- On the lowest level stands a descriptor, with as many links up to the root as there are levels
above. -/
theorem exists_deepest (h : t.WellFormed) :
    ∃ d k, Climb t.descriptors k d t.root ∧ t.depth = k + 1 := by
  have hdepth : t.depth = 1 + t.tree.below.depth := rfl
  by_cases hsome : t.tree.below = .nil
  · refine ⟨t.root, 0, .stay h.root_mem, ?_⟩
    rw [hdepth, hsome]
    rfl
  · have hmem : ∀ y ∈ t.tree.below.preorder, y ∈ t.descriptors := by
      intro y hy
      exact h.mem_of_mem_below hy
    rcases h.isLinked.2.exists_deepest hmem hsome with ⟨x, _, b, hb, k, hk, hbelow⟩
    rcases h.isLinked.2.link hb with ⟨low, link⟩
    -- from the deepest descriptor up to a child of the root, and one link more
    have hlast : Climb t.descriptors 1 b t.root := .one hk.mem_right h.root_mem low link
    exact ⟨x, k + 1, hk.trans hlast, by omega⟩

end Topology.WellFormed

end TraceLoad
