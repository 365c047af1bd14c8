import Mathlib.Order.Bounds.Basic
import TraceLoad.Proofs.Levels
import TraceLoad.Proofs.Lookup

/-! # The walk that finds the depth

The walk that finds how deep the places of a topology go marks nothing, so that it would not end if
it could come back to a place. In a tree it cannot: a forest on the stack is taken off it again, and
all that is left of it is its depth (`deepest_forest`). What the walk finds from a place is one more
than the most that it finds from the children of that place, and from the root it is the number of
descriptors on the longest chain of parent links (`depth_fathomed`).
-/

namespace TraceLoad

/-! ## Chains up to a root -/

/-- The descriptors on the chain of parent links from one of them up to a root, both included. -/
inductive Lineage (ds : List Descriptor) : Descriptor → List Descriptor → Prop where
  | root {d : Descriptor} (mem : d ∈ ds) (top : d.isRoot = true) : Lineage ds d [d]
  | child {d p : Descriptor} {l : List Descriptor} (mem : d ∈ ds) (low : d.isRoot = false)
      (link : d.parent = p.id) (rest : Lineage ds p l) : Lineage ds d (d :: l)

variable {ds : List Descriptor} {d r : Descriptor} {k : Nat}

/-- Whoever climbs to the root meets a lineage on the way. -/
theorem Climb.exists_lineage (h : Climb ds k d r) (top : r.isRoot = true) :
    ∃ l, Lineage ds d l ∧ l.length = k + 1 := by
  induction h with
  | @stay d mem => exact ⟨[d], .root mem top, rfl⟩
  | @up k d p e mem low link _ ih =>
    rcases ih top with ⟨l, hl, hlength⟩
    exact ⟨d :: l, .child mem low link hl, congrArg (· + 1) hlength⟩

namespace Lineage

variable {l l' : List Descriptor}

theorem mem (h : Lineage ds d l) : d ∈ ds := by
  cases h with
  | root mem _ => exact mem
  | child mem _ _ _ => exact mem

/-- A descriptor has one lineage only. -/
theorem unique (hu : UniqueIds ds) (h : Lineage ds d l) (h' : Lineage ds d l') : l = l' := by
  induction h generalizing l' with
  | root _ top =>
    cases h' with
    | root _ _ => rfl
    | child _ low _ _ => simp [top] at low
  | @child d p l _ low link rest ih =>
    cases h' with
    | root _ top => simp [top] at low
    | @child _ q l' _ _ link' rest' =>
      have hpq : p = q := hu.eq_of_id_eq rest.mem rest'.mem (link.symm.trans link')
      subst hpq
      rw [ih rest']

end Lineage

namespace Topology

/-! ## The walk -/

namespace Table

variable {children : Array (Array Nat)} {tb : Table} {f : Forest} {s : SpanTree} {ps : List Nat}
  {i best : Nat}

/-- Places at which descriptors of a list stand, one by one. -/
def StandAt (ds : List Descriptor) (ps : List Nat) (es : List Descriptor) : Prop :=
  List.Forall₂ (fun p e => ds[p]? = some e) ps es

/-- Places that have descriptors stand for those. -/
theorem standAt_filterMap (hps : ∀ p ∈ ps, ∃ e, ds[p]? = some e) :
    StandAt ds ps (ps.filterMap (ds[·]?)) := by
  induction ps with
  | nil => exact .nil
  | cons p ps ih =>
    rcases hps p List.mem_cons_self with ⟨e, he⟩
    have hrest : ∀ q ∈ ps, ∃ e, ds[q]? = some e := by
      intro q hq
      exact hps q (List.mem_cons_of_mem _ hq)
    rw [List.filterMap_cons_some he]
    exact .cons he (ih hrest)

/-- At the place of a descriptor are the places of its children. -/
theorem Filed.standAt (h : Filed ds children) (hd : ds[i]? = some d) :
    StandAt ds (children.getD i #[]).toList (childrenIn ds d.id) := by
  have hlisted : (children.getD i #[]).toList =
      places (fun e => !e.isRoot && e.parent == d.id) 0 ds := by
    rw [Array.getD_eq_getD_getElem?, h.listed i d hd, Option.getD_some]
  rw [hlisted, childrenIn, ← filterMap_places]
  apply standAt_filterMap
  intro p hp
  rcases mem_places.1 hp with ⟨e, he, -⟩
  exact ⟨e, he⟩

/-- The walk takes a forest off the stack again that stands there, the last tree in front, and has
then found its depth. -/
theorem deepest_forest (h : Filed ds tb.children) (hf : f.Follows ds)
    (hps : StandAt ds ps f.roots) (hbest : k ≤ best) (stack : List (Nat × Nat)) :
    tb.deepest best ((ps.map fun c => (c, k + 1)).reverse ++ stack) =
      tb.deepest (max best (k + f.depth)) stack := by
  induction f generalizing ps k best stack with
  | nil =>
    cases hps
    simp [Forest.depth, hbest]
  | cons d below beside ihBelow ihBeside =>
    rcases hf with ⟨hchildren, hbelow, hbeside⟩
    cases hps with
    | @cons i _ ps' _ hi hrest =>
      have hunder : StandAt ds (tb.children.getD i #[]).toList below.roots := by
        rw [hchildren]
        exact h.standAt hi
      -- first all trees beside, then the place of `d` itself, and then what is below it
      rw [List.map_cons, List.reverse_cons, List.append_assoc, List.singleton_append,
        ihBeside hbeside hrest hbest, deepest, ihBelow hbelow hunder (Nat.le_max_right _ _)]
      congr 1
      simp only [Forest.depth]
      omega

namespace Holds

variable {t : Topology}

/-- From the place of a descriptor the walk comes to an end, and finds the depth of the tree whose
root the descriptor is. -/
theorem depthAt_eq (h : tb.Holds t) (hs : s.Follows t.descriptors)
    (hi : t.descriptors[i]? = some s.root) : tb.depthAt i = some s.depth := by
  have hunder : StandAt t.descriptors (tb.children.getD i #[]).toList s.below.roots := by
    rw [hs.1]
    exact h.children.standAt hi
  have hdown := deepest_forest h.children hs.2 hunder (Nat.le_refl 1) []
  unfold depthAt
  rw [deepest, Nat.zero_max, hdown, deepest, SpanTree.depth]
  congr 1
  omega

/-- What the walk finds from the roots of a forest, one by one. -/
theorem exists_depths (h : tb.Holds t) (hf : f.Follows t.descriptors)
    (hps : StandAt t.descriptors ps f.roots) :
    ∃ depths, ps.mapM tb.depthAt = some depths ∧ depths.foldr max 0 = f.depth := by
  induction f generalizing ps with
  | nil =>
    cases hps
    exact ⟨[], rfl, rfl⟩
  | cons d below beside _ ih =>
    rcases hf with ⟨hchildren, hbelow, hbeside⟩
    cases hps with
    | @cons i _ ps' _ hi hrest =>
      -- the first place and those beside it are looked up one after the other
      rcases ih hbeside hrest with ⟨depths, hdepths, hmax⟩
      have hfirst : tb.depthAt i = some (1 + below.depth) :=
        h.depthAt_eq (s := ⟨d, below⟩) ⟨hchildren, hbelow⟩ hi
      refine ⟨(1 + below.depth) :: depths, ?_, ?_⟩
      · simp [List.mapM_cons, hfirst, hdepths]
      · simp [Forest.depth, hmax]

/-- From every place the walk finds one more than the most that it finds from the children. -/
theorem exists_depthAt (h : tb.Holds t) (hw : t.WellFormed) (hi : i < t.descriptors.length) :
    ∃ depths, (tb.children.getD i #[]).toList.mapM tb.depthAt = some depths ∧
      tb.depthAt i = some (1 + depths.foldr max 0) := by
  rcases hw.exists_subtree? (List.getElem_mem hi) with ⟨s, hs, hroot⟩
  rcases hw.of_subtree? hs with ⟨-, -, hfollows, -⟩
  have hplace : t.descriptors[i]? = some s.root := by
    rw [hroot]
    exact List.getElem?_eq_getElem hi
  -- the places of the children are where the roots of the forest below stand
  have hunder : StandAt t.descriptors (tb.children.getD i #[]).toList s.below.roots := by
    rw [hfollows.1]
    exact h.children.standAt hplace
  rcases h.exists_depths hfollows.2 hunder with ⟨depths, hdepths, hmax⟩
  refine ⟨depths, hdepths, ?_⟩
  rw [h.depthAt_eq hfollows hplace, hmax, SpanTree.depth]

end Holds

end Table

/-! ## The depth of a topology -/

/-- How deep the topology of a list is, and that it can be found out. -/
structure Fathomed (ds : List Descriptor) (tb : Table) (depth : Nat) : Prop where
  /-- the walk comes to an end -/
  ends : tb.depth = some depth
  /-- every descriptor has one lineage -/
  lineage : ∀ d ∈ ds, ∃ l, Lineage ds d l ∧ ∀ l', Lineage ds d l' → l' = l
  /-- the depth is the number of descriptors in the longest lineage -/
  longest : IsGreatest {n | ∃ d ∈ ds, ∃ l, Lineage ds d l ∧ l.length = n} depth
  /-- it is one more than the most that is found from the children of the root -/
  under : ∃ depths, (tb.children.getD tb.root #[]).toList.mapM tb.depthAt = some depths ∧
    depth = 1 + depths.foldr max 0
  /-- the same is true of every other place in the list -/
  everywhere : ∀ i, i < ds.length →
    ∃ depths, (tb.children.getD i #[]).toList.mapM tb.depthAt = some depths ∧
      tb.depthAt i = some (1 + depths.foldr max 0)
  pos : 1 ≤ depth
  le_length : depth ≤ ds.length
  lone : ds.length = 1 → depth = 1

namespace WellFormed

variable {t : Topology}

/-- A lineage is a chain of parent links up to the root of the tree. -/
theorem exists_climb (h : t.WellFormed) {l : List Descriptor} (hl : Lineage t.descriptors d l) :
    ∃ k, Climb t.descriptors k d t.root ∧ l.length = k + 1 := by
  rcases h.climb hl.mem with ⟨k, hk⟩
  rcases hk.exists_lineage h.isRoot_root with ⟨l', hl', hlength⟩
  rw [hl.unique h.unique hl']
  exact ⟨k, hk, hlength⟩

/-- The depth is the length of the longest lineage. -/
theorem isGreatest_depth (h : t.WellFormed) :
    IsGreatest {n | ∃ d ∈ t.descriptors, ∃ l, Lineage t.descriptors d l ∧ l.length = n}
      t.depth := by
  constructor
  · rcases h.exists_deepest with ⟨d, k, hk, hdepth⟩
    rcases hk.exists_lineage h.isRoot_root with ⟨l, hl, hlength⟩
    exact ⟨d, hk.mem_left, l, hl, hlength.trans hdepth.symm⟩
  · rintro n ⟨d, -, l, hl, rfl⟩
    rcases h.exists_climb hl with ⟨k, hk, hlength⟩
    rw [hlength]
    exact h.lt_depth hk

/-- A tree has no more levels than descriptors. -/
theorem depth_le_length (h : t.WellFormed) : t.depth ≤ t.descriptors.length := by
  rcases h.exists_deepest with ⟨d, k, hk, hdepth⟩
  rw [hdepth]
  exact climb_lt_length h.unique hk h.isRoot_root

end WellFormed

/-- Of every accepted list the depth can be found: the walk ends, and what it finds is the length of
the longest chain of parent links up to the root. -/
theorem depth_fathomed {t : Topology} (ht : ofDescriptors ds = .ok t) :
    ∃ tb, Table.ofDescriptors ds = .ok tb ∧ Fathomed ds tb t.depth := by
  rcases Table.exists_holds ht with ⟨tb, htb, hholds⟩
  rcases ofDescriptors_eq_ok_iff.1 ht with ⟨rfl, h⟩
  have hroot : tb.root < t.descriptors.length := (List.getElem?_eq_some_iff.1 hholds.root).1
  have hends : tb.depth = some t.depth := hholds.depthAt_eq h.follows hholds.root
  have hpos : 1 ≤ t.depth := Nat.le_add_right 1 _
  have hle := h.depth_le_length
  refine ⟨tb, htb, ?_⟩
  constructor
  case ends => exact hends
  case lineage =>
    intro d hd
    rcases h.climb hd with ⟨k, hk⟩
    rcases hk.exists_lineage h.isRoot_root with ⟨l, hl, -⟩
    refine ⟨l, hl, ?_⟩
    -- by unique ids there is only one way up
    intro l' hl'
    exact hl'.unique h.unique hl
  case longest => exact h.isGreatest_depth
  case under =>
    rcases hholds.exists_depthAt h hroot with ⟨depths, hdepths, hmax⟩
    refine ⟨depths, hdepths, ?_⟩
    exact Option.some.inj (hends.symm.trans hmax)
  case everywhere =>
    intro i hi
    exact hholds.exists_depthAt h hi
  case pos => exact hpos
  case le_length => exact hle
  case lone =>
    intro hone
    omega

/-- The shop has three levels. -/
theorem shop_fathomed : ofDescriptors shop = .ok ⟨shop, shopTree⟩ ∧
    ∃ tb, Table.ofDescriptors shop = .ok tb ∧ Fathomed shop tb 3 := by
  have hloads : ofDescriptors shop = .ok ⟨shop, shopTree⟩ := builtin_eq
  have hdepth : depth ⟨shop, shopTree⟩ = 3 := by decide
  have hfathomed := depth_fathomed hloads
  rw [hdepth] at hfathomed
  exact ⟨hloads, hfathomed⟩

end Topology

end TraceLoad
