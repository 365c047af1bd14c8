import TraceLoad.Topology.Table
import TraceLoad.Proofs.Verdict

/-! # The tables of a topology

The passes that fill the tables refuse the lists that `Topology.ofDescriptors` refuses, for the same
reason (`ofDescriptors_eq_error_iff`), and the tables of any other list hold what the topology of it
says (`Holds`). What a walk marks is described by a predicate that the walk carries down
(`reach_sound`) and by what it must not leave out (`reach_complete`), so that nothing has to be said
about the order in which it goes.
-/

namespace TraceLoad

/-- A descriptor stands at one place. -/
theorem UniqueIds.place_eq {ds : List Descriptor} {d e : Descriptor} {i j : Nat}
    (h : UniqueIds ds) (hd : ds[i]? = some d) (he : ds[j]? = some e) (hid : d.id = e.id) :
    i = j := by
  rw [h.eq_of_id_eq (List.mem_of_getElem? hd) (List.mem_of_getElem? he) hid] at hd
  obtain ⟨hi, hat⟩ := List.getElem?_eq_some_iff.1 hd
  obtain ⟨hj, hat'⟩ := List.getElem?_eq_some_iff.1 he
  exact h.nodup.getElem_inj_iff.1 (hat.trans hat'.symm)

namespace Topology.Table

variable {ds before after : List Descriptor} {d e root : Descriptor} {id : String} {k i j p : Nat}
  {index ix : Std.HashMap String Nat} {children children' : Array (Array Nat)}
  {seen : Array Bool} {stack : List Nat}

/-! ## Places -/

/-- The places of a part of a list that starts at a given place. -/
def places (keep : Descriptor → Bool) (k : Nat) (ds : List Descriptor) : List Nat :=
  ((ds.zipIdx k).filter fun x => keep x.1).map (·.2)

/-- The first place is kept or not, and the others are one further on. -/
theorem places_cons {keep : Descriptor → Bool} :
    places keep k (d :: ds) = (if keep d then [k] else []) ++ places keep (k + 1) ds := by
  unfold places
  rw [List.zipIdx_cons, List.filter_cons]
  split
  · rfl
  · rfl

/-- The places of a part of a list are listed in ascending order. -/
theorem places_eq (keep : Descriptor → Bool) (ds : List Descriptor) :
    places keep 0 ds = (List.range ds.length).filter fun j => ds[j]?.any keep := by
  have hkeep : ∀ x ∈ ds.zipIdx, keep x.1 = ds[x.2]?.any keep := fun x hx => by
    rw [List.mem_zipIdx_iff_getElem?.1 hx, Option.any_some]
  rw [places, List.filter_congr hkeep, List.range_eq_range', ← List.zipIdx_map_snd 0 ds,
    List.filter_map]
  rfl

theorem mem_places {keep : Descriptor → Bool} :
    j ∈ places keep 0 ds ↔ ∃ d, ds[j]? = some d ∧ keep d = true := by
  simp [places, List.mem_zipIdx_iff_getElem?]

/-- No place is listed twice. -/
theorem nodup_places (keep : Descriptor → Bool) (ds : List Descriptor) :
    (places keep 0 ds).Nodup := by
  rw [places_eq]
  exact List.nodup_range.filter _

theorem map_fst_filter (keep : Descriptor → Bool) (ds : List Descriptor) :
    (ds.zipIdx.filter fun x => keep x.1).map (·.1) = ds.filter keep := by
  conv_rhs => rw [← List.zipIdx_map_fst 0 ds, List.filter_map]
  rfl

/-- What stands at the places of a part of a list is that part. -/
theorem filterMap_places (keep : Descriptor → Bool) (ds : List Descriptor) :
    (places keep 0 ds).filterMap (ds[·]?) = ds.filter keep := by
  have hback : ∀ x ∈ ds.zipIdx.filter fun x => keep x.1, ds[x.2]? = some x.1 := fun x hx =>
    List.mem_zipIdx_iff_getElem?.1 (List.mem_filter.1 hx).1
  rw [places, List.filterMap_map, ← map_fst_filter, ← List.filterMap_eq_map]
  exact List.filterMap_congr hback

/-! ## The places of the ids -/

/-- The pass over the identifiers fails at the first that is repeated. -/
theorem indexFrom_of_firstRepeated {known : Std.HashSet String}
    (hknown : ∀ id, id ∈ index ↔ id ∈ known) (h : firstRepeated known ds = some id) :
    indexFrom index k ds = .error (.duplicateSpan id) := by
  induction ds generalizing index known k with
  | nil => cases h
  | cons d ds ih =>
    simp only [firstRepeated, Std.HashSet.contains_iff_mem, ← hknown] at h
    simp only [indexFrom, Std.HashMap.contains_iff_mem]
    split at h
    · next hd => rw [if_pos hd, Option.some.inj h]
    · next hd =>
      rw [if_neg hd]
      -- what is known and what has a place are the same also with one more
      refine ih (fun id => ?_) h
      rw [Std.HashMap.mem_insert, Std.HashSet.mem_insert, hknown]

/-- Where none is repeated the pass comes to its end. -/
theorem exists_indexFrom {known : Std.HashSet String} (hknown : ∀ id, id ∈ index ↔ id ∈ known)
    (h : firstRepeated known ds = none) : ∃ ix, indexFrom index k ds = .ok ix := by
  induction ds generalizing index known k with
  | nil => exact ⟨index, rfl⟩
  | cons d ds ih =>
    simp only [firstRepeated, Std.HashSet.contains_iff_mem, ← hknown] at h
    simp only [indexFrom, Std.HashMap.contains_iff_mem]
    split at h
    · cases h
    · next hd =>
      rw [if_neg hd]
      refine ih (fun id => ?_) h
      rw [Std.HashMap.mem_insert, Std.HashSet.mem_insert, hknown]

/-- An id is given the place at which it stands, and keeps the one that it had. -/
theorem getElem?_indexFrom (h : indexFrom index k ds = .ok ix) :
    ix[id]? = some i ↔ index[id]? = some i ∨ ∃ x ∈ ds.zipIdx k, x.1.id = id ∧ x.2 = i := by
  induction ds generalizing index k with
  | nil =>
    obtain rfl := Except.ok.inj h
    simp
  | cons d ds ih =>
    simp only [indexFrom] at h
    split at h
    · cases h
    · next hd =>
      rw [ih h, Std.HashMap.getElem?_insert, List.zipIdx_cons, List.exists_mem_cons_iff]
      by_cases hid : d.id = id
      · -- an identifier that is new has no place yet
        have hnone : index[id]? = none := by
          rw [← hid]
          exact Std.HashMap.getElem?_eq_none fun hmem => hd (Std.HashMap.contains_iff_mem.2 hmem)
        simp [hid, hnone]
      · simp [hid]

/-! ## The places of the children -/

/-- Whether a parent is named that has a given place. -/
def names (index : Std.HashMap String Nat) (p : Nat) (d : Descriptor) : Bool :=
  !d.isRoot && index[d.parent]? == some p

/-- The pass over the links fails at the first parent that is missing. -/
theorem linkFrom_of_dangling (children : Array (Array Nat)) (k : Nat)
    (hbefore : ∀ e ∈ before, e.isRoot = true ∨ e.parent ∈ index)
    (low : d.isRoot = false) (hd : d.parent ∉ index) :
    linkFrom index children k (before ++ d :: after) =
      .error (.unresolvedParent d.id d.parent) := by
  induction before generalizing children k with
  | nil => simp [linkFrom, low, hd]
  | cons e before ih =>
    rw [List.forall_mem_cons] at hbefore
    simp only [List.cons_append, linkFrom]
    split
    · exact ih _ _ hbefore.2
    · next he =>
      -- those before have a parent in the table, so the pass goes on
      have hmem := hbefore.1.resolve_left he
      rw [Std.HashMap.getElem?_eq_some_getElem hmem]
      exact ih _ _ hbefore.2

/-- Where all parents are known the pass comes to its end. -/
theorem exists_linkFrom (children : Array (Array Nat)) (k : Nat)
    (h : ∀ e ∈ ds, e.isRoot = true ∨ e.parent ∈ index) :
    ∃ children', linkFrom index children k ds = .ok children' := by
  induction ds generalizing children k with
  | nil => exact ⟨children, rfl⟩
  | cons e ds ih =>
    rw [List.forall_mem_cons] at h
    simp only [linkFrom]
    split
    · exact ih _ _ h.2
    · next he =>
      rw [Std.HashMap.getElem?_eq_some_getElem (h.1.resolve_left he)]
      exact ih _ _ h.2

/-- Every parent is given the places of those that name it, behind the ones that it had. -/
theorem getElem?_linkFrom (h : linkFrom index children k ds = .ok children') (p : Nat) :
    children'[p]? = children[p]?.map (· ++ (places (names index p) k ds).toArray) := by
  induction ds generalizing children k with
  | nil =>
    obtain rfl := Except.ok.inj h
    simp [places]
  | cons d ds ih =>
    simp only [linkFrom] at h
    rw [places_cons]
    split at h
    · next top =>
      rw [ih h]
      simp [names, top]
    · next low =>
      split at h
      · cases h
      · next parent hparent =>
        -- the child is put down with its parent, and with no other place
        rw [ih h, Array.getElem?_modify]
        by_cases hp : parent = p
        · cases hold : children[p]? with
          | none => simp [hp]
          | some old => simp [names, hp, low, hparent]
        · simp [names, hp, hparent]

/-! ## The place of the root -/

/-- The descriptors that are kept with their places are the roots. -/
theorem map_fst_roots (ds : List Descriptor) :
    (ds.zipIdx.filter (·.1.isRoot)).map (·.1) = rootsOf ds :=
  map_fst_filter (·.isRoot) ds

/-- Without a root there is no place for one. -/
theorem rootPlace_of_rootless (h : rootsOf ds = []) : rootPlace ds = .error .missingRoot := by
  rw [← map_fst_roots, List.map_eq_nil_iff] at h
  rw [rootPlace, h]

/-- With several roots there is no place for the one. -/
theorem rootPlace_of_many (h : 2 ≤ (rootsOf ds).length) :
    rootPlace ds = .error (.multipleRoots ((rootsOf ds).map (·.id))) := by
  rw [← map_fst_roots, List.length_map] at h
  rw [← map_fst_roots, List.map_map, rootPlace]
  split
  · next hnil => simp [hnil] at h
  · next hone => simp [hone] at h
  · rfl

/-- The place of the one root is where it stands. -/
theorem exists_rootPlace (h : rootsOf ds = [root]) :
    ∃ i, rootPlace ds = .ok i ∧ ds[i]? = some root := by
  rw [← map_fst_roots] at h
  obtain ⟨⟨d, i⟩, hone, rfl⟩ := List.map_eq_singleton_iff.1 h
  refine ⟨i, by rw [rootPlace, hone], ?_⟩
  have hmem : (d, i) ∈ ds.zipIdx.filter (·.1.isRoot) := by
    rw [hone]
    exact List.mem_singleton.2 rfl
  exact List.mem_zipIdx_iff_getElem?.1 (List.mem_filter.1 hmem).1

/-! ## The walk -/

theorem size_reach (children : Array (Array Nat)) (seen : Array Bool) (stack : List Nat) :
    (reach children seen stack).size = seen.size := by
  fun_induction reach children seen stack with
  | case1 => rfl
  | case2 seen i stack _ ih => rw [ih, Array.size_setIfInBounds]
  | case3 seen i stack _ ih => exact ih

/-- A mark is never taken off. -/
theorem getElem?_mark_of_seen (h : seen[j]? = some true) (i : Nat) :
    (seen.setIfInBounds i true)[j]? = some true := by
  rcases eq_or_ne i j with rfl | hne
  · rw [Array.getElem?_setIfInBounds_self_of_lt (Array.getElem?_eq_some_iff.1 h).1]
  · rw [Array.getElem?_setIfInBounds_ne hne, h]

/-- A mark stays. -/
theorem getElem?_reach_of_seen (h : seen[j]? = some true) :
    (reach children seen stack)[j]? = some true := by
  fun_induction reach children seen stack with
  | case1 => exact h
  | case2 seen i stack _ ih => exact ih (getElem?_mark_of_seen h i)
  | case3 seen i stack _ ih => exact ih h

/-- What goes down from every place to its children holds of all that the walk marks, if it holds
of the places where the walk starts. -/
theorem reach_sound {P : Nat → Prop} (hdown : ∀ i, P i → ∀ j ∈ children.getD i #[], P j)
    (hstack : ∀ i ∈ stack, P i) (hseen : ∀ i, seen[i]? = some true → P i)
    (h : (reach children seen stack)[j]? = some true) : P j := by
  fun_induction reach children seen stack with
  | case1 => exact hseen j h
  | case2 seen i stack hi ih =>
    rw [List.forall_mem_cons] at hstack
    -- the children of a place that is marked now come onto the stack
    refine ih ?_ ?_ h
    · intro k hk
      rcases List.mem_append.1 hk with hk | hk
      · exact hdown i hstack.1 k (by simpa using hk)
      · exact hstack.2 k hk
    · intro k hk
      rcases eq_or_ne i k with rfl | hne
      · exact hstack.1
      · rw [Array.getElem?_setIfInBounds_ne hne] at hk
        exact hseen k hk
  | case3 seen i stack _ ih => exact ih (List.forall_mem_cons.1 hstack).2 hseen h

/-- The children of marked places are marked or on the stack. -/
def Frontier (children : Array (Array Nat)) (seen : Array Bool) (stack : List Nat) : Prop :=
  ∀ i, seen[i]? = some true → ∀ j ∈ children.getD i #[], j < seen.size →
    seen[j]? = some true ∨ j ∈ stack

/-- What is marked leaves its children on the stack. -/
theorem Frontier.mark (h : Frontier children seen (i :: stack)) :
    Frontier children (seen.setIfInBounds i true)
      ((children.getD i #[]).toList.reverse ++ stack) := by
  intro p hp j hj hlt
  rw [Array.size_setIfInBounds] at hlt
  rcases eq_or_ne i p with rfl | hne
  · right
    exact List.mem_append_left _ (List.mem_reverse.2 (Array.mem_toList_iff.2 hj))
  · rw [Array.getElem?_setIfInBounds_ne hne] at hp
    rcases h p hp j hj hlt with hseen | hmem
    · left
      exact getElem?_mark_of_seen hseen i
    · -- a child that was on the stack is the one that is marked now, or still there
      rcases List.mem_cons.1 hmem with rfl | hmem
      · left
        rw [Array.getElem?_setIfInBounds_self_of_lt hlt]
      · right
        exact List.mem_append_right _ hmem

/-- What is marked already may leave the stack. -/
theorem Frontier.pass (h : Frontier children seen (i :: stack))
    (hi : i < seen.size → seen[i]? = some true) : Frontier children seen stack := by
  intro p hp j hj hlt
  rcases h p hp j hj hlt with hseen | hmem
  · left
    exact hseen
  · rcases List.mem_cons.1 hmem with rfl | hmem
    · left
      exact hi hlt
    · right
      exact hmem

/-- The walk marks what is on its stack, and with every place the children of it. -/
theorem reach_complete (h : Frontier children seen stack) :
    (∀ j ∈ stack, j < seen.size → (reach children seen stack)[j]? = some true) ∧
      Frontier children (reach children seen stack) [] := by
  fun_induction reach children seen stack with
  | case1 seen => exact ⟨nofun, h⟩
  | case2 seen i stack hi ih =>
    obtain ⟨hstack, hclosed⟩ := ih h.mark
    rw [Array.size_setIfInBounds] at hstack
    -- the place itself is marked, and the rest of the stack is behind its children
    refine ⟨?_, hclosed⟩
    rw [List.forall_mem_cons]
    constructor
    · intro hlt
      apply getElem?_reach_of_seen
      rw [Array.getElem?_setIfInBounds_self_of_lt hlt]
    · intro j hj
      exact hstack j (List.mem_append_right _ hj)
  | case3 seen i stack hi ih =>
    -- a place that had been marked, or is none, is passed over
    have hseen : i < seen.size → seen[i]? = some true := by
      intro hlt
      rw [Array.getElem?_eq_getElem hlt, Option.some.injEq, Bool.not_eq_false] at hi
      rw [Array.getElem?_eq_getElem hlt, hi]
    obtain ⟨hstack, hclosed⟩ := ih (h.pass hseen)
    refine ⟨?_, hclosed⟩
    rw [List.forall_mem_cons]
    constructor
    · intro hlt
      exact getElem?_reach_of_seen (hseen hlt)
    · exact hstack

/-! ## Tables of a list -/

/-- The places of the ids in a list. -/
theorem getElem?_index (h : indexFrom ∅ 0 ds = .ok ix) :
    ix[id]? = some i ↔ ∃ d, ds[i]? = some d ∧ d.id = id := by
  rw [getElem?_indexFrom h]
  simp only [Std.HashMap.getElem?_empty, reduceCtorEq, false_or, Prod.exists,
    List.mem_zipIdx_iff_getElem?]
  constructor
  · rintro ⟨d, _, hd, hid, rfl⟩
    exact ⟨d, hd, hid⟩
  · rintro ⟨d, hd, hid⟩
    exact ⟨d, i, hd, hid, rfl⟩

/-- The table has the identifiers of all descriptors. -/
theorem mem_index (h : indexFrom ∅ 0 ds = .ok ix) : id ∈ ix ↔ ∃ d ∈ ds, d.id = id := by
  rw [Std.HashMap.mem_iff_isSome_getElem?, Option.isSome_iff_exists]
  constructor
  · rintro ⟨i, hi⟩
    obtain ⟨d, hd, hid⟩ := (getElem?_index h).1 hi
    exact ⟨d, List.mem_of_getElem? hd, hid⟩
  · rintro ⟨d, hd, hid⟩
    obtain ⟨i, hi⟩ := List.mem_iff_getElem?.1 hd
    exact ⟨i, (getElem?_index h).2 ⟨d, hi, hid⟩⟩

/-- A parent is found if the table has it. -/
theorem resolves_iff (h : indexFrom ∅ 0 ds = .ok ix) :
    Resolves ds d ↔ d.isRoot = true ∨ d.parent ∈ ix := by
  rw [mem_index h]
  simp only [Resolves, eq_comm]

/-- At the place of every descriptor of a list are the places of its children, in their order. -/
structure Filed (ds : List Descriptor) (children : Array (Array Nat)) : Prop where
  size : children.size = ds.length
  listed : ∀ (i : Nat) (d : Descriptor), ds[i]? = some d → children[i]? =
    some (places (fun e => !e.isRoot && e.parent == d.id) 0 ds).toArray

/-- The pass over the links files every child under its parent. -/
theorem filed_of_linkFrom (hindex : indexFrom ∅ 0 ds = .ok ix)
    (h : linkFrom ix (Array.replicate ds.length #[]) 0 ds = .ok children) :
    Filed ds children := by
  have hplaces := getElem?_linkFrom h
  constructor
  · -- no list is added and none is lost, since the pass only changes those that are there
    have hnone : ∀ i, children[i]? = none ↔ ds.length ≤ i := by
      intro i
      rw [hplaces i, Option.map_eq_none_iff, Array.getElem?_eq_none_iff, Array.size_replicate]
    refine Nat.le_antisymm ?_ ?_
    · exact Array.getElem?_eq_none_iff.1 ((hnone _).2 (Nat.le_refl _))
    · exact (hnone _).1 (Array.getElem?_eq_none_iff.2 (Nat.le_refl _))
  · intro i d hd
    obtain ⟨hi, -⟩ := List.getElem?_eq_some_iff.1 hd
    -- to be put down at a place is to name the identifier that stands there
    have hnames : names ix i = fun e => !e.isRoot && e.parent == d.id := by
      funext e
      have hsame : ix[e.parent]? = some i ↔ e.parent = d.id := by
        rw [getElem?_index hindex, hd]
        simp [eq_comm]
      simp [names, hsame, beq_eq_decide]
    rw [hplaces i, hnames, Array.getElem?_eq_getElem (by simpa using hi)]
    simp

variable {r : Nat}

/-- The children that are filed under a place are those that name its identifier. -/
theorem Filed.mem_getD (h : Filed ds children) (hd : ds[i]? = some d) :
    j ∈ children.getD i #[] ↔
      ∃ e, ds[j]? = some e ∧ e.isRoot = false ∧ e.parent = d.id := by
  rw [Array.getD_eq_getD_getElem?, h.listed i d hd, Option.getD_some, List.mem_toArray, mem_places]
  simp

/-- Where nothing on the way is left out, with a place all that climbs to it is marked. -/
theorem Filed.seen_of_climb (h : Filed ds children) (hsize : seen.size = ds.length)
    (hclosed : Frontier children seen []) (hk : Climb ds k d e)
    (he : ∀ i : Nat, ds[i]? = some e → seen[i]? = some true) (hd : ds[i]? = some d) :
    seen[i]? = some true := by
  -- from the top of the chain down, as the walk goes
  induction hk generalizing i with
  | stay _ => exact he i hd
  | up _ low link rest ih =>
    obtain ⟨j, hj⟩ := List.mem_iff_getElem?.1 rest.mem_left
    have hchild := (h.mem_getD hj).2 ⟨_, hd, low, link⟩
    have hlt : i < seen.size := by
      rw [hsize]
      exact (List.getElem?_eq_some_iff.1 hd).1
    exact (hclosed j (ih he hj) i hchild hlt).resolve_right List.not_mem_nil

/-- Nothing is marked at the start. -/
theorem getElem?_unseen (n : Nat) (i : Nat) :
    (Array.replicate n false)[i]? ≠ some true := by
  rw [Array.getElem?_replicate]
  split
  · exact nofun
  · exact nofun

/-- A walk from the root marks the places of what arrives at the root. -/
theorem Filed.reach_iff (hu : UniqueIds ds) (h : Filed ds children) (hroots : rootsOf ds = [root])
    (hr : ds[r]? = some root) (hd : ds[i]? = some d) :
    (reach children (Array.replicate ds.length false) [r])[i]? = some true ↔ Arrives ds d := by
  rw [arrives_iff_climb hroots]
  constructor
  · intro hseen
    -- whatever is marked can be climbed down to from the root
    have hclimb : ∃ d, ds[i]? = some d ∧ ∃ k, Climb ds k d root := by
      refine reach_sound (P := fun i => ∃ d, ds[i]? = some d ∧ ∃ k, Climb ds k d root)
        ?_ ?_ ?_ hseen
      · rintro i ⟨d, hd, k, hk⟩ j hj
        obtain ⟨e, he, low, link⟩ := (h.mem_getD hd).1 hj
        exact ⟨e, he, k + 1, .up (List.mem_of_getElem? he) low link hk⟩
      · intro i hi
        rw [List.mem_singleton.1 hi]
        exact ⟨root, hr, 0, .stay (List.mem_of_getElem? hr)⟩
      · intro i hi
        exact absurd hi (getElem?_unseen _ i)
    obtain ⟨d', hd', hk⟩ := hclimb
    rw [hd] at hd'
    obtain rfl := Option.some.inj hd'
    exact hk
  · rintro ⟨k, hk⟩
    -- at the start nothing is marked, so no child of a marked place can be missing
    have hnothing : Frontier children (Array.replicate ds.length false) [r] := by
      intro i hi
      exact absurd hi (getElem?_unseen _ i)
    obtain ⟨hstart, hclosed⟩ := reach_complete hnothing
    rw [Array.size_replicate] at hstart
    refine h.seen_of_climb ?_ hclosed hk (fun j hj => ?_) hd
    · rw [size_reach, Array.size_replicate]
    · rw [hu.place_eq hj hr rfl]
      exact hstart r (List.mem_singleton.2 rfl) (List.getElem?_eq_some_iff.1 hr).1

open Classical in
/-- The walk marks the descriptors that arrive at the root. -/
theorem Filed.toList_reach (hu : UniqueIds ds) (h : Filed ds children)
    (hroots : rootsOf ds = [root]) (hr : ds[r]? = some root) :
    (reach children (Array.replicate ds.length false) [r]).toList =
      ds.map fun d => decide (Arrives ds d) := by
  refine List.ext_getElem? fun i => ?_
  rw [Array.getElem?_toList, List.getElem?_map]
  cases hd : ds[i]? with
  | none =>
    rw [Option.map_none, Array.getElem?_eq_none_iff, size_reach, Array.size_replicate]
    exact List.getElem?_eq_none_iff.1 hd
  | some d =>
    have hiff := h.reach_iff hu hroots hr hd
    have hlt : i < (reach children (Array.replicate ds.length false) [r]).size := by
      rw [size_reach, Array.size_replicate]
      exact (List.getElem?_eq_some_iff.1 hd).1
    rw [Array.getElem?_eq_getElem hlt, Option.some.injEq] at hiff
    rw [Array.getElem?_eq_getElem hlt, Option.map_some, Option.some.injEq]
    exact Bool.eq_iff_iff.2 (hiff.trans decide_eq_true_iff.symm)

/-- What the walk does not come to is what never arrives at the root. -/
theorem Filed.filter_unseen (hu : UniqueIds ds) (h : Filed ds children)
    (hroots : rootsOf ds = [root]) (hr : ds[r]? = some root) :
    ((ds.zip (reach children (Array.replicate ds.length false) [r]).toList).filter (!·.2)).map
      (·.1) = astray ds := by
  classical
  have hpairs : ds.zip (ds.map fun d => decide (Arrives ds d)) =
      ds.map fun d => (d, decide (Arrives ds d)) := by
    conv_lhs => rw [← List.map_id ds, List.map_map, List.zip_map', List.map_id]
    rfl
  rw [h.toList_reach hu hroots hr, hpairs, List.filter_map, List.map_map]
  simp [astray, Function.comp_def]

/-! ## The tables and the topology of a list -/

/-- The tables hold what the topology says. -/
structure Holds (tb : Table) (t : Topology) : Prop where
  spans : tb.spans.toList = t.descriptors
  index : ∀ id (i : Nat), tb.index[id]? = some i ↔
    ∃ d, t.descriptors[i]? = some d ∧ d.id = id
  children : Filed t.descriptors tb.children
  root : t.descriptors[tb.root]? = some t.root

/-- With unique identifiers there is a table of them. -/
theorem exists_index (hu : UniqueIds ds) : ∃ ix, indexFrom ∅ 0 ds = .ok ix := by
  have hfirst : firstRepeated ∅ ds = none := firstRepeated_eq_none_iff.2 ⟨hu, by simp⟩
  exact exists_indexFrom (by simp) hfirst

/-- Where every parent is in the list, all tables can be filled, and what is left to go wrong is
that the walk from the root does not come to some descriptor. -/
theorem exists_tables (hu : UniqueIds ds) (h : rootsOf ds = [root])
    (hres : ∀ e ∈ ds, Resolves ds e) : ∃ tb : Table, tb.Holds ⟨ds, grownTree ds root⟩ ∧
      ofDescriptors ds =
        match astray ds with
        | [] => .ok tb
        | lost => .error (.unreachable (lost.map (·.id))) := by
  obtain ⟨ix, hindex⟩ := exists_index hu
  obtain ⟨r, hr, hroot⟩ := exists_rootPlace h
  obtain ⟨children, hlinks⟩ := exists_linkFrom (Array.replicate ds.length #[]) 0 fun e he =>
    (resolves_iff hindex).1 (hres e he)
  have hfiled := filed_of_linkFrom hindex hlinks
  refine ⟨⟨ds.toArray, ix, children, r⟩, ?_, ?_⟩
  · exact {
      spans := rfl
      index := fun _ _ => getElem?_index hindex
      children := hfiled
      root := hroot }
  · have hne : ds ≠ [] := List.ne_nil_of_mem (mem_of_rootsOf_eq h).1
    -- the places that are not marked are those of the descriptors that are astray
    have hlost := hfiled.filter_unseen hu h hroot
    rw [ofDescriptors, if_neg hne, hindex, ← hlost]
    simp only [bind, Except.bind, hr, hlinks]
    cases (ds.zip (reach children (Array.replicate ds.length false) [r]).toList).filter (!·.2) with
    | nil => rfl
    | cons x lost => simp

/-- A list that is refused is refused for the same reason when tables are made of it. -/
theorem ofDescriptors_of_error {e : TopologyError} (h : Topology.ofDescriptors ds = .error e) :
    ofDescriptors ds = .error e := by
  -- every refusal says which checks passed, and the passes meet the same fault next
  rw [ofDescriptors_eq_iff] at h
  cases h with
  | empty nothing =>
    subst nothing
    rfl
  | @duplicateSpan before after d split fresh again =>
    have hne : ds ≠ [] := by simp [split]
    have hfirst : firstRepeated ∅ ds = some d.id := by
      rw [split]
      exact firstRepeated_append_cons fresh (by simp) (Or.inr again)
    rw [ofDescriptors, if_neg hne, indexFrom_of_firstRepeated (by simp) hfirst]
    rfl
  | missingRoot something unique rootless =>
    obtain ⟨ix, hindex⟩ := exists_index unique
    rw [ofDescriptors, if_neg something, hindex, rootPlace_of_rootless rootless]
    rfl
  | multipleRoots unique many =>
    obtain ⟨ix, hindex⟩ := exists_index unique
    have hne : ds ≠ [] := by
      rintro rfl
      simp [rootsOf] at many
    rw [ofDescriptors, if_neg hne, hindex, rootPlace_of_many many]
    rfl
  | @unresolvedParent root before after d unique single split resolved dangling =>
    obtain ⟨ix, hindex⟩ := exists_index unique
    obtain ⟨r, hr, -⟩ := exists_rootPlace single
    have hne : ds ≠ [] := by simp [split]
    obtain ⟨low, hd⟩ := not_or.1 (mt (resolves_iff hindex).2 dangling)
    have hlinks : linkFrom ix (Array.replicate ds.length #[]) 0 (before ++ d :: after) =
        .error (.unresolvedParent d.id d.parent) :=
      linkFrom_of_dangling _ _ (fun e he => (resolves_iff hindex).1 (resolved e he))
        (Bool.eq_false_iff.2 low) hd
    rw [← split] at hlinks
    rw [ofDescriptors, if_neg hne, hindex, hr]
    simp only [bind, Except.bind, hlinks]
  | unreachable unique single resolved lost =>
    obtain ⟨tb, -, htb⟩ := exists_tables unique single resolved
    rw [htb]
    split
    · next hnil => exact absurd hnil lost
    · rfl

/-- The tables of a list that is accepted hold what its topology says. -/
theorem exists_holds {t : Topology} (h : Topology.ofDescriptors ds = .ok t) :
    ∃ tb, ofDescriptors ds = .ok tb ∧ tb.Holds t := by
  rw [ofDescriptors_eq_iff] at h
  cases h with
  | accepted unique single arrive same follows =>
    subst same
    obtain ⟨tb, hholds, htb⟩ := exists_tables unique single fun e he => (arrive e he).resolves
    rw [astray_eq_nil_iff.2 arrive] at htb
    exact ⟨tb, htb, hholds.spans, hholds.index, hholds.children, hholds.root⟩

/-- Tables are made of the lists that are accepted, and all others are refused for the reason that
they are refused for anyway. -/
theorem ofDescriptors_eq_error_iff {e : TopologyError} :
    ofDescriptors ds = .error e ↔ Topology.ofDescriptors ds = .error e := by
  constructor
  · intro h
    cases hds : Topology.ofDescriptors ds with
    | error e' =>
      rw [ofDescriptors_of_error hds] at h
      exact congrArg _ (Except.error.inj h)
    | ok t =>
      obtain ⟨tb, htb, -⟩ := exists_holds hds
      cases h.symm.trans htb
  · exact ofDescriptors_of_error

end Topology.Table

end TraceLoad
