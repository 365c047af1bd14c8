import Mathlib.Data.List.Nodup
import Mathlib.Data.List.Perm.Subperm
import TraceLoad.Topology

/-! # Chains of parent links

A list of descriptors is a graph in which one link at most leads out of a descriptor, to the one
that it names as its parent. `Climb ds k d e` says that `k` such links lead from `d` to `e`. With
ids that are pairwise different there are two kinds of descriptors whose chain never breaks off:

* `Arrives`: the chain ends at a root. Then the number of links is fixed by the descriptor
  (`steps_unique`) and below the length of the list (`climb_lt_length`), and with a given number
  of links left the chain passes one descriptor only (`eq_of_level`);
* `Circles`: the chain comes back to where it has been.

`circles_iff_not_arrives` says that these two exclude each other and leave nothing out.
-/

namespace TraceLoad

/-- No two descriptors of the list share an id. -/
def UniqueIds (ds : List Descriptor) : Prop := (ds.map (·.id)).Nodup

instance (ds : List Descriptor) : Decidable (UniqueIds ds) :=
  inferInstanceAs (Decidable (ds.map (·.id)).Nodup)

/-- `k` parent links lead from one descriptor of the list to another. -/
inductive Climb (ds : List Descriptor) : Nat → Descriptor → Descriptor → Prop where
  | stay {d : Descriptor} (mem : d ∈ ds) : Climb ds 0 d d
  | up {k : Nat} {d p e : Descriptor} (mem : d ∈ ds) (low : d.isRoot = false)
      (link : d.parent = p.id) (rest : Climb ds k p e) : Climb ds (k + 1) d e

/-- The chain of parent links ends at a root. -/
def Arrives (ds : List Descriptor) (d : Descriptor) : Prop :=
  ∃ k r, r.isRoot = true ∧ Climb ds k d r

/-- The chain of parent links runs into a cycle. -/
def Circles (ds : List Descriptor) (d : Descriptor) : Prop :=
  ∃ k e j, Climb ds k d e ∧ Climb ds (j + 1) e e

/-- A descriptor is a root or names a parent that is in the list. -/
def Resolves (ds : List Descriptor) (d : Descriptor) : Prop :=
  d.isRoot = true ∨ ∃ p ∈ ds, d.parent = p.id

variable {ds : List Descriptor} {d e p r : Descriptor} {j k : Nat}

theorem UniqueIds.nodup (h : UniqueIds ds) : ds.Nodup := List.Nodup.of_map _ h

theorem UniqueIds.eq_of_id_eq (h : UniqueIds ds) (hd : d ∈ ds) (he : e ∈ ds)
    (hid : d.id = e.id) : d = e :=
  List.inj_on_of_nodup_map h hd he hid

namespace Climb

theorem mem_left (h : Climb ds k d e) : d ∈ ds := by
  cases h with
  | stay mem => exact mem
  | up mem => exact mem

theorem mem_right (h : Climb ds k d e) : e ∈ ds := by
  induction h with
  | stay mem => exact mem
  | up _ _ _ _ ih => exact ih

/-- Climbs one after the other are one climb. -/
theorem trans (h : Climb ds j d e) (h' : Climb ds k e r) : Climb ds (j + k) d r := by
  induction h with
  | stay _ => simpa using h'
  | @up i _ _ _ mem low link _ ih =>
    have hsum : i + 1 + k = i + k + 1 := by omega
    rw [hsum]
    exact .up mem low link (ih h')

/-- A link from a descriptor right below another one. -/
theorem one (hd : d ∈ ds) (hp : p ∈ ds) (low : d.isRoot = false) (link : d.parent = p.id) :
    Climb ds 1 d p :=
  .up hd low link (.stay hp)

/-- No link leads out of a root. -/
theorem eq_of_isRoot (h : Climb ds k d e) (top : d.isRoot = true) : k = 0 ∧ d = e := by
  cases h with
  | stay _ => exact ⟨rfl, rfl⟩
  | up _ low => simp [top] at low

/-- The first link leads to the only parent that there is. -/
theorem tail_of_link (hu : UniqueIds ds) (h : Climb ds (k + 1) d e) (hp : p ∈ ds)
    (link : d.parent = p.id) : Climb ds k p e := by
  cases h with
  | up _ _ link' rest =>
    have hpp : p = _ := hu.eq_of_id_eq hp rest.mem_left (link.symm.trans link')
    rw [hpp]
    exact rest

/-- As many links from one descriptor lead to one descriptor. -/
theorem functional (hu : UniqueIds ds) (h : Climb ds k d e) (h' : Climb ds k d r) : e = r := by
  induction h with
  | stay _ => cases h' with
    | stay _ => rfl
  | up _ _ link rest ih => exact ih (h'.tail_of_link hu rest.mem_left link)

/-- The number of links up to a root, and the root, are fixed. -/
theorem steps_unique (hu : UniqueIds ds) (h : Climb ds k d e) (he : e.isRoot = true)
    (h' : Climb ds j d r) (hr : r.isRoot = true) : k = j ∧ e = r := by
  induction h generalizing j with
  | stay _ =>
    obtain ⟨hj, her⟩ := h'.eq_of_isRoot he
    exact ⟨hj.symm, her⟩
  | up _ low link rest ih =>
    cases j with
    | zero =>
      -- one chain has ended at a root out of which the other goes on
      cases h' with
      | stay _ => simp [hr] at low
    | succ j =>
      obtain ⟨hkj, her⟩ := ih he (h'.tail_of_link hu rest.mem_left link)
      exact ⟨congrArg (· + 1) hkj, her⟩

/-- A chain passes one descriptor only on each level, that is with a given number of links left up
to the root. -/
theorem eq_of_level {x b c : Descriptor} {i n : Nat} (hu : UniqueIds ds) (hb : Climb ds n b r)
    (hc : Climb ds n c r) (hr : r.isRoot = true) (hxb : Climb ds i x b) (hxc : Climb ds j x c) :
    b = c := by
  have hsteps : i + n = j + n := ((hxb.trans hb).steps_unique hu hr (hxc.trans hc) hr).1
  obtain rfl : i = j := Nat.add_right_cancel hsteps
  exact hxb.functional hu hxc

/-- A chain runs through pairwise different descriptors, unless it meets a cycle. -/
theorem circles_or_exists_nodup (h : Climb ds k d e) :
    Circles ds d ∨ ∃ l : List Descriptor, l.length = k + 1 ∧ l.Nodup ∧
      ∀ x ∈ l, ∃ i, Climb ds i d x := by
  induction h with
  | @stay d mem =>
    refine Or.inr ⟨[d], rfl, List.nodup_singleton d, fun x hx => ⟨0, ?_⟩⟩
    rw [List.mem_singleton.1 hx]
    exact .stay mem
  | @up k d p e mem low link rest ih =>
    have hlink : Climb ds 1 d p := one mem rest.mem_left low link
    rcases ih with ⟨i, x, n, hx, hcycle⟩ | ⟨l, hlen, hnodup, hl⟩
    · exact Or.inl ⟨1 + i, x, n, hlink.trans hx, hcycle⟩
    · by_cases hd : d ∈ l
      · -- the chain comes back to where it started
        obtain ⟨i, hi⟩ := hl d hd
        exact Or.inl ⟨0, d, i, .stay mem, .up mem low link hi⟩
      · refine Or.inr ⟨d :: l, by simp [hlen], List.nodup_cons.2 ⟨hd, hnodup⟩, fun x hx => ?_⟩
        rcases List.mem_cons.1 hx with rfl | hx
        · exact ⟨0, .stay mem⟩
        · obtain ⟨i, hi⟩ := hl x hx
          exact ⟨1 + i, hlink.trans hi⟩

/-- A chain that does not meet a cycle is shorter than the list. -/
theorem lt_length_of_not_circles (h : Climb ds k d e) (hno : ¬ Circles ds d) : k < ds.length := by
  rcases h.circles_or_exists_nodup with hc | ⟨l, hlen, hnodup, hl⟩
  · exact absurd hc hno
  · have hsub : l ⊆ ds := fun x hx => (hl x hx).elim fun _ hi => hi.mem_right
    have hle : l.length ≤ ds.length := (hnodup.subperm hsub).length_le
    omega

end Climb

/-- A cycle that the chain of a descriptor meets is met by the chain of its parent. -/
theorem Circles.of_link (hu : UniqueIds ds) (h : Circles ds d) (hp : p ∈ ds)
    (low : d.isRoot = false) (link : d.parent = p.id) : Circles ds p := by
  obtain ⟨k, e, j, hk, hj⟩ := h
  cases k with
  | zero =>
    cases hk with
    | stay mem =>
      -- `d` itself is on the cycle, and so is its parent
      have hpd : Climb ds j p d := hj.tail_of_link hu hp link
      have hdp : Climb ds 1 d p := .one mem hp low link
      exact ⟨0, p, j, .stay hp, hpd.trans hdp⟩
  | succ k => exact ⟨k, e, j, hk.tail_of_link hu hp link, hj⟩

/-- Whoever arrives at the root does not go round. -/
theorem Arrives.not_circles (hu : UniqueIds ds) (h : Arrives ds d) : ¬ Circles ds d := by
  obtain ⟨k, r, hr, hk⟩ := h
  induction hk with
  | stay _ =>
    rintro ⟨i, e, j, hi, hj⟩
    obtain ⟨_, rfl⟩ := hi.eq_of_isRoot hr
    exact absurd (hj.eq_of_isRoot hr).1 (Nat.succ_ne_zero j)
  | up _ low link rest ih =>
    intro hc
    exact ih hr (hc.of_link hu rest.mem_left low link)

/-- What climbs to a root does not climb to itself. -/
theorem Climb.not_self {n : Nat} (hu : UniqueIds ds) (h : Climb ds n d r)
    (hr : r.isRoot = true) : ¬ Climb ds (k + 1) d d := by
  intro hcycle
  exact Arrives.not_circles hu ⟨n, r, hr, h⟩ ⟨0, d, k, .stay h.mem_left, hcycle⟩

/-- On the way to a root fewer links are followed than there are descriptors. -/
theorem climb_lt_length (hu : UniqueIds ds) (h : Climb ds k d r) (hr : r.isRoot = true) :
    k < ds.length :=
  h.lt_length_of_not_circles (Arrives.not_circles hu ⟨k, r, hr, h⟩)

/-- Where every parent is in the list, a chain that never ends at a root goes on for ever. -/
theorem exists_climb_of_not_arrives (hres : ∀ x ∈ ds, Resolves ds x) (hd : d ∈ ds)
    (hno : ¬ Arrives ds d) (k : Nat) : ∃ e, Climb ds k d e := by
  induction k generalizing d with
  | zero => exact ⟨d, .stay hd⟩
  | succ k ih =>
    rcases hres d hd with top | ⟨p, hp, link⟩
    · exact absurd ⟨0, d, top, .stay hd⟩ hno
    · have low : d.isRoot = false := by
        refine Bool.eq_false_iff.2 fun top => hno ⟨0, d, top, .stay hd⟩
      -- the parent does not arrive either, or this one would
      have hnop : ¬ Arrives ds p := by
        rintro ⟨i, r, hr, hi⟩
        exact hno ⟨i + 1, r, hr, .up hd low link hi⟩
      obtain ⟨e, he⟩ := ih hp hnop
      exact ⟨e, .up hd low link he⟩

/-- A chain that does not end at a root runs into a cycle, and the other way round. -/
theorem circles_iff_not_arrives (hu : UniqueIds ds) (hres : ∀ x ∈ ds, Resolves ds x)
    (hd : d ∈ ds) : Circles ds d ↔ ¬ Arrives ds d := by
  constructor
  · intro hc ha
    exact ha.not_circles hu hc
  · intro hno
    -- without a cycle no chain has as many links as there are descriptors
    obtain ⟨e, he⟩ := exists_climb_of_not_arrives hres hd hno ds.length
    by_contra hc
    exact Nat.lt_irrefl _ (he.lt_length_of_not_circles hc)

end TraceLoad
