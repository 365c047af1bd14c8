import Std.Data.HashMap
import TraceLoad.Topology

/-! # Topologies by places

A topology can also be kept as the list itself with three tables that point into it by place,
counted from zero: the place of every id, the places of the children of every place, and the place
of the root. A look-up then costs one step, however long the list is.

Every table is filled in a pass of its own, in the order of the reasons to refuse a list: an id that
has a place already, the roots, a parent without a place, and last the places that a walk from the
root does not come to.

How deep the places go is found by a second walk (`Table.depth`), which marks nothing.
-/

namespace TraceLoad

namespace Topology

/-- A list of descriptors and what points into it. -/
structure Table where
  spans : Array Descriptor
  /-- the place of an id -/
  index : Std.HashMap String Nat
  /-- the places of the children, at the place of their parent -/
  children : Array (Array Nat)
  root : Nat

namespace Table

/-- Adds the places of a list that starts at a given one. -/
def indexFrom (index : Std.HashMap String Nat) (place : Nat) :
    List Descriptor → Except TopologyError (Std.HashMap String Nat)
  | [] => .ok index
  | d :: ds =>
    if index.contains d.id then .error (.duplicateSpan d.id)
    else indexFrom (index.insert d.id place) (place + 1) ds

/-- Adds the places of a list that starts at a given one to the children of their parents. -/
def linkFrom (index : Std.HashMap String Nat) (children : Array (Array Nat)) (place : Nat) :
    List Descriptor → Except TopologyError (Array (Array Nat))
  | [] => .ok children
  | d :: ds =>
    if d.isRoot then linkFrom index children (place + 1) ds
    else
      match index[d.parent]? with
      | none => .error (.unresolvedParent d.id d.parent)
      | some parent =>
        linkFrom index (children.modify parent (·.push place)) (place + 1) ds

/-- Marking a place leaves fewer of them unmarked. -/
theorem count_mark_lt {seen : Array Bool} {i : Nat} (h : seen[i]? = some false) :
    (seen.setIfInBounds i true).count false < seen.count false := by
  obtain ⟨hi, hunseen⟩ := Array.getElem?_eq_some_iff.1 h
  have hpos : 0 < seen.count false := Array.count_pos_iff.2 (Array.mem_of_getElem? h)
  rw [Array.setIfInBounds_def, dif_pos hi, Array.count_set hi, hunseen]
  simp only [beq_self_eq_true, if_true, Bool.true_beq, Bool.false_eq_true, if_false]
  omega

/-- Marks the places that a walk comes to: it takes the first place on the stack, passes over it if
it is marked, and puts its children on the stack otherwise, the last one in front. -/
def reach (children : Array (Array Nat)) (seen : Array Bool) : List Nat → Array Bool
  | [] => seen
  | i :: stack =>
    if seen[i]? = some false then
      reach children (seen.setIfInBounds i true) ((children.getD i #[]).toList.reverse ++ stack)
    else reach children seen stack
termination_by stack => (seen.count false, stack.length)
decreasing_by
  · exact Prod.Lex.left _ _ (count_mark_lt ‹_›)
  · exact Prod.Lex.right _ (Nat.lt_succ_self _)

/-- The place of the only root. -/
def rootPlace (ds : List Descriptor) : Except TopologyError Nat :=
  match ds.zipIdx.filter (·.1.isRoot) with
  | [] => .error .missingRoot
  | [(_, place)] => .ok place
  | many => .error (.multipleRoots (many.map (·.1.id)))

/-- The tables of a list of descriptors, unless there is a reason to refuse it. -/
def ofDescriptors (ds : List Descriptor) : Except TopologyError Table :=
  if ds = [] then .error .empty
  else do
    let index ← indexFrom ∅ 0 ds
    let root ← rootPlace ds
    let children ← linkFrom index (Array.replicate ds.length #[]) 0 ds
    let seen := reach children (Array.replicate ds.length false) [root]
    match (ds.zip seen.toList).filter (!·.2) with
    | [] => .ok { spans := ds.toArray, index, children, root }
    | lost => .error (.unreachable (lost.map (·.1.id)))

/-- The id of the first descriptor that names no parent. -/
def findRoot (t : Table) : Except TopologyError String :=
  match t.spans.find? (·.isRoot) with
  | some d => .ok d.id
  | none => .error .missingRoot

/-- The descriptor of an id. -/
def get? (t : Table) (id : String) : Option Descriptor := t.index[id]?.bind (t.spans[·]?)

/-- The ids of the children of an id; none for a leaf and for an id that is not there. -/
def childrenOf (t : Table) (id : String) : List String :=
  match t.index[id]? with
  | some i => (t.children.getD i #[]).toList.filterMap fun c => t.spans[c]?.map (·.id)
  | none => []

/-- Walks down from the places on a stack, each with its depth, and keeps the greatest depth: it
takes the first place and puts its children on the stack, the last one in front. Nothing is marked,
so the walk has an end, and an answer, only where it cannot come back to a place for ever. -/
def deepest (t : Table) (best : Nat) : List (Nat × Nat) → Option Nat
  | [] => some best
  | (i, depth) :: stack =>
    t |>.deepest (max best depth)
      (((t.children.getD i #[]).toList.map fun c => (c, depth + 1)).reverse ++ stack)
partial_fixpoint

/-- The number of places on the longest path down from a place. -/
def depthAt (t : Table) (i : Nat) : Option Nat := t.deepest 0 [(i, 1)]

/-- The number of places on the longest path down from the root. -/
def depth (t : Table) : Option Nat := t.depthAt t.root

end Table

end Topology

end TraceLoad
