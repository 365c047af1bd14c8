/-! # Span trees

Traces are stamped from a tree of span descriptors. A `Forest` is a list of such trees, written as
the first tree's root, the forest below it, and the trees beside it, so that one induction covers
both directions. A `SpanTree` is one root with the forest below it.
-/

namespace TraceLoad

/-- One node of the tree that traces are stamped from. -/
@[ext] structure Descriptor where
  id : String
  /-- the parent's id; empty for the root -/
  parent : String
  service : String
deriving DecidableEq, Repr

namespace Descriptor

/-- A root names no parent. -/
def isRoot (d : Descriptor) : Bool := d.parent == ""

end Descriptor

/-- Trees side by side. -/
inductive Forest where
  | nil
  | cons (root : Descriptor) (below beside : Forest)
deriving DecidableEq

namespace Forest

/-- All descriptors in front of a list. -/
def preorderOnto : Forest → List Descriptor → List Descriptor
  | nil, after => after
  | cons d below beside, after => d :: below.preorderOnto (beside.preorderOnto after)

/-- All descriptors, each before those below it and those before the ones beside it. -/
def preorder (f : Forest) : List Descriptor := f.preorderOnto []

theorem preorderOnto_eq (f : Forest) (after : List Descriptor) :
    f.preorderOnto after = f.preorder ++ after := by
  unfold preorder
  induction f generalizing after with
  | nil => rfl
  | cons d below beside ihBelow ihBeside =>
    simp only [preorderOnto]
    rw [ihBelow (beside.preorderOnto after), ihBelow (beside.preorderOnto []), ihBeside after]
    simp only [List.cons_append, List.append_assoc]

@[simp] theorem preorder_nil : nil.preorder = [] := rfl

@[simp] theorem preorder_cons (d : Descriptor) (below beside : Forest) :
    (cons d below beside).preorder = d :: (below.preorder ++ beside.preorder) := by
  rw [preorder, preorderOnto, preorderOnto_eq]
  rfl

/-- The roots of the trees. -/
def roots : Forest → List Descriptor
  | nil => []
  | cons d _ beside => d :: beside.roots

def size : Forest → Nat
  | nil => 0
  | cons _ below beside => 1 + below.size + beside.size

/-- The length of the longest path from a root down, counting both ends. -/
def depth : Forest → Nat
  | nil => 0
  | cons _ below beside => max (1 + below.depth) beside.depth

theorem length_preorder (f : Forest) : f.preorder.length = f.size := by
  induction f with
  | nil => rfl
  | cons d below beside ihBelow ihBeside => simp [size, ihBelow, ihBeside]; omega

end Forest

/-- A root and what is below it. -/
structure SpanTree where
  root : Descriptor
  below : Forest
deriving DecidableEq

namespace SpanTree

def preorder (t : SpanTree) : List Descriptor := t.root :: t.below.preorder

def size (t : SpanTree) : Nat := 1 + t.below.size

def depth (t : SpanTree) : Nat := 1 + t.below.depth

/-- The descriptors right below the root. -/
def children (t : SpanTree) : List Descriptor := t.below.roots

end SpanTree

namespace Forest

/-- The subtree whose root has the given id; of several the first in preorder. -/
def find? (id : String) : Forest → Option SpanTree
  | nil => none
  | cons d below beside =>
    if d.id = id then some ⟨d, below⟩
    else (below.find? id).or (beside.find? id)

end Forest

/-- The subtree whose root has the given id. -/
def SpanTree.find? (t : SpanTree) (id : String) : Option SpanTree :=
  if t.root.id = id then some t else t.below.find? id

end TraceLoad
