import Std.Data.HashMap
import Std.Data.HashSet
import TraceLoad.Topology.Forest

/-! # Topologies

A topology is a list of span descriptors whose parent links form one tree. `Topology.ofDescriptors`
is the way to make one: it refuses a list for the first of six reasons, in a fixed order, and grows
the tree from the root otherwise. Whatever the root does not reach is on a cycle or hangs off one.
-/

namespace TraceLoad

/-- Why a list of descriptors is no topology, or a topology cannot be run. -/
inductive TopologyError where
  | empty
  | duplicateSpan (id : String)
  | missingRoot
  | multipleRoots (ids : List String)
  | unresolvedParent (id parent : String)
  | unreachable (ids : List String)
  | unknownProcess (span process : String)
  | unknownService (service : String)
deriving DecidableEq, Repr

namespace TopologyError

def message : TopologyError → String
  | empty => "topology has no spans"
  | duplicateSpan id => "duplicate span id " ++ id
  | missingRoot => "topology has no root span"
  | multipleRoots ids => "topology has multiple roots: " ++ String.intercalate ", " ids
  | unresolvedParent id parent => "span " ++ id ++ " has unresolvable parent " ++ parent
  | unreachable ids =>
    "spans not reachable from the root (cycle?): " ++ String.intercalate ", " ids
  | unknownProcess span process => "span " ++ span ++ " references unknown process " ++ process
  | unknownService service => "service " ++ service ++ " is not in the service registry"

end TopologyError

/-- A list of descriptors together with the tree that their parent links form. -/
structure Topology where
  descriptors : List Descriptor
  tree : SpanTree
deriving DecidableEq

namespace Topology

/-- The first id that has occurred before, given those that have. -/
def firstRepeated (seen : Std.HashSet String) : List Descriptor → Option String
  | [] => none
  | d :: ds => if seen.contains d.id then some d.id else firstRepeated (seen.insert d.id) ds

/-- The children of every id, in the order of the list. -/
def childIndex : List Descriptor → Std.HashMap String (List Descriptor)
  | [] => ∅
  | d :: ds =>
    let index := childIndex ds
    if d.isRoot then index else index.insert d.parent (d :: index.getD d.parent [])

/-- The forest of everything below an id, down to a given depth. -/
def grow (index : Std.HashMap String (List Descriptor)) : Nat → String → Forest
  | 0, _ => .nil
  | levels + 1, id =>
    (index.getD id []).foldr (fun d beside => .cons d (grow index levels d.id) beside) .nil

/-- The ids of a list of descriptors as a set. -/
def idSet (ds : List Descriptor) : Std.HashSet String := Std.HashSet.ofList (ds.map (·.id))

/-- The topology of a list of descriptors. The reasons to refuse it are looked for in this order:
no descriptor, an id for the second time, no root, more roots than one, a parent that no
descriptor has as its id, descriptors that the root does not reach. -/
def ofDescriptors (ds : List Descriptor) : Except TopologyError Topology :=
  if ds = [] then .error .empty
  else
    match firstRepeated ∅ ds with
    | some id => .error (.duplicateSpan id)
    | none =>
      match ds.filter (·.isRoot) with
      | [] => .error .missingRoot
      | [root] =>
        let ids := idSet ds
        match ds.find? fun d => !d.isRoot && !ids.contains d.parent with
        | some d => .error (.unresolvedParent d.id d.parent)
        | none =>
          let tree : SpanTree := ⟨root, grow (childIndex ds) ds.length root.id⟩
          let reached := idSet tree.preorder
          match ds.filter fun d => !reached.contains d.id with
          | [] => .ok ⟨ds, tree⟩
          | lost => .error (.unreachable (lost.map (·.id)))
      | roots => .error (.multipleRoots (roots.map (·.id)))

def root (t : Topology) : Descriptor := t.tree.root

/-- The id of the first descriptor that names no parent. -/
def findRoot (t : Topology) : Except TopologyError String :=
  match t.descriptors.find? (·.isRoot) with
  | some d => .ok d.id
  | none => .error .missingRoot

/-- The number of spans in one trace. -/
def size (t : Topology) : Nat := t.descriptors.length

def isEmpty (t : Topology) : Bool := t.descriptors.isEmpty

/-- The number of descriptors on the longest path down from the root. -/
def depth (t : Topology) : Nat := t.tree.depth

/-- The descriptor of an id. -/
def get? (t : Topology) (id : String) : Option Descriptor := t.descriptors.find? (·.id = id)

/-- The subtree below an id, which is its root. -/
def subtree? (t : Topology) (id : String) : Option SpanTree := t.tree.find? id

/-- The ids of the children of an id; none for a leaf and for an id that is not there. -/
def childrenOf (t : Topology) (id : String) : List String :=
  match t.subtree? id with
  | some s => s.children.map (·.id)
  | none => []

/-- Puts a name at its place in an ascending list, unless it is there already. -/
def insertName (name : String) : List String → List String
  | [] => [name]
  | n :: ns =>
    if name < n then name :: n :: ns
    else if name = n then n :: ns
    else n :: insertName name ns

/-- The distinct names of the services, ascending. -/
def serviceNames (t : Topology) : List String :=
  t.descriptors.foldl (fun names d => insertName d.service names) []

/-- Refuses the topology for the least of its services that is not known. -/
def ensureKnown (t : Topology) (known : String → Bool) : Except TopologyError Unit :=
  match t.serviceNames.find? fun name => !known name with
  | some missing => .error (.unknownService missing)
  | none => .ok ()

end Topology

end TraceLoad
