/-
# Nodes of an arena

A `Node` is a number that belongs to a slot.  From it one can go down to the
children, up to the parent and right to the next sibling; `tree` is all that
lies below it.  Two facts carry what is said of trees over to nodes: the
children of a node hold the children of its tree (`map_tree_children`), and the
way up ends because numbers grow on it.

The way down keeps a stack of nodes that are still to be read, the way up follows
one link after the other.  That the two agree, and that no node is read twice on the
way down, holds of arenas that were built bottom-up and is not said here
(`Proofs.Arena.Descent`, `Proofs.Arena.Lineage`).  A link to a number that belongs to
no node is read as no link.

The last section is about the ids by which nodes are named to the outside.  They are
32 bits wide, numbers are not.
-/
import PropertyHarvest.Arena

namespace PropertyHarvest

/-- A node of the arena `a`. -/
structure Node (a : Arena) where
  id : Nat
  id_lt : id < a.size
  deriving DecidableEq

def Arena.node? (a : Arena) (id : Nat) : Option (Node a) :=
  if h : id < a.size then some ⟨id, h⟩ else none

/-- The root, if one was named and belongs to the arena. -/
def Arena.root? (a : Arena) : Option (Node a) :=
  a.rootId?.bind a.node?

namespace Node

variable {a : Arena}

def slot (n : Node a) : Slot :=
  have : n.id < a.slots.size := n.id_lt
  a.slots[n.id]

theorem getElem?_slots (n : Node a) : a.slots[n.id]? = some n.slot :=
  Array.getElem?_eq_getElem n.id_lt

/-- The node and all below it. -/
def tree (n : Node a) : Tree :=
  n.slot.tree

def kind (n : Node a) : Kind :=
  n.tree.kind

def text? (n : Node a) : Option String :=
  n.tree.text?

def line (n : Node a) : Nat :=
  n.tree.line

def is (n : Node a) (k : Kind) : Bool :=
  n.tree.is k

/-! ## Down -/

/-- The children, in source order. -/
def children (n : Node a) : List (Node a) :=
  n.slot.children.attach.map fun ⟨c, h⟩ => ⟨c, a.child_lt n.getElem?_slots h⟩

theorem map_tree_children (n : Node a) : n.children.map tree = n.tree.children := by
  have tree_eq (m : Node a) : some m.tree = a.slots[m.id]?.map Slot.tree := by
    rw [m.getElem?_slots]
    rfl
  have h : (n.children.map tree).map some = n.tree.children.map some := by
    rw [tree, ← a.children_tree n.id _ n.getElem?_slots]
    conv => rhs; rw [← List.attach_map_val]
    rw [children, List.map_map, List.map_map]
    exact List.map_congr_left fun c _ => tree_eq _
  exact (List.map_inj_right fun _ _ => Option.some.inj).mp h

def firstChild? (n : Node a) : Option (Node a) :=
  n.children.head?

def lastChild? (n : Node a) : Option (Node a) :=
  n.children.getLast?

def childCount (n : Node a) : Nat :=
  n.slot.children.length

/-- The first direct child of kind `k`. -/
def findFirstChild? (n : Node a) (k : Kind) : Option (Node a) :=
  n.children.find? (·.is k)

/-- The number of nodes below the listed ones, these included. -/
def weight (ns : List (Node a)) : Nat :=
  Tree.sizes (ns.map tree)

theorem weight_children (n : Node a) (rest : List (Node a)) :
    weight (n.children ++ rest) < weight (n :: rest) := by
  simp only [weight, List.map_append, List.map_cons, map_tree_children, Tree.sizes_append,
    Tree.sizes]
  rw [Tree.size_eq n.tree]
  omega

/-- The listed nodes and all below them, each node before what is below it. -/
def descend : List (Node a) → List (Node a)
  | [] => []
  | n :: rest => n :: descend (n.children ++ rest)
termination_by ns => weight ns
decreasing_by exact weight_children n rest

/-- The node and everything below it, in pre-order. -/
def descendants (n : Node a) : List (Node a) :=
  descend [n]

/-! ## Up and right -/

def parent? (n : Node a) : Option (Node a) :=
  n.slot.parent?.bind a.node?

def nextSibling? (n : Node a) : Option (Node a) :=
  n.slot.nextSibling?.bind a.node?

theorem lt_of_parent? {n p : Node a} (h : n.parent? = some p) : n.id < p.id := by
  obtain ⟨q, hq, hp⟩ := Option.bind_eq_some_iff.mp h
  have := a.lt_parent n.id _ n.getElem?_slots q hq
  unfold Arena.node? at hp
  split at hp
  · simp only [Option.some.injEq] at hp
    subst hp
    exact this.1
  · cases hp

/-- The strict ancestors, nearest first. -/
def ancestors (n : Node a) : List (Node a) :=
  match h : n.parent? with
  | none => []
  | some p =>
    have : a.size - p.id < a.size - n.id := by
      have := lt_of_parent? h
      have := p.id_lt
      omega
    p :: p.ancestors
termination_by a.size - n.id

/-- The kinds of the strict ancestors, nearest first. -/
def above (n : Node a) : List Kind :=
  n.ancestors.map kind

end Node

/-! ## Ids

To its users a node goes by an id, which is its position cut to 32 bits.  With
at most 2 ^ 32 nodes an id leads back to the node that it was returned for. -/

abbrev NodeId := UInt32

namespace Arena

/-- The id that is returned for the node at a position. -/
def idAt (position : Nat) : NodeId :=
  .ofNat position

/-- Whether the id leads to a node. -/
def Has (a : Arena) (id : NodeId) : Prop :=
  id.toNat < a.size

instance (a : Arena) (id : NodeId) : Decidable (a.Has id) :=
  inferInstanceAs (Decidable (_ < _))

def slot? (a : Arena) (id : NodeId) : Option Slot :=
  a.slots[id.toNat]?

def label? (a : Arena) (id : NodeId) : Option (Kind × Option String × Nat) :=
  (a.slot? id).map fun s => (s.tree.kind, s.tree.text?, s.tree.line)

def childIds (a : Arena) (id : NodeId) : List NodeId :=
  (a.slot? id).elim [] fun s => s.children.map idAt

def parentId? (a : Arena) (id : NodeId) : Option NodeId :=
  (a.slot? id).bind fun s => s.parent?.map idAt

def nextSiblingId? (a : Arena) (id : NodeId) : Option NodeId :=
  (a.slot? id).bind fun s => s.nextSibling?.map idAt

/-- The id that `k` steps up lead to. -/
def upId? (a : Arena) : Nat → NodeId → Option NodeId
  | 0, id => some id
  | k + 1, id => (a.parentId? id).bind (a.upId? k)

/-- The id that `k` steps to the right lead to. -/
def rightId? (a : Arena) : Nat → NodeId → Option NodeId
  | 0, id => some id
  | k + 1, id => (a.nextSiblingId? id).bind (a.rightId? k)

end Arena

def Node.key {a : Arena} (n : Node a) : NodeId :=
  Arena.idAt n.id

end PropertyHarvest
