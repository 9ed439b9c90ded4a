/-
# Trees laid out for navigation

A `Tree` knows what is below a node.  An `Arena` also knows what is above and
beside it: every node has a number, and its slot holds the numbers of its
children, of its parent and of its next sibling.  An arena is built bottom-up;
a new node takes existing nodes as its children and fixes their links.

Each slot keeps the tree below its node.  Two facts hold of every arena: the
trees of the children are the children of the tree (`children_tree`), and a
parent has a larger number than its child (`lt_parent`).  The first makes
everything said of trees available at the nodes, the second makes the way up
end.

Nothing forbids to take a node twice, or twice at once.  The last child of a new
node keeps the link to a sibling that it has, and so a node that is taken twice has
links of both times.  That no node is taken twice is a fact about how an arena came
about (`Arena.Built`, in `Proofs.Arena.Links`); that there are numbers enough is one
about its size (`Proofs.Arena.Construction`).

`Build` is a construction in steps, each of which answers with numbers to be used
later.  `ofTree` lays out a tree that is there as a whole, all children of a node
before the node.
-/
import PropertyHarvest.Tree

namespace PropertyHarvest

/-- A node of an arena: the tree below it and its links. -/
structure Slot where
  tree : Tree
  children : List Nat
  parent? : Option Nat
  nextSibling? : Option Nat
  deriving Repr, Inhabited

/-! ## Links -/

/-- The slot of a child of `parent` with `next?` behind it.  The last child keeps
the link that it has, which is none unless it was a child before. -/
def Slot.adopted (parent : Nat) (next? : Option Nat) (s : Slot) : Slot :=
  { s with parent? := some parent, nextSibling? := next?.or s.nextSibling? }

namespace Slots

/-- Makes the listed nodes the children, in this order, of the node `parent`. -/
def link (parent : Nat) : List Nat → Array Slot → Array Slot
  | [], slots => slots
  | c :: rest, slots => link parent rest (slots.modify c (Slot.adopted parent rest.head?))

@[simp] theorem size_link (parent : Nat) (cs : List Nat) (slots : Array Slot) :
    (link parent cs slots).size = slots.size := by
  induction cs generalizing slots with
  | nil => rfl
  | cons c rest ih => simp [link, ih]

/-- Linking changes no tree and no list of children. -/
theorem getElem?_link (parent : Nat) (cs : List Nat) (slots : Array Slot) (i : Nat) :
    ∃ f : Slot → Slot, (link parent cs slots)[i]? = slots[i]?.map f ∧
      ∀ s, (f s).tree = s.tree ∧ (f s).children = s.children ∧
        ((f s).parent? = s.parent? ∨ i ∈ cs ∧ (f s).parent? = some parent) := by
  induction cs generalizing slots with
  | nil => exact ⟨id, by simp [link], fun _ => ⟨rfl, rfl, .inl rfl⟩⟩
  | cons c rest ih =>
    obtain ⟨f, hf, hs⟩ := ih (slots.modify c (Slot.adopted parent rest.head?))
    by_cases hc : c = i
    · refine ⟨fun s => f (s.adopted parent rest.head?), ?_, ?_⟩
      · rw [link, hf, Array.getElem?_modify, if_pos hc, Option.map_map]
        rfl
      · intro s
        obtain ⟨ht, hk, hp⟩ := hs (s.adopted parent rest.head?)
        exact ⟨ht, hk, .inr ⟨by simp [hc], hp.elim id (·.2)⟩⟩
    · refine ⟨f, ?_, ?_⟩
      · rw [link, hf, Array.getElem?_modify, if_neg hc]
      · intro s
        obtain ⟨ht, hk, hp⟩ := hs s
        exact ⟨ht, hk, hp.imp id fun ⟨hm, h⟩ => ⟨.tail _ hm, h⟩⟩

/-! ## A new node -/

/-- The listed numbers that belong to a node. -/
def known (slots : Array Slot) (ids : List Nat) : List Nat :=
  ids.filter (· < slots.size)

def trees (slots : Array Slot) (ids : List Nat) : List Tree :=
  ids.filterMap fun c => slots[c]?.map Slot.tree

theorem map_known (slots : Array Slot) (ids : List Nat) :
    (known slots ids).map (fun c => slots[c]?.map Slot.tree) = (trees slots ids).map some := by
  induction ids with
  | nil => rfl
  | cons c rest ih =>
    unfold known trees at ih ⊢
    by_cases hc : c < slots.size
    · have hs : slots[c]? = some slots[c] := Array.getElem?_eq_getElem hc
      simp only [List.filter_cons, hc, decide_true, if_true, List.map_cons, List.filterMap_cons,
        hs, Option.map_some, ih]
    · have hs : slots[c]? = none := by
        simpa [Array.getElem?_eq_none_iff] using hc
      simp only [List.filter_cons, hc, decide_false, Bool.false_eq_true, if_false,
        List.filterMap_cons, hs, Option.map_none, ih]

/-- The slot of a node that takes the given children. -/
def fresh (slots : Array Slot) (kind : Kind) (text? : Option String) (line : Nat)
    (children : List Nat) : Slot :=
  ⟨.node kind text? line (trees slots children), known slots children, none, none⟩

/-- The slots with a new one behind them, which takes the given children. -/
def append (slots : Array Slot) (kind : Kind) (text? : Option String) (line : Nat)
    (children : List Nat) : Array Slot :=
  let slot := fresh slots kind text? line children
  (link slots.size slot.children slots).push slot

variable (slots : Array Slot) (kind : Kind) (text? : Option String) (line : Nat)
  (children : List Nat)

@[simp] theorem size_append : (append slots kind text? line children).size = slots.size + 1 := by
  simp [append]

theorem getElem?_append_of_lt {i : Nat} (h : i < slots.size) :
    ∃ f : Slot → Slot, (append slots kind text? line children)[i]? = slots[i]?.map f ∧
      ∀ s, (f s).tree = s.tree ∧ (f s).children = s.children ∧
        ((f s).parent? = s.parent? ∨ (f s).parent? = some slots.size) := by
  obtain ⟨f, hf, hs⟩ := getElem?_link slots.size (known slots children) slots i
  refine ⟨f, ?_, fun s => ⟨(hs s).1, (hs s).2.1, (hs s).2.2.imp id (·.2)⟩⟩
  rw [append, Array.getElem?_push, if_neg (by simp; omega)]
  exact hf

theorem getElem?_append_size :
    (append slots kind text? line children)[slots.size]? =
      some (fresh slots kind text? line children) := by
  simp only [append, Array.getElem?_push, size_link, if_true]

theorem tree_append_of_lt {i : Nat} (h : i < slots.size) :
    (append slots kind text? line children)[i]?.map Slot.tree = slots[i]?.map Slot.tree := by
  obtain ⟨f, hf, hs⟩ := getElem?_append_of_lt slots kind text? line children h
  rw [hf, Option.map_map]
  exact Option.map_congr fun s _ => (hs s).1

theorem lt_or_eq_of_append {i : Nat} {s : Slot}
    (h : (append slots kind text? line children)[i]? = some s) :
    i < slots.size ∨ i = slots.size := by
  have := (Array.getElem?_eq_some_iff.mp h).1
  rw [size_append] at this
  omega

end Slots

/-- Numbered nodes with links, and the number of the root if one was named. -/
structure Arena where
  slots : Array Slot
  rootId? : Option Nat
  /-- The children of a node carry the children of its tree. -/
  children_tree : ∀ (i : Nat) (s : Slot), slots[i]? = some s →
    s.children.map (fun c => slots[c]?.map Slot.tree) = s.tree.children.map some
  /-- Parents come after their children. -/
  lt_parent : ∀ (i : Nat) (s : Slot), slots[i]? = some s →
    ∀ p, s.parent? = some p → i < p ∧ p < slots.size

namespace Arena

def empty : Arena where
  slots := #[]
  rootId? := none
  children_tree := by simp
  lt_parent := by simp

instance : Inhabited Arena := ⟨empty⟩

def size (a : Arena) : Nat :=
  a.slots.size

def isEmpty (a : Arena) : Bool :=
  a.slots.isEmpty

theorem child_lt (a : Arena) {i : Nat} {s : Slot} (hs : a.slots[i]? = some s) {c : Nat}
    (hc : c ∈ s.children) : c < a.size := by
  have hm : a.slots[c]?.map Slot.tree ∈ s.tree.children.map some :=
    a.children_tree i s hs ▸ List.mem_map_of_mem hc
  obtain ⟨t, _, ht⟩ := List.mem_map.mp hm
  obtain ⟨u, hu, _⟩ := Option.map_eq_some_iff.mp ht.symm
  exact (Array.getElem?_eq_some_iff.mp hu).1

/-! ## Building -/

/-- Appends a node with the given children, which become its own; numbers that
belong to no node are left out. -/
def push (a : Arena) (kind : Kind) (text? : Option String) (line : Nat) (children : List Nat) :
    Arena where
  slots := Slots.append a.slots kind text? line children
  rootId? := a.rootId?
  children_tree := by
    intro i s hi
    have old := fun c h => Slots.tree_append_of_lt a.slots kind text? line children (i := c) h
    rcases Slots.lt_or_eq_of_append _ _ _ _ _ hi with hlt | rfl
    · obtain ⟨f, hf, hs⟩ := Slots.getElem?_append_of_lt a.slots kind text? line children hlt
      rw [hf] at hi
      obtain ⟨s', hs', rfl⟩ := Option.map_eq_some_iff.mp hi
      rw [(hs s').1, (hs s').2.1, ← a.children_tree i s' hs']
      exact List.map_congr_left fun c hc => old c (a.child_lt hs' hc)
    · rw [Slots.getElem?_append_size, Option.some.injEq] at hi
      subst hi
      refine Eq.trans (List.map_congr_left fun c hc => old c ?_) (Slots.map_known a.slots children)
      simpa [Slots.fresh, Slots.known] using (List.mem_filter.mp hc).2
  lt_parent := by
    intro i s hi p hp
    rw [Slots.size_append]
    rcases Slots.lt_or_eq_of_append _ _ _ _ _ hi with hlt | rfl
    · obtain ⟨f, hf, hs⟩ := Slots.getElem?_append_of_lt a.slots kind text? line children hlt
      rw [hf] at hi
      obtain ⟨s', hs', rfl⟩ := Option.map_eq_some_iff.mp hi
      rcases (hs s').2.2 with h | h
      · have := a.lt_parent i s' hs' p (h ▸ hp)
        omega
      · rw [h, Option.some.injEq] at hp
        omega
    · rw [Slots.getElem?_append_size, Option.some.injEq] at hi
      subst hi
      cases hp

def addToken (a : Arena) (kind : Kind) (text : String) (line : Nat) : Arena :=
  a.push kind (some text) line []

/-- Appends a node without text that owns existing nodes. -/
def addNode (a : Arena) (kind : Kind) (line : Nat) (children : List Nat) : Arena :=
  a.push kind none line children

def setRoot (a : Arena) (id : Nat) : Arena :=
  { a with rootId? := some id }

end Arena

/-! ## Building in steps -/

/-- Additions to an arena, with an answer. -/
abbrev Build := StateM Arena

namespace Build

/-- Adds a leaf that carries text; the answer is its number. -/
def token (kind : Kind) (text : String) (line : Nat) : Build Nat :=
  fun a => (a.size, a.addToken kind text line)

/-- Adds a node over nodes that were added before; the answer is its number. -/
def node (kind : Kind) (line : Nat) (children : List Nat) : Build Nat :=
  fun a => (a.size, a.addNode kind line children)

variable {α : Type}

/-- Adds what `f` adds for each member of a list, one after the other. -/
def each (f : α → Build (List Nat)) : List α → Build (List Nat)
  | [] => return []
  | x :: xs => do
    let ids ← f x
    let rest ← each f xs
    return ids ++ rest

/-- Adds the node that `f` adds, if there is anything to add one for. -/
def maybe (f : α → Build Nat) : Option α → Build (List Nat)
  | none => return []
  | some x => do return [← f x]

/-- The arena of what is built, with the answer as its root. -/
def finish (b : Build Nat) : Arena :=
  let (root, a) := b.run .empty
  a.setRoot root

end Build

namespace Arena

/-! ## Laying out a tree

The nodes of a tree are appended children first, so the last one is its
root. -/

mutual

/-- Appends the nodes of a tree; the answer names the last of them, its root. -/
def layTree (a : Arena) : Tree → Nat × Arena
  | .node kind text? line cs =>
    let (ids, a) := layTrees a cs
    (a.size, a.push kind text? line ids)

/-- Appends the nodes of several trees; the answer names their roots. -/
def layTrees (a : Arena) : List Tree → List Nat × Arena
  | [] => ([], a)
  | t :: ts =>
    let (id, a) := layTree a t
    let (ids, a) := layTrees a ts
    (id :: ids, a)

end

/-- The arena of one tree, with its root named. -/
def ofTree (t : Tree) : Arena :=
  let (id, a) := layTree empty t
  a.setRoot id

end Arena

end PropertyHarvest
