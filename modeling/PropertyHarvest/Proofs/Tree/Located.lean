/-
# Where the nodes of a tree stand

A tree does not know what lies above it.  `Tree.located` lists the nodes in
reading order and puts beside each the kinds above it, nearest first, which is
all that a call is ever asked about its surroundings.  Where a statement is
about each node by itself, `Tree.Everywhere` says so.

The list is the reading order, so it can be put beside the list of the nodes of an
arena (`Proofs.Arena.Layout`).  `mapLine` is here because lines are what a node keeps
of the place from which it was lowered.

Above a node stand the kinds of its ancestors, the nearest first, and at the root there
is none.  A subtree can be listed below any such row of kinds, which is what an
induction needs.
-/
import PropertyHarvest.Tree

namespace PropertyHarvest.Tree

mutual

/-- The nodes in reading order, each below the kinds above it. -/
def located (above : List Kind) : Tree → List (List Kind × Tree)
  | .node k text? l cs => (above, .node k text? l cs) :: locatedIn (k :: above) cs

def locatedIn (above : List Kind) : List Tree → List (List Kind × Tree)
  | [] => []
  | t :: ts => located above t ++ locatedIn above ts

end

theorem located_eq (above : List Kind) (t : Tree) :
    t.located above = (above, t) :: locatedIn (t.kind :: above) t.children := by
  obtain ⟨k, text?, l, cs⟩ := t
  rfl

theorem locatedIn_eq_flatMap (above : List Kind) (ts : List Tree) :
    locatedIn above ts = ts.flatMap (located above) := by
  induction ts with
  | nil => rfl
  | cons t ts ih => rw [locatedIn, ih, List.flatMap_cons]

theorem locatedIn_append (above : List Kind) (ts us : List Tree) :
    locatedIn above (ts ++ us) = locatedIn above ts ++ locatedIn above us := by
  simp only [locatedIn_eq_flatMap, List.flatMap_append]

mutual

theorem length_located (above : List Kind) : (t : Tree) → (t.located above).length = t.size
  | .node k _ _ cs => by
      rw [located, List.length_cons, length_locatedIn (k :: above) cs, size]

theorem length_locatedIn (above : List Kind) : (ts : List Tree) →
    (locatedIn above ts).length = sizes ts
  | [] => rfl
  | t :: ts => by
      rw [locatedIn, List.length_append, length_located above t, length_locatedIn above ts, sizes]

end

/-! ## Every node by itself -/

/-- `P` holds of the tree and of every tree inside it. -/
inductive Everywhere (P : Tree → Prop) : Tree → Prop
  | intro {t : Tree} (root : P t) (inside : ∀ c ∈ t.children, Everywhere P c) : Everywhere P t

theorem Everywhere.root {P : Tree → Prop} {t : Tree} (h : t.Everywhere P) : P t := by
  cases h with
  | intro root _ => exact root

theorem Everywhere.child {P : Tree → Prop} {t c : Tree} (h : t.Everywhere P)
    (hc : c ∈ t.children) : c.Everywhere P := by
  cases h with
  | intro _ inside => exact inside c hc

theorem Everywhere.located {P : Tree → Prop} {t : Tree} (h : t.Everywhere P)
    {above : List Kind} {e : List Kind × Tree} (he : e ∈ t.located above) : P e.2 := by
  induction h generalizing above with
  | @intro t root inside ih =>
      rw [located_eq, locatedIn_eq_flatMap] at he
      rcases List.mem_cons.mp he with rfl | he
      · exact root
      · obtain ⟨c, hc, he⟩ := List.mem_flatMap.mp he
        exact ih c hc he

/-! ## A node of a tree -/

/-- `d` is the tree or lies inside it. -/
inductive Holds : Tree → Tree → Prop
  | root {t : Tree} : Holds t t
  | inside {t c d : Tree} (child : c ∈ t.children) (below : c.Holds d) : Holds t d

/-! ## The same tree on other lines -/

mutual

def mapLine (f : Nat → Nat) : Tree → Tree
  | .node k text? l cs => .node k text? (f l) (mapLineIn f cs)

def mapLineIn (f : Nat → Nat) : List Tree → List Tree
  | [] => []
  | t :: ts => mapLine f t :: mapLineIn f ts

end

theorem mapLineIn_eq_map (f : Nat → Nat) (ts : List Tree) :
    mapLineIn f ts = ts.map (mapLine f) := by
  induction ts with
  | nil => rfl
  | cons t ts ih => rw [mapLineIn, ih, List.map_cons]

theorem kind_mapLine (f : Nat → Nat) (t : Tree) : (t.mapLine f).kind = t.kind := by
  obtain ⟨k, text?, l, cs⟩ := t
  rfl

theorem text?_mapLine (f : Nat → Nat) (t : Tree) : (t.mapLine f).text? = t.text? := by
  obtain ⟨k, text?, l, cs⟩ := t
  rfl

theorem line_mapLine (f : Nat → Nat) (t : Tree) : (t.mapLine f).line = f t.line := by
  obtain ⟨k, text?, l, cs⟩ := t
  rfl

theorem children_mapLine (f : Nat → Nat) (t : Tree) :
    (t.mapLine f).children = t.children.map (mapLine f) := by
  obtain ⟨k, text?, l, cs⟩ := t
  exact mapLineIn_eq_map f cs

theorem firstChild?_mapLine (f : Nat → Nat) (t : Tree) :
    (t.mapLine f).firstChild? = t.firstChild?.map (mapLine f) := by
  rw [firstChild?, children_mapLine, List.head?_map]
  rfl

theorem mapLine_token (f : Nat → Nat) (l : Nat) (k : Kind) (text : String) :
    (token k text l).mapLine f = token k text (f l) := rfl

theorem mapLine_interior (f : Nat → Nat) (l : Nat) (k : Kind) (cs : List Tree) :
    (interior k l cs).mapLine f = interior k (f l) (cs.map (mapLine f)) :=
  congrArg (node k none (f l)) (mapLineIn_eq_map f cs)

mutual

/-- Lines have no part in where a node stands. -/
theorem located_mapLine (f : Nat → Nat) (above : List Kind) : (t : Tree) →
    (t.mapLine f).located above = (t.located above).map fun e => (e.1, e.2.mapLine f)
  | .node k text? l cs => by
      show (above, _) :: locatedIn (k :: above) (mapLineIn f cs) = _
      rw [locatedIn_mapLine f (k :: above) cs]
      rfl

theorem locatedIn_mapLine (f : Nat → Nat) (above : List Kind) : (ts : List Tree) →
    locatedIn above (mapLineIn f ts) = (locatedIn above ts).map fun e => (e.1, e.2.mapLine f)
  | [] => rfl
  | t :: ts => by
      rw [mapLineIn, locatedIn, locatedIn, located_mapLine f above t, locatedIn_mapLine f above ts,
        List.map_append]

end

end PropertyHarvest.Tree
