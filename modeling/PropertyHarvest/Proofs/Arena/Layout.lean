/-
# Laying trees out

An arena may be built in more than one way: all children of a node first, as
`Arena.ofTree` does, or in the order in which a source file is read.  What the
ways have in common is said here without regard to the order.

  `Laid a ids ts a'`   from `a` to `a'` the trees `ts` were added; `ids` are
                       their roots, which nobody has taken yet
  `a.Holds t`          the arena is finished and holds `t`, and nothing else

A builder is shown to lay its trees out piece by piece: pieces side by side
(`Laid.append`, `Laid.append_front`), and a new node over a piece (`Laid.push`).
The count of the nodes is carried along.  It is what tells in the end that no
node was left behind: reading from the root meets nodes once each, and there
are as many of them as slots (`Holds.mem_preorder`).

Nothing is said of the numbers themselves.  Two arenas that hold one tree may
number its nodes differently.

It is used for trees laid out by `ofTree`, for the arena of a source file, and wherever
a statement about each node of an arena is one about each place in its tree
(`map_located_preorder`).
-/
import Mathlib.Data.List.Perm.Subperm
import PropertyHarvest.Proofs.Arena.Descent
import PropertyHarvest.Proofs.Tree.Located

namespace PropertyHarvest

namespace Slots

theorem getElem?_link_of_not_mem {parent : Nat} {cs : List Nat} {slots : Array Slot} {i : Nat}
    (h : i ∉ cs) : (link parent cs slots)[i]? = slots[i]? := by
  induction cs generalizing slots with
  | nil => rfl
  | cons c rest ih =>
      obtain ⟨hc, hrest⟩ := not_or.mp fun hi => h (List.mem_cons.mpr hi)
      rw [link, ih hrest, Array.getElem?_modify, if_neg fun he => hc he.symm]

theorem trees_eq {slots : Array Slot} {ids : List Nat} {ts : List Tree}
    (h : ids.map (fun i => slots[i]?.map Slot.tree) = ts.map some) : trees slots ids = ts := by
  induction ids generalizing ts with
  | nil =>
      cases ts with
      | nil => rfl
      | cons t ts => cases h
  | cons i ids ih =>
      cases ts with
      | nil => cases h
      | cons t ts =>
          have hi : slots[i]?.map Slot.tree = some t := (List.cons.inj h).1
          have hids := (List.cons.inj h).2
          rw [trees, List.filterMap_cons, hi]
          exact congrArg (t :: ·) (ih hids)

end Slots

namespace Arena

/-- From `a` to `a'` the trees `ts` were laid out: `ids` are their roots, new
and free, nothing old has changed, and there are as many new nodes as the trees
have. -/
structure Laid (a : Arena) (ids : List Nat) (ts : List Tree) (a' : Arena) : Prop where
  built : a'.Built
  size_eq : a'.size = a.size + Tree.sizes ts
  old : ∀ i < a.size, a'.slots[i]? = a.slots[i]?
  new : ∀ i ∈ ids, a.size ≤ i
  free : ∀ i ∈ ids, a'.isFree i = true
  nodup : ids.Nodup
  trees : ids.map (fun i => a'.slots[i]?.map Slot.tree) = ts.map some

namespace Laid

variable {a a₁ a₂ : Arena} {ids ids' : List Nat} {ts ts' : List Tree}

theorem lt (h : Laid a ids ts a₁) {i : Nat} (hi : i ∈ ids) : i < a₁.size :=
  lt_of_isFree (h.free i hi)

theorem size_le (h : Laid a ids ts a₁) : a.size ≤ a₁.size := by
  rw [h.size_eq]
  exact Nat.le_add_right _ _

theorem length_eq (h : Laid a ids ts a₁) : ids.length = ts.length := by
  have := congrArg List.length h.trees
  rwa [List.length_map, List.length_map] at this

theorem nil (h : a.Built) : Laid a [] [] a where
  built := h
  size_eq := rfl
  old := fun _ _ => rfl
  new := fun _ h => nomatch h
  free := fun _ h => nomatch h
  nodup := List.nodup_nil
  trees := rfl

theorem append (first : Laid a ids ts a₁) (rest : Laid a₁ ids' ts' a₂) :
    Laid a (ids ++ ids') (ts ++ ts') a₂ where
  built := rest.built
  size_eq := by rw [rest.size_eq, first.size_eq, Tree.sizes_append, Nat.add_assoc]
  old := by
    intro j hj
    rw [rest.old j (Nat.lt_of_lt_of_le hj first.size_le), first.old j hj]
  new := by
    intro j hj
    rcases List.mem_append.mp hj with hj | hj
    · exact first.new j hj
    · exact Nat.le_trans first.size_le (rest.new j hj)
  free := by
    intro j hj
    rcases List.mem_append.mp hj with hj | hj
    · rw [isFree, rest.old j (first.lt hj)]
      exact first.free j hj
    · exact rest.free j hj
  nodup := by
    refine List.nodup_append.mpr ⟨first.nodup, rest.nodup, ?_⟩
    rintro i hi _ hi' rfl
    exact Nat.lt_irrefl _ (Nat.lt_of_lt_of_le (first.lt hi) (rest.new i hi'))
  -- What the second part adds leaves the slots of the first as they are.
  trees := by
    have hfirst : ids.map (fun i => a₂.slots[i]?.map Slot.tree) =
        ids.map (fun i => a₁.slots[i]?.map Slot.tree) :=
      List.map_congr_left fun i hi => by rw [rest.old i (first.lt hi)]
    rw [List.map_append, List.map_append, hfirst, first.trees, rest.trees]

/-- What was added later may stand in front. -/
theorem append_front (first : Laid a ids ts a₁) (rest : Laid a₁ ids' ts' a₂) :
    Laid a (ids' ++ ids) (ts' ++ ts) a₂ := by
  have both := first.append rest
  have hperm : (ids' ++ ids).Perm (ids ++ ids') := List.perm_append_comm
  refine ⟨both.built, ?_, both.old, fun i hi => both.new i (hperm.mem_iff.mp hi),
    fun i hi => both.free i (hperm.mem_iff.mp hi), hperm.nodup_iff.mpr both.nodup, ?_⟩
  · rw [both.size_eq, Tree.sizes_append, Tree.sizes_append, Nat.add_comm (Tree.sizes ts)]
  · have htrees := both.trees
    rw [List.map_append, List.map_append] at htrees ⊢
    obtain ⟨hids, hids'⟩ := List.append_inj htrees (by simp [first.length_eq])
    rw [hids, hids']

theorem push (kind : Kind) (text? : Option String) (line : Nat) (h : Laid a ids ts a₁) :
    Laid a [a₁.size] [.node kind text? line ts] (a₁.push kind text? line ids) where
  built := .push kind text? line h.built h.nodup h.free
  size_eq := by
    show (Slots.append a₁.slots kind text? line ids).size = _
    rw [Slots.size_append, Tree.sizes, Tree.sizes, Tree.size]
    have := h.size_eq
    unfold Arena.size at this ⊢
    omega
  old := by
    intro i hi
    have hlt : i < a₁.slots.size := Nat.lt_of_lt_of_le hi h.size_le
    -- The roots that were given are all new, so no old slot gets a link.
    have hids : i ∉ Slots.known a₁.slots ids := by
      intro hk
      exact Nat.lt_irrefl _ (Nat.lt_of_lt_of_le hi (h.new i (List.mem_filter.mp hk).1))
    show (Slots.append a₁.slots kind text? line ids)[i]? = _
    rw [Slots.append, Array.getElem?_push, Slots.size_link, if_neg (Nat.ne_of_lt hlt),
      ← h.old i hi]
    exact Slots.getElem?_link_of_not_mem hids
  new := by
    intro i hi
    rw [List.mem_singleton.mp hi]
    exact h.size_le
  free := by
    intro i hi
    rw [List.mem_singleton.mp hi]
    exact isFree_iff.mpr ⟨_, Slots.getElem?_append_size a₁.slots kind text? line ids, rfl⟩
  nodup := List.nodup_singleton _
  trees := by
    have hnew : (a₁.push kind text? line ids).slots[a₁.size]? =
        some (Slots.fresh a₁.slots kind text? line ids) :=
      Slots.getElem?_append_size a₁.slots kind text? line ids
    rw [List.map_singleton, List.map_singleton, hnew]
    show [some (Tree.node kind text? line (Slots.trees a₁.slots ids))] = _
    rw [Slots.trees_eq h.trees]

end Laid

mutual

theorem laid_layTree {a : Arena} (ha : a.Built) : (t : Tree) →
    Laid a [(a.layTree t).1] [t] (a.layTree t).2
  | .node kind text? line cs => (laid_layTrees ha cs).push kind text? line

theorem laid_layTrees {a : Arena} (ha : a.Built) : (ts : List Tree) →
    Laid a (a.layTrees ts).1 ts (a.layTrees ts).2
  | [] => .nil ha
  | t :: ts => (laid_layTree ha t).append (laid_layTrees (laid_layTree ha t).built ts)

end

/-! ## Arenas of one tree -/

/-- The arena holds the tree and nothing beside it: it is finished, its root
carries the tree, and it has no more nodes than the tree. -/
structure Holds (a : Arena) (t : Tree) : Prop where
  wellFormed : a.WellFormed
  exists_root : ∃ r, a.root? = some r ∧ r.tree = t
  size_eq : a.size = t.size

/-- What is laid out from nothing is all that the arena holds. -/
theorem Laid.holds {a : Arena} {id : Nat} {t : Tree} (h : Laid empty [id] [t] a) :
    (a.setRoot id).Holds t where
  wellFormed := by
    refine ⟨.setRoot _ h.built, ?_⟩
    intro i hi
    cases hi
    exact h.free _ List.mem_cons_self
  exists_root := by
    have hlt : id < (a.setRoot id).size := h.lt List.mem_cons_self
    refine ⟨⟨id, hlt⟩, dif_pos hlt, ?_⟩
    have htree : a.slots[id]?.map Slot.tree = some t := (List.cons.inj h.trees).1
    have hslot := Node.getElem?_slots (⟨id, hlt⟩ : Node (a.setRoot id))
    change a.slots[id]? = _ at hslot
    rw [hslot] at htree
    exact Option.some.inj htree
  size_eq := by
    show a.size = _
    rw [h.size_eq, Tree.sizes, Tree.sizes]
    exact Nat.zero_add _

theorem holds_ofTree (t : Tree) : (ofTree t).Holds t :=
  (laid_layTree .empty t).holds

theorem wellFormed_ofTree (t : Tree) : (ofTree t).WellFormed :=
  (holds_ofTree t).wellFormed

theorem exists_root_ofTree (t : Tree) : ∃ r, (ofTree t).root? = some r ∧ r.tree = t :=
  (holds_ofTree t).exists_root

end Arena

/-! ## Reading order -/

namespace Node

variable {a : Arena}

theorem above_of_mem_children (hl : a.Linked) {n c : Node a} (hc : c ∈ n.children) :
    c.above = n.kind :: n.above := by
  rw [above, ancestors_of_parent? ((mem_children_iff hl).mp hc)]
  rfl

theorem exists_child_ofTree {t c : Tree} (h : c ∈ t.children) :
    ∃ n : Node (.ofTree t), n.tree = c ∧ n.parent?.map kind = some t.kind := by
  obtain ⟨r, -, hr⟩ := Arena.exists_root_ofTree t
  rw [← hr, ← map_tree_children] at h
  obtain ⟨n, hn, hc⟩ := List.mem_map.mp h
  refine ⟨n, hc, ?_⟩
  rw [(mem_children_iff (Arena.wellFormed_ofTree t).linked).mp hn, Option.map_some, kind, hr]

/-- The nodes below a node, each with the kinds above it, are those of its
tree. -/
theorem map_located_descendants (hl : a.Linked) (n : Node a) :
    (n.descendants.map fun d => (d.above, d.tree)) = n.tree.located n.above := by
  induction n using induction_children with
  | step n ih =>
      have each : ∀ c ∈ n.children, (c.descendants.map fun d => (d.above, d.tree)) =
          c.tree.located (n.kind :: n.above) := by
        intro c hc
        rw [ih c hc, above_of_mem_children hl hc]
      rw [descendants_eq, List.map_cons, inside, descend_eq_flatMap, List.map_flatMap,
        Tree.located_eq, Tree.locatedIn_eq_flatMap, ← map_tree_children, List.flatMap_map]
      exact congrArg (List.cons _) (List.flatMap_congr each)

end Node

namespace Arena

namespace Holds

variable {a : Arena} {t : Tree} (h : a.Holds t)
include h

theorem map_located_preorder : (a.preorder.map fun n => (n.above, n.tree)) = t.located [] := by
  obtain ⟨r, hr, htree⟩ := h.exists_root
  have hp : a.preorder = r.descendants := by rw [preorder, hr]; rfl
  have habove : r.above = [] := by rw [Node.above, h.wellFormed.ancestors_root hr]; rfl
  rw [hp, Node.map_located_descendants h.wellFormed.linked, htree, habove]

theorem length_preorder : a.preorder.length = a.size := by
  have hlocated := congrArg List.length h.map_located_preorder
  rw [List.length_map, Tree.length_located] at hlocated
  rw [hlocated, h.size_eq]

/-- All nodes of the arena are read: none occurs twice, and there are as many
of them as slots. -/
theorem mem_preorder (n : Node a) : n ∈ a.preorder := by
  have hnodup : (a.preorder.map Node.id).Nodup :=
    (nodup_preorder h.wellFormed.linked).map fun _ _ => Node.ext_id
  have hrange : a.preorder.map Node.id ⊆ List.range a.size := by
    intro i hi
    obtain ⟨m, -, rfl⟩ := List.mem_map.mp hi
    exact List.mem_range.mpr m.id_lt
  have hlength : (List.range a.size).length = (a.preorder.map Node.id).length := by
    rw [List.length_range, List.length_map, h.length_preorder]
  have hperm := (List.subperm_of_subset hnodup hrange).perm_of_length_le (Nat.le_of_eq hlength)
  have hid : n.id ∈ a.preorder.map Node.id := hperm.mem_iff.mpr (List.mem_range.mpr n.id_lt)
  obtain ⟨m, hm, he⟩ := List.mem_map.mp hid
  rw [← Node.ext_id he]
  exact hm

theorem getElem?_preorder_number (n : Node a) : a.preorder[n.number]? = some n :=
  List.getElem?_idxOf (h.mem_preorder n)

theorem everywhere {P : Tree → Prop} (ht : t.Everywhere P) (n : Node a) : P n.tree := by
  have hlisted : (n.above, n.tree) ∈ t.located [] := by
    rw [← h.map_located_preorder]
    exact List.mem_map_of_mem (h.mem_preorder n)
  exact ht.located hlisted

/-- Every node of the arena is below the root, once. -/
theorem count_descendants {r : Node a} (hr : a.root? = some r) :
    (∀ n, r.descendants.count n = 1) ∧ a.size = r.descendants.length := by
  have hpreorder : a.preorder = r.descendants := by
    rw [preorder, hr]
    rfl
  rw [← hpreorder]
  constructor
  · intro n
    exact List.count_eq_one_of_mem (nodup_preorder h.wellFormed.linked) (h.mem_preorder n)
  · exact h.length_preorder.symm

end Holds

end Arena

end PropertyHarvest
