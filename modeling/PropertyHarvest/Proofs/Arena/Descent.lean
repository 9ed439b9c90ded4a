/-
# The way down and the way up

Going down from a node gives its descendants in reading order, going up gives
its ancestors.  In a linked arena the two are dual:

    d ∈ m.inside ↔ m ∈ d.ancestors

From this follows what the reading order of a whole tree looks like: no node
occurs twice, and what lies below a node follows it without a gap.

The way down is known to end because trees are finite, the way up because numbers
grow, and neither needs the other.  The duality does: a node is below `m` if one of
its links upwards leads to `m`, and that is a fact about both kinds of link.

All of this is about linked arenas.  In an arena where a node was taken twice it is
found twice on the way down, and has one parent.
-/
import Mathlib.Data.List.Nodup
import PropertyHarvest.Proofs.Arena.Links

namespace PropertyHarvest

namespace Node

variable {a : Arena}

/-! ## Down -/

/-- All nodes strictly below, in reading order. -/
def inside (n : Node a) : List (Node a) :=
  descend n.children

theorem descend_cons (n : Node a) (rest : List (Node a)) :
    descend (n :: rest) = n :: descend (n.children ++ rest) := by
  rw [descend]

theorem descend_append (ns ms : List (Node a)) :
    descend (ns ++ ms) = descend ns ++ descend ms := by
  fun_induction descend ns with
  | case1 => simp
  | case2 n rest ih =>
      rw [List.cons_append, descend_cons, ← List.append_assoc, ih, List.cons_append]

theorem descendants_eq (n : Node a) : n.descendants = n :: n.inside := by
  rw [descendants, descend_cons, List.append_nil, inside]

/-- The subtrees are read one after the other. -/
theorem descend_cons_append (n : Node a) (rest : List (Node a)) :
    descend (n :: rest) = n.descendants ++ descend rest := by
  rw [descendants, ← descend_append, List.singleton_append]

theorem descend_eq_flatMap (ns : List (Node a)) : descend ns = ns.flatMap descendants := by
  induction ns with
  | nil => simp [descend]
  | cons n rest ih => rw [List.flatMap_cons, ← ih, descend_cons_append]

theorem self_mem_descendants (n : Node a) : n ∈ n.descendants := by
  rw [descendants_eq]
  exact List.mem_cons_self

theorem mem_descendants_iff {d n : Node a} : d ∈ n.descendants ↔ d = n ∨ d ∈ n.inside := by
  rw [descendants_eq, List.mem_cons]

theorem mem_inside_iff {d n : Node a} : d ∈ n.inside ↔ ∃ c ∈ n.children, d ∈ c.descendants := by
  rw [inside, descend_eq_flatMap, List.mem_flatMap]

theorem mem_inside_of_mem_children {c n : Node a} (h : c ∈ n.children) : c ∈ n.inside :=
  mem_inside_iff.mpr ⟨c, h, c.self_mem_descendants⟩

theorem size_lt_of_mem_children {c n : Node a} (h : c ∈ n.children) :
    c.tree.size < n.tree.size := by
  refine Tree.size_lt_of_mem ?_
  rw [← map_tree_children]
  exact List.mem_map_of_mem h

/-- To show something of all nodes, show it of a node whose children have it. -/
theorem induction_children {P : Node a → Prop} (step : ∀ n, (∀ c ∈ n.children, P c) → P n)
    (n : Node a) : P n := by
  induction hs : n.tree.size using Nat.strongRecOn generalizing n with
  | ind _ ih =>
      subst hs
      exact step n fun c hc => ih _ (size_lt_of_mem_children hc) c rfl

theorem size_lt_of_mem_inside {d n : Node a} (h : d ∈ n.inside) : d.tree.size < n.tree.size := by
  induction n using induction_children with
  | step n ih =>
      obtain ⟨c, hc, hd⟩ := mem_inside_iff.mp h
      have hlt := size_lt_of_mem_children hc
      rcases mem_descendants_iff.mp hd with rfl | hd
      · exact hlt
      · exact Nat.lt_trans (ih c hc hd) hlt

theorem not_mem_inside_self (n : Node a) : n ∉ n.inside :=
  fun h => Nat.lt_irrefl _ (size_lt_of_mem_inside h)

theorem mem_inside_trans {d m n : Node a} (hd : d ∈ m.inside) (hm : m ∈ n.inside) :
    d ∈ n.inside := by
  induction n using induction_children with
  | step n ih =>
      obtain ⟨c, hc, hmc⟩ := mem_inside_iff.mp hm
      refine mem_inside_iff.mpr ⟨c, hc, mem_descendants_iff.mpr (.inr ?_)⟩
      rcases mem_descendants_iff.mp hmc with rfl | hmc
      · exact hd
      · exact ih c hc hmc

/-- What lies below a node follows it without a gap. -/
theorem exists_descend_eq {d : Node a} {ns : List (Node a)} (h : d ∈ descend ns) :
    ∃ us vs, descend ns = us ++ d :: (d.inside ++ vs) := by
  fun_induction descend ns with
  | case1 => cases h
  | case2 n rest ih =>
      rcases List.mem_cons.mp h with rfl | h
      · exact ⟨[], descend rest, by rw [descend_append]; rfl⟩
      · obtain ⟨us, vs, he⟩ := ih h
        exact ⟨n :: us, vs, by rw [he]; rfl⟩

/-! ## Up -/

theorem ancestors_of_parent? {n p : Node a} (h : n.parent? = some p) :
    n.ancestors = p :: p.ancestors := by
  rw [ancestors]
  split
  · rename_i hn
    rw [h] at hn
    cases hn
  · rename_i q hq
    rw [h, Option.some.injEq] at hq
    rw [hq]

theorem ancestors_of_root {n : Node a} (h : n.parent? = none) : n.ancestors = [] := by
  rw [ancestors]
  split
  · rfl
  · rename_i q hq
    rw [h] at hq
    cases hq

theorem mem_ancestors_iff {m n : Node a} :
    m ∈ n.ancestors ↔ ∃ p, n.parent? = some p ∧ (m = p ∨ m ∈ p.ancestors) := by
  cases hp : n.parent? with
  | none => simp [ancestors_of_root hp]
  | some p => simp [ancestors_of_parent? hp]

theorem lt_of_mem_ancestors {m n : Node a} (h : m ∈ n.ancestors) : n.id < m.id := by
  fun_induction ancestors n with
  | case1 => cases h
  | case2 n p hp _ ih =>
      have hlt := lt_of_parent? hp
      rcases List.mem_cons.mp h with rfl | h
      · exact hlt
      · exact Nat.lt_trans hlt (ih h)

theorem mem_ancestors_trans {l m n : Node a} (hl : l ∈ m.ancestors) (hm : m ∈ n.ancestors) :
    l ∈ n.ancestors := by
  fun_induction ancestors n with
  | case1 => cases hm
  | case2 n p hp _ ih =>
      rcases List.mem_cons.mp hm with rfl | hm
      · exact List.mem_cons_of_mem _ hl
      · exact List.mem_cons_of_mem _ (ih hm)

theorem ancestors_comparable {l m n : Node a} (hl : l ∈ n.ancestors) (hm : m ∈ n.ancestors) :
    l = m ∨ l ∈ m.ancestors ∨ m ∈ l.ancestors := by
  fun_induction ancestors n with
  | case1 => cases hl
  | case2 n p hp _ ih =>
      rcases List.mem_cons.mp hl with rfl | hl <;> rcases List.mem_cons.mp hm with rfl | hm
      · exact .inl rfl
      · exact .inr (.inr hm)
      · exact .inr (.inl hl)
      · exact ih hl hm

/-! ## Down and up are dual -/

section Linked

variable (h : a.Linked)
include h

theorem mem_ancestors_of_mem_inside {d m : Node a} (hd : d ∈ m.inside) : m ∈ d.ancestors := by
  induction m using induction_children generalizing d with
  | step m ih =>
      obtain ⟨c, hc, hdc⟩ := mem_inside_iff.mp hd
      have hm : m ∈ c.ancestors :=
        mem_ancestors_iff.mpr ⟨m, (mem_children_iff h).mp hc, .inl rfl⟩
      rcases mem_descendants_iff.mp hdc with rfl | hdc
      · exact hm
      · exact mem_ancestors_trans hm (ih c hc hdc)

theorem mem_inside_of_mem_ancestors {d m : Node a} (hm : m ∈ d.ancestors) : d ∈ m.inside := by
  fun_induction ancestors d with
  | case1 => cases hm
  | case2 d p hp _ ih =>
      have hd : d ∈ p.inside := mem_inside_of_mem_children ((mem_children_iff h).mpr hp)
      rcases List.mem_cons.mp hm with rfl | hm
      · exact hd
      · exact mem_inside_trans hd (ih hm)

theorem mem_inside_iff_mem_ancestors {d m : Node a} : d ∈ m.inside ↔ m ∈ d.ancestors :=
  ⟨mem_ancestors_of_mem_inside h, mem_inside_of_mem_ancestors h⟩

theorem mem_descendants_iff_mem_ancestors {d m : Node a} :
    d ∈ m.descendants ↔ d = m ∨ m ∈ d.ancestors := by
  rw [mem_descendants_iff, mem_inside_iff_mem_ancestors h]

theorem not_mem_ancestors_of_siblings {n c d : Node a} (hc : c ∈ n.children)
    (hd : d ∈ n.children) : c ∉ d.ancestors := by
  intro hcd
  have hlt := lt_of_parent? ((mem_children_iff h).mp hc)
  rw [ancestors_of_parent? ((mem_children_iff h).mp hd)] at hcd
  rcases List.mem_cons.mp hcd with rfl | hcd
  · exact Nat.lt_irrefl _ hlt
  · have := lt_of_mem_ancestors hcd
    omega

theorem disjoint_of_siblings {n c d : Node a} (hc : c ∈ n.children) (hd : d ∈ n.children)
    (hne : c ≠ d) : List.Disjoint c.descendants d.descendants := by
  intro x hxc hxd
  have hcd := not_mem_ancestors_of_siblings h hc hd
  have hdc := not_mem_ancestors_of_siblings h hd hc
  rcases (mem_descendants_iff_mem_ancestors h).mp hxc with rfl | hxc <;>
    rcases (mem_descendants_iff_mem_ancestors h).mp hxd with rfl | hxd
  · exact hne rfl
  · exact hdc hxd
  · exact hcd hxc
  · rcases ancestors_comparable hxc hxd with he | hx | hx
    · exact hne he
    · exact hcd hx
    · exact hdc hx

theorem nodup_descendants (n : Node a) : n.descendants.Nodup := by
  induction n using induction_children with
  | step n ih =>
      rw [descendants_eq, List.nodup_cons]
      refine ⟨n.not_mem_inside_self, ?_⟩
      rw [inside, descend_eq_flatMap, List.nodup_flatMap]
      refine ⟨ih, ?_⟩
      refine (nodup_children h n).imp_of_mem ?_
      intro c d hc hd hne
      exact disjoint_of_siblings h hc hd hne

end Linked

end Node

/-! ## A whole tree -/

namespace Arena

variable {a : Arena}

/-- The nodes of the tree in reading order, from the root on. -/
def preorder (a : Arena) : List (Node a) :=
  a.root?.elim [] Node.descendants

theorem nodup_preorder (h : a.Linked) : a.preorder.Nodup := by
  rw [preorder]
  cases a.root? with
  | none => exact List.nodup_nil
  | some r => exact Node.nodup_descendants h r

theorem WellFormed.linked (h : a.WellFormed) : a.Linked :=
  h.built.linked

theorem WellFormed.parent?_root (h : a.WellFormed) {r : Node a} (hr : a.root? = some r) :
    r.parent? = none := by
  obtain ⟨id, hid, hn⟩ := Option.bind_eq_some_iff.mp hr
  refine Node.isFree_iff_parent?.mp ?_
  rw [Node.id_of_node? hn]
  exact h.root_free id hid

/-- Nothing lies above the root of a finished tree. -/
theorem WellFormed.ancestors_root (h : a.WellFormed) {r : Node a} (hr : a.root? = some r) :
    r.ancestors = [] :=
  Node.ancestors_of_root (h.parent?_root hr)

theorem exists_preorder_eq {d : Node a} (h : d ∈ a.preorder) :
    ∃ us vs, a.preorder = us ++ d :: (d.inside ++ vs) := by
  rw [preorder] at h ⊢
  cases hr : a.root? with
  | none => simp [hr] at h
  | some r =>
      rw [hr] at h
      exact Node.exists_descend_eq h

end Arena

namespace Node

variable {a : Arena}

def number (n : Node a) : Nat :=
  a.preorder.idxOf n

def before (n : Node a) : List (Node a) :=
  a.preorder.takeWhile fun m => decide (m ≠ n)

theorem before_eq (h : a.Linked) {n : Node a} {us vs : List (Node a)}
    (he : a.preorder = us ++ n :: vs) : n.before = us := by
  have hn : n ∉ us := by
    have hd := Arena.nodup_preorder h
    rw [he] at hd
    exact fun hu => (List.nodup_append.mp hd).2.2 n hu n List.mem_cons_self rfl
  have hu : ∀ m ∈ us, decide (m ≠ n) = true := by
    intro m hm
    refine decide_eq_true ?_
    rintro rfl
    exact hn hm
  rw [before, he, List.takeWhile_append_of_pos hu]
  simp

end Node

end PropertyHarvest
