/-
# Lines of descent

The way down from a node keeps a stack of nodes that are still to be read, the
way up follows one link after the other.  Here both are told without the way
that they take: below a node lie, in order, its children and what lies below
each of them (`subtree`), above it lie the nodes that one, two or more steps up
lead to (`up?`).

In an arena that is built bottom-up each tells the other.  What the way down
reads below `m` is what has `m` above it, no node is read twice, a node is read
before all that it stands above, and the way up ends at the root of the tree.

The order of siblings on the way down is that of the lists of children.  Of two nodes
of which neither stands above the other nothing is said but that each is read before
all that it stands above.
-/
import PropertyHarvest.Proofs.Arena.Layout

namespace PropertyHarvest

namespace Node

variable {a : Arena}

/-! ## The way down -/

/-- A node, followed by the subtrees of its children. -/
def subtree (n : Node a) : List (Node a) :=
  n :: n.children.attach.flatMap fun ⟨c, _⟩ => c.subtree
termination_by n.tree.size
decreasing_by exact size_lt_of_mem_children ‹_›

theorem subtree_eq (n : Node a) : n.subtree = n :: n.children.flatMap subtree := by
  rw [subtree, List.flatMap_subtype fun _ _ => rfl, List.unattach_attach]

/-- The stack of the way down reads the subtree. -/
theorem descendants_eq_subtree (n : Node a) : n.descendants = n.subtree := by
  induction n using induction_children with
  | step n ih =>
      rw [descendants_eq, inside, descend_eq_flatMap, subtree_eq]
      exact congrArg (n :: ·) (List.flatMap_congr ih)

/-! ## The way up -/

/-- The node that `k` steps up lead to. -/
def up? : Nat → Node a → Option (Node a)
  | 0, n => some n
  | k + 1, n => n.parent?.bind (up? k)

theorem getElem?_ancestors (n : Node a) (k : Nat) : n.ancestors[k]? = up? (k + 1) n := by
  fun_induction ancestors n generalizing k with
  | case1 n hn => simp [up?, hn]
  | case2 n p hp _ ih =>
      have hup : up? (k + 1) n = up? k p := by simp [up?, hp]
      rw [hup]
      cases k with
      | zero => rfl
      | succ k => simpa using ih k

section Built

variable (h : a.Built)
include h

theorem getLast?_ancestors_iff {n r : Node a} :
    (n :: n.ancestors).getLast? = some r ↔ r.parent? = none ∧ n ∈ r.descendants := by
  fun_induction ancestors n with
  | case1 n hn =>
      have hbelow : n ∈ r.descendants ↔ n = r := by
        rw [mem_descendants_iff_mem_ancestors h.linked, ancestors_of_root hn]
        simp
      rw [hbelow]
      constructor
      · intro hr
        cases hr
        exact ⟨hn, rfl⟩
      · rintro ⟨-, rfl⟩
        rfl
  | case2 n p hp _ ih =>
      rw [List.getLast?_cons_cons, ih, mem_descendants_iff_mem_ancestors h.linked,
        mem_descendants_iff_mem_ancestors h.linked, ancestors_of_parent? hp]
      refine and_congr_right fun hr => ?_
      -- A node with a parent is not the root.
      have hne : n ≠ r := by
        rintro rfl
        simp [hp] at hr
      simp [hne, eq_comm]

theorem idxOf_lt_of_mem_ancestors {m d e : Node a} (hd : d ∈ m.descendants)
    (hde : d ∈ e.ancestors) : m.descendants.idxOf d < m.descendants.idxOf e := by
  obtain ⟨us, vs, heq⟩ := exists_descend_eq hd
  have he : e ∈ d.inside := mem_inside_of_mem_ancestors h.linked hde
  have hnodup := nodup_descendants h.linked m
  rw [descendants] at hnodup ⊢
  rw [heq] at hnodup ⊢
  have hus : ∀ x ∈ d :: (d.inside ++ vs), x ∉ us :=
    fun x hx hu => (List.nodup_append.mp hnodup).2.2 x hu x hx rfl
  have hne : d ≠ e := by
    rintro rfl
    exact not_mem_inside_self d he
  rw [List.idxOf_append_of_notMem (hus d (by simp)),
    List.idxOf_append_of_notMem (hus e (by simp [he])), List.idxOf_cons_self,
    List.idxOf_cons_ne _ hne]
  omega

theorem length_descendants_le (n : Node a) : n.descendants.length ≤ a.size := by
  have hnodup : (n.descendants.map Node.id).Nodup :=
    (nodup_descendants h.linked n).map fun _ _ => ext_id
  have hrange : n.descendants.map Node.id ⊆ List.range a.size := by
    intro i hi
    obtain ⟨m, -, rfl⟩ := List.mem_map.mp hi
    exact List.mem_range.mpr m.id_lt
  simpa using (List.subperm_of_subset hnodup hrange).length_le

/-- Descent and ancestry are dual: the way down from `m` reads the subtree of
`m`, each node once and after all that stand above it, and meets `n` exactly if
`m` is `n` or stands above it; the way up from `n` takes the parents one by one,
and the last of them is the root of the tree. -/
theorem descendants_dual_ancestors (m n : Node a) :
    (m.descendants = m.subtree ∧ m.descendants.length ≤ a.size) ∧
    m.descendants.Nodup ∧
    (n ∈ m.descendants ↔ n = m ∨ m ∈ n.ancestors) ∧
    (∀ d ∈ m.descendants, ∀ e, d ∈ e.ancestors →
      e ∈ m.descendants ∧ m.descendants.idxOf d < m.descendants.idxOf e) ∧
    (∀ k, n.ancestors[k]? = up? (k + 1) n) ∧
    ∀ r, (n :: n.ancestors).getLast? = some r ↔ r.parent? = none ∧ n ∈ r.descendants := by
  refine ⟨⟨descendants_eq_subtree m, length_descendants_le h m⟩, nodup_descendants h.linked m,
    mem_descendants_iff_mem_ancestors h.linked, ?_, getElem?_ancestors n,
    fun r => getLast?_ancestors_iff h⟩
  intro d hd e hde
  refine ⟨?_, idxOf_lt_of_mem_ancestors h hd hde⟩
  rw [mem_descendants_iff_mem_ancestors h.linked] at hd ⊢
  rcases hd with rfl | hd
  · exact .inr hde
  · exact .inr (mem_ancestors_trans hd hde)

end Built

open PropertyHarvest.Tree in
/-- A string in the block of a `try` statement, and a name after the block. -/
def guardedTree : Tree :=
  interior .tryBlock 2 [
    interior .block 2 [interior .expression 3 [token .stringLiteral "\"x\"" 3]],
    token .identifier "e" 4]

/-- From the statement the way down reads the block, the string and then the
name; from the string the way up takes the block and ends at the statement. -/
theorem descendants_dual_ancestors_guardedTree :
    (Arena.ofTree guardedTree).Built ∧
    ∃ statement string : Node (Arena.ofTree guardedTree),
      statement.descendants = statement.subtree ∧
      statement.subtree.map kind =
        [.tryBlock, .block, .expression, .stringLiteral, .identifier] ∧
      string.kind = .stringLiteral ∧ string ∈ statement.descendants ∧
      string.ancestors[1]?.map kind = some .block ∧
      (string :: string.ancestors).getLast? = some statement := by
  have hbuilt : (Arena.ofTree guardedTree).Built := (Arena.wellFormed_ofTree guardedTree).built
  let statement : Node (Arena.ofTree guardedTree) := ⟨4, by decide⟩
  let string : Node (Arena.ofTree guardedTree) := ⟨0, by decide⟩
  obtain ⟨⟨hdown, -⟩, -, hmem, -, hup, hlast⟩ := descendants_dual_ancestors hbuilt statement string
  have hthird : up? 3 string = some statement := by decide
  have habove : string ∈ statement.descendants := by
    rw [hmem]
    refine .inr (List.mem_of_getElem? (i := 2) ?_)
    rw [hup, hthird]
  refine ⟨hbuilt, statement, string, hdown, by decide +kernel, by decide, habove, ?_, ?_⟩
  · rw [hup]
    decide
  · rw [hlast]
    exact ⟨by decide, habove⟩

end Node

end PropertyHarvest
