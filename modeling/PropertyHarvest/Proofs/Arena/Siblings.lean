/-
# Siblings

The links to the next sibling repeat what the lists of children say: behind the
child at place `k` of a list stands the child at place `k + 1`, and a node that
is nobody's child has nothing behind it.  `Arena.Threaded` says so of the slots
and is kept by every push, because a push links only nodes that nobody has
taken (`threaded_push`).  Hence the children of a node can be read from link to
link, from the first child on, and the last child is the one without a link.

A node that was taken twice would keep the link of the first time where it comes last
the second time; that is why this is about arenas that were built bottom-up and not
about all of them.  Of the order in which siblings were added nothing is said.  It
need not be the order in which they stand.
-/
import PropertyHarvest.Proofs.Arena.Links

namespace PropertyHarvest

namespace Arena

/-- The links to the next sibling follow the lists of children. -/
structure Threaded (a : Arena) : Prop where
  next_of_child : ∀ {p : Nat} {t : Slot}, a.slots[p]? = some t → ∀ {k i : Nat},
    t.children[k]? = some i → ∀ {s : Slot}, a.slots[i]? = some s →
      s.nextSibling? = t.children[k + 1]?
  next_of_root : ∀ {i : Nat} {s : Slot}, a.slots[i]? = some s → s.parent? = none →
    s.nextSibling? = none

theorem threaded_push {a : Arena} (kind : Kind) (text? : Option String) (line : Nat)
    {children : List Nat} (hl : a.Linked) (ht : a.Threaded) (hn : children.Nodup)
    (hf : ∀ c ∈ children, a.isFree c = true) : (a.push kind text? line children).Threaded where
  next_of_child := by
    intro p t hp k i hk s hs
    rcases slot_push kind text? line hn hf hp with ⟨rfl, rfl⟩ | ⟨told, htold, rfl⟩
    · -- The new node: its list is `children`, and a child stands at one place of it.
      rw [children_fresh kind text? line hf] at hk ⊢
      have hi : i ∈ children := List.mem_of_getElem? hk
      have hplace : children.idxOf i = k := by
        obtain ⟨hlt, rfl⟩ := List.getElem?_eq_some_iff.mp hk
        exact hn.idxOf_getElem k hlt
      rcases slot_push kind text? line hn hf hs with ⟨rfl, -⟩ | ⟨old, hold, rfl⟩
      · exact absurd (lt_of_isFree (hf _ hi)) (Nat.lt_irrefl _)
      · -- It was free, so there was nothing behind it.
        obtain ⟨free, hfree, hp⟩ := isFree_iff.mp (hf i hi)
        obtain rfl : old = free := Option.some.inj (hold.symm.trans hfree)
        rw [Slots.taken, if_pos hi, Slot.adopted, hplace, ht.next_of_root hold hp, Option.or_none]
    · -- An old node: its children were not free, so the push left them alone.
      rw [Slots.children_taken] at hk ⊢
      have hi : i ∈ told.children := List.mem_of_getElem? hk
      rcases slot_push kind text? line hn hf hs with ⟨rfl, -⟩ | ⟨old, hold, rfl⟩
      · exact absurd (a.child_lt htold hi) (Nat.lt_irrefl _)
      · have htaken : i ∉ children := by
          intro hc
          obtain ⟨s, hs, hfree⟩ := isFree_iff.mp (hf i hc)
          rw [(hl.parent_iff hs).mpr ⟨told, htold, hi⟩] at hfree
          cases hfree
        rw [Slots.taken, if_neg htaken]
        exact ht.next_of_child htold hk hold
  next_of_root := by
    intro i s hs hp
    rcases slot_push kind text? line hn hf hs with ⟨rfl, rfl⟩ | ⟨old, hold, rfl⟩
    · rfl
    · by_cases hi : i ∈ children
      · rw [Slots.parent?_taken, if_pos hi] at hp
        cases hp
      · rw [Slots.taken, if_neg hi] at hp ⊢
        exact ht.next_of_root hold hp

theorem Built.threaded {a : Arena} (h : a.Built) : a.Threaded := by
  induction h with
  | empty => exact ⟨fun h => by simp [Arena.empty] at h, fun h => by simp [Arena.empty] at h⟩
  | push kind text? line hb hn hf ih => exact threaded_push kind text? line hb.linked ih hn hf
  | setRoot id _ ih => exact ⟨ih.next_of_child, ih.next_of_root⟩

end Arena

namespace Node

variable {a : Arena}

/-! ## Links between nodes -/

theorem bind_node?_map_id (n? : Option (Node a)) : (n?.map Node.id).bind a.node? = n? := by
  cases n? with
  | none => rfl
  | some n => exact node?_id n

theorem map_id_parent? (n : Node a) : n.parent?.map Node.id = n.slot.parent? := by
  cases hp : n.parent? with
  | none => exact (parent?_eq_none_iff.mp hp).symm
  | some p => exact (parent?_eq_some_iff.mp hp).symm

section Built

variable (h : a.Built)
include h

theorem slot_nextSibling?_of_child {p c : Node a} {k : Nat} (hc : p.children[k]? = some c) :
    c.slot.nextSibling? = p.children[k + 1]?.map Node.id := by
  have hk : p.slot.children[k]? = some c.id := by
    rw [← map_id_children, List.getElem?_map, hc]
    rfl
  rw [h.threaded.next_of_child p.getElem?_slots hk c.getElem?_slots, ← map_id_children,
    List.getElem?_map]

/-- Behind a child stands the next one of the list. -/
theorem nextSibling?_of_child {p c : Node a} {k : Nat} (hc : p.children[k]? = some c) :
    c.nextSibling? = p.children[k + 1]? := by
  rw [nextSibling?, slot_nextSibling?_of_child h hc, bind_node?_map_id]

theorem slot_nextSibling?_of_root {c : Node a} (hc : c.parent? = none) :
    c.slot.nextSibling? = none :=
  h.threaded.next_of_root c.getElem?_slots (parent?_eq_none_iff.mp hc)

theorem nextSibling?_of_root {c : Node a} (hc : c.parent? = none) : c.nextSibling? = none := by
  rw [nextSibling?, slot_nextSibling?_of_root h hc, Option.bind_none]

theorem map_id_nextSibling? (c : Node a) : c.nextSibling?.map Node.id = c.slot.nextSibling? := by
  cases hp : c.parent? with
  | none => rw [nextSibling?_of_root h hp, slot_nextSibling?_of_root h hp, Option.map_none]
  | some p =>
      obtain ⟨k, hk⟩ := List.getElem?_of_mem ((mem_children_iff h.linked).mpr hp)
      rw [nextSibling?_of_child h hk, slot_nextSibling?_of_child h hk]

/-! ## From link to link -/

/-- The node that `k` links to the right lead to. -/
def right? : Nat → Node a → Option (Node a)
  | 0, n => some n
  | k + 1, n => n.nextSibling?.bind (right? k)

theorem right?_of_child {p c : Node a} {i : Nat} (hc : p.children[i]? = some c) (k : Nat) :
    right? k c = p.children[i + k]? := by
  induction k generalizing i c with
  | zero => exact hc.symm
  | succ k ih =>
      rw [right?, nextSibling?_of_child h hc]
      cases hnext : p.children[i + 1]? with
      | none =>
          have hlong : p.children.length ≤ i + 1 := List.getElem?_eq_none_iff.mp hnext
          rw [Option.bind_none, List.getElem?_eq_none (by omega)]
      | some d => rw [Option.bind_some, ih hnext, Nat.add_right_comm, Nat.add_assoc]

/-- From the first child on, link for link, the list of children is read. -/
theorem bind_right?_firstChild? (n : Node a) (k : Nat) :
    n.firstChild?.bind (right? k) = n.children[k]? := by
  rw [firstChild?, List.head?_eq_getElem?]
  cases hfirst : n.children[0]? with
  | none =>
      have hlong : n.children.length ≤ 0 := List.getElem?_eq_none_iff.mp hfirst
      rw [Option.bind_none, List.getElem?_eq_none (by omega)]
  | some c => rw [Option.bind_some, right?_of_child h hfirst, Nat.zero_add]

theorem lastChild?_eq_some_iff {n c : Node a} :
    n.lastChild? = some c ↔ c ∈ n.children ∧ c.nextSibling? = none := by
  rw [lastChild?, List.getLast?_eq_getElem?]
  constructor
  · intro hc
    refine ⟨List.mem_of_getElem? hc, ?_⟩
    rw [nextSibling?_of_child h hc, List.getElem?_eq_none_iff]
    omega
  · rintro ⟨hc, hnext⟩
    obtain ⟨k, hk⟩ := List.getElem?_of_mem hc
    have hlt : k < n.children.length := (List.getElem?_eq_some_iff.mp hk).1
    rw [nextSibling?_of_child h hk, List.getElem?_eq_none_iff] at hnext
    have hlast : n.children.length - 1 = k := by omega
    rw [hlast, hk]

end Built

end Node

end PropertyHarvest
