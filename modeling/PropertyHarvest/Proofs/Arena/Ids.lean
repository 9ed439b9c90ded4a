/-
# Ids and links

Seen from outside, an arena is a table from ids to kinds, texts, lines and three
sorts of links, all of them ids again.  `Arena.Consistent` says that the links
agree with each other: the list of children, the link to the parent and the link
to the next sibling are three tellings of one relation.

That the links of the positions agree is known of every arena that was built
bottom-up (`Links`, `Siblings`).  It is carried over to the ids as long as no
two nodes have the same one (`Built.consistent`).  Beyond that it fails, and
`Construction` has the run that shows it.

Everything in `Consistent` is said of ids and of what can be asked of them.  Kinds,
texts and lines are not in it; what becomes of these is said step by step in
`Construction` (`Arena.Extends`).
-/
import PropertyHarvest.Proofs.Arena.Lineage
import PropertyHarvest.Proofs.Arena.Siblings

namespace PropertyHarvest

namespace Arena

/-- The links of all nodes agree with each other. -/
structure Consistent (a : Arena) : Prop where
  /-- No link leads out of the arena. -/
  links : ∀ id, (∀ c ∈ a.childIds id, a.Has c) ∧ (∀ p ∈ a.parentId? id, a.Has p) ∧
    ∀ s ∈ a.nextSiblingId? id, a.Has s
  mem_childIds_iff : ∀ p c, c ∈ a.childIds p ↔ a.parentId? c = some p
  nextSibling_of_child : ∀ p c k, (a.childIds p)[k]? = some c →
    a.nextSiblingId? c = (a.childIds p)[k + 1]?
  nextSibling_of_root : ∀ c, a.parentId? c = none → a.nextSiblingId? c = none
  child_lt : ∀ p c, c ∈ a.childIds p → c < p
  /-- The way up ends after as many steps as there are larger ids. -/
  up_ends : ∀ id, a.Has id → a.upId? (a.size - id.toNat) id = none
  ancestors : ∀ (n : Node a) (k : Nat), n.ancestors[k]?.map Node.key = a.upId? (k + 1) n.key
  firstChild : ∀ (n : Node a) (k : Nat),
    (n.firstChild?.map Node.key).bind (a.rightId? k) = (a.childIds n.key)[k]?
  lastChild : ∀ n c : Node a, n.lastChild? = some c ↔
    c.key ∈ a.childIds n.key ∧ a.nextSiblingId? c.key = none
  childCount : ∀ n : Node a, n.childCount = (a.childIds n.key).length

/-! ## From positions to ids -/

theorem toNat_idAt {i : Nat} (h : i < UInt32.size) : (idAt i).toNat = i := by
  rw [idAt, UInt32.toNat_ofNat']
  exact Nat.mod_eq_of_lt h

theorem idAt_toNat (id : NodeId) : idAt id.toNat = id :=
  UInt32.ofNat_toNat

section Keys

variable {a : Arena}

theorem exists_key_of_has {id : NodeId} (h : a.Has id) : ∃ n : Node a, n.key = id :=
  ⟨⟨id.toNat, h⟩, idAt_toNat id⟩

theorem slot?_of_not_has {id : NodeId} (h : ¬a.Has id) : a.slot? id = none :=
  Array.getElem?_eq_none_iff.mpr (Nat.le_of_not_lt h)

theorem childIds_of_not_has {id : NodeId} (h : ¬a.Has id) : a.childIds id = [] := by
  rw [childIds, slot?_of_not_has h]
  rfl

theorem parentId?_of_not_has {id : NodeId} (h : ¬a.Has id) : a.parentId? id = none := by
  rw [parentId?, slot?_of_not_has h]
  rfl

theorem nextSiblingId?_of_not_has {id : NodeId} (h : ¬a.Has id) : a.nextSiblingId? id = none := by
  rw [nextSiblingId?, slot?_of_not_has h]
  rfl

variable (hs : a.size ≤ UInt32.size)
include hs

theorem toNat_key (n : Node a) : n.key.toNat = n.id :=
  toNat_idAt (Nat.lt_of_lt_of_le n.id_lt hs)

theorem has_key (n : Node a) : a.Has n.key := by
  rw [Has, toNat_key hs]
  exact n.id_lt

theorem key_injective : Function.Injective (Node.key : Node a → NodeId) := by
  intro n m h
  have hid := congrArg UInt32.toNat h
  rw [toNat_key hs, toNat_key hs] at hid
  exact Node.ext_id hid

theorem slot?_key (n : Node a) : a.slot? n.key = some n.slot := by
  rw [slot?, toNat_key hs]
  exact n.getElem?_slots

theorem childIds_key (n : Node a) : a.childIds n.key = n.children.map Node.key := by
  rw [childIds, slot?_key hs, Option.elim_some, ← n.map_id_children, List.map_map]
  rfl

theorem parentId?_key (n : Node a) : a.parentId? n.key = n.parent?.map Node.key := by
  rw [parentId?, slot?_key hs, Option.bind_some, ← n.map_id_parent?, Option.map_map]
  rfl

theorem nextSiblingId?_key (h : a.Built) (n : Node a) :
    a.nextSiblingId? n.key = n.nextSibling?.map Node.key := by
  rw [nextSiblingId?, slot?_key hs, Option.bind_some, ← n.map_id_nextSibling? h, Option.map_map]
  rfl

theorem upId?_key (k : Nat) (n : Node a) : a.upId? k n.key = (Node.up? k n).map Node.key := by
  induction k generalizing n with
  | zero => rfl
  | succ k ih =>
      rw [upId?, parentId?_key hs, Node.up?]
      cases n.parent? with
      | none => rfl
      | some p => exact ih p

theorem rightId?_key (h : a.Built) (k : Nat) (n : Node a) :
    a.rightId? k n.key = (Node.right? k n).map Node.key := by
  induction k generalizing n with
  | zero => rfl
  | succ k ih =>
      rw [rightId?, nextSiblingId?_key hs h, Node.right?]
      cases n.nextSibling? with
      | none => rfl
      | some m => exact ih m

end Keys

end Arena

/-! ## The way up ends -/

namespace Node

variable {a : Arena}

theorem le_id_of_up? {k : Nat} {n m : Node a} (h : up? k n = some m) : n.id + k ≤ m.id := by
  induction k generalizing n with
  | zero =>
      cases h
      exact Nat.le_refl _
  | succ k ih =>
      obtain ⟨p, hp, hm⟩ := Option.bind_eq_some_iff.mp h
      have hlt := lt_of_parent? hp
      have := ih hm
      omega

theorem up?_eq_none (n : Node a) : up? (a.size - n.id) n = none := by
  cases hup : up? (a.size - n.id) n with
  | none => rfl
  | some m =>
      have hle := le_id_of_up? hup
      have := m.id_lt
      omega

end Node

/-! ## Links by ids -/

namespace Arena

variable {a : Arena} (h : a.Built) (hs : a.size ≤ UInt32.size)
include h hs

theorem mem_childIds_iff (p c : NodeId) : c ∈ a.childIds p ↔ a.parentId? c = some p := by
  by_cases hc : a.Has c
  · obtain ⟨m, rfl⟩ := exists_key_of_has hc
    by_cases hp : a.Has p
    · obtain ⟨n, rfl⟩ := exists_key_of_has hp
      rw [childIds_key hs, parentId?_key hs, List.mem_map_of_injective (key_injective hs),
        Node.mem_children_iff h.linked, Option.map_eq_some_iff]
      constructor
      · exact fun hpar => ⟨n, hpar, rfl⟩
      · rintro ⟨q, hq, he⟩
        rw [hq, key_injective hs he]
    · rw [childIds_of_not_has hp, parentId?_key hs, Option.map_eq_some_iff]
      refine iff_of_false List.not_mem_nil ?_
      rintro ⟨q, -, rfl⟩
      exact hp (has_key hs q)
  · rw [parentId?_of_not_has hc]
    refine iff_of_false (fun hm => hc ?_) fun he => by cases he
    by_cases hp : a.Has p
    · obtain ⟨n, rfl⟩ := exists_key_of_has hp
      rw [childIds_key hs] at hm
      obtain ⟨m, -, rfl⟩ := List.mem_map.mp hm
      exact has_key hs m
    · rw [childIds_of_not_has hp] at hm
      cases hm

theorem nextSiblingId?_of_child {p c : NodeId} {k : Nat} (hc : (a.childIds p)[k]? = some c) :
    a.nextSiblingId? c = (a.childIds p)[k + 1]? := by
  by_cases hp : a.Has p
  · obtain ⟨n, rfl⟩ := exists_key_of_has hp
    rw [childIds_key hs, List.getElem?_map] at hc ⊢
    obtain ⟨m, hm, rfl⟩ := Option.map_eq_some_iff.mp hc
    rw [nextSiblingId?_key hs h, Node.nextSibling?_of_child h hm]
  · rw [childIds_of_not_has hp] at hc
    cases hc

theorem nextSiblingId?_of_root {c : NodeId} (hc : a.parentId? c = none) :
    a.nextSiblingId? c = none := by
  by_cases hhas : a.Has c
  · obtain ⟨m, rfl⟩ := exists_key_of_has hhas
    rw [parentId?_key hs, Option.map_eq_none_iff] at hc
    rw [nextSiblingId?_key hs h, Node.nextSibling?_of_root h hc]
    rfl
  · exact nextSiblingId?_of_not_has hhas

theorem childIds_lt {p c : NodeId} (hc : c ∈ a.childIds p) : c < p := by
  by_cases hp : a.Has p
  · obtain ⟨n, rfl⟩ := exists_key_of_has hp
    rw [childIds_key hs] at hc
    obtain ⟨m, hm, rfl⟩ := List.mem_map.mp hc
    rw [UInt32.lt_iff_toNat_lt, toNat_key hs, toNat_key hs]
    exact Node.lt_of_parent? ((Node.mem_children_iff h.linked).mp hm)
  · rw [childIds_of_not_has hp] at hc
    cases hc

theorem Built.consistent : a.Consistent where
  links := by
    intro id
    by_cases hid : a.Has id
    · obtain ⟨n, rfl⟩ := exists_key_of_has hid
      rw [childIds_key hs, parentId?_key hs, nextSiblingId?_key hs h]
      refine ⟨?_, ?_, ?_⟩
      · intro c hc
        obtain ⟨m, -, rfl⟩ := List.mem_map.mp hc
        exact has_key hs m
      · intro p hp
        obtain ⟨m, -, rfl⟩ := Option.map_eq_some_iff.mp hp
        exact has_key hs m
      · intro s hs'
        obtain ⟨m, -, rfl⟩ := Option.map_eq_some_iff.mp hs'
        exact has_key hs m
    -- The id of no node has no links.
    · rw [childIds_of_not_has hid, parentId?_of_not_has hid, nextSiblingId?_of_not_has hid]
      exact ⟨fun _ hc => (by cases hc), fun _ hp => (by cases hp), fun _ hs => (by cases hs)⟩
  mem_childIds_iff := mem_childIds_iff h hs
  nextSibling_of_child _ _ _ := nextSiblingId?_of_child h hs
  nextSibling_of_root _ := nextSiblingId?_of_root h hs
  child_lt _ _ := childIds_lt h hs
  up_ends := by
    intro id hid
    obtain ⟨n, rfl⟩ := exists_key_of_has hid
    rw [upId?_key hs, toNat_key hs, Node.up?_eq_none]
    rfl
  ancestors n k := by rw [upId?_key hs, Node.getElem?_ancestors]
  firstChild := by
    intro n k
    rw [childIds_key hs, List.getElem?_map, ← Node.bind_right?_firstChild? h]
    cases n.firstChild? with
    | none => rfl
    | some c => exact rightId?_key hs h k c
  lastChild := by
    intro n c
    rw [childIds_key hs, nextSiblingId?_key hs h, List.mem_map_of_injective (key_injective hs),
      Option.map_eq_none_iff]
    exact Node.lastChild?_eq_some_iff h
  childCount n := by
    rw [childIds_key hs, List.length_map, Node.childCount, ← n.map_id_children, List.length_map]

end Arena

end PropertyHarvest
