/-
# Links of an arena

An arena keeps the relation between a node and its children twice: as the list
of children at the parent and as the link to the parent at the child.  The two
agree if the arena is built bottom-up and no node is taken twice:

    c ∈ p.children ↔ c.parent? = some p

`Arena.Built` says how an arena comes about, `Arena.Linked` is what every such
arena has in common, and one push keeps it.

Being built bottom-up is a condition on the way an arena came about and cannot be
read off its slots.  Nothing else is used of it than what `Linked` says, here and in
`Siblings`; only where a new push is to be allowed one has to know of a node that it is
free (`isFree_iff_parent?`).
-/
import Mathlib.Data.List.Nodup
import PropertyHarvest.Arena.Node

namespace PropertyHarvest

/-! ## What linking does to one slot -/

namespace Slots

/-- The slot `i` after the nodes `cs` became the children of `parent`. -/
def taken (parent : Nat) (cs : List Nat) (i : Nat) (s : Slot) : Slot :=
  if i ∈ cs then s.adopted parent cs[cs.idxOf i + 1]? else s

section Taken

variable (parent : Nat) (cs : List Nat) (i : Nat) (s : Slot)

@[simp] theorem tree_taken : (taken parent cs i s).tree = s.tree := by
  unfold taken
  split <;> rfl

@[simp] theorem children_taken : (taken parent cs i s).children = s.children := by
  unfold taken
  split <;> rfl

theorem parent?_taken :
    (taken parent cs i s).parent? = if i ∈ cs then some parent else s.parent? := by
  unfold taken
  split <;> rfl

end Taken

/-- What linking does to the slot of each node. -/
theorem getElem?_link_of_nodup {parent : Nat} {cs : List Nat} (h : cs.Nodup) (slots : Array Slot)
    (i : Nat) : (link parent cs slots)[i]? = slots[i]?.map (taken parent cs i) := by
  induction cs generalizing slots with
  | nil =>
      have htaken : taken parent [] i = id := by
        funext s
        simp [taken]
      simp [link, htaken]
  | cons c rest ih =>
      obtain ⟨hc, hrest⟩ := List.nodup_cons.mp h
      rw [link, ih hrest, Array.getElem?_modify]
      by_cases hci : c = i
      · subst hci
        rw [if_pos rfl, Option.map_map]
        refine Option.map_congr fun s _ => ?_
        simp [taken, hc, List.head?_eq_getElem?]
      · rw [if_neg hci]
        refine Option.map_congr fun s _ => ?_
        have hic : i ≠ c := fun he => hci he.symm
        simp [taken, hic, List.idxOf_cons_ne _ hci]

theorem known_eq_self {slots : Array Slot} {ids : List Nat} (h : ∀ c ∈ ids, c < slots.size) :
    known slots ids = ids :=
  List.filter_eq_self.mpr fun c hc => decide_eq_true (h c hc)

end Slots

namespace Arena

/-! ## How arenas come about -/

/-- The node of this number exists and no other node has taken it. -/
def isFree (a : Arena) (id : Nat) : Bool :=
  a.slots[id]?.any (·.parent?.isNone)

theorem isFree_iff {a : Arena} {id : Nat} :
    a.isFree id = true ↔ ∃ s, a.slots[id]? = some s ∧ s.parent? = none := by
  simp [isFree, Option.any_eq_true]

/-- Arenas built bottom-up: a new node takes only free nodes, each once. -/
inductive Built : Arena → Prop
  | empty : Built empty
  | push {a : Arena} (kind : Kind) (text? : Option String) (line : Nat) {children : List Nat} :
      Built a → children.Nodup → (∀ c ∈ children, a.isFree c = true) →
      Built (a.push kind text? line children)
  | setRoot {a : Arena} (id : Nat) : Built a → Built (a.setRoot id)

/-- A finished tree: built bottom-up, its root taken by no other node. -/
structure WellFormed (a : Arena) : Prop where
  built : a.Built
  root_free : ∀ id ∈ a.rootId?, a.isFree id = true

/-- Children and parents tell the same story, and no child is listed twice. -/
structure Linked (a : Arena) : Prop where
  parent_iff : ∀ {i p : Nat} {s : Slot}, a.slots[i]? = some s →
    (s.parent? = some p ↔ ∃ t, a.slots[p]? = some t ∧ i ∈ t.children)
  nodup_children : ∀ {i : Nat} {s : Slot}, a.slots[i]? = some s → s.children.Nodup

theorem lt_of_isFree {a : Arena} {id : Nat} (h : a.isFree id = true) : id < a.slots.size := by
  obtain ⟨s, hs, -⟩ := isFree_iff.mp h
  exact (Array.getElem?_eq_some_iff.mp hs).1

section Push

variable {a : Arena} (kind : Kind) (text? : Option String) (line : Nat) {children : List Nat}

theorem children_fresh (hf : ∀ c ∈ children, a.isFree c = true) :
    (Slots.fresh a.slots kind text? line children).children = children :=
  Slots.known_eq_self fun c hc => lt_of_isFree (hf c hc)

theorem getElem?_push_of_lt (hn : children.Nodup) (hf : ∀ c ∈ children, a.isFree c = true)
    {i : Nat} (h : i < a.size) : (a.push kind text? line children).slots[i]? =
      a.slots[i]?.map (Slots.taken a.size children i) := by
  have hne : i ≠ a.slots.size := Nat.ne_of_lt h
  show (Slots.append a.slots kind text? line children)[i]? = _
  rw [Slots.append, children_fresh kind text? line hf, Array.getElem?_push, Slots.size_link,
    if_neg hne, Slots.getElem?_link_of_nodup hn]
  rfl

theorem slot_push (hn : children.Nodup) (hf : ∀ c ∈ children, a.isFree c = true) {i : Nat}
    {s : Slot} (h : (a.push kind text? line children).slots[i]? = some s) :
    (i = a.size ∧ s = Slots.fresh a.slots kind text? line children) ∨
    ∃ old, a.slots[i]? = some old ∧ s = Slots.taken a.size children i old := by
  rcases Slots.lt_or_eq_of_append _ _ _ _ _ h with hlt | rfl
  · rw [getElem?_push_of_lt kind text? line hn hf hlt, Option.map_eq_some_iff] at h
    obtain ⟨old, hold, rfl⟩ := h
    exact .inr ⟨old, hold, rfl⟩
  · have hnew := Slots.getElem?_append_size a.slots kind text? line children
    exact .inl ⟨rfl, Option.some.inj (h.symm.trans hnew)⟩

theorem getElem?_push_of_some (hn : children.Nodup) (hf : ∀ c ∈ children, a.isFree c = true)
    {i : Nat} {old : Slot} (h : a.slots[i]? = some old) :
    (a.push kind text? line children).slots[i]? = some (Slots.taken a.size children i old) := by
  have hlt : i < a.size := (Array.getElem?_eq_some_iff.mp h).1
  rw [getElem?_push_of_lt kind text? line hn hf hlt, h, Option.map_some]

theorem linked_push (h : a.Linked) (hn : children.Nodup)
    (hf : ∀ c ∈ children, a.isFree c = true) : (a.push kind text? line children).Linked where
  parent_iff := by
    intro i p s hs
    have hfresh := children_fresh kind text? line hf
    rcases slot_push kind text? line hn hf hs with ⟨rfl, rfl⟩ | ⟨old, ho, rfl⟩
    · -- The new node has no parent, and nobody lists a number that is not yet given out.
      constructor
      · intro hp
        cases hp
      rintro ⟨t, ht, hm⟩
      rcases slot_push kind text? line hn hf ht with ⟨-, rfl⟩ | ⟨oldp, hop, rfl⟩
      · rw [hfresh] at hm
        exact absurd (lt_of_isFree (hf _ hm)) (Nat.lt_irrefl _)
      · rw [Slots.children_taken] at hm
        exact absurd (a.child_lt hop hm) (Nat.lt_irrefl _)
    · rw [Slots.parent?_taken]
      by_cases hi : i ∈ children
      · -- A free node has been taken: its one parent is the new node.
        rw [if_pos hi, Option.some.injEq]
        constructor
        · rintro rfl
          exact ⟨_, Slots.getElem?_append_size a.slots kind text? line children, hfresh.symm ▸ hi⟩
        · rintro ⟨t, ht, hm⟩
          rcases slot_push kind text? line hn hf ht with ⟨hpn, -⟩ | ⟨oldp, hop, rfl⟩
          · exact hpn.symm
          · obtain ⟨old', ho', hfree⟩ := isFree_iff.mp (hf i hi)
            rw [Slots.children_taken] at hm
            rw [(h.parent_iff ho').mpr ⟨oldp, hop, hm⟩] at hfree
            cases hfree
      · rw [if_neg hi, h.parent_iff ho]
        constructor
        · rintro ⟨oldp, hop, hm⟩
          refine ⟨_, getElem?_push_of_some kind text? line hn hf hop, ?_⟩
          rwa [Slots.children_taken]
        · rintro ⟨t, ht, hm⟩
          rcases slot_push kind text? line hn hf ht with ⟨-, rfl⟩ | ⟨oldp, hop, rfl⟩
          · exact absurd (hfresh ▸ hm) hi
          · rw [Slots.children_taken] at hm
            exact ⟨oldp, hop, hm⟩
  nodup_children := by
    intro i s hs
    rcases slot_push kind text? line hn hf hs with ⟨-, rfl⟩ | ⟨old, ho, rfl⟩
    · rw [children_fresh kind text? line hf]
      exact hn
    · rw [Slots.children_taken]
      exact h.nodup_children ho

end Push

theorem Built.linked {a : Arena} (h : a.Built) : a.Linked := by
  induction h with
  | empty => exact ⟨fun h => by simp [Arena.empty] at h, fun h => by simp [Arena.empty] at h⟩
  | push kind text? line _ hn hf ih => exact linked_push kind text? line ih hn hf
  | setRoot id _ ih => exact ⟨ih.parent_iff, ih.nodup_children⟩

end Arena

namespace Node

variable {a : Arena}

/-! ## Links between nodes -/

theorem ext_id {n m : Node a} (h : n.id = m.id) : n = m := by
  cases n
  cases m
  cases h
  rfl

theorem id_of_node? {i : Nat} {n : Node a} (h : a.node? i = some n) : n.id = i := by
  rw [Arena.node?] at h
  split at h
  · cases h
    rfl
  · cases h

theorem node?_id (n : Node a) : a.node? n.id = some n :=
  dif_pos n.id_lt

theorem map_id_children (n : Node a) : n.children.map Node.id = n.slot.children := by
  rw [children, List.map_map]
  exact List.attach_map_subtype_val _

theorem mem_children_iff_id {n c : Node a} : c ∈ n.children ↔ c.id ∈ n.slot.children := by
  rw [← map_id_children, List.mem_map]
  exact ⟨fun h => ⟨c, h, rfl⟩, fun ⟨_, hd, he⟩ => ext_id he ▸ hd⟩

theorem parent?_eq_some_iff {n p : Node a} : n.parent? = some p ↔ n.slot.parent? = some p.id := by
  rw [parent?]
  constructor
  · intro h
    obtain ⟨i, hi, hn⟩ := Option.bind_eq_some_iff.mp h
    rw [hi, id_of_node? hn]
  · intro h
    rw [h, Option.bind_some, node?_id]

/-- A node without a parent link has no parent, and the other way round. -/
theorem parent?_eq_none_iff {n : Node a} : n.parent? = none ↔ n.slot.parent? = none := by
  constructor
  · intro h
    cases hp : n.slot.parent? with
    | none => rfl
    | some i =>
        have hi : i < a.size := (a.lt_parent n.id _ n.getElem?_slots i hp).2
        rw [(parent?_eq_some_iff (p := ⟨i, hi⟩)).mpr hp] at h
        cases h
  · intro h
    rw [parent?, h, Option.bind_none]

theorem isFree_iff_parent? {n : Node a} : a.isFree n.id = true ↔ n.parent? = none := by
  rw [Arena.isFree_iff, parent?_eq_none_iff]
  simp [n.getElem?_slots]

theorem mem_children_iff (h : a.Linked) {p c : Node a} :
    c ∈ p.children ↔ c.parent? = some p := by
  rw [mem_children_iff_id, parent?_eq_some_iff, h.parent_iff c.getElem?_slots]
  simp [p.getElem?_slots]

theorem nodup_children (h : a.Linked) (n : Node a) : n.children.Nodup := by
  refine List.Nodup.of_map Node.id ?_
  rw [map_id_children]
  exact h.nodup_children n.getElem?_slots

end Node

end PropertyHarvest
