/-
# The construction of an arena

An arena is built step by step: a token, a node over nodes that were added
before, or the choice of the root.  A run of steps is proper if each new node is
given ids that were returned before, all different and none of them given to
another node (`Construction.Proper`).

After every step of a proper run that adds at most 2 ^ 32 nodes, the links of all
nodes agree with each other (`Arena.Consistent`), and the step has added the node
that it describes and has changed nothing else but the links of the nodes that it
was given (`Arena.Extends`).

The bound is sharp.  The node that is added behind 2 ^ 32 others gets the id of
the first of them again, and its child is then told a parent that does not list
it (`not_consistent_overflowing`).  Of positions nothing of the kind can be said:
they agree in every proper run, however long (`Construction.Sound`).

What is not proper is not described: if a node is given twice, its link to the
parent is that of the last time, and both parents list it.  Nor is it said what an id that
was never returned leads to.
-/
import Mathlib.Data.List.Induction
import PropertyHarvest.Proofs.Arena.Ids

namespace PropertyHarvest

open Arena (idAt toNat_idAt idAt_toNat)

/-! ## Steps -/

/-- A step of a construction. -/
inductive BuildStep where
  | token (kind : Kind) (text : String) (line : Nat)
  | node (kind : Kind) (line : Nat) (children : List NodeId)
  | root (id : NodeId)

namespace BuildStep

def children : BuildStep → List NodeId
  | node _ _ cs => cs
  | _ => []

def addsNode : BuildStep → Bool
  | root _ => false
  | _ => true

def label? : BuildStep → Option (Kind × Option String × Nat)
  | token kind text line => some (kind, some text, line)
  | node kind line _ => some (kind, none, line)
  | root _ => none

end BuildStep

/-- What was built, the ids that were returned on the way, and those that were
given to a node. -/
structure Construction where
  arena : Arena := .empty
  returned : List NodeId := []
  given : List NodeId := []

namespace Construction

def next (b : Construction) : BuildStep → Construction
  | .token kind text line =>
    { b with arena := b.arena.addToken kind text line
             returned := b.returned ++ [idAt b.arena.size] }
  | .node kind line cs =>
    { arena := b.arena.addNode kind line (cs.map UInt32.toNat)
      returned := b.returned ++ [idAt b.arena.size]
      given := b.given ++ cs }
  | .root id => { b with arena := b.arena.setRoot id.toNat }

def ofSteps (steps : List BuildStep) : Construction :=
  steps.foldl next {}

/-- A new node is given different ids that were returned and not yet given. -/
def Admits (b : Construction) (s : BuildStep) : Prop :=
  s.children.Nodup ∧ ∀ c ∈ s.children, c ∈ b.returned ∧ c ∉ b.given

instance (b : Construction) (s : BuildStep) : Decidable (b.Admits s) :=
  -- Each of the children is looked at, and not each id that there is.
  have : Decidable (∀ c ∈ s.children, c ∈ b.returned ∧ c ∉ b.given) := List.decidableBAll _ _
  inferInstanceAs (Decidable (_ ∧ _))

/-- Each step of a run is admitted by what the steps before it have built. -/
def Proper (steps : List BuildStep) : Prop :=
  ∀ i (hi : i < steps.length), (ofSteps (steps.take i)).Admits steps[i]

instance (steps : List BuildStep) : Decidable (Proper steps) :=
  inferInstanceAs (Decidable (∀ i (_ : i < steps.length), _))

theorem ofSteps_append_singleton (steps : List BuildStep) (s : BuildStep) :
    ofSteps (steps ++ [s]) = (ofSteps steps).next s := by
  rw [ofSteps, List.foldl_append]
  rfl

theorem ofSteps_take_succ {steps : List BuildStep} {i : Nat} (hi : i < steps.length) :
    ofSteps (steps.take (i + 1)) = (ofSteps (steps.take i)).next steps[i] := by
  rw [List.take_succ_eq_append_getElem hi, ofSteps_append_singleton]

theorem Proper.append_singleton {steps : List BuildStep} (h : Proper steps) {s : BuildStep}
    (hs : (ofSteps steps).Admits s) : Proper (steps ++ [s]) := by
  intro i hi
  rw [List.length_append, List.length_singleton] at hi
  by_cases hlt : i < steps.length
  · rw [List.take_append_of_le_length (Nat.le_of_lt hlt), List.getElem_append_left hlt]
    exact h i hlt
  · obtain rfl : i = steps.length := by omega
    rw [List.take_left, List.getElem_concat_length rfl]
    exact hs

end Construction

/-- What a step makes of an arena. -/
structure Arena.Extends (a : Arena) (s : BuildStep) (a' : Arena) : Prop where
  size : a'.size = a.size + s.addsNode.toNat
  /-- An old node keeps its kind, its text, its line and its children. -/
  content : ∀ id, a.Has id → a'.label? id = a.label? id ∧ a'.childIds id = a.childIds id
  /-- An old node keeps its links unless it is given to the new node. -/
  links : ∀ id, a.Has id → id ∉ s.children →
    a'.parentId? id = a.parentId? id ∧ a'.nextSiblingId? id = a.nextSiblingId? id
  added : ∀ label, s.label? = some label → a'.label? (idAt a.size) = some label ∧
    a'.childIds (idAt a.size) = s.children ∧ a'.parentId? (idAt a.size) = none

/-! ## One step -/

namespace Arena

section Push

variable {a : Arena} (kind : Kind) (text? : Option String) (line : Nat)

theorem isFree_push_iff {children : List Nat} (hn : children.Nodup)
    (hf : ∀ c ∈ children, a.isFree c = true) {i : Nat} :
    (a.push kind text? line children).isFree i = true ↔
      i = a.size ∨ a.isFree i = true ∧ i ∉ children := by
  constructor
  · intro hi
    obtain ⟨s, hs, hp⟩ := isFree_iff.mp hi
    rcases slot_push kind text? line hn hf hs with ⟨hnew, -⟩ | ⟨old, hold, rfl⟩
    · exact .inl hnew
    · rw [Slots.parent?_taken] at hp
      split at hp
      · cases hp
      · exact .inr ⟨isFree_iff.mpr ⟨old, hold, hp⟩, ‹_›⟩
  · rintro (rfl | ⟨hi, hc⟩)
    · exact isFree_iff.mpr ⟨_, Slots.getElem?_append_size a.slots kind text? line children, rfl⟩
    · obtain ⟨old, hold, hp⟩ := isFree_iff.mp hi
      refine isFree_iff.mpr ⟨_, getElem?_push_of_some kind text? line hn hf hold, ?_⟩
      rw [Slots.parent?_taken, if_neg hc, hp]

variable {ids : List NodeId}

theorem nodup_positions (h : ids.Nodup) : (ids.map UInt32.toNat).Nodup :=
  h.map fun _ _ => UInt32.toNat_inj.mp

theorem mem_positions_iff {id : NodeId} : id.toNat ∈ ids.map UInt32.toNat ↔ id ∈ ids :=
  List.mem_map_of_injective fun _ _ => UInt32.toNat_inj.mp

variable (hn : ids.Nodup) (hf : ∀ c ∈ ids.map UInt32.toNat, a.isFree c = true)
include hn hf

theorem slot?_push {id : NodeId} (hid : a.Has id) :
    (a.push kind text? line (ids.map UInt32.toNat)).slot? id =
      (a.slot? id).map (Slots.taken a.size (ids.map UInt32.toNat) id.toNat) :=
  getElem?_push_of_lt kind text? line (nodup_positions hn) hf hid

/-- A push extends an arena as a step says that names the new node's children
and its label. -/
theorem extends_push {s : BuildStep} (hadds : s.addsNode = true) (hids : s.children = ids)
    (hlabel : s.label? = some (kind, text?, line)) (hsize : a.size < UInt32.size) :
    a.Extends s (a.push kind text? line (ids.map UInt32.toNat)) where
  size := by
    rw [hadds]
    exact Slots.size_append a.slots kind text? line _
  content := by
    intro id hid
    rw [label?, label?, childIds, childIds, slot?_push kind text? line hn hf hid]
    cases a.slot? id with
    | none => exact ⟨rfl, rfl⟩
    | some old => simp
  links := by
    intro id hid hgiven
    have hother : id.toNat ∉ ids.map UInt32.toNat := by
      rw [mem_positions_iff, ← hids]
      exact hgiven
    rw [parentId?, parentId?, nextSiblingId?, nextSiblingId?,
      slot?_push kind text? line hn hf hid]
    cases a.slot? id with
    | none => exact ⟨rfl, rfl⟩
    | some old =>
        rw [Option.map_some, Slots.taken, if_neg hother]
        exact ⟨rfl, rfl⟩
  added := by
    intro label hl
    have hslot : (a.push kind text? line (ids.map UInt32.toNat)).slot? (idAt a.size) =
        some (Slots.fresh a.slots kind text? line (ids.map UInt32.toNat)) := by
      rw [slot?, toNat_idAt hsize]
      exact Slots.getElem?_append_size a.slots kind text? line _
    have hchildren : (ids.map UInt32.toNat).map idAt = ids := by
      rw [List.map_map]
      exact (List.map_congr_left fun id _ => idAt_toNat id).trans (List.map_id ids)
    rw [Arena.label?, childIds, parentId?, hslot, hids]
    refine ⟨?_, ?_, rfl⟩
    · rw [← hl, hlabel]
      rfl
    · rw [Option.elim_some, children_fresh kind text? line hf, hchildren]

end Push

theorem extends_setRoot (a : Arena) (id : NodeId) :
    a.Extends (.root id) (a.setRoot id.toNat) where
  size := rfl
  content := fun _ _ => ⟨rfl, rfl⟩
  links := fun _ _ _ => ⟨rfl, rfl⟩
  added := fun _ hl => by cases hl

end Arena

namespace Construction

/-- What every proper run keeps: the arena is built bottom-up, the ids of all its
positions were returned, and the nodes that nobody has taken are those whose ids
were not yet given. -/
structure Sound (b : Construction) : Prop where
  built : b.arena.Built
  returned : b.returned = (List.range b.arena.size).map idAt
  given_lt : ∀ c ∈ b.given, b.arena.Has c
  free_iff : ∀ c, b.arena.Has c → (b.arena.isFree c.toNat = true ↔ c ∉ b.given)

theorem sound_start : Sound {} where
  built := .empty
  returned := rfl
  given_lt := fun _ h => nomatch h
  free_iff := fun _ h => nomatch h

variable {b : Construction}

theorem Sound.isFree_of_admits (h : b.Sound) {s : BuildStep} (hs : b.Admits s) :
    ∀ c ∈ s.children.map UInt32.toNat, b.arena.isFree c = true := by
  intro i hi
  obtain ⟨c, hc, rfl⟩ := List.mem_map.mp hi
  obtain ⟨hreturned, hgiven⟩ := hs.2 c hc
  rw [h.returned, List.mem_map] at hreturned
  obtain ⟨i, hposition, rfl⟩ := hreturned
  -- An id leads to a node even if its position was cut.
  have hle : (idAt i).toNat ≤ i := by
    rw [idAt, UInt32.toNat_ofNat']
    exact Nat.mod_le _ _
  exact (h.free_iff _ (Nat.lt_of_le_of_lt hle (List.mem_range.mp hposition))).mpr hgiven

theorem Sound.push (h : b.Sound) (kind : Kind) (text? : Option String) (line : Nat)
    {ids : List NodeId} (hn : ids.Nodup)
    (hf : ∀ c ∈ ids.map UInt32.toNat, b.arena.isFree c = true) :
    Sound ⟨b.arena.push kind text? line (ids.map UInt32.toNat), b.returned ++ [idAt b.arena.size],
      b.given ++ ids⟩ where
  built := .push kind text? line h.built (Arena.nodup_positions hn) hf
  returned := by
    show b.returned ++ [idAt b.arena.size] =
      (List.range (Slots.append b.arena.slots kind text? line _).size).map idAt
    rw [Slots.size_append, List.range_succ, List.map_append, h.returned]
    rfl
  given_lt := by
    intro c hc
    show c.toNat < (Slots.append b.arena.slots kind text? line _).size
    rw [Slots.size_append]
    rcases List.mem_append.mp hc with hc | hc
    · exact Nat.lt_succ_of_lt (h.given_lt c hc)
    · exact Nat.lt_succ_of_lt (Arena.lt_of_isFree (hf _ (List.mem_map_of_mem hc)))
  free_iff := by
    intro c hc
    change c.toNat < (Slots.append b.arena.slots kind text? line _).size at hc
    rw [Slots.size_append] at hc
    rw [Arena.isFree_push_iff kind text? line (Arena.nodup_positions hn) hf,
      Arena.mem_positions_iff, List.mem_append, not_or]
    -- Of the old nodes those given to this one are no longer free; the new one is.
    rcases Nat.lt_succ_iff_lt_or_eq.mp hc with hlt | heq
    · rw [h.free_iff c hlt]
      have hne : c.toNat ≠ b.arena.size := Nat.ne_of_lt hlt
      simp [hne]
    · have hgiven : c ∉ b.given := fun hg => Nat.ne_of_lt (h.given_lt c hg) heq
      have hids : c ∉ ids := fun hm =>
        Nat.ne_of_lt (Arena.lt_of_isFree (hf _ (List.mem_map_of_mem hm))) heq
      exact iff_of_true (.inl heq) ⟨hgiven, hids⟩

theorem Sound.next (h : b.Sound) {s : BuildStep} (hs : b.Admits s) : (b.next s).Sound := by
  have hf := h.isFree_of_admits hs
  cases s with
  | token kind text line =>
      have hpush : Sound ⟨b.arena.push kind (some text) line [],
          b.returned ++ [idAt b.arena.size], b.given ++ []⟩ :=
        h.push kind (some text) line List.nodup_nil hf
      rwa [List.append_nil] at hpush
  | node kind line cs => exact h.push kind none line hs.1 hf
  | root id => exact ⟨.setRoot id.toNat h.built, h.returned, h.given_lt, h.free_iff⟩

theorem size_next (b : Construction) (s : BuildStep) :
    (b.next s).arena.size = b.arena.size + s.addsNode.toNat := by
  cases s with
  | token kind text line => exact Slots.size_append _ _ _ _ _
  | node kind line cs => exact Slots.size_append _ _ _ _ _
  | root id => rfl

theorem Sound.extends (h : b.Sound) {s : BuildStep} (hs : b.Admits s)
    (hsize : (b.next s).arena.size ≤ UInt32.size) : b.arena.Extends s (b.next s).arena := by
  have hf := h.isFree_of_admits hs
  rw [size_next] at hsize
  cases s with
  | token kind text line =>
      exact Arena.extends_push kind (some text) line List.nodup_nil hf rfl rfl rfl hsize
  | node kind line cs => exact Arena.extends_push kind none line hs.1 hf rfl rfl rfl hsize
  | root id => exact Arena.extends_setRoot b.arena id

/-! ## A run -/

theorem sound_ofSteps_take {steps : List BuildStep} (h : Proper steps) (i : Nat) :
    (ofSteps (steps.take i)).Sound := by
  induction i with
  | zero => exact sound_start
  | succ i ih =>
      by_cases hi : i < steps.length
      · rw [ofSteps_take_succ hi]
        exact ih.next (h i hi)
      · have hlong : steps.length ≤ i := Nat.le_of_not_lt hi
        rw [List.take_of_length_le (Nat.le_succ_of_le hlong)]
        rwa [List.take_of_length_le hlong] at ih

theorem sound_ofSteps {steps : List BuildStep} (h : Proper steps) : (ofSteps steps).Sound := by
  have hall := sound_ofSteps_take h steps.length
  rwa [List.take_length] at hall

theorem size_ofSteps (steps : List BuildStep) :
    (ofSteps steps).arena.size = steps.countP BuildStep.addsNode := by
  induction steps using List.reverseRecOn with
  | nil => rfl
  | append_singleton steps s ih =>
      rw [ofSteps_append_singleton, size_next, ih, List.countP_append, List.countP_singleton]
      cases s <;> rfl

theorem size_ofSteps_take_le (steps : List BuildStep) (i : Nat) :
    (ofSteps (steps.take i)).arena.size ≤ steps.countP BuildStep.addsNode := by
  rw [size_ofSteps]
  exact (List.take_sublist i steps).countP_le

/-- At every point of a proper run that adds at most 2 ^ 32 nodes the links agree
with each other, and the next step adds the node that it describes and leaves all
else as it was. -/
theorem consistent_of_proper {steps : List BuildStep} (h : Proper steps)
    (hsize : steps.countP BuildStep.addsNode ≤ UInt32.size) (i : Nat) :
    (ofSteps (steps.take i)).arena.Consistent ∧
    ∀ hi : i < steps.length,
      (ofSteps (steps.take i)).arena.Extends steps[i] (ofSteps (steps.take (i + 1))).arena := by
  have hbound (j : Nat) : (ofSteps (steps.take j)).arena.size ≤ UInt32.size :=
    Nat.le_trans (size_ofSteps_take_le steps j) hsize
  refine ⟨(sound_ofSteps_take h i).built.consistent (hbound i), fun hi => ?_⟩
  have hnext := hbound (i + 1)
  rw [ofSteps_take_succ hi] at hnext ⊢
  exact (sound_ofSteps_take h i).extends (h i hi) hnext

/-- Three tokens, of which two go to one node and the third to another over it,
an empty node, and a root that is named before all is built. -/
def twoLevels : List BuildStep :=
  [.token .identifier "a" 1, .token .identifier "b" 1, .node .block 1 [0, 1], .root 2,
    .token .identifier "c" 2, .node .argumentList 2 [], .node .block 1 [3, 2, 4], .root 5]

theorem consistent_of_proper_twoLevels :
    Proper twoLevels ∧ (ofSteps twoLevels).arena.Consistent ∧
    ((ofSteps (twoLevels.take 6)).arena.Extends (.node .block 1 [3, 2, 4])
      (ofSteps (twoLevels.take 7)).arena) ∧
    (ofSteps twoLevels).arena.childIds 5 = [3, 2, 4] ∧
    (ofSteps twoLevels).arena.parentId? 1 = some 2 ∧
    (ofSteps twoLevels).arena.nextSiblingId? 2 = some 4 := by
  have hproper : Proper twoLevels := by decide
  have hsize : twoLevels.countP BuildStep.addsNode ≤ UInt32.size := by decide
  exact ⟨hproper, (consistent_of_proper hproper hsize 8).1,
    (consistent_of_proper hproper hsize 6).2 (by decide), by decide, by decide, by decide⟩

/-! ## More nodes than ids -/

/-- So many tokens, and a node over the sixth of them. -/
def tokensAndNode (n : Nat) : List BuildStep :=
  List.replicate n (.token .identifier "" 1) ++ [.node .block 1 [5]]

theorem proper_tokens (n : Nat) :
    Proper (List.replicate n (.token .identifier "" 1)) ∧
      (ofSteps (List.replicate n (.token .identifier "" 1))).given = [] ∧
      ∀ (i : Nat) (s : Slot),
        (ofSteps (List.replicate n (.token .identifier "" 1))).arena.slots[i]? = some s →
          s.children = [] := by
  induction n with
  | zero => exact ⟨fun i hi => (nomatch hi), rfl, fun i s hs => (nomatch hs)⟩
  | succ n ih =>
      obtain ⟨hproper, hgiven, hchildren⟩ := ih
      rw [List.replicate_succ', ofSteps_append_singleton]
      refine ⟨hproper.append_singleton ⟨List.nodup_nil, fun c hc => nomatch hc⟩, hgiven, ?_⟩
      intro i s hs
      rcases Arena.slot_push .identifier (some "") 1 List.nodup_nil (fun c hc => nomatch hc) hs with
        ⟨-, hnew⟩ | ⟨old, hold, htaken⟩
      · rw [hnew]
        rfl
      · rw [htaken, Slots.children_taken]
        exact hchildren i old hold

theorem size_tokens (n : Nat) :
    (ofSteps (List.replicate n (.token .identifier "" 1))).arena.size = n := by
  rw [size_ofSteps, List.countP_replicate]
  rfl

theorem admits_node_of_tokens {n : Nat} (hn : 5 < n) :
    (ofSteps (List.replicate n (.token .identifier "" 1))).Admits (.node .block 1 [5]) := by
  obtain ⟨hproper, hgiven, -⟩ := proper_tokens n
  refine ⟨List.nodup_singleton 5, fun c hc => ?_⟩
  rw [List.mem_singleton.mp hc, (sound_ofSteps hproper).returned, hgiven, size_tokens]
  exact ⟨List.mem_map.mpr ⟨5, List.mem_range.mpr hn, rfl⟩, List.not_mem_nil⟩

/-- The child of the node is told the id at position `n`, and a token, if it is
one that has this id, lists nothing. -/
theorem links_tokensAndNode {n : Nat} (hn : 5 < n) {id : NodeId} (hid : id.toNat < n) :
    (ofSteps (tokensAndNode n)).arena.parentId? 5 = some (idAt n) ∧
      (ofSteps (tokensAndNode n)).arena.childIds id = [] := by
  obtain ⟨hproper, -, hchildren⟩ := proper_tokens n
  have hadmits := admits_node_of_tokens hn
  have hf := (sound_ofSteps hproper).isFree_of_admits hadmits
  have hsize := size_tokens n
  rw [tokensAndNode, ofSteps_append_singleton]
  generalize ofSteps (List.replicate n (.token .identifier "" 1)) = b at *
  have hslot {c : NodeId} (hc : c.toNat < n) : (b.next (.node .block 1 [5])).arena.slot? c =
      (b.arena.slot? c).map (Slots.taken b.arena.size [5] c.toNat) := by
    refine Arena.slot?_push .block none 1 (List.nodup_singleton 5) hf ?_
    rw [Arena.Has, hsize]
    exact hc
  have hold {c : NodeId} (hc : c.toNat < n) : ∃ s, b.arena.slot? c = some s := by
    rw [← hsize] at hc
    exact ⟨_, Array.getElem?_eq_getElem hc⟩
  constructor
  · have hfive : (5 : NodeId).toNat < n := hn
    obtain ⟨s, hs⟩ := hold hfive
    rw [Arena.parentId?, hslot hfive, hs, hsize, Option.map_some, Option.bind_some,
      Slots.parent?_taken]
    rfl
  · obtain ⟨s, hs⟩ := hold hid
    rw [Arena.childIds, hslot hid, hs, Option.map_some, Option.elim_some, Slots.children_taken,
      hchildren _ s hs]
    rfl

/-- With one node more than there are ids, the child of the last node is told a
parent that does not list it. -/
theorem not_consistent_overflowing :
    Proper (tokensAndNode UInt32.size) ∧
      (ofSteps (tokensAndNode UInt32.size)).arena.parentId? 5 = some 0 ∧
      (ofSteps (tokensAndNode UInt32.size)).arena.childIds 0 = [] ∧
      ¬(ofSteps (tokensAndNode UInt32.size)).arena.Consistent := by
  have hn : 5 < UInt32.size := by decide
  have hzero : (0 : NodeId).toNat < UInt32.size := by decide
  obtain ⟨hparent, hchildren⟩ := links_tokensAndNode hn hzero
  have hwrapped : idAt UInt32.size = 0 := by decide
  rw [hwrapped] at hparent
  refine ⟨(proper_tokens _).1.append_singleton (admits_node_of_tokens hn), hparent, hchildren, ?_⟩
  intro h
  have hmem := (h.mem_childIds_iff 0 5).mpr hparent
  rw [hchildren] at hmem
  cases hmem

end Construction

end PropertyHarvest
