/-
# Where comments leave no trace

A comment is lowered to nothing, so more comments between the children of a
node make no difference to what the node is lowered to.  There are places where
a child is found by its position, as the first or the last construct of a name;
comments that stand between two children do not take these places
(`CommentedBetween.ends`), and the rules of `Anchored` say that there are
constructs in them.

One difference remains.  A node that is kept under the grammar's word is a leaf
with its text if there is no construct below it, and a comment is one; then the
node becomes one without children.  `Tree.Resembles` allows for that.

Comments may come anywhere else, at any depth and any number of them, and at both ends
of a file.  They stand in no role and have nothing below them.  All other labels stay
as they are, bytes and rows included, so the two trees are read with one slice; how a
comment moves what follows it in a text is a matter of the text.
-/
import PropertyHarvest.Proofs.Concrete.Shapes
import PropertyHarvest.Proofs.Tree.Resemblance

namespace PropertyHarvest.Concrete

/-! ## The relation -/

/-- A comment in no role, with nothing below it. -/
structure IsCommentLeaf (c : Concrete) : Prop where
  isComment : c.isComment = true
  named : c.label.named = true
  field?_eq : c.label.field? = none
  children_eq : c.children = []

theorem IsCommentLeaf.kind_eq {c : Concrete} (h : c.IsCommentLeaf) :
    c.kind = "line_comment" ∨ c.kind = "block_comment" := by
  have hcomment := h.isComment
  rw [Concrete.isComment, Bool.or_eq_true, beq_iff_eq, beq_iff_eq] at hcomment
  exact hcomment

mutual

/-- The second tree is the first with comments put between the children of its
nodes. -/
inductive Commented : Concrete → Concrete → Prop
  | node {l : Label} {cs cs' : List Concrete} (below : CommentedBetween cs cs') :
      Commented (.node l cs) (.node l cs')

/-- Comments are put between the nodes of the list, and inside them, but not
before the first or behind the last. -/
inductive CommentedBetween : List Concrete → List Concrete → Prop
  | nil : CommentedBetween [] []
  | single {c c' : Concrete} (only : Commented c c') : CommentedBetween [c] [c']
  | cons {c c' x : Concrete} {xs xs' comments : List Concrete} (head : Commented c c')
      (leaves : ∀ k ∈ comments, IsCommentLeaf k) (tail : CommentedBetween (x :: xs) xs') :
      CommentedBetween (c :: x :: xs) (c' :: (comments ++ xs'))

end

/-- At the root comments may also stand before the first child and behind the
last. -/
inductive CommentedFile : Concrete → Concrete → Prop
  | root {l : Label} {cs cs' before after : List Concrete}
      (leaves_before : ∀ k ∈ before, IsCommentLeaf k) (between : CommentedBetween cs cs')
      (leaves_after : ∀ k ∈ after, IsCommentLeaf k) :
      CommentedFile (.node l cs) (.node l (before ++ cs' ++ after))

/-- What is read by its position. -/
structure Anchors (c : Concrete) : Prop where
  /-- The member of an access is a leaf. -/
  member : c.kind = "field_access" → ∀ x, c.child? "field" = some x → x.children = []
  /-- A type that is named first is a construct. -/
  first : c.kind = "class_literal" ∨ c.kind = "generic_type" →
    ∃ x rest, c.children = x :: rest ∧ x.label.named = true
  /-- A scoped name has constructs at both its ends. -/
  ends : c.kind = "scoped_identifier" ∨ c.kind = "scoped_type_identifier" →
    ∃ x mid y, c.children = x :: (mid ++ [y]) ∧ x.label.named = true ∧ y.label.named = true

def anchoredWords : List String :=
  ["field_access", "class_literal", "generic_type", "scoped_identifier", "scoped_type_identifier"]

theorem anchors_of_not_mem {c : Concrete} (h : c.kind ∉ anchoredWords) : c.Anchors := by
  simp only [anchoredWords, List.mem_cons, List.not_mem_nil, or_false, not_or] at h
  obtain ⟨haccess, hclass, hgeneric, hscoped, hscopedType⟩ := h
  exact {
    member := fun hk => absurd hk haccess
    first := fun hk => absurd hk (not_or.mpr ⟨hclass, hgeneric⟩)
    ends := fun hk => absurd hk (not_or.mpr ⟨hscoped, hscopedType⟩) }

/-- Every node of the tree has its anchors. -/
inductive Anchored : Concrete → Prop
  | intro {c : Concrete} (anchors : c.Anchors) (inside : ∀ x ∈ c.children, Anchored x) :
      Anchored c

theorem Anchored.anchors {c : Concrete} (h : c.Anchored) : c.Anchors := by
  cases h with
  | intro anchors _ => exact anchors

theorem Anchored.child {c x : Concrete} (h : c.Anchored) (hx : x ∈ c.children) : x.Anchored := by
  cases h with
  | intro _ inside => exact inside x hx

/-! ## Few comments and none -/

theorem commentedBetween_of_forall₂ {cs cs' : List Concrete} (h : List.Forall₂ Commented cs cs') :
    CommentedBetween cs cs' := by
  induction h with
  | nil => exact .nil
  | cons head tail ih =>
      cases tail with
      | nil => exact .single head
      | cons => exact .cons head (fun k (hk : k ∈ []) => absurd hk List.not_mem_nil) ih

theorem commented_refl (c : Concrete) : Commented c c := by
  induction c using induction_size with
  | step c ih =>
      obtain ⟨l, cs⟩ := c
      refine .node (commentedBetween_of_forall₂ (List.forall₂_same.mpr fun x hx => ?_))
      exact ih x (size_lt_of_mem hx)

/-! ## Lists with comments among them -/

/-- The second list matches the first but for comments among it. -/
inductive Interspersed (R : Concrete → Concrete → Prop) : List Concrete → List Concrete → Prop
  | nil : Interspersed R [] []
  | kept {x x' : Concrete} {xs xs' : List Concrete} (head : R x x')
      (tail : Interspersed R xs xs') : Interspersed R (x :: xs) (x' :: xs')
  | comment {k : Concrete} {xs xs' : List Concrete} (leaf : k.IsCommentLeaf)
      (tail : Interspersed R xs xs') : Interspersed R xs (k :: xs')

namespace Interspersed

variable {R : Concrete → Concrete → Prop} {xs xs' : List Concrete} {p : Concrete → Bool}

theorem comments {ks : List Concrete} (hk : ∀ k ∈ ks, IsCommentLeaf k)
    (h : Interspersed R xs xs') : Interspersed R xs (ks ++ xs') := by
  induction ks with
  | nil => exact h
  | cons k ks ih =>
      obtain ⟨hleaf, hks⟩ := List.forall_mem_cons.mp hk
      exact .comment hleaf (ih hks)

theorem comments_after {ks : List Concrete} (hk : ∀ k ∈ ks, IsCommentLeaf k)
    (h : Interspersed R xs xs') : Interspersed R xs (xs' ++ ks) := by
  induction h with
  | nil =>
      have hks : Interspersed R [] (ks ++ []) := comments hk .nil
      rw [List.append_nil] at hks
      exact hks
  | kept head _ ih => exact .kept head ih
  | comment leaf _ ih => exact .comment leaf ih

theorem filter (h : Interspersed R xs xs') (hp : ∀ x x', R x x' → p x' = p x) :
    Interspersed R (xs.filter p) (xs'.filter p) := by
  induction h with
  | nil => exact .nil
  | @kept x x' _ _ head _ ih =>
      rw [List.filter_cons, List.filter_cons, hp x x' head]
      split
      · exact .kept head ih
      · exact ih
  | comment leaf _ ih =>
      rw [List.filter_cons]
      split
      · exact .comment leaf ih
      · exact ih

theorem forall₂_filter (h : Interspersed R xs xs') (hp : ∀ x x', R x x' → p x' = p x)
    (hk : ∀ k, IsCommentLeaf k → p k = false) : List.Forall₂ R (xs.filter p) (xs'.filter p) := by
  induction h with
  | nil => exact .nil
  | @kept x x' _ _ head _ ih =>
      rw [List.filter_cons, List.filter_cons, hp x x' head]
      split
      · exact .cons head ih
      · exact ih
  | @comment k _ _ leaf _ ih =>
      rw [List.filter_cons, hk k leaf, if_neg Bool.false_ne_true]
      exact ih

theorem find? (h : Interspersed R xs xs') (hp : ∀ x x', R x x' → p x' = p x)
    (hk : ∀ k, IsCommentLeaf k → p k = false) : Option.Rel R (xs.find? p) (xs'.find? p) := by
  rw [← List.head?_filter, ← List.head?_filter]
  exact forall₂_head? (h.forall₂_filter hp hk)

theorem flatMap {β γ : Type} {S : β → γ → Prop} {f : Concrete → List β} {g : Concrete → List γ}
    (h : Interspersed R xs xs') (hf : ∀ x ∈ xs, ∀ x', R x x' → List.Forall₂ S (f x) (g x'))
    (hk : ∀ k, IsCommentLeaf k → g k = []) :
    List.Forall₂ S (xs.flatMap f) (xs'.flatMap g) := by
  induction h with
  | nil => exact .nil
  | @kept x x' _ _ head _ ih =>
      rw [List.flatMap_cons, List.flatMap_cons]
      refine List.rel_append (hf x List.mem_cons_self x' head) ?_
      exact ih fun y hy => hf y (List.mem_cons_of_mem _ hy)
  | @comment k _ _ leaf _ ih =>
      rw [List.flatMap_cons, hk k leaf]
      exact ih hf

theorem isEmpty_of_isEmpty (h : Interspersed R xs xs') (he : xs'.isEmpty = true) :
    xs.isEmpty = true := by
  cases h with
  | nil => rfl
  | kept => cases he
  | comment => cases he

end Interspersed

/-! ## What both trees have in common -/

section Common

variable {slice : Slice} {c c' x : Concrete} {cs cs' : List Concrete}

theorem Commented.label_eq (h : Commented c c') : c'.label = c.label := by
  cases h
  rfl

theorem Commented.kind_eq (h : Commented c c') : c'.kind = c.kind := by
  rw [kind, h.label_eq, kind]

theorem Commented.line_eq (h : Commented c c') : c'.line = c.line := by
  rw [line, h.label_eq, line]

theorem Commented.text_eq (h : Commented c c') : c'.text slice = c.text slice := by
  rw [text, h.label_eq, text]

theorem Commented.leaf_eq (h : Commented c c') (k : Kind) : c'.leaf slice k = c.leaf slice k := by
  rw [leaf, leaf, h.text_eq, h.line_eq]

theorem Commented.children (h : Commented c c') : CommentedBetween c.children c'.children := by
  cases h
  assumption

theorem CommentedBetween.interspersed (h : CommentedBetween cs cs') :
    Interspersed Commented cs cs' := by
  induction cs generalizing cs' with
  | nil =>
      cases h
      exact .nil
  | cons c cs ih =>
      cases h with
      | single only => exact .kept only .nil
      | cons head leaves tail => exact .kept head ((ih tail).comments leaves)

theorem CommentedBetween.last {mid : List Concrete} {y : Concrete}
    (h : CommentedBetween (mid ++ [y]) cs') : ∃ mid' y', cs' = mid' ++ [y'] ∧ Commented y y' := by
  induction mid generalizing cs' with
  | nil =>
      cases h with
      | single only => exact ⟨[], _, rfl, only⟩
  | cons c mid ih =>
      obtain ⟨z, zs, hz⟩ := List.exists_cons_of_ne_nil
        (List.append_ne_nil_of_right_ne_nil mid (List.cons_ne_nil y []))
      rw [List.cons_append, hz] at h
      rw [hz] at ih
      cases h with
      | @cons _ c' _ _ xs' comments _ _ tail =>
          obtain ⟨mid', y', rfl, hy⟩ := ih tail
          exact ⟨c' :: (comments ++ mid'), y', by rw [List.cons_append, List.append_assoc], hy⟩

theorem CommentedBetween.first (h : CommentedBetween (x :: cs) cs') :
    ∃ x' rest', cs' = x' :: rest' ∧ Commented x x' := by
  cases h with
  | single only => exact ⟨_, _, rfl, only⟩
  | cons head => exact ⟨_, _, rfl, head⟩

/-- What stands at the ends of a list of two or more stays there. -/
theorem CommentedBetween.ends {mid : List Concrete} {y : Concrete}
    (h : CommentedBetween (x :: (mid ++ [y])) cs') :
    ∃ x' mid' y', cs' = x' :: (mid' ++ [y']) ∧ Commented x x' ∧ Commented y y' := by
  obtain ⟨z, zs, hz⟩ := List.exists_cons_of_ne_nil
    (List.append_ne_nil_of_right_ne_nil mid (List.cons_ne_nil y []))
  rw [hz] at h
  cases h with
  | @cons _ x' _ _ xs' comments head _ tail =>
      rw [← hz] at tail
      obtain ⟨mid', y', rfl, hy⟩ := tail.last
      exact ⟨x', comments ++ mid', y', by rw [List.append_assoc], head, hy⟩

theorem Commented.namedChildren (h : Commented c c') :
    Interspersed Commented c.namedChildren c'.namedChildren :=
  h.children.interspersed.filter fun x x' hx => by rw [hx.label_eq]

theorem Commented.child? (h : Commented c c') (field : String) :
    Option.Rel Commented (c.child? field) (c'.child? field) := by
  refine h.children.interspersed.find? (fun x x' hx => by rw [hx.label_eq]) fun k hk => ?_
  rw [hk.field?_eq]
  rfl

theorem Commented.childrenIn (h : Commented c c') (field : String) :
    List.Forall₂ Commented (c.childrenIn field) (c'.childrenIn field) := by
  refine h.children.interspersed.forall₂_filter (fun x x' hx => by rw [hx.label_eq]) fun k hk => ?_
  rw [hk.field?_eq]
  rfl

theorem Commented.isEmpty_namedChildren (h : Commented c c')
    (he : c'.namedChildren.isEmpty = true) : c.namedChildren.isEmpty = true :=
  h.namedChildren.isEmpty_of_isEmpty he

/-- Nothing fits between the children of a leaf. -/
theorem Commented.eq_of_leaf (h : Commented c c') (hc : c.children = []) : c' = c := by
  cases h with
  | node below =>
      change _ = [] at hc
      subst hc
      cases below
      rfl

theorem Anchored.named (h : c.Anchored) (hx : x ∈ c.namedChildren) : x.Anchored :=
  h.child (List.mem_filter.mp hx).1

theorem Anchored.child? {field : String} (h : c.Anchored) (hx : c.child? field = some x) :
    x.Anchored :=
  h.child (List.mem_of_find?_eq_some hx)

end Common

/-! ## Names and types -/

section Names

variable {slice : Slice} {c c' : Concrete}

theorem scopedTree_of_ends {x y : Concrete} {mid : List Concrete}
    (h : c.children = x :: (mid ++ [y])) (hx : x.label.named = true) (hy : y.label.named = true) :
    c.scopedTree slice =
      .interior .memberAccess c.line [x.nameTree slice, y.leaf slice .identifier] := by
  have hnamed : c.namedChildren = x :: (mid.filter (·.label.named) ++ [y]) := by
    rw [Concrete.namedChildren, h, List.filter_cons, hx, if_pos rfl, List.filter_append,
      List.filter_cons, hy, if_pos rfl, List.filter_nil]
  obtain ⟨z, zs, hz⟩ := List.exists_cons_of_ne_nil
    (List.append_ne_nil_of_right_ne_nil (mid.filter (·.label.named)) (List.cons_ne_nil y []))
  have hlast : (z :: zs).getLast (List.cons_ne_nil z zs) = y := by
    simp only [← hz, List.getLast_append_singleton]
  rw [scopedTree, hnamed, hz]
  dsimp only
  rw [hlast]

theorem namedChildren_of_first {x : Concrete} {rest : List Concrete} (h : c.children = x :: rest)
    (hx : x.label.named = true) :
    c.namedChildren = x :: rest.filter (·.label.named) := by
  rw [Concrete.namedChildren, h, List.filter_cons, hx, if_pos rfl]

theorem nameTree_of_commented (ha : c.Anchored) (h : Commented c c') :
    c'.nameTree slice = c.nameTree slice := by
  induction c using induction_size generalizing c' with
  | step c ih =>
      rw [nameTree_eq, nameTree_eq, h.kind_eq]
      have hscoped (hk : c.kind = "scoped_identifier" ∨ c.kind = "scoped_type_identifier") :
          c'.scopedTree slice = c.scopedTree slice := by
        obtain ⟨x, mid, y, hc, hx, hy⟩ := ha.anchors.ends hk
        have hbelow := h.children
        rw [hc] at hbelow
        obtain ⟨x', mid', y', hc', hxx', hyy'⟩ := hbelow.ends
        have hmem : x ∈ c.children := hc ▸ List.mem_cons_self
        rw [scopedTree_of_ends hc hx hy, scopedTree_of_ends hc' (by rw [hxx'.label_eq, hx])
          (by rw [hyy'.label_eq, hy]), h.line_eq, hyy'.leaf_eq,
          ih x (size_lt_of_mem hmem) (ha.child hmem) hxx']
      have hgeneric (hk : c.kind = "generic_type") :
          c'.genericTree slice = c.genericTree slice := by
        obtain ⟨x, rest, hc, hx⟩ := ha.anchors.first (.inr hk)
        have hbelow := h.children
        rw [hc] at hbelow
        obtain ⟨x', rest', hc', hxx'⟩ := hbelow.first
        have hmem : x ∈ c.children := hc ▸ List.mem_cons_self
        rw [genericTree, genericTree, namedChildren_of_first hc hx,
          namedChildren_of_first hc' (by rw [hxx'.label_eq, hx])]
        exact ih x (size_lt_of_mem hmem) (ha.child hmem) hxx'
      unfold nameTreeOf
      split
      · exact h.leaf_eq .identifier
      · exact h.leaf_eq .identifier
      · rename_i hk
        exact hscoped (.inl hk)
      · rename_i hk
        exact hscoped (.inr hk)
      · rename_i hk
        exact hgeneric hk
      · exact h.leaf_eq _

variable (ha : c.Anchored) (h : Commented c c')
include ha h

theorem typeTree_of_commented : c'.typeTree slice = c.typeTree slice := by
  rw [typeTree, typeTree, h.kind_eq, h.line_eq, nameTree_of_commented ha h]

theorem classLiteralTree_of_commented (hk : c.kind = "class_literal") :
    c'.classLiteralTree slice = c.classLiteralTree slice := by
  obtain ⟨x, rest, hc, hx⟩ := ha.anchors.first (.inl hk)
  have hbelow := h.children
  rw [hc] at hbelow
  obtain ⟨x', rest', hc', hxx'⟩ := hbelow.first
  rw [classLiteralTree, classLiteralTree, h.line_eq, namedChildren_of_first hc hx,
    namedChildren_of_first hc' (by rw [hxx'.label_eq, hx])]
  show Tree.interior _ _ ([x'.nameTree slice] ++ _) = Tree.interior _ _ ([x.nameTree slice] ++ _)
  rw [nameTree_of_commented (ha.child (hc ▸ List.mem_cons_self)) hxx']

theorem packageTree_of_commented : c'.packageTree slice = c.packageTree slice := by
  rw [packageTree, packageTree, h.line_eq]
  refine congrArg (Tree.interior _ _) (map_eq_of_forall₂ (h.namedChildren.forall₂_filter ?_ ?_) ?_)
  · intro x x' hx
    rw [hx.kind_eq]
  · intro k hk
    rcases hk.kind_eq with hkind | hkind <;> rw [hkind] <;> rfl
  · intro x hx x' hxx'
    exact nameTree_of_commented (ha.named (List.mem_filter.mp hx).1) hxx'

omit ha in
theorem stringTree_of_commented : c'.stringTree slice = c.stringTree slice := by
  rw [stringTree, stringTree, h.text_eq, h.leaf_eq, h.leaf_eq]

omit ha in
theorem operationKind_of_commented : c'.operationKind = c.operationKind := by
  rw [operationKind, operationKind]
  rcases cases_of_rel (h.child? "operator") with ⟨ho, ho'⟩ | ⟨x, x', ho, ho', hx⟩
  · rw [ho, ho']
  · rw [ho, ho', Option.map_some, Option.map_some, hx.kind_eq]

end Names

/-! ## Lowering with comments -/

open PropertyHarvest.Tree (Resembles forall₂_resembles_refl)

/-- What the two nodes are lowered to resembles each other. -/
structure LowersSimilarly (slice : Slice) (c c' : Concrete) : Prop where
  tree : (c.tree slice).Resembles (c'.tree slice)
  contribution : List.Forall₂ Resembles (c.contribution slice) (c'.contribution slice)
  annotationUse : (c.annotationTree slice).Resembles (c'.annotationTree slice)
  arguments : (c.argumentsTree slice).Resembles (c'.argumentsTree slice)
  modifiers : (c.modifiersTree slice).Resembles (c'.modifiersTree slice)

section Step

variable {slice : Slice} {c c' : Concrete} (ha : c.Anchored)
  (ih : ∀ x : Concrete, x.size < c.size → ∀ x', x.Anchored → Commented x x' →
    LowersSimilarly slice x x')
include ha ih

theorem content_of_interspersed (h : Interspersed Commented c.children c'.children) :
    List.Forall₂ Resembles (c.content slice) (c'.content slice) := by
  rw [content_eq, content_eq]
  refine (h.filter fun x x' hx => by rw [hx.label_eq]).flatMap ?_ ?_
  · intro x hx x' hxx'
    exact (ih x (size_lt_of_named hx) x' (ha.named hx) hxx').contribution
  · intro k hk
    exact contribution_of_isComment hk.isComment

variable (h : Commented c c')
include h

theorem treeIn_of_commented (field : String) :
    List.Forall₂ Resembles (c.treeIn slice field) (c'.treeIn slice field) := by
  rw [treeIn_eq, treeIn_eq]
  rcases cases_of_rel (h.child? field) with ⟨hf, hf'⟩ | ⟨x, x', hf, hf', hx⟩
  · rw [hf, hf']
    exact .nil
  · rw [hf, hf']
    exact .cons (ih x (size_lt_of_child? hf) x' (ha.child? hf) hx).tree .nil

theorem contributionIn_of_commented (field : String) :
    List.Forall₂ Resembles (c.contributionIn slice field) (c'.contributionIn slice field) := by
  rw [contributionIn_eq, contributionIn_eq]
  rcases cases_of_rel (h.child? field) with ⟨hf, hf'⟩ | ⟨x, x', hf, hf', hx⟩
  · rw [hf, hf']
    exact .nil
  · rw [hf, hf', Option.toList_some, Option.toList_some, List.flatMap_singleton,
      List.flatMap_singleton]
    exact (ih x (size_lt_of_child? hf) x' (ha.child? hf) hx).contribution

omit ha ih in
theorem map_child?_of_commented {β : Type} {f : Concrete → β} (field : String)
    (hf : ∀ x x', c.child? field = some x → Commented x x' → f x' = f x) :
    (c'.child? field).toList.map f = (c.child? field).toList.map f := by
  refine map_eq_of_forall₂ (forall₂_toList (h.child? field)) fun x hx x' hxx' => ?_
  exact hf x x' (Option.mem_toList.mp hx) hxx'

theorem annotationTree_of_commented :
    (c.annotationTree slice).Resembles (c'.annotationTree slice) := by
  have hname : (c'.child? "name").toList.map (nameTree slice) =
      (c.child? "name").toList.map (nameTree slice) :=
    map_child?_of_commented h "name" fun x x' hx hxx' => nameTree_of_commented (ha.child? hx) hxx'
  rw [annotationTree, annotationTree, h.line_eq, hname]
  refine .interior (by decide) _ (List.rel_append (forall₂_resembles_refl _) ?_)
  exact treeIn_of_commented ha ih h "arguments"

theorem modifiersTree_of_commented :
    (c.modifiersTree slice).Resembles (c'.modifiersTree slice) := by
  rw [modifiersTree_eq, modifiersTree_eq, h.line_eq]
  refine .interior (by decide) _ (h.children.interspersed.flatMap ?_ ?_)
  · intro x hx x' hxx'
    have huse := (ih x (size_lt_of_mem hx) x' (ha.child hx) hxx').annotationUse
    rw [modifierTrees, modifierTrees, hxx'.kind_eq, hxx'.leaf_eq]
    split
    · exact forall₂_resembles_refl _
    · exact .cons huse .nil
    · exact .cons huse .nil
    · exact .nil
  · intro k hk
    rcases hk.kind_eq with hkind | hkind <;> rw [modifierTrees, hkind] <;> rfl

theorem argumentsTree_of_commented :
    (c.argumentsTree slice).Resembles (c'.argumentsTree slice) := by
  rw [argumentsTree_eq, argumentsTree_eq, h.line_eq]
  refine .interior (by decide) _ (h.namedChildren.flatMap ?_ ?_)
  · intro x hx x' hxx'
    have hcontribution := (ih x (size_lt_of_named hx) x' (ha.named hx) hxx').contribution
    rw [argumentTrees, argumentTrees, hxx'.line_eq]
    generalize x.contribution slice = ts at hcontribution
    generalize x'.contribution slice = ts' at hcontribution
    cases hcontribution with
    | nil => exact .nil
    | cons head tail => exact .cons (.interior (by decide) _ (.cons head tail)) .nil
  · intro k hk
    exact argumentTrees_of_isComment hk.isComment

theorem calleeTrees_of_commented :
    List.Forall₂ Resembles (c.calleeTrees slice) (c'.calleeTrees slice) := by
  rw [calleeTrees, calleeTrees, h.line_eq]
  rcases cases_of_rel (h.child? "object") with ⟨ho, ho'⟩ | ⟨object, object', ho, ho', hobject⟩ <;>
    rcases cases_of_rel (h.child? "name") with ⟨hn, hn'⟩ | ⟨name, name', hn, hn', hname⟩ <;>
    rw [ho, ho', hn, hn']
  · exact .nil
  · dsimp only
    rw [hname.leaf_eq]
    exact forall₂_resembles_refl _
  · exact .cons (ih object (size_lt_of_child? ho) object' (ha.child? ho) hobject).tree .nil
  · have htree := (ih object (size_lt_of_child? ho) object' (ha.child? ho) hobject).tree
    dsimp only
    rw [hname.leaf_eq]
    exact .cons (.node (fun _ => rfl) (.cons htree (.cons (.refl _) .nil))) .nil

theorem callTree_of_commented : (c.callTree slice).Resembles (c'.callTree slice) := by
  rw [callTree_eq, callTree_eq, h.line_eq]
  refine .interior (by decide) _ (List.rel_append (calleeTrees_of_commented ha ih h) ?_)
  rcases cases_of_rel (h.child? "arguments") with ⟨hf, hf'⟩ | ⟨x, x', hf, hf', hx⟩
  · rw [hf, hf']
    exact .nil
  · rw [hf, hf']
    exact .cons (ih x (size_lt_of_child? hf) x' (ha.child? hf) hx).arguments .nil

theorem declaredModifiers_of_commented :
    (c.declaredModifiers slice).Resembles (c'.declaredModifiers slice) := by
  have hmodifiers : Option.Rel Commented c.modifiers? c'.modifiers? := by
    refine h.namedChildren.find? (fun x x' hx => by rw [hx.kind_eq]) fun k hk => ?_
    rcases hk.kind_eq with hkind | hkind <;> rw [hkind] <;> rfl
  rw [declaredModifiers, declaredModifiers, h.line_eq]
  rcases cases_of_rel hmodifiers with ⟨hf, hf'⟩ | ⟨m, m', hf, hf', hm⟩
  · rw [hf, hf']
    exact .refl _
  · rw [hf, hf']
    have hnamed : m ∈ c.namedChildren := List.mem_of_find?_eq_some hf
    exact (ih m (size_lt_of_modifiers? hf) m' (ha.named hnamed) hm).modifiers

theorem variableTree_of_commented {d d' : Concrete} (hd : d ∈ c.childrenIn "declarator")
    (hdd' : Commented d d') :
    (c.variableTree slice d).Resembles (c'.variableTree slice d') := by
  have hda : d.Anchored := ha.child (List.mem_filter.mp hd).1
  have hdsize : d.size < c.size := size_lt_of_childrenIn hd
  have htype : (c'.child? "type").toList.map (typeTree slice) =
      (c.child? "type").toList.map (typeTree slice) :=
    map_child?_of_commented h "type" fun x x' hx hxx' => typeTree_of_commented (ha.child? hx) hxx'
  have hname : (d'.child? "name").toList.map (leaf slice .identifier) =
      (d.child? "name").toList.map (leaf slice .identifier) :=
    map_child?_of_commented hdd' "name" fun x x' _ hxx' => hxx'.leaf_eq .identifier
  have hvalue : List.Forall₂ Resembles
      ((d.child? "value").toList.map fun v =>
        Tree.interior .expression v.line (d.contributionIn slice "value"))
      ((d'.child? "value").toList.map fun v =>
        Tree.interior .expression v.line (d'.contributionIn slice "value")) := by
    have hcontribution := contributionIn_of_commented hda
      (fun x hx => ih x (Nat.lt_trans hx hdsize)) hdd' "value"
    refine forall₂_map (forall₂_toList (hdd'.child? "value")) fun v _ v' hv => ?_
    rw [hv.line_eq]
    exact .interior (by decide) _ hcontribution
  rw [variableTree, variableTree, hdd'.line_eq, htype, hname]
  refine .interior (by decide) _ (.cons (declaredModifiers_of_commented ha ih h) ?_)
  exact List.rel_append (forall₂_resembles_refl _) hvalue

theorem variableTrees_of_commented :
    List.Forall₂ Resembles (c.variableTrees slice) (c'.variableTrees slice) := by
  rw [variableTrees_eq, variableTrees_eq]
  refine forall₂_map (h.childrenIn "declarator") ?_
  intro d hd d' hdd'
  exact variableTree_of_commented ha ih h hd hdd'

/-- The access keeps the text of its member, because the member is a leaf. -/
theorem accessTree_of_commented (hk : c.kind = "field_access") :
    (Tree.interior .memberAccess c.line
        (c.treeIn slice "object" ++ c.treeIn slice "field")).Resembles
      (.interior .memberAccess c'.line
        (c'.treeIn slice "object" ++ c'.treeIn slice "field")) := by
  have hfield : c'.treeIn slice "field" = c.treeIn slice "field" := by
    rw [treeIn_eq, treeIn_eq]
    refine map_child?_of_commented h "field" fun x x' hx hxx' => ?_
    rw [hxx'.eq_of_leaf (ha.anchors.member hk x hx)]
  have hmember : (c'.treeIn slice "object" ++ c.treeIn slice "field")[1]?.bind Tree.text? =
      (c.treeIn slice "object" ++ c.treeIn slice "field")[1]?.bind Tree.text? := by
    rw [c'.treeIn_eq slice "object", c.treeIn_eq slice "object"]
    rcases cases_of_rel (h.child? "object") with ⟨ho, ho'⟩ | ⟨x, x', ho, ho', -⟩
    · rw [ho, ho']
    · rw [ho, ho']
      rfl
  rw [hfield, h.line_eq]
  refine .node (fun _ => hmember) (Tree.resembleAll_iff.mpr ?_)
  exact List.rel_append (treeIn_of_commented ha ih h "object") (forall₂_resembles_refl _)

theorem operationTree_of_commented :
    (Tree.interior c.operationKind c.line
        (c.contributionIn slice "left" ++ c.contributionIn slice "right")).Resembles
      (.interior c'.operationKind c'.line
        (c'.contributionIn slice "left" ++ c'.contributionIn slice "right")) := by
  have hkind : c.operationKind ≠ .memberAccess := by
    rw [operationKind]
    split <;> decide
  rw [operationKind_of_commented h, h.line_eq]
  refine .interior hkind _ (List.rel_append ?_ ?_)
  · exact contributionIn_of_commented ha ih h "left"
  · exact contributionIn_of_commented ha ih h "right"

/-- A node under the grammar's word loses its text to a comment if there is no
construct below it. -/
theorem otherTree_of_commented :
    (if c.namedChildren.isEmpty then c.leaf slice (.other c.kind)
        else .interior (.other c.kind) c.line (c.content slice)).Resembles
      (if c'.namedChildren.isEmpty then c'.leaf slice (.other c.kind)
        else .interior (.other c.kind) c'.line (c'.content slice)) := by
  have hcontent : List.Forall₂ Resembles (c.content slice) (c'.content slice) :=
    content_of_interspersed ha ih h.children.interspersed
  rw [h.leaf_eq, h.line_eq]
  by_cases hc' : c'.namedChildren.isEmpty = true
  · rw [if_pos hc', if_pos (h.isEmpty_namedChildren hc')]
    exact .refl _
  rw [if_neg hc']
  by_cases hc : c.namedChildren.isEmpty = true
  · have hnone : c.content slice = [] := by
      rw [content_eq, List.isEmpty_iff.mp hc, List.flatMap_nil]
    rw [if_pos hc]
    rw [hnone, List.forall₂_nil_left_iff] at hcontent
    rw [hcontent]
    exact .emptied
  · rw [if_neg hc]
    exact .interior (fun he => by cases he) _ hcontent

theorem tree_of_commented : (c.tree slice).Resembles (c'.tree slice) := by
  rw [tree, tree, h.kind_eq]
  split
  · rw [packageTree_of_commented ha h]
    exact .refl _
  · rename_i k hf
    have hk : k ≠ .memberAccess := by
      rintro rfl
      exact absurd (Form.isPlain_of_ofKind (.inl hf)) (by decide)
    rw [h.line_eq]
    exact .interior hk _ (content_of_interspersed ha ih h.children.interspersed)
  · rw [h.leaf_eq]
    exact .refl _
  · exact modifiersTree_of_commented ha ih h
  · exact annotationTree_of_commented ha ih h
  · exact callTree_of_commented ha ih h
  · exact argumentsTree_of_commented ha ih h
  · rename_i hf
    exact accessTree_of_commented ha ih h (Form.tells_of_eq hf)
  · rw [nameTree_of_commented ha h]
    exact .refl _
  · rename_i hf
    rw [classLiteralTree_of_commented ha h (Form.tells_of_eq hf)]
    exact .refl _
  · exact operationTree_of_commented ha ih h
  · rw [stringTree_of_commented h]
    exact .refl _
  · rw [typeTree_of_commented ha h]
    exact .refl _
  all_goals exact otherTree_of_commented ha ih h

theorem contribution_of_commented :
    List.Forall₂ Resembles (c.contribution slice) (c'.contribution slice) := by
  rw [contribution, contribution, h.kind_eq]
  split
  · exact .nil
  · exact content_of_interspersed ha ih h.children.interspersed
  · exact variableTrees_of_commented ha ih h
  · exact .cons (tree_of_commented ha ih h) .nil

end Step

theorem lowersSimilarly {slice : Slice} {c c' : Concrete} (ha : c.Anchored)
    (h : Commented c c') : LowersSimilarly slice c c' := by
  induction c using induction_size generalizing c' with
  | step c ih =>
      exact {
        tree := tree_of_commented ha ih h
        contribution := contribution_of_commented ha ih h
        annotationUse := annotationTree_of_commented ha ih h
        arguments := argumentsTree_of_commented ha ih h
        modifiers := modifiersTree_of_commented ha ih h }

/-! ## The whole file -/

section File

variable {c c' : Concrete}

theorem CommentedFile.label_eq (h : CommentedFile c c') : c'.label = c.label := by
  cases h
  rfl

theorem CommentedFile.interspersed (h : CommentedFile c c') :
    Interspersed Commented c.children c'.children := by
  cases h with
  | root leaves_before between leaves_after =>
      exact (between.interspersed.comments leaves_before).comments_after leaves_after

theorem content_of_commentedFile (slice : Slice) (ha : c.Anchored) (h : CommentedFile c c') :
    List.Forall₂ Resembles (c.content slice) (c'.content slice) :=
  content_of_interspersed ha (fun _ _ _ hx hxx' => lowersSimilarly hx hxx') h.interspersed

/-- A file that is read is read with its comments as well, and the trees resemble
each other. -/
theorem fileTree_of_commentedFile (slice : Slice) (ha : c.Anchored) (he : c.label.hasError = false)
    (h : CommentedFile c c') :
    ∃ t t', c.fileTree slice = .ok t ∧ c'.fileTree slice = .ok t' ∧ t.Resembles t' := by
  have he' : c'.label.hasError = false := by rw [h.label_eq, he]
  have hline : c'.line = c.line := by rw [line, h.label_eq, line]
  refine ⟨.interior .compilationUnit c.line (c.content slice),
    .interior .compilationUnit c'.line (c'.content slice), ?_, ?_, ?_⟩
  · rw [fileTree, he]
    rfl
  · rw [fileTree, he']
    rfl
  · rw [hline]
    exact .interior (by decide) _ (content_of_commentedFile slice ha h)

end File

end PropertyHarvest.Concrete
