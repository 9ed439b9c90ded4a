/-
# Where parentheses leave no trace

Parentheses around an operand, an argument or an initializer disappear in the
lowering: such a construct is lowered by what it contributes, and parentheses
contribute what they enclose.  A receiver is lowered as one tree, and there
parentheses stay as a node of their own.  They make no further difference
around a receiver that has parentheses already.

`Wraps` relates a tree to one with parentheses put in certain places.  The bytes
of almost every node move with the first parenthesis, so the two trees are read
with two slices, and what is read as a word has the same text in both.  Nothing
is wrapped inside a word.

Parentheses may be put around a construct that has some, and several at once.  They
may not be put around a name in a role of its own, a type or an annotation, where the
grammar has none.  Nothing is said about taking parentheses away from a receiver; that
it does make a difference is shown in `Proofs.SourceFile.Parentheses`.
-/
import PropertyHarvest.Proofs.Concrete.Meaning
import PropertyHarvest.Proofs.Matching

namespace PropertyHarvest

/-- The forms whose text, or names within, are read as they are written. -/
def Form.isWord : Form → Bool
  | .leaf _ | .string | .qualifiedName | .classLiteral | .type => true
  | _ => false

namespace Concrete

def isWord (c : Concrete) : Bool :=
  (Form.ofKind c.kind).isWord || c.kind == "final" || c.label.field? == some "name" ||
    c.namedChildren.isEmpty

/-! ## The relation -/

/-- One or more parentheses around `c`. -/
inductive Encloses (c : Concrete) : Concrete → Prop
  | once {p : Concrete} (kind_eq : p.kind = "parenthesized_expression") (parts_eq : p.parts = [c]) :
      Encloses c p
  | again {p q : Concrete} (inner : Encloses c p) (kind_eq : q.kind = "parenthesized_expression")
      (parts_eq : q.parts = [p]) : Encloses c q

section Relation

-- `places k x` allows parentheses around `x` below a node of kind `k`.
variable (places : String → Concrete → Prop) (slice slice' : Slice)

mutual

/-- The second tree is the first with parentheses in the places; none, and the
same text, if `fixed`. -/
inductive Wraps : (fixed : Bool) → Concrete → Concrete → Prop
  | intro {fixed : Bool} {c c' : Concrete} (kind_eq : c'.kind = c.kind)
      (row_eq : c'.label.row = c.label.row) (named_eq : c'.label.named = c.label.named)
      (text_eq : fixed = true → c'.text slice' = c.text slice)
      (below : WrapsAll fixed c.kind c.children c'.children) : Wraps fixed c c'

/-- A child with parentheses inside it, and perhaps around it.  The outermost
one stands where the child stood. -/
inductive WrapsAt : (fixed : Bool) → (parent : String) → Concrete → Concrete → Prop
  | kept {fixed : Bool} {parent : String} {x x' : Concrete}
      (field_eq : x'.label.field? = x.label.field?) (same : Wraps (fixed || x.isWord) x x') :
      WrapsAt fixed parent x x'
  | wrapped {parent : String} {x y x' : Concrete} (place : places parent x)
      (same : Wraps x.isWord x y) (encloses : y.Encloses x')
      (field_eq : x'.label.field? = x.label.field?) (row_eq : x'.label.row = x.label.row)
      (named_eq : x'.label.named = x.label.named) : WrapsAt false parent x x'

inductive WrapsAll : (fixed : Bool) → (parent : String) → List Concrete → List Concrete → Prop
  | nil {fixed : Bool} {parent : String} : WrapsAll fixed parent [] []
  | cons {fixed : Bool} {parent : String} {x x' : Concrete} {xs xs' : List Concrete}
      (head : WrapsAt fixed parent x x') (tail : WrapsAll fixed parent xs xs') :
      WrapsAll fixed parent (x :: xs) (x' :: xs')

end

end Relation

/-! ## Places -/

/-- An operand, an argument or an initializer. -/
inductive OperandPlace : (parent : String) → Concrete → Prop
  | left {x : Concrete} (field_eq : x.label.field? = some "left") :
      OperandPlace "binary_expression" x
  | right {x : Concrete} (field_eq : x.label.field? = some "right") :
      OperandPlace "binary_expression" x
  | argument {x : Concrete} (field_eq : x.label.field? = none) : OperandPlace "argument_list" x
  | initializer {x : Concrete} (field_eq : x.label.field? = some "value") :
      OperandPlace "variable_declarator" x

/-- What a call or an access is made on. -/
inductive ReceiverPlace : (parent : String) → Concrete → Prop
  | call {x : Concrete} (field_eq : x.label.field? = some "object") :
      ReceiverPlace "method_invocation" x
  | access {x : Concrete} (field_eq : x.label.field? = some "object") :
      ReceiverPlace "field_access" x

def ExpressionPlace (parent : String) (x : Concrete) : Prop :=
  OperandPlace parent x ∨ ReceiverPlace parent x

/-- Parentheses that enclose something. -/
def IsParenthesized (c : Concrete) : Prop :=
  c.kind = "parenthesized_expression" ∧ c.namedChildren ≠ []

/-- Operands, arguments, initializers, and receivers in parentheses. -/
def TransparentPlace (parent : String) (x : Concrete) : Prop :=
  OperandPlace parent x ∨ ReceiverPlace parent x ∧ x.IsParenthesized

/-! ## What both trees have in common -/

section Common

variable {places : String → Concrete → Prop} {slice slice' : Slice} {fixed : Bool}
  {parent : String} {c c' x x' : Concrete}

theorem Wraps.kind_eq (h : Wraps places slice slice' fixed c c') : c'.kind = c.kind := by
  cases h
  assumption

theorem Wraps.line_eq (h : Wraps places slice slice' fixed c c') : c'.line = c.line := by
  cases h with
  | intro _ hrow => exact congrArg (· + 1) hrow

theorem Wraps.text_eq (h : Wraps places slice slice' true c c') :
    c'.text slice' = c.text slice := by
  cases h with
  | intro _ _ _ htext => exact htext rfl

theorem WrapsAll.forall₂ {cs cs' : List Concrete}
    (h : WrapsAll places slice slice' fixed parent cs cs') :
    List.Forall₂ (WrapsAt places slice slice' fixed parent) cs cs' := by
  induction cs generalizing cs' with
  | nil =>
      cases h
      exact .nil
  | cons x xs ih =>
      cases h with
      | cons head tail => exact .cons head (ih tail)

theorem Wraps.children (h : Wraps places slice slice' fixed c c') :
    List.Forall₂ (WrapsAt places slice slice' fixed c.kind) c.children c'.children := by
  cases h with
  | intro _ _ _ _ below => exact below.forall₂

theorem WrapsAt.field_eq (h : WrapsAt places slice slice' fixed parent x x') :
    x'.label.field? = x.label.field? := by
  cases h <;> assumption

theorem WrapsAt.line_eq (h : WrapsAt places slice slice' fixed parent x x') :
    x'.line = x.line := by
  cases h with
  | kept _ same => exact same.line_eq
  | wrapped _ _ _ _ hrow => exact congrArg (· + 1) hrow

theorem WrapsAt.named_eq (h : WrapsAt places slice slice' fixed parent x x') :
    x'.label.named = x.label.named := by
  cases h with
  | kept _ same =>
      cases same
      assumption
  | wrapped => assumption

theorem Wraps.namedChildren (h : Wraps places slice slice' fixed c c') :
    List.Forall₂ (WrapsAt places slice slice' fixed c.kind) c.namedChildren c'.namedChildren :=
  forall₂_filter h.children fun _ _ hx => hx.named_eq

theorem Wraps.childrenIn (h : Wraps places slice slice' fixed c c') (field : String) :
    List.Forall₂ (WrapsAt places slice slice' fixed c.kind) (c.childrenIn field)
      (c'.childrenIn field) :=
  forall₂_filter h.children fun _ _ hx => by rw [hx.field_eq]

theorem Wraps.child? (h : Wraps places slice slice' fixed c c') (field : String) :
    Option.Rel (WrapsAt places slice slice' fixed c.kind) (c.child? field) (c'.child? field) :=
  forall₂_find? h.children fun _ _ hx => by rw [hx.field_eq]

theorem field?_of_child? {field : String} (hx : c.child? field = some x) :
    x.label.field? = some field :=
  beq_iff_eq.mp (List.find?_some (p := fun y : Concrete => y.label.field? == some field) hx)

theorem Wraps.map_child? (h : Wraps places slice slice' fixed c c') (field : String)
    {β : Type} {f f' : Concrete → β}
    (hf : ∀ x x', c.child? field = some x → WrapsAt places slice slice' fixed c.kind x x' →
      f' x' = f x) :
    (c'.child? field).toList.map f' = (c.child? field).toList.map f := by
  refine map_eq_of_forall₂ (forall₂_toList (h.child? field)) ?_
  intro x hx x' hat
  exact hf x x' (Option.mem_toList.mp hx) hat

end Common

/-! ## One pair of parentheses -/

section Single

variable {places : String → Concrete → Prop} {slice : Slice} {fixed : Bool} {parent : String}
  {x x' : Concrete}

theorem wrapsAll_refl {cs : List Concrete}
    (each : ∀ x ∈ cs, ∀ fixed, Wraps places slice slice fixed x x) :
    WrapsAll places slice slice fixed parent cs cs := by
  induction cs with
  | nil => exact .nil
  | cons x xs ih =>
      refine .cons (.kept rfl (each x List.mem_cons_self _)) (ih ?_)
      intro y hy
      exact each y (List.mem_cons_of_mem _ hy)

theorem wraps_refl (c : Concrete) (fixed : Bool) : Wraps places slice slice fixed c c := by
  induction c using induction_size generalizing fixed with
  | step c ih =>
      refine .intro rfl rfl rfl (fun _ => rfl) (wrapsAll_refl ?_)
      intro x hx fixed
      exact ih x (size_lt_of_mem hx) fixed

theorem wraps_child {l : Label} (us vs : List Concrete)
    (h : WrapsAt places slice slice false l.kind x x') :
    Wraps places slice slice false (.node l (us ++ x :: vs)) (.node l (us ++ x' :: vs)) := by
  refine .intro rfl rfl rfl (fun hf => by cases hf) ?_
  show WrapsAll places slice slice false l.kind (us ++ x :: vs) (us ++ x' :: vs)
  induction us with
  | nil => exact .cons h (wrapsAll_refl fun y _ fixed => wraps_refl y fixed)
  | cons u us ih => exact .cons (.kept rfl (wraps_refl u _)) ih

/-- Parentheses inside a child that is no word. -/
theorem wrapsAt_of_wraps (hw : x.isWord = false) (hf : x'.label.field? = x.label.field?)
    (h : Wraps places slice slice false x x') : WrapsAt places slice slice false parent x x' := by
  refine .kept hf ?_
  rw [hw]
  exact h

end Single

/-! ## Words -/

section Words

variable {places : String → Concrete → Prop} {slice slice' : Slice} {parent : String}
  {c c' x x' : Concrete}

theorem Wraps.leaf_eq (h : Wraps places slice slice' true c c') (k : Kind) :
    c'.leaf slice' k = c.leaf slice k := by
  rw [leaf, leaf, h.text_eq, h.line_eq]

theorem WrapsAt.same (h : WrapsAt places slice slice' true parent x x') :
    Wraps places slice slice' true x x' := by
  cases h with
  | kept _ same => exact same

theorem nameTree_of_wraps (h : Wraps places slice slice' true c c') :
    c'.nameTree slice' = c.nameTree slice := by
  induction c using induction_size generalizing c' with
  | step c ih =>
      have hleaf := h.leaf_eq
      have hnamed := h.namedChildren
      have hscoped : c'.scopedTree slice' = c.scopedTree slice := by
        rw [scopedTree, scopedTree]
        cases hn : c.namedChildren with
        | nil =>
            rw [hn, List.forall₂_nil_left_iff] at hnamed
            rw [hnamed]
            exact hleaf .identifier
        | cons scope rest =>
            have hsize : scope.size < c.size := size_lt_of_named (hn ▸ List.mem_cons_self)
            rw [hn, List.forall₂_cons_left_iff] at hnamed
            obtain ⟨scope', rest', hscope, hrest, hn'⟩ := hnamed
            rw [hn']
            cases hrest with
            | nil => exact hleaf .identifier
            | cons hnext hrest =>
                have hlast := forall₂_getLast (.cons hnext hrest) (List.cons_ne_nil _ _)
                  (List.cons_ne_nil _ _)
                dsimp only
                rw [h.line_eq, ih scope hsize hscope.same, hlast.same.leaf_eq]
      have hgeneric : c'.genericTree slice' = c.genericTree slice := by
        rw [genericTree, genericTree]
        cases hn : c.namedChildren with
        | nil =>
            rw [hn, List.forall₂_nil_left_iff] at hnamed
            rw [hnamed]
            exact hleaf _
        | cons base rest =>
            have hsize : base.size < c.size := size_lt_of_named (hn ▸ List.mem_cons_self)
            rw [hn, List.forall₂_cons_left_iff] at hnamed
            obtain ⟨base', rest', hbase, -, hn'⟩ := hnamed
            rw [hn']
            exact ih base hsize hbase.same
      rw [nameTree_eq, nameTree_eq, h.kind_eq]
      unfold nameTreeOf
      split
      · exact hleaf .identifier
      · exact hleaf .identifier
      · exact hscoped
      · exact hscoped
      · exact hgeneric
      · exact hleaf _

end Words

/-! ## Callees -/

/-- A callee from what the receiver and the name are lowered to. -/
def calleeOf (line : Nat) : (objects names : List Tree) → List Tree
  | [object], [name] => [.interior .memberAccess line [object, name]]
  | objects, names => objects ++ names

theorem calleeTrees_eq (slice : Slice) (c : Concrete) :
    c.calleeTrees slice = calleeOf c.line (c.treeIn slice "object")
      ((c.child? "name").toList.map (leaf slice .identifier)) := by
  rw [calleeTrees, treeIn_eq]
  cases c.child? "object" with
  | none => cases c.child? "name" <;> rfl
  | some object => cases c.child? "name" <;> rfl

/-! ## Parentheses around a construct -/

theorem Encloses.contribution_eq {slice : Slice} {c p : Concrete} (h : c.Encloses p) :
    p.contribution slice = c.contribution slice := by
  induction h with
  | once hk hp =>
      rw [contribution_of_parentheses hk, content_eq_parts, hp, List.flatMap_singleton]
  | again _ hk hp ih =>
      rw [contribution_of_parentheses hk, content_eq_parts, hp, List.flatMap_singleton, ih]

theorem Encloses.isParenthesized {c p : Concrete} (h : c.Encloses p) : p.IsParenthesized := by
  have nonempty {x : Concrete} {q : Concrete} (hq : q.parts = [x]) : q.namedChildren ≠ [] := by
    intro hn
    rw [parts, hn] at hq
    cases hq
  cases h with
  | once hk hp => exact ⟨hk, nonempty hp⟩
  | again _ hk hp => exact ⟨hk, nonempty hp⟩

/-- Parentheses taken as one tree: a node over what they contribute. -/
theorem IsParenthesized.tree_eq {slice : Slice} {c : Concrete} (h : c.IsParenthesized) :
    c.tree slice =
      .interior (.other "parenthesized_expression") c.line (c.contribution slice) := by
  obtain ⟨hk, hn⟩ := h
  have hempty : c.namedChildren.isEmpty = false := by
    cases hc : c.namedChildren with
    | nil => exact absurd hc hn
    | cons x xs => rfl
  have hform : Form.ofKind "parenthesized_expression" = .parentheses := rfl
  rw [contribution_of_parentheses hk, tree, hk, hform]
  dsimp only
  rw [hempty, if_neg Bool.false_ne_true]

/-! ## Children in places -/

section Places

variable {parent field : String} {x : Concrete}

theorem OperandPlace.field?_mem (h : OperandPlace parent x) :
    x.label.field? ∈ [none, some "left", some "right", some "value"] := by
  cases h with
  | left hf | right hf | argument hf | initializer hf => simp [hf]

theorem ReceiverPlace.field?_eq (h : ReceiverPlace parent x) : x.label.field? = some "object" := by
  cases h <;> assumption

theorem not_operandPlace (hx : x.label.field? = some field)
    (hf : field ∉ ["left", "right", "value"]) : ¬ OperandPlace parent x := by
  intro h
  have hmem := h.field?_mem
  rw [hx, List.mem_cons] at hmem
  rcases hmem with hnone | hmem
  · cases hnone
  · obtain ⟨f, hmem, he⟩ := List.mem_map.mp (show _ ∈ ["left", "right", "value"].map some from hmem)
    cases he
    exact hf hmem

theorem not_transparentPlace (hx : x.label.field? = some field)
    (hf : field ∉ ["object", "left", "right", "value"]) : ¬ TransparentPlace parent x := by
  rintro (h | ⟨h, -⟩)
  · exact not_operandPlace hx (fun hmem => hf (List.mem_cons_of_mem _ hmem)) h
  · rw [h.field?_eq] at hx
    cases hx
    exact hf List.mem_cons_self

theorem not_transparentPlace_of_form {f : Form} (hf : Form.ofKind parent = f)
    (h : f = .modifiers ∨ f = .declaration ∨ f = .package) : ¬ TransparentPlace parent x := by
  rintro (hp | ⟨hp, -⟩)
  · cases hp <;> subst hf <;> revert h <;> decide
  · cases hp <;> subst hf <;> revert h <;> decide

end Places

/-! ## The mutual part

Each piece is lowered the same in both trees if everything smaller is.  A child
in a place is only asked for what it contributes, or has parentheses already. -/

/-- However the two trees are lowered, the outcome is the same. -/
structure LowersAlike (slice slice' : Slice) (c c' : Concrete) : Prop where
  tree_eq : c'.tree slice' = c.tree slice
  contribution_eq : c'.contribution slice' = c.contribution slice
  annotation_eq : c'.annotationTree slice' = c.annotationTree slice
  arguments_eq : c'.argumentsTree slice' = c.argumentsTree slice
  modifiers_eq : Form.ofKind c.kind = .modifiers →
    c'.modifiersTree slice' = c.modifiersTree slice

/-- Parentheses in `c` make no difference to how it is lowered. -/
def Transparent (slice slice' : Slice) (c : Concrete) : Prop :=
  ∀ (fixed : Bool) (c' : Concrete), Wraps TransparentPlace slice slice' fixed c c' →
    (c.isWord = true → fixed = true) → LowersAlike slice slice' c c'

section Child

variable {slice slice' : Slice} {fixed : Bool} {parent : String} {x x' : Concrete}

theorem WrapsAt.same_of_not (h : WrapsAt TransparentPlace slice slice' fixed parent x x')
    (hp : ¬ TransparentPlace parent x) :
    Wraps TransparentPlace slice slice' (fixed || x.isWord) x x' := by
  cases h with
  | kept _ same => exact same
  | wrapped place => exact absurd place hp

theorem WrapsAt.same_of_isWord (h : WrapsAt TransparentPlace slice slice' fixed parent x x')
    (hp : ¬ TransparentPlace parent x) (hw : x.isWord = true) :
    Wraps TransparentPlace slice slice' true x x' := by
  have same := h.same_of_not hp
  rw [hw, Bool.or_true] at same
  exact same

theorem WrapsAt.alike (h : WrapsAt TransparentPlace slice slice' fixed parent x x')
    (hp : ¬ TransparentPlace parent x) (hx : Transparent slice slice' x) :
    LowersAlike slice slice' x x' :=
  hx _ x' (h.same_of_not hp) fun hw => by rw [hw, Bool.or_true]

theorem WrapsAt.contribution_eq (h : WrapsAt TransparentPlace slice slice' fixed parent x x')
    (hx : Transparent slice slice' x) : x'.contribution slice' = x.contribution slice := by
  cases h with
  | kept _ same => exact (hx _ x' same fun hw => by rw [hw, Bool.or_true]).contribution_eq
  | @wrapped _ _ y _ _ same encloses =>
      rw [encloses.contribution_eq]
      exact (hx _ y same id).contribution_eq

/-- More parentheses around a construct that has some are a node on the same
line over the same trees. -/
theorem WrapsAt.tree_eq (h : WrapsAt TransparentPlace slice slice' fixed parent x x')
    (hp : ¬ OperandPlace parent x) (hx : Transparent slice slice' x) :
    x'.tree slice' = x.tree slice := by
  have hcontribution := h.contribution_eq hx
  have hline := h.line_eq
  cases h with
  | kept _ same => exact (hx _ x' same fun hw => by rw [hw, Bool.or_true]).tree_eq
  | wrapped place _ encloses =>
      rcases place with place | ⟨-, hparenthesized⟩
      · exact absurd place hp
      · rw [encloses.isParenthesized.tree_eq, hparenthesized.tree_eq, hcontribution, hline]

theorem typeTree_of_wraps (h : Wraps TransparentPlace slice slice' fixed x x')
    (hw : x.isWord = true → fixed = true) : x'.typeTree slice' = x.typeTree slice := by
  have hname (hform : Form.ofKind x.kind = .type) : x'.nameTree slice' = x.nameTree slice := by
    have hword : x.isWord = true := by
      rw [isWord, hform]
      rfl
    rw [hw hword] at h
    exact nameTree_of_wraps h
  rw [typeTree, typeTree, h.kind_eq, h.line_eq]
  refine congrArg (Tree.interior _ _) ?_
  split
  · rename_i hk
    rw [hname (by rw [hk]; rfl)]
  · rename_i hk
    rw [hname (by rw [hk]; rfl)]
  · rename_i hk
    rw [hname (by rw [hk]; rfl)]
  · rfl

end Child

section Step

variable {slice slice' : Slice} {fixed : Bool} {c c' : Concrete}
  (h : Wraps TransparentPlace slice slice' fixed c c')
  (ih : ∀ x : Concrete, x.size < c.size → Transparent slice slice' x)
include h ih

theorem content_of_wraps : c'.content slice' = c.content slice := by
  rw [content_eq, content_eq]
  refine flatMap_eq_of_forall₂ h.namedChildren ?_
  intro x hx x' hat
  exact hat.contribution_eq (ih x (size_lt_of_named hx))

theorem treeIn_of_wraps (field : String) (hf : field ∉ ["left", "right", "value"]) :
    c'.treeIn slice' field = c.treeIn slice field := by
  rw [treeIn_eq, treeIn_eq]
  refine h.map_child? field ?_
  intro x x' hx hat
  exact hat.tree_eq (not_operandPlace (field?_of_child? hx) hf) (ih x (size_lt_of_child? hx))

theorem contributionIn_of_wraps (field : String) :
    c'.contributionIn slice' field = c.contributionIn slice field := by
  rw [contributionIn_eq, contributionIn_eq]
  refine flatMap_eq_of_forall₂ (forall₂_toList (h.child? field)) ?_
  intro x hx x' hat
  exact hat.contribution_eq (ih x (size_lt_of_child? (Option.mem_toList.mp hx)))

omit ih in
theorem map_name_of_wraps {f f' : Concrete → Tree}
    (hf : ∀ x x', Wraps TransparentPlace slice slice' true x x' → f' x' = f x) :
    (c'.child? "name").toList.map f' = (c.child? "name").toList.map f := by
  refine h.map_child? "name" ?_
  intro x x' hx hat
  have hfield := field?_of_child? hx
  have hword : x.isWord = true := by
    rw [isWord, hfield, beq_self_eq_true, Bool.or_true, Bool.true_or]
  exact hf x x' (hat.same_of_isWord (not_transparentPlace hfield (by decide)) hword)

theorem annotationTree_of_wraps : c'.annotationTree slice' = c.annotationTree slice := by
  rw [annotationTree, annotationTree, h.line_eq, treeIn_of_wraps h ih "arguments" (by decide),
    map_name_of_wraps h fun _ _ => nameTree_of_wraps]

omit h in
theorem modifierTrees_of_wraps {x x' : Concrete} (hf : Form.ofKind c.kind = .modifiers)
    (hx : x ∈ c.children) (hat : WrapsAt TransparentPlace slice slice' fixed c.kind x x') :
    x'.modifierTrees slice' = x.modifierTrees slice := by
  have hplace : ¬ TransparentPlace c.kind x := not_transparentPlace_of_form hf (.inl rfl)
  have hannotation := (hat.alike hplace (ih x (size_lt_of_mem hx))).annotation_eq
  rw [modifierTrees, modifierTrees, (hat.same_of_not hplace).kind_eq, hannotation]
  split
  · rename_i hk
    have hword : x.isWord = true := by
      rw [isWord, hk, beq_self_eq_true, Bool.or_true, Bool.true_or, Bool.true_or]
    rw [(hat.same_of_isWord hplace hword).leaf_eq]
  · rfl
  · rfl
  · rfl

theorem modifiersTree_of_wraps (hf : Form.ofKind c.kind = .modifiers) :
    c'.modifiersTree slice' = c.modifiersTree slice := by
  rw [modifiersTree_eq, modifiersTree_eq, h.line_eq]
  refine congrArg (Tree.interior _ _) (flatMap_eq_of_forall₂ h.children ?_)
  intro x hx x' hat
  exact modifierTrees_of_wraps ih hf hx hat

theorem argumentsTree_of_wraps : c'.argumentsTree slice' = c.argumentsTree slice := by
  rw [argumentsTree_eq, argumentsTree_eq, h.line_eq]
  refine congrArg (Tree.interior _ _) (flatMap_eq_of_forall₂ h.namedChildren ?_)
  intro x hx x' hat
  rw [argumentTrees, argumentTrees, hat.contribution_eq (ih x (size_lt_of_named hx)), hat.line_eq]

theorem calleeTrees_of_wraps : c'.calleeTrees slice' = c.calleeTrees slice := by
  rw [calleeTrees_eq, calleeTrees_eq, h.line_eq, treeIn_of_wraps h ih "object" (by decide),
    map_name_of_wraps h fun _ _ hname => hname.leaf_eq .identifier]

theorem callTree_of_wraps : c'.callTree slice' = c.callTree slice := by
  have harguments : (c'.child? "arguments").toList.map (argumentsTree slice') =
      (c.child? "arguments").toList.map (argumentsTree slice) := by
    refine h.map_child? "arguments" ?_
    intro x x' hx hat
    have hplace : ¬ TransparentPlace c.kind x :=
      not_transparentPlace (field?_of_child? hx) (by decide)
    exact (hat.alike hplace (ih x (size_lt_of_child? hx))).arguments_eq
  rw [callTree_eq, callTree_eq, h.line_eq, calleeTrees_of_wraps h ih, harguments]

theorem declaredModifiers_of_wraps (hf : Form.ofKind c.kind = .declaration) :
    c'.declaredModifiers slice' = c.declaredModifiers slice := by
  have hplace {x : Concrete} : ¬ TransparentPlace c.kind x :=
    not_transparentPlace_of_form hf (.inr (.inl rfl))
  have hrel : Option.Rel (WrapsAt TransparentPlace slice slice' fixed c.kind) c.modifiers?
      c'.modifiers? :=
    forall₂_find? h.namedChildren fun x x' hat => by rw [(hat.same_of_not hplace).kind_eq]
  have hmodifiers : c'.modifiers?.toList.map (modifiersTree slice') =
      c.modifiers?.toList.map (modifiersTree slice) := by
    refine map_eq_of_forall₂ (forall₂_toList hrel) ?_
    intro m hm m' hat
    have hm : c.modifiers? = some m := Option.mem_toList.mp hm
    have hkind : m.kind = "modifiers" :=
      beq_iff_eq.mp (List.find?_some (p := fun y : Concrete => y.kind == "modifiers") hm)
    have hform : Form.ofKind m.kind = .modifiers := by
      rw [hkind]
      rfl
    exact (hat.alike hplace (ih m (size_lt_of_modifiers? hm))).modifiers_eq hform
  have helim (o : Option Concrete) (t : Tree) (f : Concrete → Tree) :
      o.elim t f = (o.toList.map f).head?.getD t := by cases o <;> rfl
  rw [declaredModifiers, declaredModifiers, h.line_eq, helim, helim, hmodifiers]

theorem variableTree_of_wraps (hf : Form.ofKind c.kind = .declaration) {d d' : Concrete}
    (hd : d ∈ c.childrenIn "declarator")
    (hat : WrapsAt TransparentPlace slice slice' fixed c.kind d d') :
    c'.variableTree slice' d' = c.variableTree slice d := by
  have hdeclarator := hat.same_of_not (not_transparentPlace_of_form hf (.inr (.inl rfl)))
  have htype : (c'.child? "type").toList.map (typeTree slice') =
      (c.child? "type").toList.map (typeTree slice) := by
    refine h.map_child? "type" ?_
    intro x x' hx hx'
    have hplace : ¬ TransparentPlace c.kind x :=
      not_transparentPlace (field?_of_child? hx) (by decide)
    exact typeTree_of_wraps (hx'.same_of_not hplace) fun hw => by rw [hw, Bool.or_true]
  have hcontribution : d'.contributionIn slice' "value" = d.contributionIn slice "value" :=
    contributionIn_of_wraps hdeclarator
      (fun x hx => ih x (Nat.lt_trans hx (size_lt_of_childrenIn hd))) "value"
  have hvalue : ((d'.child? "value").toList.map fun v =>
        Tree.interior .expression v.line (d'.contributionIn slice' "value")) =
      (d.child? "value").toList.map fun v =>
        Tree.interior .expression v.line (d.contributionIn slice "value") := by
    refine hdeclarator.map_child? "value" ?_
    intro v v' _ hv
    rw [hcontribution, hv.line_eq]
  rw [variableTree, variableTree, hdeclarator.line_eq, declaredModifiers_of_wraps h ih hf, htype,
    map_name_of_wraps hdeclarator fun _ _ hname => hname.leaf_eq .identifier, hvalue]

theorem variableTrees_of_wraps (hf : Form.ofKind c.kind = .declaration) :
    c'.variableTrees slice' = c.variableTrees slice := by
  rw [variableTrees_eq, variableTrees_eq]
  refine map_eq_of_forall₂ (h.childrenIn "declarator") ?_
  intro d hd d' hat
  exact variableTree_of_wraps h ih hf hd hat

omit ih in
theorem packageTree_of_wraps (hf : Form.ofKind c.kind = .package) :
    c'.packageTree slice' = c.packageTree slice := by
  have hplace {x : Concrete} : ¬ TransparentPlace c.kind x :=
    not_transparentPlace_of_form hf (.inr (.inr rfl))
  rw [packageTree, packageTree, h.line_eq]
  refine congrArg (Tree.interior _ _) (map_eq_of_forall₂ (forall₂_filter h.namedChildren ?_) ?_)
  · intro x x' hat
    rw [(hat.same_of_not hplace).kind_eq]
  · intro x hx x' hat
    have hkind := (List.mem_filter.mp hx).2
    rw [Bool.or_eq_true, beq_iff_eq, beq_iff_eq] at hkind
    have hword : x.isWord = true := by
      rcases hkind with hk | hk <;> rw [isWord, hk] <;> rfl
    exact nameTree_of_wraps (hat.same_of_isWord hplace hword)

omit ih in
theorem operationKind_of_wraps : c'.operationKind = c.operationKind := by
  have hkinds : (c'.child? "operator").toList.map kind = (c.child? "operator").toList.map kind := by
    refine h.map_child? "operator" ?_
    intro x x' hx hat
    exact (hat.same_of_not (not_transparentPlace (field?_of_child? hx) (by decide))).kind_eq
  have hhead (o : Option Concrete) : o.map kind = (o.toList.map kind).head? := by cases o <;> rfl
  rw [operationKind, operationKind, hhead, hkinds, ← hhead]

/-! ### The node itself -/

omit h ih in
theorem classLiteralTree_of_wraps (h : Wraps TransparentPlace slice slice' true c c') :
    c'.classLiteralTree slice' = c.classLiteralTree slice := by
  have hname : c'.namedChildren.head?.toList.map (nameTree slice') =
      c.namedChildren.head?.toList.map (nameTree slice) := by
    refine map_eq_of_forall₂ (forall₂_toList (forall₂_head? h.namedChildren)) ?_
    intro x _ x' hat
    exact nameTree_of_wraps hat.same
  rw [classLiteralTree, classLiteralTree, h.line_eq, hname]

omit h ih in
theorem stringTree_of_wraps (h : Wraps TransparentPlace slice slice' true c c') :
    c'.stringTree slice' = c.stringTree slice := by
  rw [stringTree, stringTree, h.text_eq, h.leaf_eq, h.leaf_eq]

theorem tree_of_wraps (hw : c.isWord = true → fixed = true) : c'.tree slice' = c.tree slice := by
  have hempty : c'.namedChildren.isEmpty = c.namedChildren.isEmpty :=
    isEmpty_of_forall₂ h.namedChildren
  have hword {f : Form} (hf : Form.ofKind c.kind = f) (hform : f.isWord = true) :
      Wraps TransparentPlace slice slice' true c c' := by
    have hfixed : fixed = true := by
      refine hw ?_
      rw [isWord, hf, hform, Bool.true_or, Bool.true_or, Bool.true_or]
    rw [hfixed] at h
    exact h
  have hother : (if c'.namedChildren.isEmpty then c'.leaf slice' (.other c'.kind)
        else .interior (.other c'.kind) c'.line (c'.content slice')) =
      if c.namedChildren.isEmpty then c.leaf slice (.other c.kind)
        else .interior (.other c.kind) c.line (c.content slice) := by
    rw [hempty, h.kind_eq]
    split
    · rename_i hn
      have hfixed : fixed = true := by
        refine hw ?_
        rw [isWord, hn, Bool.or_true]
      rw [hfixed] at h
      exact h.leaf_eq _
    · rw [h.line_eq, content_of_wraps h ih]
  rw [tree, tree, h.kind_eq]
  rw [h.kind_eq] at hother
  split
  · rename_i hf
    exact packageTree_of_wraps h hf
  · rw [h.line_eq, content_of_wraps h ih]
  · rename_i hf
    exact (hword hf rfl).leaf_eq _
  · rename_i hf
    exact modifiersTree_of_wraps h ih hf
  · exact annotationTree_of_wraps h ih
  · exact callTree_of_wraps h ih
  · exact argumentsTree_of_wraps h ih
  · rw [h.line_eq, treeIn_of_wraps h ih "object" (by decide),
      treeIn_of_wraps h ih "field" (by decide)]
  · rename_i hf
    exact nameTree_of_wraps (hword hf rfl)
  · rename_i hf
    exact classLiteralTree_of_wraps (hword hf rfl)
  · rw [h.line_eq, operationKind_of_wraps h, contributionIn_of_wraps h ih,
      contributionIn_of_wraps h ih]
  · rename_i hf
    exact stringTree_of_wraps (hword hf rfl)
  · exact typeTree_of_wraps h hw
  all_goals exact hother

theorem contribution_of_wraps (hw : c.isWord = true → fixed = true) :
    c'.contribution slice' = c.contribution slice := by
  rw [contribution, contribution, h.kind_eq]
  split
  · rfl
  · exact content_of_wraps h ih
  · rename_i hf
    exact variableTrees_of_wraps h ih hf
  · rw [tree_of_wraps h ih hw]

end Step

theorem transparent (slice slice' : Slice) (c : Concrete) : Transparent slice slice' c := by
  induction c using induction_size with
  | step c ih =>
      intro fixed c' h hw
      exact {
        tree_eq := tree_of_wraps h ih hw
        contribution_eq := contribution_of_wraps h ih hw
        annotation_eq := annotationTree_of_wraps h ih
        arguments_eq := argumentsTree_of_wraps h ih
        modifiers_eq := modifiersTree_of_wraps h ih }

end Concrete

end PropertyHarvest
