/-
# The documented shapes

The harvester reads children by position and trusts the shapes that stand at
the head of `Tree`.  A concrete tree that keeps the rules of the grammar
(`Grammatical`) is lowered to a tree that has these shapes at every node
(`Tree.Shaped`).

A node of the concrete tree may contribute no tree, one, or several.  Two
facts about the contributions carry the induction (`Lowers`): every tree in
them is shaped throughout, and what is neither a comment nor a declaration
contributes exactly one.  The second is what makes a concatenation have two
children and an argument one.

The rules are about what a grammar without errors gives: a call has a name and a list
of arguments, an access and an operation have two sides, a declaration has a type.
No rule says which words may stand below which, so a tree that keeps them need not be
Java.  And the shapes are those that are read by position; of a method, a class or a
unit nothing is asked, because their children are found by kind.
-/
import PropertyHarvest.Proofs.Concrete.Calls
import PropertyHarvest.Proofs.Concrete.Meaning

namespace PropertyHarvest

/-! ## Shapes -/

namespace Tree

/-- The children of the node are what its kind asks for. -/
def Shaped (t : Tree) : Prop :=
  match t.kind with
  | .packageDecl => ∀ c ∈ t.children, c.kind = .identifier ∨ c.kind = .memberAccess
  | .variableDecl =>
    (t.children.map kind = [.modifiers, .typeRef, .identifier] ∨
        t.children.map kind = [.modifiers, .typeRef, .identifier, .expression]) ∧
      ∀ c ∈ t.children, c.kind = .expression → c.children.length = 1
  | .methodCall =>
    t.children.map kind = [.identifier, .argumentList] ∨
      t.children.map kind = [.memberAccess, .argumentList]
  | .memberAccess | .concatenation => t.children.length = 2
  | .argumentList => ∀ c ∈ t.children, c.kind = .expression ∧ c.children.length = 1
  | .modifiers => ∀ c ∈ t.children, c.kind = .annotationUse ∨ c.kind = .finalModifier
  | _ => True

def isPlain (k : Kind) : Bool :=
  match k with
  | .packageDecl | .variableDecl | .methodCall | .memberAccess | .concatenation | .argumentList
  | .modifiers => false
  | _ => true

theorem shaped_of_isPlain {t : Tree} (h : isPlain t.kind = true) : t.Shaped := by
  rw [Shaped]
  split
  all_goals first
    | exact trivial
    | rename_i hk; rw [hk] at h; cases h

theorem everywhere_shaped_token {k : Kind} (hk : isPlain k = true) (text : String) (line : Nat) :
    (token k text line).Everywhere Shaped :=
  .intro (shaped_of_isPlain hk) fun _ h => absurd h List.not_mem_nil

theorem everywhere_shaped_interior {k : Kind} (hk : isPlain k = true) {line : Nat}
    {cs : List Tree} (hcs : ∀ t ∈ cs, t.Everywhere Shaped) :
    (interior k line cs).Everywhere Shaped :=
  .intro (shaped_of_isPlain hk) hcs

end Tree

theorem Form.isPlain_of_ofKind {k : String} {kind : Kind}
    (h : ofKind k = .branch kind ∨ ofKind k = .leaf kind) : Tree.isPlain kind = true := by
  unfold ofKind at h
  split at h
  all_goals
    rcases h with h | h
    all_goals first
      | cases h; rfl
      | cases h

namespace Concrete

/-! ## Rules of the grammar -/

def isDeclaration (c : Concrete) : Bool :=
  c.kind == "local_variable_declaration" || c.kind == "field_declaration" ||
    c.kind == "constant_declaration"

/-- What the grammar guarantees of a node. -/
structure Rules (c : Concrete) : Prop where
  comment : c.isComment = true → c.label.field? = none
  call : c.kind = "method_invocation" →
    (∃ name, c.child? "name" = some name) ∧
      ∃ x, c.child? "arguments" = some x ∧ x.kind = "argument_list"
  access : c.kind = "field_access" → ∀ field ∈ ["object", "field"], ∃ x, c.child? field = some x
  operation : c.kind = "binary_expression" →
    ∀ field ∈ ["left", "right"], ∃ x, c.child? field = some x ∧ x.isDeclaration = false
  classLiteral : c.kind = "class_literal" → ∃ x, c.namedChildren.head? = some x
  parentheses : c.kind = "parenthesized_expression" →
    ∃ x, c.parts = [x] ∧ x.isDeclaration = false
  arguments : c.kind = "argument_list" → ∀ x ∈ c.namedChildren, x.isDeclaration = false
  declaration : c.isDeclaration = true → ∀ d ∈ c.childrenIn "declarator",
    (∃ type, c.child? "type" = some type) ∧ (∃ name, d.child? "name" = some name) ∧
      ∀ v, d.child? "value" = some v → v.isDeclaration = false

/-- Every node of the tree keeps the rules. -/
inductive Grammatical : Concrete → Prop
  | intro {c : Concrete} (rules : c.Rules) (inside : ∀ x ∈ c.children, Grammatical x) :
      Grammatical c

instance (c : Concrete) : Decidable c.Rules :=
  decidable_of_iff
    ((c.isComment = true → c.label.field? = none) ∧
      (c.kind = "method_invocation" → (c.child? "name").isSome = true ∧
        (c.child? "arguments").any (·.kind = "argument_list") = true) ∧
      (c.kind = "field_access" → ∀ field ∈ ["object", "field"], (c.child? field).isSome = true) ∧
      (c.kind = "binary_expression" →
        ∀ field ∈ ["left", "right"], (c.child? field).any (·.isDeclaration = false) = true) ∧
      (c.kind = "class_literal" → c.namedChildren.head?.isSome = true) ∧
      (c.kind = "parenthesized_expression" →
        c.parts.length = 1 ∧ ∀ x ∈ c.parts, x.isDeclaration = false) ∧
      (c.kind = "argument_list" → ∀ x ∈ c.namedChildren, x.isDeclaration = false) ∧
      (c.isDeclaration = true → ∀ d ∈ c.childrenIn "declarator",
        (c.child? "type").isSome = true ∧ (d.child? "name").isSome = true ∧
          (d.child? "value").all (·.isDeclaration = false) = true)) <| by
    have hone : (c.parts.length = 1 ∧ ∀ x ∈ c.parts, x.isDeclaration = false) ↔
        ∃ x, c.parts = [x] ∧ x.isDeclaration = false := by
      rw [List.length_eq_one_iff]
      constructor
      · rintro ⟨⟨x, hx⟩, hall⟩
        exact ⟨x, hx, hall x (hx ▸ List.mem_cons_self)⟩
      · rintro ⟨x, hx, hd⟩
        exact ⟨⟨x, hx⟩, hx ▸ List.forall_mem_singleton.mpr hd⟩
    simp only [hone, Option.isSome_iff_exists, Option.any_eq_true, Option.all_eq_true,
      decide_eq_true_eq]
    constructor
    · rintro ⟨comment, call, access, operation, classLiteral, parentheses, arguments, declaration⟩
      exact ⟨comment, call, access, operation, classLiteral, parentheses, arguments, declaration⟩
    · rintro ⟨comment, call, access, operation, classLiteral, parentheses, arguments, declaration⟩
      exact ⟨comment, call, access, operation, classLiteral, parentheses, arguments, declaration⟩

variable {c x : Concrete} {field : String}

theorem Grammatical.rules (h : c.Grammatical) : c.Rules := by
  cases h with
  | intro rules _ => exact rules

theorem Grammatical.child (h : c.Grammatical) (hx : x ∈ c.children) : x.Grammatical := by
  cases h with
  | intro _ inside => exact inside x hx

theorem Grammatical.named (h : c.Grammatical) (hx : x ∈ c.namedChildren) : x.Grammatical :=
  h.child (List.mem_filter.mp hx).1

theorem Grammatical.child? (h : c.Grammatical) (hx : c.child? field = some x) : x.Grammatical :=
  h.child (List.mem_of_find?_eq_some hx)

theorem grammatical_iff (above : List Concrete) :
    c.Grammatical ↔ ∀ p ∈ c.placesBelow above, p.node.Rules := by
  induction c using induction_size generalizing above with
  | step c ih =>
      obtain ⟨l, cs⟩ := c
      rw [placesBelow, List.forall_mem_cons]
      constructor
      · intro h
        refine ⟨h.rules, fun p hp => ?_⟩
        obtain ⟨x, hx, hp⟩ := mem_placesIn_iff.mp hp
        exact (ih x (size_lt_of_mem hx) _).mp (h.child hx) p hp
      · rintro ⟨hrules, hinside⟩
        refine .intro hrules fun x hx => (ih x (size_lt_of_mem hx) (.node l cs :: above)).mpr ?_
        exact fun p hp => hinside p (mem_placesIn_iff.mpr ⟨x, hx, hp⟩)

instance (c : Concrete) : Decidable c.Grammatical :=
  decidable_of_iff (∀ p ∈ c.places, p.node.Rules) (grammatical_iff []).symm

theorem Grammatical.isComment_child? (h : c.Grammatical) (hx : c.child? field = some x) :
    x.isComment = false := by
  have hfield : (x.label.field? == some field) = true :=
    List.find?_some (p := fun x : Concrete => x.label.field? == some field) hx
  refine Bool.eq_false_iff.mpr fun hcomment => ?_
  rw [(h.child? hx).rules.comment hcomment] at hfield
  cases hfield

theorem isDeclaration_iff : c.isDeclaration = true ↔ Form.ofKind c.kind = .declaration := by
  rw [isDeclaration, Bool.or_eq_true, Bool.or_eq_true, beq_iff_eq, beq_iff_eq, beq_iff_eq]
  constructor
  · rintro ((h | h) | h) <;> rw [h] <;> rfl
  · intro h
    rw [or_assoc]
    exact Form.tells_of_eq h

theorem isComment_iff : c.isComment = true ↔ Form.ofKind c.kind = .comment := by
  rw [isComment, Bool.or_eq_true, beq_iff_eq, beq_iff_eq]
  constructor
  · rintro (h | h) <;> rw [h] <;> rfl
  · exact fun h => Form.tells_of_eq h

/-! ## Names and types -/

open PropertyHarvest.Tree (Everywhere Shaped everywhere_shaped_token everywhere_shaped_interior)

variable {slice : Slice}

theorem shaped_nameTree (c : Concrete) : (c.nameTree slice).Everywhere Shaped := by
  induction c using induction_size with
  | step c ih =>
      have hscoped : (c.scopedTree slice).Everywhere Shaped := by
        rw [scopedTree]
        split
        · rename_i scope next rest hn
          refine .intro rfl fun t ht => ?_
          rcases List.mem_cons.mp ht with rfl | ht
          · exact ih scope (size_lt_of_named (hn ▸ List.mem_cons_self))
          · rw [List.mem_singleton.mp ht]
            exact everywhere_shaped_token rfl _ _
        · exact everywhere_shaped_token rfl _ _
      have hgeneric : (c.genericTree slice).Everywhere Shaped := by
        rw [genericTree]
        split
        · rename_i base rest hn
          exact ih base (size_lt_of_named (hn ▸ List.mem_cons_self))
        · exact everywhere_shaped_token rfl _ _
      rw [nameTree_eq]
      unfold nameTreeOf
      split
      · exact everywhere_shaped_token rfl _ _
      · exact everywhere_shaped_token rfl _ _
      · exact hscoped
      · exact hscoped
      · exact hgeneric
      · exact everywhere_shaped_token rfl _ _

theorem kind_scopedTree (c : Concrete) :
    (c.scopedTree slice).kind = .identifier ∨ (c.scopedTree slice).kind = .memberAccess := by
  rw [scopedTree]
  split
  · exact .inr rfl
  · exact .inl rfl

theorem shaped_packageTree (c : Concrete) : (c.packageTree slice).Everywhere Shaped := by
  have hnames : ∀ t ∈ (c.packageTree slice).children, t.Everywhere Shaped ∧
      (t.kind = .identifier ∨ t.kind = .memberAccess) := by
    intro t ht
    obtain ⟨x, hx, rfl⟩ := List.mem_map.mp ht
    refine ⟨shaped_nameTree x, ?_⟩
    have hk := (List.mem_filter.mp hx).2
    rw [Bool.or_eq_true, beq_iff_eq, beq_iff_eq] at hk
    rw [nameTree_eq]
    rcases hk with hk | hk
    · rw [hk]
      exact .inl rfl
    · rw [hk]
      exact kind_scopedTree x
  exact .intro (fun t ht => (hnames t ht).2) fun t ht => (hnames t ht).1

theorem shaped_typeTree (c : Concrete) : (c.typeTree slice).Everywhere Shaped := by
  refine everywhere_shaped_interior rfl fun t ht => ?_
  split at ht
  · rw [List.mem_singleton.mp ht]
    exact shaped_nameTree c
  · rw [List.mem_singleton.mp ht]
    exact shaped_nameTree c
  · rw [List.mem_singleton.mp ht]
    exact shaped_nameTree c
  · cases ht

theorem shaped_classLiteralTree (h : ∃ x, c.namedChildren.head? = some x) :
    (c.classLiteralTree slice).Everywhere Shaped := by
  obtain ⟨x, hx⟩ := h
  have heq : c.classLiteralTree slice = .interior .memberAccess c.line
      [x.nameTree slice, .token .classLiteral "class" c.line] := by
    rw [classLiteralTree, hx]
    rfl
  rw [heq]
  refine .intro rfl fun t ht => ?_
  rcases List.mem_cons.mp ht with rfl | ht
  · exact shaped_nameTree x
  · rw [List.mem_singleton.mp ht]
    exact everywhere_shaped_token rfl _ _

theorem shaped_stringTree (c : Concrete) : (c.stringTree slice).Everywhere Shaped := by
  rw [stringTree]
  split
  · exact everywhere_shaped_token rfl _ _
  · exact everywhere_shaped_token rfl _ _

/-! ## All forms -/

/-- What is lowered from the node is shaped, and there is one tree where one is
expected. -/
structure Lowers (slice : Slice) (c : Concrete) : Prop where
  tree : (c.tree slice).Everywhere Shaped
  contribution : ∀ t ∈ c.contribution slice, t.Everywhere Shaped
  single : c.isComment = false → c.isDeclaration = false → ∃ t, c.contribution slice = [t]
  annotationUse : (c.annotationTree slice).Everywhere Shaped
  modifiers : (c.modifiersTree slice).Everywhere Shaped
  arguments : c.kind = "argument_list" → (c.argumentsTree slice).Everywhere Shaped

section Step

variable (hc : c.Grammatical)
  (ih : ∀ x : Concrete, x.size < c.size → x.Grammatical → Lowers slice x)

include hc ih

theorem shaped_content : ∀ t ∈ c.content slice, t.Everywhere Shaped := by
  intro t ht
  rw [content_eq] at ht
  obtain ⟨x, hx, ht⟩ := List.mem_flatMap.mp ht
  exact (ih x (size_lt_of_named hx) (hc.named hx)).contribution t ht

theorem shaped_treeIn (field : String) : ∀ t ∈ c.treeIn slice field, t.Everywhere Shaped := by
  intro t ht
  rw [treeIn_eq] at ht
  obtain ⟨x, hx, rfl⟩ := List.mem_map.mp ht
  have hx := Option.mem_toList.mp hx
  exact (ih x (size_lt_of_child? hx) (hc.child? hx)).tree

/-- A role that is filled by a construct adds one tree. -/
theorem exists_contributionIn (hx : c.child? field = some x) (hd : x.isDeclaration = false) :
    ∃ t, c.contributionIn slice field = [t] ∧ t.Everywhere Shaped := by
  have hlowers := ih x (size_lt_of_child? hx) (hc.child? hx)
  obtain ⟨t, ht⟩ := hlowers.single (hc.isComment_child? hx) hd
  refine ⟨t, ?_, hlowers.contribution t (ht ▸ List.mem_singleton_self t)⟩
  rw [contributionIn_eq, hx]
  exact (List.flatMap_singleton ..).trans ht

theorem shaped_operation (hf : Form.ofKind c.kind = .operation) :
    (Tree.interior c.operationKind c.line
      (c.contributionIn slice "left" ++ c.contributionIn slice "right")).Everywhere Shaped := by
  have hrule := hc.rules.operation (Form.tells_of_eq hf)
  obtain ⟨l, hl, hld⟩ := hrule "left" List.mem_cons_self
  obtain ⟨r, hr, hrd⟩ := hrule "right" (List.mem_cons_of_mem _ List.mem_cons_self)
  obtain ⟨left, hleft, hshapedLeft⟩ := exists_contributionIn hc ih hl hld
  obtain ⟨right, hright, hshapedRight⟩ := exists_contributionIn hc ih hr hrd
  rw [hleft, hright]
  refine .intro ?_ fun t ht => ?_
  · rw [operationKind]
    split
    · rfl
    · exact trivial
  · rcases List.mem_cons.mp ht with rfl | ht
    · exact hshapedLeft
    · rw [List.mem_singleton.mp ht]
      exact hshapedRight

theorem shaped_access (hf : Form.ofKind c.kind = .access) :
    (Tree.interior .memberAccess c.line
      (c.treeIn slice "object" ++ c.treeIn slice "field")).Everywhere Shaped := by
  have hrule := hc.rules.access (Form.tells_of_eq hf)
  obtain ⟨object, ho⟩ := hrule "object" List.mem_cons_self
  obtain ⟨member, hm⟩ := hrule "field" (List.mem_cons_of_mem _ List.mem_cons_self)
  refine .intro ?_ fun t ht => ?_
  · rw [treeIn_eq, treeIn_eq, ho, hm]
    rfl
  · rcases List.mem_append.mp ht with ht | ht
    · exact shaped_treeIn hc ih "object" t ht
    · exact shaped_treeIn hc ih "field" t ht

theorem shaped_annotationTree : (c.annotationTree slice).Everywhere Shaped := by
  rw [annotationTree]
  refine everywhere_shaped_interior rfl fun t ht => ?_
  rcases List.mem_append.mp ht with ht | ht
  · obtain ⟨x, -, rfl⟩ := List.mem_map.mp ht
    exact shaped_nameTree x
  · exact shaped_treeIn hc ih "arguments" t ht

theorem shaped_modifiersTree : (c.modifiersTree slice).Everywhere Shaped := by
  have hmarks : ∀ t ∈ c.children.flatMap (modifierTrees slice), t.Everywhere Shaped ∧
      (t.kind = .annotationUse ∨ t.kind = .finalModifier) := by
    intro t ht
    obtain ⟨x, hx, ht⟩ := List.mem_flatMap.mp ht
    have huse := (ih x (size_lt_of_mem hx) (hc.child hx)).annotationUse
    have hkind : (x.annotationTree slice).kind = .annotationUse := by rw [annotationTree]; rfl
    rw [modifierTrees] at ht
    split at ht
    · rw [List.mem_singleton.mp ht]
      exact ⟨everywhere_shaped_token rfl _ _, .inr rfl⟩
    · rw [List.mem_singleton.mp ht]
      exact ⟨huse, .inl hkind⟩
    · rw [List.mem_singleton.mp ht]
      exact ⟨huse, .inl hkind⟩
    · cases ht
  rw [modifiersTree_eq]
  exact .intro (fun t ht => (hmarks t ht).2) fun t ht => (hmarks t ht).1

theorem shaped_argumentsTree (hk : c.kind = "argument_list") :
    (c.argumentsTree slice).Everywhere Shaped := by
  have harguments : ∀ t ∈ c.parts.flatMap (argumentTrees slice), t.Everywhere Shaped ∧
      t.kind = .expression ∧ t.children.length = 1 := by
    intro t ht
    obtain ⟨x, hx, ht⟩ := List.mem_flatMap.mp ht
    obtain ⟨hnamed, hcomment⟩ := List.mem_filter.mp hx
    have hlowers := ih x (size_lt_of_named hnamed) (hc.named hnamed)
    have hcomment : x.isComment = false := by simpa using hcomment
    obtain ⟨u, hu⟩ := hlowers.single hcomment (hc.rules.arguments hk x hnamed)
    rw [argumentTrees, hu] at ht
    rw [List.mem_singleton.mp ht]
    refine ⟨everywhere_shaped_interior rfl fun v hv => ?_, rfl, rfl⟩
    exact hlowers.contribution v (hu ▸ hv)
  rw [argumentsTree_eq_parts]
  exact .intro (fun t ht => (harguments t ht).2) fun t ht => (harguments t ht).1

theorem exists_callee (hk : c.kind = "method_invocation") :
    ∃ callee, c.calleeTrees slice = [callee] ∧ callee.Everywhere Shaped ∧
      (callee.kind = .identifier ∨ callee.kind = .memberAccess) := by
  obtain ⟨⟨name, hname⟩, -⟩ := hc.rules.call hk
  rw [calleeTrees, hname]
  cases ho : c.child? "object" with
  | none => exact ⟨_, rfl, everywhere_shaped_token rfl _ _, .inl rfl⟩
  | some object =>
      refine ⟨_, rfl, .intro rfl fun t ht => ?_, .inr rfl⟩
      rcases List.mem_cons.mp ht with rfl | ht
      · exact (ih object (size_lt_of_child? ho) (hc.child? ho)).tree
      · rw [List.mem_singleton.mp ht]
        exact everywhere_shaped_token rfl _ _

theorem shaped_callTree (hf : Form.ofKind c.kind = .call) :
    (c.callTree slice).Everywhere Shaped := by
  have hk : c.kind = "method_invocation" := Form.ofKind_eq_call_iff.mp hf
  obtain ⟨-, x, hx, hxkind⟩ := hc.rules.call hk
  obtain ⟨callee, hcallee, hshaped, hkind⟩ := exists_callee hc ih hk
  have harguments := (ih x (size_lt_of_child? hx) (hc.child? hx)).arguments hxkind
  have heq : c.callTree slice =
      .interior .methodCall c.line [callee, x.argumentsTree slice] := by
    rw [callTree_eq, hcallee, hx]
    rfl
  have hlist : (x.argumentsTree slice).kind = .argumentList := by rw [argumentsTree_eq]; rfl
  rw [heq]
  refine .intro ?_ fun t ht => ?_
  · show [callee.kind, (x.argumentsTree slice).kind] = _ ∨
      [callee.kind, (x.argumentsTree slice).kind] = _
    rw [hlist]
    rcases hkind with hkind | hkind
    · exact .inl (by rw [hkind])
    · exact .inr (by rw [hkind])
  · rcases List.mem_cons.mp ht with rfl | ht
    · exact hshaped
    · rw [List.mem_singleton.mp ht]
      exact harguments

theorem shaped_declaredModifiers : (c.declaredModifiers slice).Everywhere Shaped := by
  rw [declaredModifiers]
  cases hm : c.modifiers? with
  | none =>
      refine .intro (fun t ht => ?_) fun t ht => ?_
      · exact absurd ht List.not_mem_nil
      · exact absurd ht List.not_mem_nil
  | some m =>
      exact (ih m (size_lt_of_modifiers? hm)
        (hc.named (List.mem_of_find?_eq_some hm))).modifiers

/-- What a declarator starts its variable with, wrapped. -/
theorem initializer_cases {d : Concrete} (hdecl : c.isDeclaration = true)
    (hd : d ∈ c.childrenIn "declarator") :
    d.child? "value" = none ∨ ∃ v t, d.child? "value" = some v ∧
      d.contributionIn slice "value" = [t] ∧ t.Everywhere Shaped := by
  have hmem : d ∈ c.children := (List.mem_filter.mp hd).1
  cases hv : d.child? "value" with
  | none => exact .inl rfl
  | some v =>
      obtain ⟨t, ht, hshaped⟩ := exists_contributionIn (hc.child hmem)
        (fun x hx => ih x (Nat.lt_trans hx (size_lt_of_mem hmem))) hv
        ((hc.rules.declaration hdecl d hd).2.2 v hv)
      exact .inr ⟨v, t, rfl, ht, hshaped⟩

theorem shaped_variableTree {d : Concrete} (hdecl : c.isDeclaration = true)
    (hd : d ∈ c.childrenIn "declarator") : (c.variableTree slice d).Everywhere Shaped := by
  obtain ⟨⟨type, htype⟩, ⟨name, hname⟩, -⟩ := hc.rules.declaration hdecl d hd
  have hfirst : ∀ t ∈ [c.declaredModifiers slice, type.typeTree slice,
      name.leaf slice .identifier], t.Everywhere Shaped ∧ t.kind ≠ .expression := by
    intro t ht
    simp only [List.mem_cons, List.not_mem_nil, or_false] at ht
    rcases ht with rfl | rfl | rfl
    · refine ⟨shaped_declaredModifiers hc ih, ?_⟩
      rw [kind_declaredModifiers]
      exact Kind.noConfusion
    · exact ⟨shaped_typeTree type, Kind.noConfusion⟩
    · exact ⟨everywhere_shaped_token rfl _ _, Kind.noConfusion⟩
  have hkinds : [c.declaredModifiers slice, type.typeTree slice,
      name.leaf slice .identifier].map Tree.kind = [.modifiers, .typeRef, .identifier] := by
    rw [List.map_cons, kind_declaredModifiers]
    rfl
  rcases initializer_cases hc ih hdecl hd with hv | ⟨v, value, hv, hvalue, hshaped⟩
  · have heq : c.variableTree slice d = .interior .variableDecl d.line
        [c.declaredModifiers slice, type.typeTree slice, name.leaf slice .identifier] := by
      rw [variableTree, htype, hname, hv]
      rfl
    rw [heq]
    refine .intro ⟨.inl hkinds, fun t ht he => ?_⟩ fun t ht => (hfirst t ht).1
    exact absurd he (hfirst t ht).2
  · have heq : c.variableTree slice d = .interior .variableDecl d.line
        ([c.declaredModifiers slice, type.typeTree slice, name.leaf slice .identifier] ++
          [.interior .expression v.line [value]]) := by
      rw [variableTree, htype, hname, hv, hvalue]
      rfl
    have hlast : (Tree.interior .expression v.line [value]).Everywhere Shaped :=
      everywhere_shaped_interior rfl (List.forall_mem_singleton.mpr hshaped)
    rw [heq]
    refine .intro ⟨.inr (congrArg (· ++ [Kind.expression]) hkinds), fun t ht he => ?_⟩
      fun t ht => ?_
    · rcases List.mem_append.mp ht with ht | ht
      · exact absurd he (hfirst t ht).2
      · rw [List.mem_singleton.mp ht]
        rfl
    · rcases List.mem_append.mp ht with ht | ht
      · exact (hfirst t ht).1
      · exact List.mem_singleton.mp ht ▸ hlast

theorem shaped_other :
    (if c.namedChildren.isEmpty then c.leaf slice (.other c.kind)
      else .interior (.other c.kind) c.line (c.content slice)).Everywhere Shaped := by
  split
  · exact everywhere_shaped_token rfl _ _
  · exact everywhere_shaped_interior rfl (shaped_content hc ih)

theorem shaped_tree : (c.tree slice).Everywhere Shaped := by
  rw [tree]
  split
  · exact shaped_packageTree c
  · rename_i hf
    exact everywhere_shaped_interior (Form.isPlain_of_ofKind (.inl hf)) (shaped_content hc ih)
  · rename_i hf
    exact everywhere_shaped_token (Form.isPlain_of_ofKind (.inr hf)) _ _
  · exact shaped_modifiersTree hc ih
  · exact shaped_annotationTree hc ih
  · rename_i hf
    exact shaped_callTree hc ih hf
  · rename_i hf
    exact shaped_argumentsTree hc ih (Form.ofKind_eq_arguments_iff.mp hf)
  · rename_i hf
    exact shaped_access hc ih hf
  · exact shaped_nameTree c
  · rename_i hf
    exact shaped_classLiteralTree (hc.rules.classLiteral (Form.tells_of_eq hf))
  · rename_i hf
    exact shaped_operation hc ih hf
  · exact shaped_stringTree c
  · exact shaped_typeTree c
  · exact shaped_other hc ih
  · exact shaped_other hc ih
  · exact shaped_other hc ih
  · exact shaped_other hc ih

theorem shaped_contribution : ∀ t ∈ c.contribution slice, t.Everywhere Shaped := by
  rw [contribution]
  split
  · exact fun t ht => absurd ht List.not_mem_nil
  · exact shaped_content hc ih
  · rename_i hf
    rw [variableTrees_eq]
    intro t ht
    obtain ⟨d, hd, rfl⟩ := List.mem_map.mp ht
    exact shaped_variableTree hc ih (isDeclaration_iff.mpr hf) hd
  · exact List.forall_mem_singleton.mpr (shaped_tree hc ih)

/-- What is neither a comment nor a declaration contributes one tree; of
parentheses it is the one that they enclose. -/
theorem exists_contribution (hcomment : c.isComment = false) (hdecl : c.isDeclaration = false) :
    ∃ t, c.contribution slice = [t] := by
  rw [contribution]
  split
  · rename_i hf
    rw [isComment_iff.mpr hf] at hcomment
    cases hcomment
  · rename_i hf
    obtain ⟨x, hx, hxdecl⟩ := hc.rules.parentheses (Form.ofKind_eq_parentheses_iff.mp hf)
    have hpart : x ∈ c.parts := hx ▸ List.mem_singleton_self x
    obtain ⟨hnamed, hxcomment⟩ := List.mem_filter.mp hpart
    rw [content_eq_parts, hx, List.flatMap_singleton]
    refine (ih x (size_lt_of_named hnamed) (hc.named hnamed)).single ?_ hxdecl
    exact (Bool.not_eq_true' _).mp hxcomment
  · rename_i hf
    rw [isDeclaration_iff.mpr hf] at hdecl
    cases hdecl
  · exact ⟨_, rfl⟩

end Step

theorem lowers {c : Concrete} (hc : c.Grammatical) : Lowers slice c := by
  induction c using induction_size with
  | step c ih =>
      have ih (x : Concrete) (hx : x.size < c.size) (hg : x.Grammatical) := ih x hx hg
      exact {
        tree := shaped_tree hc ih
        contribution := shaped_contribution hc ih
        single := exists_contribution hc ih
        annotationUse := shaped_annotationTree hc ih
        modifiers := shaped_modifiersTree hc ih
        arguments := shaped_argumentsTree hc ih }

/-- The tree of a file is shaped at every node. -/
theorem shaped_file {c : Concrete} (hc : c.Grammatical) :
    (Tree.interior .compilationUnit c.line (c.content slice)).Everywhere Shaped :=
  everywhere_shaped_interior rfl (shaped_content hc fun _ _ hx => lowers hx)

end Concrete

end PropertyHarvest
