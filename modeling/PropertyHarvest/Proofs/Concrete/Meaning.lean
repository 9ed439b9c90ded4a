/-
# What an expression means

Between the text of an argument and its value stand two recursions over two
different trees: the lowering drops comments and parentheses and wraps
arguments, and the value is then read off what is left.  Here the detour is
closed.  `Expression` is what a reader of the source sees, `Spells` says which
concrete trees spell an expression, and the value found after lowering is the
value of the expression (`literalContent_of_spells`).

Comments may stand between the parts of an expression.  They are constructs of
the grammar, so "exactly one argument" means one construct besides comments.

The expressions are those that have a value or are refused as a whole: texts, `null`,
sums of two, builders of paths over one argument, constants that are asked for their
name, and the constructs that are never valued.  Not in the list are calls of any
other shape.  They are refused as well, and how is said of the lowered tree
(`Proofs.Literal.Refusals`).
-/
import PropertyHarvest.Proofs.Concrete.Equations
import PropertyHarvest.Proofs.Literal.Constants

namespace PropertyHarvest

/-! ## Expressions -/

/-- An expression as it is meant.  A line is kept where a refusal needs one. -/
inductive Expression where
  | text (value : String)
  | null
  | join (left right : Expression)
  /-- A path builder applied to its argument, on a line. -/
  | path (builder : Idiom.PathBuilder) (argument : Expression) (line : Nat)
  /-- An enum constant asked for its name. -/
  | constant (name : String)
  /-- Anything without a value: the kind and the line it is refused with. -/
  | refused (kind : Kind) (line : Nat)
  deriving DecidableEq, Repr

/-- Evaluation from left to right, up to the first refusal.  An absent operand
reads as `null`; an absent argument leaves a path builder without a value. -/
def Expression.value (basePath packagePath : String) :
    Expression → Except LiteralError (Option String)
  | .text value => .ok (some value)
  | .null => .ok none
  | .join left right => do
    let l ← left.value basePath packagePath
    let r ← right.value basePath packagePath
    .ok (some (l.getD "null" ++ r.getD "null"))
  | .path builder argument line => do
    match ← argument.value basePath packagePath with
    | some name => .ok (some (basePath ++ builder.dir ++ packagePath ++ name))
    | none => .error (.unsupportedConstruct .methodCall line)
  | .constant name => .ok (some name)
  | .refused kind line => .error (.unsupportedConstruct kind line)

namespace Concrete

/-! ## Spelling -/

def isComment (c : Concrete) : Bool :=
  c.kind == "line_comment" || c.kind == "block_comment"

def parts (c : Concrete) : List Concrete :=
  c.namedChildren.filter (!·.isComment)

variable (slice : Slice)

def IsTextBlock (c : Concrete) : Prop :=
  ∃ rest, c.text slice = "\"\"\"" ++ rest

/-- The expressions that have no value, with the kind they are refused as.
Calls are not among them. -/
inductive Valueless : Concrete → Kind → Prop
  | identifier {c : Concrete} (kind_eq : c.kind = "identifier") : Valueless c .identifier
  | access {c : Concrete} (kind_eq : c.kind = "field_access" ∨ c.kind = "class_literal") :
      Valueless c .memberAccess
  | operation {c : Concrete} (kind_eq : c.kind = "binary_expression")
      (operator_ne : ∀ x, c.child? "operator" = some x → x.kind ≠ "+") :
      Valueless c (.other "binary_expression")
  | textBlock {c : Concrete} (kind_eq : c.kind = "string_literal") (block : c.IsTextBlock slice) :
      Valueless c (.other "text_block")
  | other {c : Concrete} (form_eq : Form.ofKind c.kind = .other) : Valueless c (.other c.kind)

/-- The concrete tree spells the expression. -/
inductive Spells : Concrete → Expression → Prop
  | text {c : Concrete} {value : String} (kind_eq : c.kind = "string_literal")
      (text_eq : c.text slice = "\"" ++ value ++ "\"") (no_block : ¬ c.IsTextBlock slice) :
      Spells c (.text value)
  | null {c : Concrete} (kind_eq : c.kind = "null_literal") : Spells c .null
  | parentheses {c x : Concrete} {e : Expression} (kind_eq : c.kind = "parenthesized_expression")
      (parts_eq : c.parts = [x]) (spells : Spells x e) : Spells c e
  | join {c l r operator : Concrete} {e f : Expression} (kind_eq : c.kind = "binary_expression")
      (operator_eq : c.child? "operator" = some operator) (operator_kind : operator.kind = "+")
      (left_eq : c.child? "left" = some l) (right_eq : c.child? "right" = some r)
      (left : Spells l e) (right : Spells r f) : Spells c (.join e f)
  | path {c name arguments x : Concrete} {builder : Idiom.PathBuilder} {e : Expression}
      (kind_eq : c.kind = "method_invocation") (undotted : c.child? "object" = none)
      (name_eq : c.child? "name" = some name)
      (builder_eq : Idiom.PathBuilder.ofName? (name.text slice) = some builder)
      (arguments_eq : c.child? "arguments" = some arguments) (parts_eq : arguments.parts = [x])
      (argument : Spells x e) : Spells c (.path builder e c.line)
  | constant {c access owner member name arguments : Concrete}
      (kind_eq : c.kind = "method_invocation") (access_eq : c.child? "object" = some access)
      (access_kind : access.kind = "field_access")
      (owner_eq : access.child? "object" = some owner) (owner_kind : owner.kind = "identifier")
      (member_eq : access.child? "field" = some member) (member_kind : member.kind = "identifier")
      (name_eq : c.child? "name" = some name)
      (accessor : name.text slice ∈ Idiom.enumNameAccessors)
      (arguments_eq : c.child? "arguments" = some arguments)
      (nothing_passed : arguments.parts = []) : Spells c (.constant (member.text slice))
  | refused {c : Concrete} {kind : Kind} (valueless : Valueless slice c kind) :
      Spells c (.refused kind c.line)

/-! ## Comments leave no trace -/

variable {slice}

theorem contribution_of_isComment {c : Concrete} (h : c.isComment = true) :
    c.contribution slice = [] := by
  have hform : Form.ofKind c.kind = .comment := by
    rw [isComment, Bool.or_eq_true, beq_iff_eq, beq_iff_eq] at h
    rcases h with h | h <;> rw [h] <;> rfl
  rw [contribution, hform]

theorem argumentTrees_of_isComment {c : Concrete} (h : c.isComment = true) :
    c.argumentTrees slice = [] := by
  rw [argumentTrees, contribution_of_isComment h]

theorem flatMap_namedChildren (c : Concrete) {f : Concrete → List Tree}
    (hf : ∀ x, x.isComment = true → f x = []) : c.namedChildren.flatMap f = c.parts.flatMap f := by
  rw [parts]
  induction c.namedChildren with
  | nil => rfl
  | cons x xs ih =>
      rw [List.flatMap_cons, List.filter_cons, ih]
      cases hx : x.isComment with
      | true => rw [hf x hx]; rfl
      | false => rfl

theorem content_eq_parts (c : Concrete) :
    c.content slice = c.parts.flatMap (contribution slice) := by
  rw [content_eq]
  exact flatMap_namedChildren c fun _ => contribution_of_isComment

theorem argumentsTree_eq_parts (c : Concrete) :
    c.argumentsTree slice =
      .interior .argumentList c.line (c.parts.flatMap (argumentTrees slice)) := by
  rw [argumentsTree_eq]
  rw [flatMap_namedChildren c fun _ => argumentTrees_of_isComment]

/-! ## One tree for each expression -/

end Concrete

/-- The value of the tree is that of the expression, whatever surrounds it. -/
def Tree.Means (t : Tree) (e : Expression) : Prop :=
  ∀ basePath packagePath files,
    t.literal ⟨basePath, packagePath, files⟩ = e.value basePath packagePath

namespace Concrete

variable {slice : Slice} {c : Concrete}

theorem contribution_of_parentheses (hk : c.kind = "parenthesized_expression") :
    c.contribution slice = c.content slice := by
  rw [contribution, hk]
  rfl

theorem contribution_of_string (hk : c.kind = "string_literal") :
    c.contribution slice = [c.stringTree slice] := by
  rw [contribution, tree, hk]
  rfl

theorem contribution_of_operation (hk : c.kind = "binary_expression") :
    c.contribution slice = [.interior c.operationKind c.line
      (c.contributionIn slice "left" ++ c.contributionIn slice "right")] := by
  rw [contribution, tree, hk]
  rfl

theorem contribution_of_call (hk : c.kind = "method_invocation") :
    c.contribution slice = [c.callTree slice] := by
  rw [contribution, tree, hk]
  rfl

theorem contribution_of_classLiteral (hk : c.kind = "class_literal") :
    c.contribution slice = [c.classLiteralTree slice] := by
  rw [contribution, tree, hk]
  rfl

theorem contribution_of_identifier (hk : c.kind = "identifier") :
    c.contribution slice = [c.leaf slice .identifier] := by
  rw [contribution, tree, hk]
  rfl

theorem tree_of_identifier (hk : c.kind = "identifier") :
    c.tree slice = c.leaf slice .identifier := by
  rw [tree, hk]
  rfl

theorem tree_of_access (hk : c.kind = "field_access") :
    c.tree slice =
      .interior .memberAccess c.line (c.treeIn slice "object" ++ c.treeIn slice "field") := by
  rw [tree, hk]
  rfl

theorem unquote?_quoted (value : String) : unquote? ("\"" ++ value ++ "\"") = some value := by
  have hlist : ("\"" ++ value ++ "\"").toList = '"' :: (value.toList ++ ['"']) := by
    rw [String.toList_append, String.toList_append]
    rfl
  obtain ⟨d, rest, hrest⟩ : ∃ d rest, value.toList ++ ['"'] = d :: rest :=
    List.exists_cons_of_ne_nil (List.append_ne_nil_of_right_ne_nil _ (List.cons_ne_nil _ _))
  rw [unquote?, hlist, hrest]
  dsimp only
  rw [← hrest, List.dropLast_concat, String.ofList_toList]

theorem startsWith_iff_isTextBlock :
    (c.text slice).startsWith "\"\"\"" = true ↔ c.IsTextBlock slice := by
  rw [String.startsWith_string_iff, IsTextBlock]
  constructor
  · rintro ⟨rest, h⟩
    have hrest : (String.ofList rest).toList = rest := String.toList_ofList
    refine ⟨String.ofList rest, ?_⟩
    rw [← String.toList_inj, ← h, String.toList_append, hrest]
  · rintro ⟨rest, h⟩
    rw [h, String.toList_append]
    exact List.prefix_append _ _

theorem means_text {value : String} (hk : c.kind = "string_literal")
    (ht : c.text slice = "\"" ++ value ++ "\"") (hb : ¬ c.IsTextBlock slice) :
    ∃ t, c.contribution slice = [t] ∧ t.Means (.text value) := by
  have hblock : ¬ (c.text slice).startsWith "\"\"\"" = true := fun h =>
    hb (startsWith_iff_isTextBlock.mp h)
  refine ⟨c.leaf slice .stringLiteral, ?_, fun basePath packagePath files => ?_⟩
  · rw [contribution_of_string hk, stringTree, if_neg hblock]
  · refine Tree.literal_string rfl ?_
    show unquote? (c.text slice) = some value
    rw [ht, unquote?_quoted]

theorem means_join {l r operator : Concrete} {tl tr : Tree} {e f : Expression}
    (hk : c.kind = "binary_expression") (ho : c.child? "operator" = some operator)
    (hplus : operator.kind = "+") (hl : c.child? "left" = some l) (hr : c.child? "right" = some r)
    (htl : l.contribution slice = [tl]) (htr : r.contribution slice = [tr]) (hel : tl.Means e)
    (hfr : tr.Means f) : ∃ t, c.contribution slice = [t] ∧ t.Means (.join e f) := by
  have hkind : c.operationKind = .concatenation := by
    rw [operationKind, ho, Option.map_some, hplus, if_pos rfl]
  refine ⟨.interior .concatenation c.line [tl, tr], ?_, fun basePath packagePath files => ?_⟩
  · rw [contribution_of_operation hk, hkind, contributionIn_eq, contributionIn_eq, hl, hr]
    simp only [Option.toList_some, List.flatMap_singleton, htl, htr, List.cons_append,
      List.nil_append]
  · have hfirst : (Tree.interior .concatenation c.line [tl, tr]).firstChild? = some tl := rfl
    have hlast : (Tree.interior .concatenation c.line [tl, tr]).lastChild? = some tr := rfl
    rw [Tree.literal_concatenation rfl hfirst hlast, hel, hfr]
    rfl

theorem plainShape_eq_path {callee t : Tree} {line l : Nat} {builder : Idiom.PathBuilder}
    (hb : callee.text?.bind Idiom.PathBuilder.ofName? = some builder) :
    Literal.plainShape callee
        (some (.interior .argumentList line [.interior .expression l [t]])) =
      .path builder (.interior .expression l [t]) := by
  unfold Literal.plainShape
  rw [hb]
  rfl

theorem means_path {name arguments x : Concrete} {builder : Idiom.PathBuilder} {t : Tree}
    {e : Expression} (hk : c.kind = "method_invocation") (ho : c.child? "object" = none)
    (hn : c.child? "name" = some name)
    (hb : Idiom.PathBuilder.ofName? (name.text slice) = some builder)
    (ha : c.child? "arguments" = some arguments) (hp : arguments.parts = [x])
    (htx : x.contribution slice = [t]) (hte : t.Means e) :
    ∃ u, c.contribution slice = [u] ∧ u.Means (.path builder e c.line) := by
  refine ⟨_, contribution_of_call hk, fun basePath packagePath files => ?_⟩
  have hcall : c.callTree slice = .interior .methodCall c.line
      [name.leaf slice .identifier, .interior .argumentList arguments.line
        [.interior .expression x.line [t]]] := by
    simp only [callTree_eq, calleeTrees, ho, hn, ha, Option.toList_some, List.map_cons,
      List.map_nil, argumentsTree_eq_parts, hp, List.flatMap_singleton, argumentTrees, htx,
      List.cons_append, List.nil_append]
  have hshape : Literal.callShape files (c.callTree slice) =
      .path builder (.interior .expression x.line [t]) := by
    rw [hcall]
    show Literal.plainShape (name.leaf slice .identifier) _ = _
    exact plainShape_eq_path hb
  have hcontent : (Tree.interior .expression x.line [t]).firstChild? = some t := rfl
  rw [Tree.literal_path (by rw [hcall]; rfl) hshape hcontent, hte, Tree.unsupported, hcall]
  rfl

theorem means_constant {access owner member name arguments : Concrete}
    (hk : c.kind = "method_invocation") (ho : c.child? "object" = some access)
    (hak : access.kind = "field_access") (hown : access.child? "object" = some owner)
    (hok : owner.kind = "identifier") (hmem : access.child? "field" = some member)
    (hmk : member.kind = "identifier") (hn : c.child? "name" = some name)
    (hacc : name.text slice ∈ Idiom.enumNameAccessors)
    (ha : c.child? "arguments" = some arguments) (hp : arguments.parts = []) :
    ∃ u, c.contribution slice = [u] ∧ u.Means (.constant (member.text slice)) := by
  refine ⟨_, contribution_of_call hk, fun basePath packagePath files => ?_⟩
  have haccess : access.tree slice = .interior .memberAccess access.line
      [owner.leaf slice .identifier, member.leaf slice .identifier] := by
    rw [tree_of_access hak, treeIn_eq, treeIn_eq, hown, hmem]
    simp only [Option.toList_some, List.map_cons, List.map_nil, tree_of_identifier hok,
      tree_of_identifier hmk, List.cons_append, List.nil_append]
  have hcall : c.callTree slice = .interior .methodCall c.line
      [.interior .memberAccess c.line [access.tree slice, name.leaf slice .identifier],
        .interior .argumentList arguments.line []] := by
    simp only [callTree_eq, calleeTrees, ho, hn, ha, Option.toList_some, List.map_cons,
      List.map_nil, argumentsTree_eq_parts, hp, List.flatMap_nil, List.cons_append,
      List.nil_append]
  have hasks : (c.callTree slice).AsksName (member.leaf slice .identifier) := by
    rw [hcall, haccess]
    refine .intro rfl rfl rfl rfl rfl rfl hacc rfl rfl rfl ?_
    rintro arguments ⟨⟩
    rfl
  have hshape : Literal.callShape files (c.callTree slice) = .constant (member.text slice) := by
    rw [Literal.callShape_eq_constant_iff (by rw [hcall]; rfl) rfl]
    exact ⟨_, hasks, rfl⟩
  exact Tree.literal_constant (by rw [hcall]; rfl) hshape

theorem contribution_of_other (hf : Form.ofKind c.kind = .other) :
    ∃ t, c.contribution slice = [t] ∧ t.kind = .other c.kind ∧ t.line = c.line := by
  rw [contribution, tree, hf]
  dsimp only
  split
  · exact ⟨_, rfl, rfl, rfl⟩
  · exact ⟨_, rfl, rfl, rfl⟩

theorem Valueless.contribution_eq {k : Kind} (h : Valueless slice c k) :
    ∃ t, c.contribution slice = [t] ∧ t.kind = k ∧ t.line = c.line := by
  cases h with
  | identifier hk =>
      exact ⟨c.leaf slice .identifier, contribution_of_identifier hk, rfl, rfl⟩
  | access hk =>
      rcases hk with hk | hk
      · refine ⟨.interior .memberAccess c.line (c.treeIn slice "object" ++ c.treeIn slice "field"),
          ?_, rfl, rfl⟩
        rw [contribution, tree, hk]
        rfl
      · exact ⟨c.classLiteralTree slice, contribution_of_classLiteral hk, rfl, rfl⟩
  | operation hk hop =>
      have hkind : c.operationKind = .other "binary_expression" := by
        rw [operationKind, if_neg]
        intro h
        obtain ⟨x, hx, hplus⟩ := Option.map_eq_some_iff.mp h
        exact hop x hx hplus
      exact ⟨_, contribution_of_operation hk, hkind, rfl⟩
  | textBlock hk hb =>
      refine ⟨c.leaf slice (.other "text_block"), ?_, rfl, rfl⟩
      rw [contribution_of_string hk, stringTree, if_pos (startsWith_iff_isTextBlock.mpr hb)]
  | other hf => exact contribution_of_other hf

theorem Valueless.hasValueKind_eq_false {k : Kind} (h : Valueless slice c k) :
    Tree.hasValueKind k = false := by
  cases h <;> rfl

theorem means_refused {k : Kind} (h : Valueless slice c k) :
    ∃ t, c.contribution slice = [t] ∧ t.Means (.refused k c.line) := by
  obtain ⟨t, htrees, hkind, hline⟩ := h.contribution_eq
  refine ⟨t, htrees, fun basePath packagePath files => ?_⟩
  have hvalue : Tree.hasValueKind t.kind = false := by
    rw [hkind]
    exact h.hasValueKind_eq_false
  rw [Tree.literal_of_not_hasValueKind hvalue, Tree.unsupported, hkind, hline]
  rfl

/-- A tree that spells an expression leaves one tree behind, and that has the
value of the expression. -/
theorem Spells.means {e : Expression} (h : Spells slice c e) :
    ∃ t, c.contribution slice = [t] ∧ t.Means e := by
  induction h with
  | text hk ht hb => exact means_text hk ht hb
  | @null c hk =>
      refine ⟨c.leaf slice .nullLiteral, ?_, fun _ _ _ => Tree.literal_null rfl⟩
      rw [contribution, tree, hk]
      rfl
  | parentheses hk hp _ ih =>
      obtain ⟨t, htrees, hmeans⟩ := ih
      refine ⟨t, ?_, hmeans⟩
      rw [contribution_of_parentheses hk, content_eq_parts, hp, List.flatMap_singleton, htrees]
  | join hk ho hplus hl hr _ _ ihl ihr =>
      obtain ⟨tl, htl, hel⟩ := ihl
      obtain ⟨tr, htr, hfr⟩ := ihr
      exact means_join hk ho hplus hl hr htl htr hel hfr
  | path hk ho hn hb ha hp _ ih =>
      obtain ⟨t, ht, hte⟩ := ih
      exact means_path hk ho hn hb ha hp ht hte
  | constant hk ho hak hown hok hmem hmk hn hacc ha hp =>
      exact means_constant hk ho hak hown hok hmem hmk hn hacc ha hp
  | refused h => exact means_refused h

/-! ## Arguments and initializers -/

theorem literalContent_wrapped {t : Tree} {e : Expression} (h : t.Means e) (line : Nat)
    (basePath packagePath : String) (files : List String) :
    (Tree.interior .expression line [t]).literalContent ⟨basePath, packagePath, files⟩ =
      e.value basePath packagePath :=
  h basePath packagePath files

theorem kind_declaredModifiers (p : Concrete) : (p.declaredModifiers slice).kind = .modifiers := by
  rw [declaredModifiers]
  cases p.modifiers? with
  | none => rfl
  | some m =>
      show (m.modifiersTree slice).kind = .modifiers
      rw [modifiersTree_eq]
      rfl

theorem find?_variableTree {p d : Concrete} {k : Kind} (hk : k ≠ .modifiers) :
    (p.variableTree slice d).findFirstChild? k =
      ((p.child? "type").toList.map (typeTree slice) ++
        (d.child? "name").toList.map (leaf slice .identifier) ++
        (d.child? "value").toList.map fun v =>
          Tree.interior .expression v.line (d.contributionIn slice "value")).find? (·.is k) := by
  have hmod : (p.declaredModifiers slice).is k = false := by
    rw [Tree.is, kind_declaredModifiers]
    exact beq_false_of_ne hk.symm
  rw [variableTree]
  show (_ :: _).find? _ = _
  rw [List.find?_cons, hmod]

theorem findFirstChild?_variableTree {p d : Concrete} {t : Tree} (hv : d.child? "value" = some c)
    (ht : c.contribution slice = [t]) :
    (p.variableTree slice d).findFirstChild? .expression =
      some (.interior .expression c.line [t]) := by
  have hvalue : d.contributionIn slice "value" = [t] := by
    rw [contributionIn_eq, hv, Option.toList_some, List.flatMap_singleton, ht]
  -- Type and name stand before the initializer and are no wrappers.
  have htype : ((p.child? "type").toList.map (typeTree slice)).find? (·.is .expression) = none := by
    cases p.child? "type" <;> rfl
  have hname : ((d.child? "name").toList.map (leaf slice .identifier)).find? (·.is .expression) =
      none := by
    cases d.child? "name" <;> rfl
  rw [find?_variableTree Kind.noConfusion, hv, hvalue, List.find?_append, List.find?_append, htype,
    hname]
  rfl

/-- As an argument, wherever it stands in a list of arguments, and as the
initializer of a variable, an expression has the value that it is meant to
have, with the refusal that comes first if it has none. -/
theorem literalContent_of_spells {e : Expression} (h : Spells slice c e)
    (basePath packagePath : String) (files : List String) :
    (∀ (arguments : Concrete) us vs, arguments.namedChildren = us ++ c :: vs →
      ∃ w, (arguments.argumentsTree slice).children =
          us.flatMap (argumentTrees slice) ++ w :: vs.flatMap (argumentTrees slice) ∧
        w.kind = .expression ∧
        w.literalContent ⟨basePath, packagePath, files⟩ = e.value basePath packagePath) ∧
    ∀ (declaration : Concrete) us d vs, declaration.childrenIn "declarator" = us ++ d :: vs →
      d.child? "value" = some c →
      ∃ v w, declaration.variableTrees slice =
          us.map (variableTree slice declaration) ++
            v :: vs.map (variableTree slice declaration) ∧
        v.findFirstChild? .expression = some w ∧
        w.literalContent ⟨basePath, packagePath, files⟩ = e.value basePath packagePath := by
  obtain ⟨t, ht, hmeans⟩ := h.means
  have hvalue := literalContent_wrapped hmeans c.line basePath packagePath files
  constructor
  · intro arguments us vs hargs
    have hc : c.argumentTrees slice = [.interior .expression c.line [t]] := by
      rw [argumentTrees, ht]
    refine ⟨.interior .expression c.line [t], ?_, rfl, hvalue⟩
    rw [argumentsTree_eq, hargs, List.flatMap_append, List.flatMap_cons, hc]
    rfl
  · intro declaration us d vs hdecl hv
    refine ⟨declaration.variableTree slice d, .interior .expression c.line [t], ?_,
      findFirstChild?_variableTree hv ht, hvalue⟩
    rw [variableTrees_eq, hdecl, List.map_append, List.map_cons]

/-! ## A path in full

The one argument of the call below reads

    getPath((/* file */ "Input" + Kind.JAVA.name()))
-/

/-- The words of the call; a node starts where its word stands. -/
def pathWords : Slice := fun start _ =>
  ["getPath", "/* file */", "\"Input\"", "Kind", "JAVA", "name"].getD start ""

def wordNode (kind : String) (field? : Option String) (word : Nat) (children : List Concrete) :
    Concrete :=
  .node ⟨kind, field?, 0, word, word, true, false, false, false⟩ children

def constantName : Concrete :=
  wordNode "method_invocation" (some "right") 3 [
    wordNode "field_access" (some "object") 3 [
      wordNode "identifier" (some "object") 3 [], wordNode "identifier" (some "field") 4 []],
    wordNode "identifier" (some "name") 5 [], wordNode "argument_list" (some "arguments") 5 []]

def pathCall : Concrete :=
  wordNode "method_invocation" none 0 [
    wordNode "identifier" (some "name") 0 [],
    wordNode "argument_list" (some "arguments") 0 [
      wordNode "parenthesized_expression" none 1 [
        wordNode "block_comment" none 1 [],
        wordNode "binary_expression" none 2 [
          wordNode "string_literal" (some "left") 2 [], wordNode "+" (some "operator") 3 [],
          constantName]]]]

def pathExpression : Expression :=
  .path .getPath (.join (.text "Input") (.constant "JAVA")) 1

theorem spells_pathCall : Spells pathWords pathCall pathExpression := by
  have hname : (wordNode "identifier" (some "name") 5 []).text pathWords ∈
      Idiom.enumNameAccessors := by
    show "name" ∈ ["toString", "getName", "name"]
    simp
  have hconstant : Spells pathWords constantName
      (.constant ((wordNode "identifier" (some "field") 4 []).text pathWords)) :=
    .constant rfl rfl rfl rfl rfl rfl rfl rfl hname rfl rfl
  have htext : Spells pathWords (wordNode "string_literal" (some "left") 2 []) (.text "Input") := by
    refine .text rfl rfl ?_
    rw [← startsWith_iff_isTextBlock]
    decide +kernel
  exact .path rfl rfl rfl rfl rfl rfl
    (.parentheses rfl rfl (.join rfl rfl rfl rfl rfl htext hconstant))

theorem literalContent_pathCall :
    ∃ w, ((wordNode "argument_list" none 0 [pathCall]).argumentsTree pathWords).children = [w] ∧
      w.literalContent ⟨"base/", "p/", []⟩ = .ok (some "base/src/test/resources/p/InputJAVA") := by
  obtain ⟨w, hw, -, hvalue⟩ := (literalContent_of_spells spells_pathCall "base/" "p/" []).1
    (wordNode "argument_list" none 0 [pathCall]) [] [] rfl
  exact ⟨w, hw, hvalue.trans rfl⟩

end Concrete

end PropertyHarvest
