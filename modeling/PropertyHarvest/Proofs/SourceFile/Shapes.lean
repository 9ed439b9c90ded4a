/-
# The tree that is delivered

A source file without errors whose tree keeps the rules of the grammar is laid
out as the harvester expects it: one unit at the root with nothing above it,
every node below the root once and none beside it, and every node with the
children that its kind asks for.

The shapes say nothing of texts and lines.  A name may be any text, and a line is that
of the node from which it was lowered (`Proofs.SourceFile.Verification`).  The rules
are asked of all nodes of the file, also of those that leave no trace; the flags of
errors only of the root, which is where a file is refused.

The example has a call with a receiver, whose name is added first, and two declarators,
for each of which modifiers and type are added anew.
-/
import PropertyHarvest.Proofs.Concrete.Shapes
import PropertyHarvest.Proofs.SourceFile.Verification

namespace PropertyHarvest

namespace SourceFile

/-- The modifiers and the type are lowered twice, the name `g` before `f`. -/
def twoVariables : SourceFile where
  text := "@A T a = f.g(\"x\" + \"y\"), b;"
  concrete :=
    .node ⟨"program", none, 0, 0, 27, true, false, false, false⟩ [
      .node ⟨"local_variable_declaration", none, 0, 0, 27, true, false, false, false⟩ [
        .node ⟨"modifiers", none, 0, 0, 2, true, false, false, false⟩ [
          .node ⟨"marker_annotation", none, 0, 0, 2, true, false, false, false⟩ [
            .node ⟨"identifier", some "name", 0, 1, 2, true, false, false, false⟩ []]],
        .node ⟨"type_identifier", some "type", 0, 3, 4, true, false, false, false⟩ [],
        .node ⟨"variable_declarator", some "declarator", 0, 5, 23, true, false, false, false⟩ [
          .node ⟨"identifier", some "name", 0, 5, 6, true, false, false, false⟩ [],
          .node ⟨"method_invocation", some "value", 0, 9, 23, true, false, false, false⟩ [
            .node ⟨"identifier", some "object", 0, 9, 10, true, false, false, false⟩ [],
            .node ⟨"identifier", some "name", 0, 11, 12, true, false, false, false⟩ [],
            .node ⟨"argument_list", some "arguments", 0, 12, 23, true, false, false, false⟩ [
              .node ⟨"binary_expression", none, 0, 13, 22, true, false, false, false⟩ [
                .node ⟨"string_literal", some "left", 0, 13, 16, true, false, false, false⟩ [],
                .node ⟨"+", some "operator", 0, 17, 18, false, false, false, false⟩ [],
                .node ⟨"string_literal", some "right", 0, 19, 22, true, false, false, false⟩ []]]]],
        .node ⟨"variable_declarator", some "declarator", 0, 25, 26, true, false, false, false⟩ [
          .node ⟨"identifier", some "name", 0, 25, 26, true, false, false, false⟩ []]]]

open PropertyHarvest.Tree in
def twoVariablesTree : Tree :=
  interior .compilationUnit 1 [
    interior .variableDecl 1 [
      interior .modifiers 1 [interior .annotationUse 1 [token .identifier "A" 1]],
      interior .typeRef 1 [token .identifier "T" 1],
      token .identifier "a" 1,
      interior .expression 1 [interior .methodCall 1 [
        interior .memberAccess 1 [token .identifier "f" 1, token .identifier "g" 1],
        interior .argumentList 1 [interior .expression 1 [interior .concatenation 1 [
          token .stringLiteral "\"x\"" 1, token .stringLiteral "\"y\"" 1]]]]]],
    interior .variableDecl 1 [
      interior .modifiers 1 [interior .annotationUse 1 [token .identifier "A" 1]],
      interior .typeRef 1 [token .identifier "T" 1],
      token .identifier "b" 1]]

theorem tree_twoVariables : twoVariables.tree = .ok twoVariablesTree := by
  have hwords : ∀ w ∈ [(1, 2, "A"), (3, 4, "T"), (5, 6, "a"), (9, 10, "f"), (11, 12, "g"),
      (13, 16, "\"x\""), (19, 22, "\"y\""), (25, 26, "b")],
      slice twoVariables.text w.1 w.2.1 = w.2.2 := by
    decide +kernel
  simp only [List.forall_mem_cons] at hwords
  obtain ⟨hA, hT, ha, hf, hg, hx, hy, hb, -⟩ := hwords
  have hdeclaration : Form.ofKind "local_variable_declaration" = .declaration := rfl
  have hcall : Form.ofKind "method_invocation" = .call := rfl
  have hsum : Form.ofKind "binary_expression" = .operation := rfl
  have hstring : Form.ofKind "string_literal" = .string := rfl
  have hname : Form.ofKind "identifier" = .leaf .identifier := rfl
  rw [tree]
  generalize slice twoVariables.text = words at *
  simp [twoVariables, twoVariablesTree, hdeclaration, hcall, hsum, hstring, hname, hA, hT, ha, hf,
    hg, hx, hy, hb, Concrete.fileTree, Concrete.contribution, Concrete.tree, Concrete.content_eq,
    Concrete.contributionIn_eq, Concrete.treeIn_eq, Concrete.nameTree_eq, Concrete.nameTreeOf,
    Concrete.typeTree, Concrete.stringTree, Concrete.modifiersTree_eq, Concrete.modifierTrees,
    Concrete.annotationTree, Concrete.variableTrees_eq, Concrete.variableTree,
    Concrete.declaredModifiers, Concrete.modifiers?, Concrete.callTree_eq, Concrete.calleeTrees,
    Concrete.argumentsTree_eq, Concrete.argumentTrees, Concrete.operationKind, Concrete.leaf,
    Concrete.text, Concrete.line, Concrete.kind, Concrete.label, Concrete.children,
    Concrete.namedChildren, Concrete.childrenIn, Concrete.child?]

theorem exists_call_twoVariablesTree {a : Arena} (h : a.Holds twoVariablesTree) :
    ∃ call : Node a, call.kind = .methodCall ∧
      call.children.map Node.kind = [.memberAccess, .argumentList] := by
  have hread : ((twoVariablesTree.located []).any fun e => e.2.kind == .methodCall &&
      e.2.children.map Tree.kind == [.memberAccess, .argumentList]) = true := by
    decide +kernel
  rw [← h.map_located_preorder, List.any_map] at hread
  obtain ⟨call, -, hcall⟩ := List.any_eq_true.mp hread
  rw [Function.comp_apply, Bool.and_eq_true, beq_iff_eq, beq_iff_eq, ← Node.map_tree_children,
    List.map_map] at hcall
  exact ⟨call, hcall⟩

end SourceFile

end PropertyHarvest
