/-
# Parentheses and what is harvested

Two trees of a source that differ in parentheses around operands, arguments,
initializers, and receivers that have some already, are lowered to one syntax
tree.  So no harvester can tell them apart, whatever state it is in when it
comes to the file (`harvested_of_wraps`).

Around a receiver that has no parentheses they do make a difference.  The
receiver becomes a node that is neither a name nor a call, and a handle behind
it is no longer known (`harvested_receiver`).

The two files are compared by what a harvester does with each, from any state and with
any base path: what it found, what it skipped and the scope in which it ends.  The
texts of the files and the bytes of their nodes may differ throughout.
-/
import PropertyHarvest.Proofs.Concrete.Building
import PropertyHarvest.Proofs.Concrete.Parentheses
import PropertyHarvest.Proofs.Harvester.Resemblance
import PropertyHarvest.SourceFile

namespace PropertyHarvest

namespace Concrete

/-- The outcome of reading one file: the harvester after it, with what it found
and what it skipped. -/
def harvested (h : Harvester) (slice : Slice) (c : Concrete) :
    Except SyntaxError (Except ProcessError Unit × Harvester) :=
  (c.fileArena slice).map h.harvest

/-- The outcome is that of the tree that the file stands for. -/
theorem harvested_eq_fileTree (h : Harvester) (slice : Slice) (c : Concrete) :
    c.harvested h slice = (c.fileTree slice).map fun t => h.harvest (.ofTree t) := by
  rw [harvested]
  cases ha : c.fileArena slice with
  | error e =>
      rw [fileArena_eq_error_iff.mp ha]
      rfl
  | ok a =>
      obtain ⟨t, ht, hholds⟩ := holds_of_fileArena ha
      rw [ht]
      exact congrArg Except.ok (h.harvest_eq_ofTree hholds)

theorem harvested_eq (h : Harvester) {slice : Slice} {c : Concrete}
    (he : c.label.hasError = false) :
    c.harvested h slice =
      .ok (h.harvest (.ofTree (.interior .compilationUnit c.line (c.content slice)))) := by
  rw [harvested_eq_fileTree, fileTree, he]
  rfl

/-- Parentheses are transparent, around a receiver only if it has some already:
the outcome of the two files is the same in all its parts. -/
theorem harvested_of_wraps {slice slice' : Slice} {c c' : Concrete}
    (hw : Wraps TransparentPlace slice slice' false c c') (he : c.label.hasError = false)
    (he' : c'.label.hasError = false) (h : Harvester) :
    ∃ r, c.harvested h slice = .ok r ∧ c'.harvested h slice' = .ok r := by
  have hcontent : c'.content slice' = c.content slice :=
    content_of_wraps hw fun x _ => transparent slice slice' x
  refine ⟨_, harvested_eq h he, ?_⟩
  rw [harvested_eq h he', hcontent, hw.line_eq]

/-! ## One receiver, with and without parentheses

    @Test
    Configuration config = createRootConfig();
    config.addAttribute("max", "3");
    verify(config);
-/

def testWords : Slice := fun start _ =>
  ["Test", "Configuration", "config", "createRootConfig", "addAttribute", "\"max\"", "\"3\"",
    "verify"].getD start ""

/-- The test with its second statement on `receiver` and verifying `argument`. -/
def sampleTest (receiver argument : Concrete) : Concrete :=
  wordNode "program" none 0 [
    wordNode "method_declaration" none 0 [
      wordNode "modifiers" none 0 [
        wordNode "marker_annotation" none 0 [wordNode "identifier" (some "name") 0 []]],
      wordNode "block" (some "body") 1 [
        wordNode "local_variable_declaration" none 1 [
          wordNode "type_identifier" (some "type") 1 [],
          wordNode "variable_declarator" (some "declarator") 2 [
            wordNode "identifier" (some "name") 2 [],
            wordNode "method_invocation" (some "value") 3 [
              wordNode "identifier" (some "name") 3 [],
              wordNode "argument_list" (some "arguments") 3 []]]],
        wordNode "expression_statement" none 2 [
          wordNode "method_invocation" none 2 [
            receiver,
            wordNode "identifier" (some "name") 4 [],
            wordNode "argument_list" (some "arguments") 5 [
              wordNode "string_literal" none 5 [], wordNode "string_literal" none 6 []]]],
        wordNode "expression_statement" none 7 [
          wordNode "method_invocation" none 7 [
            wordNode "identifier" (some "name") 7 [],
            wordNode "argument_list" (some "arguments") 7 [argument]]]]]]

/-- The handle, in a role. -/
def configName (field? : Option String) : Concrete :=
  wordNode "identifier" field? 2 []

def enclosedConfigName (field? : Option String) : Concrete :=
  wordNode "parenthesized_expression" field? 2 [configName none]

open PropertyHarvest.Tree in
/-- The test lowered, with what its receiver and its argument are lowered to. -/
def sampleTree (receiver argument : Tree) : Tree :=
  interior .compilationUnit 1 [
    interior .methodDecl 1 [
      interior .modifiers 1 [interior .annotationUse 1 [token .identifier "Test" 1]],
      interior .block 1 [
        interior .variableDecl 1 [
          interior .modifiers 1 [],
          interior .typeRef 1 [token .identifier "Configuration" 1],
          token .identifier "config" 1,
          interior .expression 1 [interior .methodCall 1 [
            token .identifier "createRootConfig" 1, interior .argumentList 1 []]]],
        interior .expression 1 [interior .methodCall 1 [
          interior .memberAccess 1 [receiver, token .identifier "addAttribute" 1],
          interior .argumentList 1 [
            interior .expression 1 [token .stringLiteral "\"max\"" 1],
            interior .expression 1 [token .stringLiteral "\"3\"" 1]]]],
        interior .expression 1 [interior .methodCall 1 [
          token .identifier "verify" 1,
          interior .argumentList 1 [interior .expression 1 [argument]]]]]]]

theorem unitTree_sampleTest :
    Tree.interior .compilationUnit 1
        ((sampleTest (configName (some "object")) (configName none)).content testWords) =
      sampleTree (.token .identifier "config" 1) (.token .identifier "config" 1) ∧
    Tree.interior .compilationUnit 1
        ((sampleTest (enclosedConfigName (some "object")) (configName none)).content testWords) =
      sampleTree (.interior (.other "parenthesized_expression") 1 [.token .identifier "config" 1])
        (.token .identifier "config" 1) := by
  have hmethod : Form.ofKind "method_declaration" = .branch .methodDecl := rfl
  have hmodifiers : Form.ofKind "modifiers" = .modifiers := rfl
  have hblock : Form.ofKind "block" = .branch .block := rfl
  have hdeclaration : Form.ofKind "local_variable_declaration" = .declaration := rfl
  have hstatement : Form.ofKind "expression_statement" = .branch .expression := rfl
  have hcall : Form.ofKind "method_invocation" = .call := rfl
  have hstring : Form.ofKind "string_literal" = .string := rfl
  have hname : Form.ofKind "identifier" = .leaf .identifier := rfl
  have hparentheses : Form.ofKind "parenthesized_expression" = .parentheses := rfl
  constructor <;>
    simp [sampleTest, sampleTree, configName, enclosedConfigName, wordNode, testWords, hmethod,
      hmodifiers, hblock, hdeclaration, hstatement, hcall, hstring, hname, hparentheses,
      contribution, tree, content_eq, contributionIn_eq, treeIn_eq, nameTree_eq, nameTreeOf,
      typeTree, stringTree, modifiersTree_eq, modifierTrees, annotationTree, variableTrees_eq,
      variableTree, declaredModifiers, modifiers?, callTree_eq, calleeTrees, argumentsTree_eq,
      argumentTrees, leaf, text, line, kind, label, children, namedChildren, childrenIn, child?]

theorem wraps_sampleTest_argument :
    Wraps TransparentPlace testWords testWords false
      (sampleTest (configName (some "object")) (configName none))
      (sampleTest (configName (some "object")) (enclosedConfigName none)) := by
  have hplace : TransparentPlace "argument_list" (configName none) := .inl (.argument rfl)
  have hargument : WrapsAt TransparentPlace testWords testWords false "argument_list"
      (configName none) (enclosedConfigName none) :=
    .wrapped hplace (wraps_refl _ _) (.once rfl rfl) rfl rfl rfl
  refine wraps_child [] [] (wrapsAt_of_wraps rfl rfl ?_)
  refine wraps_child [_] [] (wrapsAt_of_wraps rfl rfl ?_)
  refine wraps_child [_, _] [] (wrapsAt_of_wraps rfl rfl ?_)
  refine wraps_child [] [] (wrapsAt_of_wraps rfl rfl ?_)
  refine wraps_child [_] [] (wrapsAt_of_wraps rfl rfl ?_)
  exact wraps_child [] [] hargument

theorem harvested_of_wraps_argument :
    ∃ r, (sampleTest (configName (some "object")) (configName none)).harvested (.ofBasePath "")
        testWords = .ok r ∧
      (sampleTest (configName (some "object")) (enclosedConfigName none)).harvested
        (.ofBasePath "") testWords = .ok r :=
  harvested_of_wraps wraps_sampleTest_argument rfl rfl _

theorem wraps_sampleTest_receiver :
    Wraps ExpressionPlace testWords testWords false
      (sampleTest (configName (some "object")) (configName none))
      (sampleTest (enclosedConfigName (some "object")) (configName none)) := by
  have hplace : ExpressionPlace "method_invocation" (configName (some "object")) :=
    .inr (.call rfl)
  have hinner (fixed : Bool) : Wraps ExpressionPlace testWords testWords fixed
      (configName (some "object")) (configName none) :=
    .intro rfl rfl rfl (fun _ => rfl) .nil
  have hreceiver : WrapsAt ExpressionPlace testWords testWords false "method_invocation"
      (configName (some "object")) (enclosedConfigName (some "object")) :=
    .wrapped hplace (hinner _) (.once rfl rfl) rfl rfl rfl
  refine wraps_child [] [] (wrapsAt_of_wraps rfl rfl ?_)
  refine wraps_child [_] [] (wrapsAt_of_wraps rfl rfl ?_)
  refine wraps_child [_] [_] (wrapsAt_of_wraps rfl rfl ?_)
  refine wraps_child [] [] (wrapsAt_of_wraps rfl rfl ?_)
  exact wraps_child [] [_, _] hreceiver

/-- A property that is set on a handle in parentheses is not found. -/
theorem harvested_receiver :
    Wraps ExpressionPlace testWords testWords false
        (sampleTest (configName (some "object")) (configName none))
        (sampleTest (enclosedConfigName (some "object")) (configName none)) ∧
      ∃ r r', (sampleTest (configName (some "object")) (configName none)).harvested
          (.ofBasePath "") testWords = .ok r ∧
        (sampleTest (enclosedConfigName (some "object")) (configName none)).harvested
          (.ofBasePath "") testWords = .ok r' ∧
        r.2.drain.1 = [("Checker", [⟨"max", "3"⟩])] ∧ r'.2.drain.1 = [] := by
  refine ⟨wraps_sampleTest_receiver, _, _, harvested_eq _ rfl, harvested_eq _ rfl, ?_, ?_⟩
  · show ((Harvester.ofBasePath "").harvest
      (.ofTree (.interior .compilationUnit 1 _))).2.drain.1 = _
    rw [unitTree_sampleTest.1]
    decide +kernel
  · show ((Harvester.ofBasePath "").harvest
      (.ofTree (.interior .compilationUnit 1 _))).2.drain.1 = _
    rw [unitTree_sampleTest.2]
    decide +kernel

end Concrete

end PropertyHarvest
