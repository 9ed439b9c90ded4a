/-
# Comments and what is harvested

A file with comments put between its nodes is read whenever the file without
them is.  The two syntax trees resemble each other, so no harvester can tell
the files apart: it finds the same, skips the same at the same lines, and goes
on in the same state (`harvested_of_commented`).

What is equal is everything that a harvester can hand out, and the state in which it is
left.  The trees themselves are not equal, and `Resembles` says how they may differ.
How a comment moves the lines of a text is not the matter here: the two trees are given
with their rows.

The example puts one comment into every place of a file of one test in which there may
be one, and the property of the test is found as before.
-/
import PropertyHarvest.Proofs.Concrete.Comments
import PropertyHarvest.Proofs.SourceFile.Parentheses

namespace PropertyHarvest.Concrete

/-- Comments leave no trace in the outcome of a file, and next to none in its
tree. -/
theorem harvested_of_commented (slice : Slice) {c c' : Concrete} (ha : c.Anchored)
    (he : c.label.hasError = false) (h : CommentedFile c c') :
    (∃ t t', c.fileTree slice = .ok t ∧ c'.fileTree slice = .ok t' ∧ t.Resembles t') ∧
      ∀ harvester : Harvester, c'.harvested harvester slice = c.harvested harvester slice := by
  obtain ⟨t, t', ht, ht', hresembles⟩ := fileTree_of_commentedFile slice ha he h
  refine ⟨⟨t, t', ht, ht', hresembles⟩, fun harvester => ?_⟩
  rw [harvested_eq_fileTree, harvested_eq_fileTree, ht, ht']
  have hsame :=
    harvester.harvest_eq_of_holds (Arena.holds_ofTree t) (Arena.holds_ofTree t') hresembles
  exact congrArg Except.ok hsame

/-! ## One file with notes

    @Test
    Configuration config = createModuleConfig(FooCheck /* note */ .class);
    config /* note */ .addAttribute("max", /* note */ "3");
    verify(config);
    return /* note */ ;
-/

def notedWords : Slice := fun start _ =>
  ["Test", "Configuration", "config", "createModuleConfig", "FooCheck", "addAttribute", "\"max\"",
    "\"3\"", "verify", "return;", "/* note */"].getD start ""

def note : Concrete :=
  wordNode "block_comment" none 10 []

def keyword (word : String) : Concrete :=
  .node ⟨word, none, 0, 0, 0, false, false, false, false⟩ []

def notedClass (notes : List Concrete) : Concrete :=
  wordNode "class_literal" none 4 (wordNode "type_identifier" none 4 [] ::
    (notes ++ [keyword ".", keyword "class"]))

def notedDeclaration (notes : List Concrete) : Concrete :=
  wordNode "local_variable_declaration" none 1 [
    wordNode "type_identifier" (some "type") 1 [],
    wordNode "variable_declarator" (some "declarator") 2 [
      wordNode "identifier" (some "name") 2 [],
      wordNode "method_invocation" (some "value") 3 [
        wordNode "identifier" (some "name") 3 [],
        wordNode "argument_list" (some "arguments") 4 [notedClass notes]]]]

def notedArguments (notes : List Concrete) : Concrete :=
  wordNode "argument_list" (some "arguments") 6 (wordNode "string_literal" none 6 [] ::
    (notes ++ [wordNode "string_literal" none 7 []]))

def notedSetting (notes : List Concrete) : Concrete :=
  wordNode "expression_statement" none 2 [
    wordNode "method_invocation" none 2 (configName (some "object") ::
      (notes ++ [keyword ".", wordNode "identifier" (some "name") 5 [], notedArguments notes]))]

def verifyStatement : Concrete :=
  wordNode "expression_statement" none 8 [
    wordNode "method_invocation" none 8 [
      wordNode "identifier" (some "name") 8 [],
      wordNode "argument_list" (some "arguments") 8 [configName none]]]

/-- With a note in it the statement has a child, but one that leaves no trace. -/
def notedReturn (notes : List Concrete) : Concrete :=
  wordNode "return_statement" none 9 (keyword "return" :: (notes ++ [keyword ";"]))

/-- The file with the notes in every place, and at its ends. -/
def notedFile (notes : List Concrete) : Concrete :=
  wordNode "program" none 0 (notes ++ [
    wordNode "method_declaration" none 0 [
      wordNode "modifiers" none 0 [
        wordNode "marker_annotation" none 0 [wordNode "identifier" (some "name") 0 []]],
      wordNode "block" (some "body") 1 [
        notedDeclaration notes, notedSetting notes, verifyStatement, notedReturn notes]]] ++ notes)

theorem isCommentLeaf_note : ∀ k ∈ [note], IsCommentLeaf k :=
  List.forall_mem_singleton.mpr ⟨rfl, rfl, rfl, rfl⟩

theorem commentedFile_notedFile : CommentedFile (notedFile []) (notedFile [note]) := by
  have hclass : Commented (notedClass []) (notedClass [note]) :=
    .node (.cons (commented_refl _) isCommentLeaf_note
      (commentedBetween_of_forall₂ (.cons (commented_refl _) (.cons (commented_refl _) .nil))))
  have hdeclaration : Commented (notedDeclaration []) (notedDeclaration [note]) := by
    refine .node (commentedBetween_of_forall₂ (.cons (commented_refl _) (.cons ?_ .nil)))
    refine .node (commentedBetween_of_forall₂ (.cons (commented_refl _) (.cons ?_ .nil)))
    refine .node (commentedBetween_of_forall₂ (.cons (commented_refl _) (.cons ?_ .nil)))
    exact .node (.single hclass)
  have harguments : Commented (notedArguments []) (notedArguments [note]) :=
    .node (.cons (commented_refl _) isCommentLeaf_note (.single (commented_refl _)))
  have hsetting : Commented (notedSetting []) (notedSetting [note]) := by
    refine .node (.single (.node (.cons (commented_refl _) isCommentLeaf_note ?_)))
    exact commentedBetween_of_forall₂
      (.cons (commented_refl _) (.cons (commented_refl _) (.cons harguments .nil)))
  have hreturn : Commented (notedReturn []) (notedReturn [note]) :=
    .node (.cons (commented_refl _) isCommentLeaf_note (.single (commented_refl _)))
  have hblock := commentedBetween_of_forall₂
    (.cons hdeclaration (.cons hsetting (.cons (commented_refl verifyStatement)
      (.cons hreturn .nil))))
  refine .root isCommentLeaf_note (.single ?_) isCommentLeaf_note
  exact .node (commentedBetween_of_forall₂ (.cons (commented_refl _) (.cons (.node hblock) .nil)))

theorem anchored_notedFile : (notedFile []).Anchored := by
  have free {l : Label} {cs : List Concrete} (h : l.kind ∉ anchoredWords)
      (hcs : ∀ x ∈ cs, x.Anchored) : (Concrete.node l cs).Anchored :=
    .intro (anchors_of_not_mem h) hcs
  have leaf {l : Label} (h : l.kind ∉ anchoredWords) : (Concrete.node l []).Anchored :=
    free h fun x hx => absurd hx List.not_mem_nil
  have pair {x y : Concrete} (h : x.Anchored ∧ y.Anchored) : ∀ z ∈ [x, y], z.Anchored :=
    List.forall_mem_cons.mpr ⟨h.1, List.forall_mem_singleton.mpr h.2⟩
  -- Only the class literal needs an anchor.
  have hclass : (notedClass []).Anchored := by
    refine .intro ?_ ?_
    · exact {
        member := fun hk => absurd hk (by decide)
        first := fun _ => ⟨_, _, rfl, rfl⟩
        ends := fun hk => absurd hk (by decide) }
    · refine List.forall_mem_cons.mpr ⟨leaf (by decide), ?_⟩
      exact pair ⟨leaf (by decide), leaf (by decide)⟩
  have hdeclaration : (notedDeclaration []).Anchored := by
    refine free (by decide) (pair ⟨leaf (by decide), ?_⟩)
    refine free (by decide) (pair ⟨leaf (by decide), ?_⟩)
    refine free (by decide) (pair ⟨leaf (by decide), ?_⟩)
    exact free (by decide) (List.forall_mem_singleton.mpr hclass)
  have hsetting : (notedSetting []).Anchored := by
    refine free (by decide) (List.forall_mem_singleton.mpr (free (by decide) ?_))
    refine List.forall_mem_cons.mpr ⟨leaf (by decide), ?_⟩
    refine List.forall_mem_cons.mpr ⟨leaf (by decide), ?_⟩
    refine pair ⟨leaf (by decide), free (by decide) ?_⟩
    exact pair ⟨leaf (by decide), leaf (by decide)⟩
  have hverify : verifyStatement.Anchored := by
    refine free (by decide) (List.forall_mem_singleton.mpr (free (by decide) ?_))
    refine pair ⟨leaf (by decide), free (by decide) ?_⟩
    exact List.forall_mem_singleton.mpr (leaf (by decide))
  have hreturn : (notedReturn []).Anchored :=
    free (by decide) (pair ⟨leaf (by decide), leaf (by decide)⟩)
  refine free (by decide) (List.forall_mem_singleton.mpr (free (by decide) ?_))
  refine pair ⟨?_, free (by decide) ?_⟩
  · refine free (by decide) (List.forall_mem_singleton.mpr (free (by decide) ?_))
    exact List.forall_mem_singleton.mpr (leaf (by decide))
  · refine List.forall_mem_cons.mpr ⟨hdeclaration, List.forall_mem_cons.mpr ⟨hsetting, ?_⟩⟩
    exact pair ⟨hverify, hreturn⟩

theorem drain_notedFile :
    ∃ r, (notedFile []).harvested (.ofBasePath "") notedWords = .ok r ∧
      r.2.drain.1 = [("FooCheck", [⟨"max", "3"⟩])] := by
  have hmethod : Form.ofKind "method_declaration" = .branch .methodDecl := rfl
  have hmodifiers : Form.ofKind "modifiers" = .modifiers := rfl
  have hblock : Form.ofKind "block" = .branch .block := rfl
  have hdeclaration : Form.ofKind "local_variable_declaration" = .declaration := rfl
  have hstatement : Form.ofKind "expression_statement" = .branch .expression := rfl
  have hcall : Form.ofKind "method_invocation" = .call := rfl
  have hclass : Form.ofKind "class_literal" = .classLiteral := rfl
  have hstring : Form.ofKind "string_literal" = .string := rfl
  have hname : Form.ofKind "identifier" = .leaf .identifier := rfl
  have hother : Form.ofKind "return_statement" = .other := rfl
  refine ⟨_, harvested_eq _ rfl, ?_⟩
  simp [notedFile, notedDeclaration, notedSetting, notedClass, notedArguments, verifyStatement,
    notedReturn, keyword, configName, wordNode, notedWords, hmethod, hmodifiers, hblock,
    hdeclaration, hstatement, hcall, hclass, hstring, hname, hother, contribution, tree,
    content_eq, contributionIn_eq, treeIn_eq, nameTree_eq, nameTreeOf, typeTree, stringTree,
    classLiteralTree, modifiersTree_eq, modifierTrees, annotationTree, variableTrees_eq,
    variableTree, declaredModifiers, modifiers?, callTree_eq, calleeTrees, argumentsTree_eq,
    argumentTrees, leaf, text, line, kind, label, children, namedChildren, childrenIn, child?]
  decide +kernel

/-- The same property is found among the notes. -/
theorem harvested_of_commented_notedFile :
    (notedFile []).Anchored ∧ (notedFile []).label.hasError = false ∧
      CommentedFile (notedFile []) (notedFile [note]) ∧
      (∃ t t', (notedFile []).fileTree notedWords = .ok t ∧
        (notedFile [note]).fileTree notedWords = .ok t' ∧ t.Resembles t') ∧
      ∃ r, (notedFile [note]).harvested (.ofBasePath "") notedWords = .ok r ∧
        r.2.drain.1 = [("FooCheck", [⟨"max", "3"⟩])] := by
  obtain ⟨htrees, hsame⟩ :=
    harvested_of_commented notedWords anchored_notedFile rfl commentedFile_notedFile
  refine ⟨anchored_notedFile, rfl, commentedFile_notedFile, htrees, ?_⟩
  rw [hsame]
  exact drain_notedFile

end PropertyHarvest.Concrete
