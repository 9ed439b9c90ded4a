/-
# Harvesters that know no file handles

A harvester keeps the `final File` locals of a method for one purpose: to word
the refusal of `handle.getPath()`.  So a harvester that passes over their
declarations (`unaware`) finds the same, in the same order, and makes the same
reports but for that wording (`run_unaware`).

The two harvesters go in step over one tree.  Their states are the same except
that one scope has no file handles and the reasons of reports may differ
(`Unaware`).

The wording is not all the same to a reader, and it is told exactly how it may differ:
the one report names a file handle, the other calls the same expression unsupported,
on the same line.  Which of the two is better is not a question of correctness.
-/
import PropertyHarvest.Proofs.Harvester.Events
import PropertyHarvest.Proofs.Harvester.Sharding
import PropertyHarvest.Proofs.Literal.Handles

namespace PropertyHarvest

/-! ## Passing over a declaration -/

def Node.declaresFile {a : Arena} (n : Node a) : Bool :=
  n.is .variableDecl &&
    match Declaration.classify (n.parent?.map Node.kind) n.tree with
    | .ok (.fileHandle _) => true
    | _ => false

namespace Harvester

/-- A visit that passes over the declarations of file handles. -/
def visitUnaware {a : Arena} (n : Node a) (h : Harvester) :
    Except ProcessError Unit × Harvester :=
  if n.declaresFile then (.ok (), h) else visit n h

/-- The check that passes over the declarations of file handles. -/
def unaware : Check Harvester :=
  { check with visit := visitUnaware }

/-- The harvester after a series of trees in which it passed over the
declarations of file handles. -/
def harvestUnaware (h : Harvester) (trees : List Arena) : Harvester :=
  trees.foldl (fun h a => (unaware.walk a h).2) h

end Harvester

/-! ## Reports -/

/-- The same report up to the wording of a path that is asked for. -/
structure Diagnostic.Alike (d d' : Diagnostic) : Prop where
  line_eq : d'.line = d.line
  skipped_eq : d'.skipped = d.skipped
  reason_eq : d'.reason = d.reason ∨ ∃ handle line,
    d.reason = .unsupportedFileVariable handle line ∧
      d'.reason = .unsupportedConstruct .methodCall line

theorem Diagnostic.map_eq_of_alike {ds ds' : List Diagnostic}
    (h : List.Forall₂ Diagnostic.Alike ds ds') :
    (ds'.map fun d => (d.line, d.skipped)) = ds.map fun d => (d.line, d.skipped) := by
  induction h with
  | nil => rfl
  | cons halike _ ih => rw [List.map_cons, List.map_cons, ih, halike.line_eq, halike.skipped_eq]

theorem Diagnostic.Alike.refl (d : Diagnostic) : d.Alike d :=
  ⟨rfl, rfl, .inl rfl⟩

/-! ## Scopes -/

namespace MethodScope

variable {a : Arena} {s : MethodScope} {b p : String}

def withoutFiles (s : MethodScope) : MethodScope :=
  { s with fileHandles := [] }

theorem declare_withoutFiles {parent? : Option Kind} {t : Tree}
    (h : ∀ handle, Declaration.classify parent? t ≠ .ok (.fileHandle handle)) :
    s.withoutFiles.declare parent? t = (s.declare parent? t).withoutFiles := by
  rw [declare, declare]
  split
  · rfl
  · rename_i hc
    exact absurd hc (h _)
  · rfl

/-- Without file handles there is no refusal for a file. -/
theorem reason_eq_of_alike {calls : Tree → Prop} {files : List String} {e e' : LiteralError}
    (h : e.Alike calls files [] e') : e' = e ∨ ∃ handle line,
      e = .unsupportedFileVariable handle line ∧ e' = .unsupportedConstruct .methodCall line := by
  cases h with
  | same => exact .inl rfl
  | @file call handle _ asks =>
      refine .inr ⟨handle, call.line, rfl, ?_⟩
      rw [Tree.unsupported, asks.kind_eq]
  | noFile _ _ _ known => exact absurd known List.not_mem_nil

theorem call_withoutFiles (s : MethodScope) (b p : String) (above : List Kind) (t : Tree) :
    s.withoutFiles.call b p above t = (s.call b p above t).withoutFiles ∧
      List.Forall₂ Diagnostic.Alike (s.callSkips b p above t)
        (s.withoutFiles.callSkips b p above t) := by
  have hbound : s.withoutFiles.isBound = s.isBound := rfl
  have hmodule : s.withoutFiles.moduleOf? = s.moduleOf? := rfl
  simp only [call, callSkips, hbound, hmodule]
  cases CallSite.classify s.isBound above t with
  | verification => exact ⟨rfl, .nil⟩
  | other => exact ⟨rfl, .nil⟩
  | setProperty handle =>
      dsimp only
      cases s.moduleOf? handle with
      | none => exact ⟨rfl, .nil⟩
      | some module =>
          have hagrees := CallSite.property_agrees ⟨b, p, s.fileHandles⟩ []
            (t.findFirstChild? .argumentList)
          change LiteralError.Agrees _ _ _ (CallSite.property ⟨b, p, s.fileHandles⟩ _)
            (CallSite.property ⟨b, p, s.withoutFiles.fileHandles⟩ _) at hagrees
          revert hagrees
          generalize CallSite.property ⟨b, p, s.fileHandles⟩ _ = r
          generalize CallSite.property ⟨b, p, s.withoutFiles.fileHandles⟩ _ = r'
          rintro (p? | halike)
          · cases p? with
            | none => exact ⟨rfl, .nil⟩
            | some p => exact ⟨rfl, .nil⟩
          · exact ⟨rfl, .cons ⟨rfl, rfl, reason_eq_of_alike halike⟩ .nil⟩

theorem read_withoutFiles (s : MethodScope) (b p : String) {n : Node a}
    (hn : n.declaresFile = false) :
    s.withoutFiles.read b p n = (s.read b p n).withoutFiles ∧
      List.Forall₂ Diagnostic.Alike (s.skips b p n) (s.withoutFiles.skips b p n) := by
  have hdeclares (hk : n.kind = .variableDecl) (handle : String) :
      Declaration.classify (n.parent?.map Node.kind) n.tree ≠ .ok (.fileHandle handle) := by
    intro hc
    rw [Node.declaresFile, Node.is_iff.mpr hk, hc] at hn
    cases hn
  simp only [read, skips]
  split
  · rename_i hk
    exact ⟨declare_withoutFiles (hdeclares hk), List.forall₂_same.mpr fun d _ => .refl d⟩
  · exact call_withoutFiles s b p n.above n.tree
  · exact ⟨rfl, .nil⟩

theorem shown_withoutFiles (s : MethodScope) (b p : String) {n : Node a}
    (hn : n.declaresFile = false) :
    s.withoutFiles.shown b p n = (s.shown b p n).withoutFiles ∧
      List.Forall₂ Diagnostic.Alike (s.shownSkips b p n) (s.withoutFiles.shownSkips b p n) := by
  have hactive : s.withoutFiles.isActive = s.isActive := rfl
  simp only [shown, shownSkips, hactive]
  split
  · exact read_withoutFiles s b p hn
  · split
    · exact ⟨rfl, .nil⟩
    · exact ⟨rfl, .nil⟩

/-- A declaration of a file handle adds a file handle at most. -/
theorem shown_of_declaresFile (s : MethodScope) (b p : String) {n : Node a}
    (hn : n.declaresFile = true) :
    (s.shown b p n).withoutFiles = s.withoutFiles ∧ s.shownSkips b p n = [] := by
  rw [Node.declaresFile, Bool.and_eq_true, Node.is_iff] at hn
  obtain ⟨hk, hc⟩ := hn
  have htest : n.isTest = false := by
    rw [Node.isTest, Node.is_eq_false (by rw [hk]; exact Kind.noConfusion), Bool.false_and]
  rw [shown, shownSkips, htest]
  split
  · simp only [read, skips, hk, declare, declarationSkips]
    split at hc
    · rename_i hclassify
      rw [hclassify]
      exact ⟨rfl, rfl⟩
    · cases hc
  · exact ⟨rfl, rfl⟩

end MethodScope

/-! ## Two harvesters in step -/

namespace Harvester

variable {a : Arena}

/-- `h'` is `h` without its file handles, and its reports differ at most in their
wording. -/
structure Unaware (h h' : Harvester) : Prop where
  basePath_eq : h'.basePath = h.basePath
  packagePath_eq : h'.packagePath = h.packagePath
  scope_eq : h'.scope = h.scope.withoutFiles
  found_eq : h'.found = h.found
  reports : List.Forall₂ Diagnostic.Alike h.diagnostics h'.diagnostics

theorem Unaware.startFile {h h' : Harvester} (hu : Unaware h h') :
    Unaware h.startFile h'.startFile where
  basePath_eq := hu.basePath_eq
  packagePath_eq := rfl
  scope_eq := rfl
  found_eq := hu.found_eq
  reports := hu.reports

theorem Unaware.visit {h h' : Harvester} (hu : Unaware h h') (n : Node a) :
    Unaware (Harvester.visit n h).2 (visitUnaware n h').2 := by
  show Unaware (h.take n) _
  rw [take_eq]
  cases hn : n.declaresFile with
  | true =>
      obtain ⟨hscope, hskips⟩ := h.scope.shown_of_declaresFile h.basePath h.packagePath hn
      have hk : n.kind ≠ .packageDecl := by
        rw [Node.declaresFile, Bool.and_eq_true, Node.is_iff] at hn
        rw [hn.1]
        exact Kind.noConfusion
      rw [visitUnaware, hn, if_pos rfl, hskips, List.append_nil, Node.packagePathAfter_of_ne hk]
      exact ⟨hu.basePath_eq, hu.packagePath_eq, hu.scope_eq.trans hscope.symm, hu.found_eq,
        hu.reports⟩
  | false =>
      obtain ⟨hscope, hskips⟩ := h.scope.shown_withoutFiles h.basePath h.packagePath hn
      rw [visitUnaware, hn, if_neg Bool.false_ne_true]
      show Unaware _ (h'.take n)
      rw [take_eq, hu.basePath_eq, hu.packagePath_eq, hu.scope_eq, hscope]
      exact ⟨rfl, rfl, rfl, hu.found_eq, List.rel_append hu.reports hskips⟩

theorem Unaware.leave {h h' : Harvester} (hu : Unaware h h') (n : Node a) :
    Unaware (Harvester.leave n h) (Harvester.leave n h') := by
  have hcloses : h'.Closes n ↔ h.Closes n := by
    rw [Closes, Closes, hu.scope_eq]
    rfl
  rw [leave_eq, leave_eq]
  simp only [hcloses]
  split
  · refine ⟨hu.basePath_eq, hu.packagePath_eq, rfl, ?_, hu.reports⟩
    show (if h'.scope.verified then _ else _) = _
    rw [hu.scope_eq, hu.found_eq]
    rfl
  · exact hu

theorem visitUnaware_fst (n : Node a) (h h' : Harvester) :
    (visitUnaware n h').1 = (Harvester.visit n h).1 := by
  by_cases hk : acceptableKinds.contains n.kind = true
  · rw [visit_of_shown hk, visitUnaware]
    split
    · rfl
    · rw [visit_of_shown hk]
  · have hk : acceptableKinds.contains n.kind = false := Bool.eq_false_iff.mpr hk
    have hn : n.declaresFile = false := by
      rw [Node.declaresFile, Node.is_eq_false (ne_of_hidden hk).2.1, Bool.false_and]
    rw [visit_of_hidden hk, visitUnaware, hn, if_neg Bool.false_ne_true, visit_of_hidden hk]

theorem simulates_unaware : check.Simulates unaware (a := a) (· = ·) Unaware where
  shown := by
    rintro n - rfl
    rfl
  children := by
    rintro n - rfl
    exact List.forall₂_same.mpr fun _ _ => rfl
  answer := by
    rintro n - h h' rfl -
    exact visitUnaware_fst n h h'
  visit := by
    rintro n - h h' rfl hu
    exact hu.visit n
  leave := by
    rintro n - h h' rfl hu
    exact hu.leave n

theorem Unaware.walk {h h' : Harvester} (hu : Unaware h h') (a : Arena) :
    Unaware (h.harvest a).2 (unaware.walk a h').2 := by
  rw [harvest, Check.walk, Check.walk]
  cases a.root? with
  | none => exact hu.startFile
  | some root =>
      exact (simulates_unaware.run (.cons (.enter rfl) .nil) hu.startFile).2

theorem Unaware.harvestAll {h h' : Harvester} (hu : Unaware h h') (trees : List Arena) :
    Unaware (h.harvestAll trees) (h'.harvestUnaware trees) := by
  induction trees generalizing h h' with
  | nil => exact hu
  | cons a trees ih => exact ih (hu.walk a)

theorem unaware_ofBasePath (basePath : String) :
    Unaware (ofBasePath basePath) (ofBasePath basePath) :=
  ⟨rfl, rfl, rfl, rfl, .nil⟩

/-- File handles word refusals and decide nothing else.  With any two lists of
them an expression, bare or wrapped, has the same value, or is refused on the
same line and alike up to the reason.  So a harvester that passes over the
declarations of file handles hands out the same, and reports the same lines and
the same skipped items. -/
theorem run_unaware :
    (∀ (basePath packagePath : String) (files files' : List String) (t : Tree),
      LiteralError.Agrees t.Holds files files' (t.literal ⟨basePath, packagePath, files⟩)
          (t.literal ⟨basePath, packagePath, files'⟩) ∧
        (t.literal ⟨basePath, packagePath, files'⟩).mapError LiteralError.line =
          (t.literal ⟨basePath, packagePath, files⟩).mapError LiteralError.line ∧
        LiteralError.Agrees t.Holds files files' (t.literalContent ⟨basePath, packagePath, files⟩)
          (t.literalContent ⟨basePath, packagePath, files'⟩) ∧
        (t.literalContent ⟨basePath, packagePath, files'⟩).mapError LiteralError.line =
          (t.literalContent ⟨basePath, packagePath, files⟩).mapError LiteralError.line) ∧
    ∀ (basePath : String) (trees : List Arena),
      ((ofBasePath basePath).harvestUnaware trees).drain.1 = run basePath trees ∧
        List.Forall₂ Diagnostic.Alike ((ofBasePath basePath).harvestAll trees).diagnostics
          ((ofBasePath basePath).harvestUnaware trees).diagnostics ∧
        ((ofBasePath basePath).harvestUnaware trees).diagnostics.map
            (fun d => (d.line, d.skipped)) =
          ((ofBasePath basePath).harvestAll trees).diagnostics.map
            fun d => (d.line, d.skipped) := by
  constructor
  · intro basePath packagePath files files' t
    have hvalue := Tree.literal_agrees ⟨basePath, packagePath, files⟩ files' t
    have hcontent := Tree.literalContent_agrees ⟨basePath, packagePath, files⟩ files' t
    exact ⟨hvalue, hvalue.mapError_line, hcontent, hcontent.mapError_line⟩
  · intro basePath trees
    have hu := (unaware_ofBasePath basePath).harvestAll trees
    exact ⟨congrArg Accumulation.modules hu.found_eq, hu.reports,
      Diagnostic.map_eq_of_alike hu.reports⟩

open PropertyHarvest.Tree in
/-- A test that sets the path of a file handle, and then a text. -/
def handleTest : Tree :=
  fooTest [
    interior .variableDecl 5 [
      interior .modifiers 5 [token .finalModifier "final" 5],
      interior .typeRef 5 [token .identifier "File" 5],
      token .identifier "file" 5],
    addition 6 (interior .methodCall 6 [
      interior .memberAccess 6 [token .identifier "file" 6, token .identifier "getPath" 6],
      interior .argumentList 6 []]),
    addition 7 (token .stringLiteral "\"3\"" 7)]

/-- Without the declaration of the file handle the reason is another one, and all
else is the same. -/
theorem run_unaware_handleTest :
    ((ofBasePath "").harvestAll [.ofTree handleTest]).diagnostics =
        [⟨6, .property "FooCheck", .unsupportedFileVariable "file" 6⟩] ∧
      ((ofBasePath "").harvestUnaware [.ofTree handleTest]).diagnostics =
        [⟨6, .property "FooCheck", .unsupportedConstruct .methodCall 6⟩] ∧
      ((ofBasePath "").harvestUnaware [.ofTree handleTest]).drain.1 =
        [("FooCheck", [⟨"max", "3"⟩])] := by
  obtain ⟨hdrain, -, -⟩ := run_unaware.2 "" [.ofTree handleTest]
  refine ⟨by decide +kernel, by decide +kernel, ?_⟩
  rw [hdrain]
  decide +kernel

end Harvester

end PropertyHarvest
