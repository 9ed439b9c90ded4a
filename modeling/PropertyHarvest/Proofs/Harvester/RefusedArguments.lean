/-
# Refused arguments

A property is skipped if one of its two arguments is refused, and then two
lines are shown: where the call is, and, with the reason, where the argument
could not be read on.

    FooTest.java:6: skipped property of FooCheck: ... (line 9)

The second line is that of a node of the argument (`RefusedFor`), at whatever
depth the argument was refused.  It comes from the walk in three steps: the
walk reports what a test refuses, the test refuses a call for one argument, and
the refusal of an argument points into it.

The report of a declaration is not among these: it is for an argument that names no
module, and it is told with the line of the call.  Nor is it said that the line of the
argument is another one than that of the call.  Mostly it is not.
-/
import PropertyHarvest.Proofs.Harvester.Diagnostics
import PropertyHarvest.Proofs.Literal.Refusals
import PropertyHarvest.Report.Messages

namespace PropertyHarvest

/-- The line of the reason is what the message about a report ends with. -/
theorem Messages.exists_diagnostic_eq (setting : Setting) (path : String) (d : Diagnostic) :
    ∃ front, diagnostic setting path d = front ++ " (line " ++ toString d.reason.line ++ ")" := by
  obtain ⟨front, hmessage⟩ := d.reason.exists_message_eq
  refine ⟨warning setting ++ " " ++ path ++ ":" ++ toString d.line ++ ": " ++ d.skipped.text ++
    ": " ++ front, ?_⟩
  simp only [diagnostic, hmessage, String.append_assoc]

theorem CallSite.exists_refused_argument {s : Surroundings} {arguments? : Option Tree}
    {e : LiteralError} (h : property s arguments? = .error e) :
    ∃ argument ∈ Declaration.wrappedArguments arguments?, argument.literalContent s = .error e := by
  have refused (i : Nat)
      (hi : argumentValue s (Declaration.wrappedArguments arguments?)[i]? = .error e) :
      ∃ argument ∈ Declaration.wrappedArguments arguments?,
        argument.literalContent s = .error e := by
    cases hget : (Declaration.wrappedArguments arguments?)[i]? with
    | none =>
        rw [hget] at hi
        cases hi
    | some argument =>
        rw [hget] at hi
        exact ⟨argument, List.mem_of_getElem? hget, hi⟩
  rw [property] at h
  rcases error_cases_of_bind h with h | ⟨name?, -, h⟩
  · exact refused 0 h
  rcases error_cases_of_bind h with h | ⟨value?, -, h⟩
  · exact refused 1 h
  · cases name? <;> cases value? <;> cases h

namespace Node

variable {a : Arena}

/-- `argument` is a wrapper in the argument list of the call. -/
def IsArgumentOf (argument call : Node a) : Prop :=
  argument.kind = .expression ∧
    ∃ arguments ∈ call.children, arguments.kind = .argumentList ∧ argument ∈ arguments.children

theorem exists_isArgumentOf {call : Node a} {t : Tree}
    (h : t ∈ Declaration.wrappedArguments (call.tree.findFirstChild? .argumentList)) :
    ∃ argument : Node a, argument.IsArgumentOf call ∧ argument.tree = t := by
  cases hlist : call.tree.findFirstChild? .argumentList with
  | none =>
      rw [hlist] at h
      cases h
  | some list =>
      rw [hlist] at h
      obtain ⟨hmem, hkind⟩ := List.mem_filter.mp h
      obtain ⟨arguments, harguments, rfl⟩ := exists_child_of_mem (Tree.mem_of_findFirstChild? hlist)
      obtain ⟨argument, hargument, rfl⟩ := exists_child_of_mem hmem
      refine ⟨argument, ⟨eq_of_beq hkind, arguments, harguments, ?_, hargument⟩, rfl⟩
      exact Tree.kind_of_findFirstChild? hlist

/-- The report `d` tells that the argument of a call is refused for a node of
it. -/
structure RefusedFor (b : String) (call argument culprit : Node a) (d : Diagnostic) : Prop where
  line_eq : d.line = call.line
  isArgument : argument.IsArgumentOf call
  inside : culprit ∈ argument.descendants
  /-- With the file handles of the moment the argument has no value. -/
  refused : ∃ files, argument.tree.literalContent ⟨b, call.packagePath, files⟩ = .error d.reason ∧
    d.reason.PointsAt ⟨b, call.packagePath, files⟩ culprit.tree
  /-- The line that is shown with the reason. -/
  shown : ∀ (setting : Messages.Setting) (path : String), ∃ front,
    Messages.diagnostic setting path d = front ++ " (line " ++ toString culprit.line ++ ")"

/-- A call that is reported is reported for a node of one of its arguments. -/
theorem exists_refusedFor {b module : String} {call : Node a} {d : Diagnostic}
    (h : call.report? b = some d) (hproperty : d.skipped = .property module) :
    ∃ argument culprit, RefusedFor b call argument culprit d := by
  obtain ⟨test, -, -, hrefuses⟩ := (report?_eq_some_iff b).mp h
  cases hrefuses with
  | binding => cases hproperty
  | @property module reason _ hspelled =>
      obtain ⟨t, ht, hvalue⟩ := CallSite.exists_refused_argument hspelled
      obtain ⟨argument, hargument, rfl⟩ := exists_isArgumentOf ht
      obtain ⟨culprit, hinside, hpoints⟩ :=
        exists_pointsAt_of_pointsInto (Tree.pointsInto_of_literalContent hargument.1 hvalue)
      refine ⟨argument, culprit, rfl, hargument, hinside, ⟨_, hvalue, hpoints⟩, ?_⟩
      intro setting path
      rw [← show reason.line = culprit.line from hpoints.line_eq]
      exact Messages.exists_diagnostic_eq setting path _

end Node

open Node

/-- A refusal points into the expression that is refused.  The value of a node,
or of what a wrapper holds, is refused on the line of a descendant; the
descendant is named with its kind, or it asks a known file handle for its path,
and by itself it is refused for the same reason.  So whatever a walk reports of
a property, the line that is shown with the reason is a line of one of the
arguments of the call. -/
theorem refusals_point_inside :
    (∀ (a : Arena) (n : Node a) (s : Surroundings) (e : LiteralError),
      n.tree.literal s = .error e ∨ n.kind = .expression ∧ n.tree.literalContent s = .error e →
        ∃ d ∈ n.descendants, e.line = d.line ∧ e.PointsAt s d.tree) ∧
    ∀ (h : Harvester) (a : Arena), a.WellFormed →
      ∃ reports, (h.harvest a).2.diagnostics = h.diagnostics ++ reports ∧
        ∀ d ∈ reports, ∀ module, d.skipped = .property module →
          ∃ call ∈ a.preorder, ∃ argument culprit,
            RefusedFor h.basePath call argument culprit d := by
  constructor
  · intro a n s e hrefused
    have hinto : e.PointsInto s n.tree := by
      rcases hrefused with hvalue | ⟨hk, hvalue⟩
      · exact Tree.pointsInto_of_literal hvalue
      · exact Tree.pointsInto_of_literalContent hk hvalue
    obtain ⟨d, hd, hpoints⟩ := exists_pointsAt_of_pointsInto hinto
    exact ⟨d, hd, hpoints.line_eq, hpoints⟩
  · intro h a ha
    refine ⟨_, Harvester.diagnostics_harvest_eq h ha, ?_⟩
    intro d hd module hproperty
    obtain ⟨call, hcall, hreport⟩ := List.mem_filterMap.mp hd
    obtain ⟨argument, culprit, hrefused⟩ := exists_refusedFor hreport hproperty
    exact ⟨call, hcall, argument, culprit, hrefused⟩

/-! ## An argument on several lines

    config.addAttribute("max",
        "a" +
        getPath(
            input.getPath()));
-/

open PropertyHarvest.Tree in
/-- `input.getPath()` on line 9. -/
def askedPath : Tree :=
  interior .methodCall 9 [
    interior .memberAccess 9 [token .identifier "input" 9, token .identifier "getPath" 9],
    interior .argumentList 9 []]

open PropertyHarvest.Tree in
/-- `"a" + getPath(input.getPath())` on lines 7 to 9. -/
def splitValue : Tree :=
  interior .concatenation 7 [
    token .stringLiteral "\"a\"" 7,
    interior .methodCall 8 [
      token .identifier "getPath" 8,
      interior .argumentList 8 [interior .expression 9 [askedPath]]]]

open PropertyHarvest.Tree in
/-- A test with a file handle and a property whose value asks it for its path. -/
def splitTest : Tree :=
  interior .compilationUnit 1 [
    interior .methodDecl 2 [
      interior .modifiers 2 [interior .annotationUse 2 [token .identifier "Test" 2]],
      interior .block 3 [
        configDeclaration 4 "createModuleConfig" [interior .expression 4 [
          interior .memberAccess 4 [
            token .identifier "FooCheck" 4, token .classLiteral "class" 4]]],
        interior .variableDecl 5 [
          interior .modifiers 5 [token .finalModifier "final" 5],
          interior .typeRef 5 [token .identifier "File" 5],
          token .identifier "input" 5],
        Harvester.addition 6 splitValue]]]

theorem literal_splitValue :
    splitValue.literal ⟨"", "", ["input"]⟩ = .error (.unsupportedFileVariable "input" 9) := by
  decide +kernel

theorem refusals_point_inside_splitTest :
    (∃ n d : Node (.ofTree splitValue), n.tree = splitValue ∧ d ∈ n.descendants ∧ d.line = 9 ∧
      (LiteralError.unsupportedFileVariable "input" 9).PointsAt ⟨"", "", ["input"]⟩ d.tree) ∧
    ∃ call argument culprit : Node (.ofTree splitTest), culprit.line = 9 ∧
      RefusedFor "" call argument culprit
        ⟨6, .property "FooCheck", .unsupportedFileVariable "input" 9⟩ := by
  obtain ⟨hvalue, hwalk⟩ := refusals_point_inside
  constructor
  · obtain ⟨n, -, hn⟩ := Arena.exists_root_ofTree splitValue
    have hrefused := literal_splitValue
    rw [← hn] at hrefused
    obtain ⟨d, hd, hline, hpoints⟩ := hvalue _ n _ _ (.inl hrefused)
    exact ⟨n, d, hn, hd, hline.symm, hpoints⟩
  · obtain ⟨reports, hreports, hall⟩ :=
      hwalk (.ofBasePath "") (.ofTree splitTest) (Arena.wellFormed_ofTree splitTest)
    have hone : ((Harvester.ofBasePath "").harvest (.ofTree splitTest)).2.diagnostics =
        [⟨6, .property "FooCheck", .unsupportedFileVariable "input" 9⟩] := by
      decide +kernel
    rw [hreports] at hone
    have hmem : ⟨6, .property "FooCheck", .unsupportedFileVariable "input" 9⟩ ∈ reports := by
      rw [show reports = _ from hone]
      exact List.mem_singleton_self _
    obtain ⟨call, -, argument, culprit, hfor⟩ := hall _ hmem "FooCheck" rfl
    obtain ⟨files, -, hpoints⟩ := hfor.refused
    exact ⟨call, argument, culprit, hpoints.line_eq.symm, hfor⟩

end PropertyHarvest
