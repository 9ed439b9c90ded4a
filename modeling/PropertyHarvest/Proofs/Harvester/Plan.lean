/-
# What a walk carries along

A harvester comes to a tree with a past: a base path, what it has found, what
it has skipped.  A walk adds to the past and never looks at it.  So there is a
plan for every tree that is followed by each harvester, whatever its past
(`exists_plan`), and only the carrying out differs: templates are filled in at
the base path, findings go behind what was found before, and reports behind
the reports before.

The plan of a walk grows with each visit and each leave (`uniform_check`), and
a walk is the run of such steps.

Diagnostics have no part of the base path in them, so the same reports are made at
every base path, and a value is refused at all of them or at none.  Whether two base
paths give different results depends on the templates alone.  Where all are fixed
they do not.
-/
import PropertyHarvest.Proofs.Accumulation.Log
import PropertyHarvest.Proofs.Harvester.Events
import PropertyHarvest.Proofs.Harvester.Sharding
import PropertyHarvest.Proofs.Literal.Templates

namespace PropertyHarvest

/-! ## Entries -/

/-- What is set, in order, each with its module and with the base path left
open. -/
abbrev Entries := List (String × PropertyTemplate)

namespace Entries

/-- The entries at one base path. -/
def fill (basePath : String) (es : Entries) : List (String × Property) :=
  es.map fun e => (e.1, e.2.fill basePath)

def modules (basePath : String) (es : Entries) : Modules :=
  .ofLog (es.fill basePath)

theorem modules_concat (b : String) (es : Entries) (m : String) (t : PropertyTemplate) :
    modules b (es ++ [(m, t)]) = (es.modules b).insert m (t.fill b) := by
  rw [modules, fill, List.map_append, List.map_singleton, Modules.ofLog_concat]
  rfl

/-- The templates of each module, the modules in order of first mention. -/
def byModule (es : Entries) : List (String × List PropertyTemplate) :=
  (es.map Prod.fst).eraseDups.map fun m => (m, (es.filter (·.1 = m)).map Prod.snd)

theorem modules_eq_byModule (b : String) (es : Entries) :
    es.modules b = es.byModule.map fun e => (e.1, (e.2.map (·.fill b)).eraseDups) := by
  rw [modules, Modules.ofLog_eq, byModule, fill, List.map_map, List.map_map]
  refine List.map_congr_left fun m _ => ?_
  rw [Modules.entriesOf, List.filter_map, List.map_map]
  show _ = (m, (((es.filter _).map Prod.snd).map _).eraseDups)
  rw [List.map_map]
  rfl

end Entries

/-! ## Scopes -/

namespace MethodScope

variable {a : Arena}

/-- The same scope with other properties. -/
def holding (s : MethodScope) (ps : Modules) : MethodScope :=
  { s with properties := ps }

theorem declare_holding (s : MethodScope) (ps : Modules) (parent? : Option Kind) (t : Tree) :
    (s.holding ps).declare parent? t = (s.declare parent? t).holding ps := by
  rw [declare, declare]
  split <;> rfl

/-- What a call does to a scope that holds entries, and what is reported of it,
is the same at every base path. -/
theorem exists_call (s : MethodScope) (es : Entries) (p : String) (above : List Kind)
    (t : Tree) : ∃ (s' : MethodScope) (es' : Entries) (ds : List Diagnostic), ∀ b,
      (s.holding (es.modules b)).call b p above t = s'.holding (es'.modules b) ∧
        (s.holding (es.modules b)).callSkips b p above t = ds := by
  have hbound (b : String) : (s.holding (es.modules b)).isBound = s.isBound := rfl
  have hmodule (b : String) : (s.holding (es.modules b)).moduleOf? = s.moduleOf? := rfl
  simp only [call, callSkips, hbound, hmodule]
  cases CallSite.classify s.isBound above t with
  | verification => exact ⟨s.markVerified, es, [], fun b => ⟨rfl, rfl⟩⟩
  | other => exact ⟨s, es, [], fun b => ⟨rfl, rfl⟩⟩
  | setProperty handle =>
      obtain ⟨r, hr⟩ := CallSite.exists_template ⟨"", p, s.fileHandles⟩
        (t.findFirstChild? .argumentList)
      have hvalue (b : String) : CallSite.property ⟨b, p, (s.holding (es.modules b)).fileHandles⟩
          (t.findFirstChild? .argumentList) = _ := hr b
      simp only [hvalue]
      cases s.moduleOf? handle with
      | none => exact ⟨s, es, [], fun b => ⟨rfl, rfl⟩⟩
      | some module =>
          rcases r with e | _ | template
          · exact ⟨s, es, [⟨t.line, .property module, e⟩], fun b => ⟨rfl, rfl⟩⟩
          · exact ⟨s, es, [], fun b => ⟨rfl, rfl⟩⟩
          · refine ⟨s, es ++ [(module, template)], [], fun b => ⟨?_, rfl⟩⟩
            rw [Entries.modules_concat]
            rfl

theorem exists_read (s : MethodScope) (es : Entries) (p : String) (n : Node a) :
    ∃ (s' : MethodScope) (es' : Entries) (ds : List Diagnostic), ∀ b,
      (s.holding (es.modules b)).read b p n = s'.holding (es'.modules b) ∧
        (s.holding (es.modules b)).skips b p n = ds := by
  simp only [read, skips]
  split
  · refine ⟨_, es, _, fun b => ⟨declare_holding s _ _ _, rfl⟩⟩
  · exact exists_call s es p n.above n.tree
  · exact ⟨s, es, [], fun b => ⟨rfl, rfl⟩⟩

theorem exists_shown (s : MethodScope) (es : Entries) (p : String) (n : Node a) :
    ∃ (s' : MethodScope) (es' : Entries) (ds : List Diagnostic), ∀ b,
      (s.holding (es.modules b)).shown b p n = s'.holding (es'.modules b) ∧
        (s.holding (es.modules b)).shownSkips b p n = ds := by
  have hactive (b : String) : (s.holding (es.modules b)).isActive = s.isActive := rfl
  simp only [shown, shownSkips, hactive]
  by_cases ha : s.isActive = true
  · simp only [if_pos ha]
    exact exists_read s es p n
  · simp only [if_neg ha]
    by_cases ht : n.isTest = true
    · simp only [if_pos ht]
      exact ⟨s.opened n.id, es, [], fun b => ⟨rfl, rfl⟩⟩
    · simp only [if_neg ht]
      exact ⟨s, es, [], fun b => ⟨rfl, rfl⟩⟩

end MethodScope

/-! ## Plans -/

/-- A harvester without a past. -/
structure Plan where
  packagePath : String := ""
  /-- The open method, but for what it has set. -/
  scope : MethodScope := .empty
  /-- What the open method has set. -/
  entries : Entries := []
  /-- What the verified methods have set, method by method. -/
  findings : List Entries := []
  diagnostics : List Diagnostic := []

/-- The harvester that has followed the plan. -/
def Plan.after (past : Harvester) (plan : Plan) : Harvester where
  basePath := past.basePath
  packagePath := plan.packagePath
  scope := plan.scope.holding (plan.entries.modules past.basePath)
  found := (plan.findings.map (Entries.modules past.basePath)).foldl Accumulation.merge past.found
  diagnostics := past.diagnostics ++ plan.diagnostics

namespace Harvester

variable {a : Arena}

theorem startFile_eq_after (h : Harvester) : h.startFile = Plan.after h {} := by
  rw [Plan.after, List.append_nil]
  rfl

theorem exists_take_after (n : Node a) (plan : Plan) :
    ∃ plan' : Plan, ∀ past, (plan.after past).take n = plan'.after past := by
  obtain ⟨s, es, ds, hshown⟩ :=
    plan.scope.exists_shown plan.entries plan.packagePath n
  refine ⟨⟨n.packagePathAfter plan.packagePath, s, es, plan.findings, plan.diagnostics ++ ds⟩,
    fun past => ?_⟩
  obtain ⟨hscope, hskips⟩ := hshown past.basePath
  rw [take_eq]
  simp only [Plan.after, hscope, hskips, List.append_assoc]

theorem exists_leave_after (n : Node a) (plan : Plan) :
    ∃ plan' : Plan, ∀ past, leave n (plan.after past) = plan'.after past := by
  have hcloses (past : Harvester) :
      (plan.after past).Closes n ↔ n.kind = .methodDecl ∧ plan.scope.active? = some n.id := Iff.rfl
  simp only [leave_eq, hcloses]
  split
  · cases hverified : plan.scope.verified with
    | false =>
        refine ⟨⟨plan.packagePath, .empty, [], plan.findings, plan.diagnostics⟩, fun past => ?_⟩
        have h : (plan.after past).scope.verified = false := hverified
        rw [closed, h]
        rfl
    | true =>
        refine ⟨⟨plan.packagePath, .empty, [], plan.findings ++ [plan.entries],
          plan.diagnostics⟩, fun past => ?_⟩
        have h : (plan.after past).scope.verified = true := hverified
        rw [closed, h, if_pos rfl]
        simp only [Plan.after, List.map_append, List.foldl_append]
        rfl
  · exact ⟨plan, fun past => rfl⟩

theorem uniform_check : check.Uniform fun (plan : Plan) past => plan.after past where
  visit := by
    intro a n plan
    obtain ⟨plan', htake⟩ := exists_take_after n plan
    by_cases hk : acceptableKinds.contains n.kind = true
    · refine ⟨.ok (), plan', fun past => ?_⟩
      rw [← htake]
      exact visit_of_shown hk _
    · refine ⟨.error (.unacceptableNode n.kind n.line), plan, fun past => ?_⟩
      exact visit_of_hidden (Bool.eq_false_iff.mpr hk) _
  leave := exists_leave_after

theorem harvest_fst (h : Harvester) (a : Arena) : (h.harvest a).1 = .ok () := by
  rw [harvest, Check.walk]
  cases a.root? with
  | none => rfl
  | some root =>
      refine Check.run_fst (fun n s hk => ?_) _ _
      exact congrArg Prod.fst (visit_of_shown hk s)

/-- For every tree there is a plan that each harvester follows. -/
theorem exists_plan (a : Arena) : ∃ plan : Plan, ∀ h, (h.harvest a).2 = plan.after h := by
  simp only [harvest, Check.walk]
  cases a.root? with
  | none => exact ⟨{}, startFile_eq_after⟩
  | some root =>
      obtain ⟨answer, plan, hrun⟩ := uniform_check.run [.enter root] {}
      refine ⟨plan, fun h => ?_⟩
      show (check.run [.enter root] h.startFile).2 = _
      rw [startFile_eq_after]
      exact congrArg Prod.snd (hrun h)

/-- For every series of trees there are findings and reports that each
harvester adds to its past. -/
theorem exists_plan_all (trees : List Arena) :
    ∃ (findings : List Entries) (ds : List Diagnostic), ∀ h : Harvester,
      (h.harvestAll trees).basePath = h.basePath ∧
        (h.harvestAll trees).found =
          (findings.map (Entries.modules h.basePath)).foldl Accumulation.merge h.found ∧
        (h.harvestAll trees).diagnostics = h.diagnostics ++ ds := by
  induction trees with
  | nil => exact ⟨[], [], fun h => ⟨rfl, rfl, h.diagnostics.append_nil.symm⟩⟩
  | cons a trees ih =>
      obtain ⟨plan, hplan⟩ := exists_plan a
      obtain ⟨findings, ds, hrest⟩ := ih
      refine ⟨plan.findings ++ findings, plan.diagnostics ++ ds, fun h => ?_⟩
      obtain ⟨hbase, hfound, hreports⟩ := hrest (plan.after h)
      have hnext : h.harvestAll (a :: trees) = (plan.after h).harvestAll trees := by
        rw [← hplan]
        rfl
      rw [hnext]
      refine ⟨hbase, ?_, ?_⟩
      · rw [hfound, List.map_append, List.foldl_append]
        rfl
      · rw [hreports, ← List.append_assoc]
        rfl

/-! ## Runs at every base path -/

/-- For every series of trees there are entries that a run comes to, and reports
that it makes, at each base path. -/
theorem exists_entries (trees : List Arena) :
    ∃ (es : Entries) (ds : List Diagnostic), ∀ b,
      run b trees = es.modules b ∧ ((ofBasePath b).harvestAll trees).diagnostics = ds := by
  obtain ⟨findings, ds, hplan⟩ := exists_plan_all trees
  refine ⟨findings.flatten, ds, fun b => ?_⟩
  obtain ⟨-, hfound, hreports⟩ := hplan (ofBasePath b)
  refine ⟨?_, hreports⟩
  have hlogs : findings.map (Entries.modules b) =
      (findings.map (Entries.fill b)).map Modules.ofLog := by
    rw [List.map_map]
    rfl
  show ((ofBasePath b).harvestAll trees).found.modules = _
  rw [hfound, Accumulation.modules_foldl_merge]
  show (findings.map (Entries.modules b)).foldl Modules.merge (Modules.ofLog []) = _
  rw [hlogs, Modules.foldl_merge_ofLog, List.nil_append, Entries.modules, Entries.fill,
    List.map_flatten]
  rfl

/-- The base path is only a parameter of a run.  There are modules, each with a
row of templates, that every base path finds: the same modules in the same
order, each with its templates filled in and repetitions left out; and the same
is reported.  No base path makes a refused value of a known one or the other way
round, or changes what is built without a path. -/
theorem exists_templates_run (trees : List Arena) :
    (∃ (found : List (String × List PropertyTemplate)) (ds : List Diagnostic), ∀ b,
      run b trees = (found.map fun e => (e.1, (e.2.map (·.fill b)).eraseDups)) ∧
        ((ofBasePath b).harvestAll trees).diagnostics = ds) ∧
      (∀ b b', (run b trees).names = (run b' trees).names) ∧
      (∀ (s : Surroundings) (b : String) (t : Tree) (e : LiteralError),
        t.literal (s.atBase b) = .error e ↔ t.literal s = .error e) ∧
      (∀ (s : Surroundings) (b : String) (t : Tree), t.BuildsNoPath →
        t.literal (s.atBase b) = t.literal s) ∧
      ∀ (s : Surroundings) (b : String) (arguments? : Option Tree),
        (∀ t ∈ Declaration.wrappedArguments arguments?, t.BuildsNoPath) →
          CallSite.property (s.atBase b) arguments? = CallSite.property s arguments? := by
  obtain ⟨es, ds, hrun⟩ := exists_entries trees
  have hmodules (b : String) : run b trees =
      es.byModule.map fun e => (e.1, (e.2.map (·.fill b)).eraseDups) := by
    rw [(hrun b).1, es.modules_eq_byModule b]
  have hnames (b : String) : (run b trees).names = es.byModule.map Prod.fst := by
    rw [hmodules, Modules.names, List.map_map]
    rfl
  refine ⟨⟨es.byModule, ds, fun b => ⟨hmodules b, (hrun b).2⟩⟩, ?_,
    Tree.literal_atBase_eq_error_iff, fun s b t => Tree.literal_atBase_of_buildsNoPath s b,
    fun s b arguments? => CallSite.property_atBase_of_buildsNoPath s b⟩
  intro b b'
  rw [hnames, hnames]

open PropertyHarvest.Tree in
/-- A test with a path that is built and one that is written out. -/
def pathTest : Tree :=
  fooTest [
    addition 5 (interior .methodCall 5 [
      token .identifier "getPath" 5,
      interior .argumentList 5 [
        interior .expression 5 [token .stringLiteral "\"Input.java\"" 5]]]),
    addition 6 (token .stringLiteral "\"src/test/resources/Input.java\"" 6)]

/-- The base path stands in the path that is built and in no other, so the two are
one property where it is empty and two properties where it is not. -/
theorem exists_templates_run_pathTest :
    run "" [.ofTree pathTest] = [("FooCheck", [⟨"max", "src/test/resources/Input.java"⟩])] ∧
      run "a/" [.ofTree pathTest] = [("FooCheck",
        [⟨"max", "a/src/test/resources/Input.java"⟩, ⟨"max", "src/test/resources/Input.java"⟩])] ∧
      ∀ b, (run b [.ofTree pathTest]).names = ["FooCheck"] := by
  have hempty : run "" [.ofTree pathTest] =
      [("FooCheck", [⟨"max", "src/test/resources/Input.java"⟩])] := by
    decide +kernel
  obtain ⟨-, hnames, -⟩ := exists_templates_run [.ofTree pathTest]
  refine ⟨hempty, by decide +kernel, fun b => ?_⟩
  rw [hnames b "", hempty]
  rfl

end Harvester

end PropertyHarvest
