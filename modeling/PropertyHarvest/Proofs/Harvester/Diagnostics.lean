/-
# Diagnostics are complete

A walk reports the nodes of its tree that are refused, in reading order and
each once, and nothing else (`diagnostics_harvest_eq`).  It does so from any
state between two walks and whether or not the tests are verified.

Below an open test the scope is the reading of what stands between the test and
the node, so a visit reports what the test refuses of the node; outside of tests
nothing is reported, and no leave reports anything.  Between the walks reports
are handed out once, and no other request takes any away (`Request.accounts`).

Complete means both ways.  Each node that a test refuses is reported, and what is
reported is refused by the outermost test above it.  What is passed over without a
word is told as well: a call that lacks its name or its value, and whatever lies
outside of tests.  That a test is not verified makes no difference to its reports,
only to its properties.
-/
import PropertyHarvest.Proofs.Harvester.Events
import PropertyHarvest.Proofs.Harvester.Refusals

namespace PropertyHarvest

namespace Harvester

variable {a : Arena}

open Check Node

/-! ## One walk -/

theorem diagnostics_leave (n : Node a) (h : Harvester) :
    (leave n h).diagnostics = h.diagnostics := by
  rw [leave_eq]
  split <;> rfl

theorem diagnostics_foldl_take (hl : a.Linked) {test : Node a}
    (ht : test.isOutermostTest = true) {front back : List (Node a)}
    (hp : a.preorder = front ++ (test.descendants ++ back)) {h : Harvester}
    (hs : h.scope = .empty) (hpath : h.packagePath = packagePathOf front)
    {us vs : List (Node a)} (he : test.inside = us ++ vs) :
    (us.foldl take (h.take test)).diagnostics =
      h.diagnostics ++ us.filterMap (report? h.basePath) := by
  have htest : test.isTest = true := (isOutermostTest_iff.mp ht).1
  induction us using List.reverseRecOn generalizing vs with
  | nil =>
      rw [List.foldl_nil, take_of_test (by rw [hs]; rfl) htest]
      exact (List.append_nil _).symm
  | append_singleton us n ih =>
      rw [List.append_assoc, List.singleton_append] at he
      have hn : test ∈ n.ancestors := by
        refine mem_ancestors_of_mem_inside hl ?_
        rw [he]
        exact List.mem_append.mpr (.inr List.mem_cons_self)
      have hsplit : a.preorder = front ++ test :: (us ++ n :: (vs ++ back)) := by
        rw [hp, descendants_eq, he]
        simp
      have hbefore : n.packagePath = packagePathOf (front ++ test :: us) := by
        rw [Node.packagePath, before_eq hl (hsplit.trans (List.append_assoc _ (test :: us) _).symm)]
      have hmem : test ∈ a.preorder := by
        rw [hsplit]
        exact List.mem_append.mpr (.inr List.mem_cons_self)
      -- At `n` the scope is the reading of `us`, which is what the test reads before `n`.
      obtain ⟨skipped, hread⟩ := exists_foldl_take_test hl htest hsplit hs hpath
      have hskips : (us.foldl take (h.take test)).scope.skips
          (us.foldl take (h.take test)).basePath (us.foldl take (h.take test)).packagePath n =
            (n.report? h.basePath).toList := by
        rw [report?_of_isOutermostTest _ hn ht, readBefore_eq hl hmem he, hread, hbefore]
        rfl
      have hactive : (us.foldl take (h.take test)).scope.isActive = true := by
        rw [hread]
        rfl
      rw [List.foldl_concat, take_of_active hactive]
      show (us.foldl take (h.take test)).diagnostics ++ _ = _
      rw [hskips, ih he, List.filterMap_append, List.append_assoc, List.filterMap_cons]
      cases n.report? h.basePath <;> rfl

/-- Walking these steps between two methods reports these nodes. -/
def RunReports (steps : List (Step a)) (ns : List (Node a)) : Prop :=
  ∀ (us vs : List (Node a)) (h : Harvester), a.preorder = us ++ (ns ++ vs) →
    h.scope = .empty → h.packagePath = packagePathOf us →
    (check.run steps h).2.diagnostics = h.diagnostics ++ ns.filterMap (report? h.basePath)

theorem runReports_test (hl : a.Linked) {test : Node a} (ht : test.isOutermostTest = true) :
    RunReports [.enter test] test.descendants := by
  intro us vs h hp hs hpath
  obtain ⟨htest, hnone⟩ := isOutermostTest_iff.mp ht
  rw [run_enter_test htest hs]
  dsimp only
  rw [diagnostics_leave, diagnostics_foldl_take hl ht hp hs hpath (List.append_nil _).symm,
    descendants_eq, List.filterMap_cons_none (report?_eq_none _ hnone)]

theorem runReports_forest {cs : List (Node a)}
    (reads : ∀ c ∈ cs, RunReads [.enter c] c.descendants)
    (reports : ∀ c ∈ cs, RunReports [.enter c] c.descendants) :
    RunReports (cs.map .enter) (descend cs) := by
  induction cs with
  | nil =>
      intro us vs h _ _ _
      rw [List.map_nil, descend, run_nil]
      exact (List.append_nil _).symm
  | cons c cs ih =>
      intro us vs h hp hs hpath
      rw [descend_cons_append] at hp ⊢
      have hp₁ : a.preorder = us ++ (c.descendants ++ (descend cs ++ vs)) := by rw [hp]; simp
      obtain ⟨h₁, hrun₁, hread₁⟩ := reads c List.mem_cons_self us (descend cs ++ vs) h hp₁ hs hpath
      have hreport₁ := reports c List.mem_cons_self us (descend cs ++ vs) h hp₁ hs hpath
      have hrest := ih (fun x hx => reads x (List.mem_cons_of_mem _ hx))
        (fun x hx => reports x (List.mem_cons_of_mem _ hx)) (us ++ c.descendants) vs h₁
        (by rw [hp]; simp) hread₁.scope hread₁.packagePath
      rw [hrun₁] at hreport₁
      rw [run_enter_cons, hrun₁, andThen_ok, hrest, hread₁.basePath, hreport₁,
        List.filterMap_append, List.append_assoc]

theorem runReports_outside (hl : a.Linked) (n : Node a) (hn : n.ancestors.any isTest = false) :
    RunReports [.enter n] n.descendants := by
  induction n using induction_children with
  | step n ih =>
      by_cases ht : n.isTest = true
      · exact runReports_test hl (isOutermostTest_iff.mpr ⟨ht, hn⟩)
      have ht : n.isTest = false := Bool.eq_false_iff.mpr ht
      have outside : ∀ c ∈ n.children, c.ancestors.any isTest = false := by
        intro c hc
        rw [ancestors_of_parent? ((mem_children_iff hl).mp hc), List.any_cons, ht, hn]
        rfl
      have reads : ∀ c ∈ n.children, RunReads [.enter c] c.descendants :=
        fun c hc => run_outside hl c (outside c hc)
      intro us vs h hp hs hpath
      -- The node itself reports nothing, and what it does to the state is known.
      have hvisit : ReadOn us [n] h (h.take n) := .take hs hpath ht
      rw [descendants_eq] at hp ⊢
      have hp' : a.preorder = (us ++ [n]) ++ (descend n.children ++ vs) := by
        rw [hp]
        simp [inside]
      obtain ⟨h', hrun, -⟩ :=
        run_forest_outside reads (us ++ [n]) vs (h.take n) hp' hvisit.scope hvisit.packagePath
      have hbelow := runReports_forest reads (fun c hc => ih c hc (outside c hc)) (us ++ [n]) vs
        (h.take n) hp' hvisit.scope hvisit.packagePath
      have hsilent : (h.take n).diagnostics = h.diagnostics := by
        rw [take_of_idle (by rw [hs]; rfl) ht]
      rw [hrun, hvisit.basePath, hsilent] at hbelow
      rw [run_enter_take, hrun, andThen_ok]
      dsimp only
      rw [diagnostics_leave, hbelow, List.filterMap_cons_none (report?_eq_none _ hn)]
      rfl

/-- A walk reports the nodes of its tree that are to be reported, in reading
order, behind what was reported before. -/
theorem diagnostics_harvest_eq (h : Harvester) {a : Arena} (ha : a.WellFormed) :
    (h.harvest a).2.diagnostics = h.diagnostics ++ a.preorder.filterMap (report? h.basePath) := by
  rw [harvest, Check.walk]
  cases hr : a.root? with
  | none =>
      have hp : a.preorder = [] := by rw [Arena.preorder, hr]; rfl
      rw [hp]
      exact (List.append_nil _).symm
  | some root =>
      have hp : a.preorder = root.descendants := by rw [Arena.preorder, hr]; rfl
      have hroot : root.ancestors.any isTest = false := by rw [ha.ancestors_root hr]; rfl
      rw [hp]
      exact runReports_outside ha.linked root hroot [] [] h.startFile (by rw [hp]; simp) rfl rfl

/-! ## Between the walks -/

/-- What a harvester is asked for, one whole walk at a time. -/
inductive Request where
  | harvest (a : Arena)
  | startFile
  | drain
  | takeDiagnostics

namespace Request

def Proper : Request → Prop
  | harvest a => a.WellFormed
  | _ => True

def apply (h : Harvester) : Request → Harvester
  | harvest a => (h.harvest a).2
  | startFile => h.startFile
  | drain => h.drain.2
  | takeDiagnostics => h.takeDiagnostics.2

/-- The reports that the request hands out. -/
def taken (h : Harvester) : Request → List Diagnostic
  | takeDiagnostics => h.takeDiagnostics.1
  | _ => []

/-- The reports that the request makes. -/
def reported (b : String) : Request → List Diagnostic
  | harvest a => a.preorder.filterMap (report? b)
  | _ => []

/-- What is handed out and what is left is what was there and what is new. -/
theorem accounts (h : Harvester) {r : Request} (hr : r.Proper) :
    r.taken h ++ (r.apply h).diagnostics = h.diagnostics ++ r.reported h.basePath := by
  cases r with
  | harvest a => exact diagnostics_harvest_eq h hr
  | startFile => exact (List.append_nil _).symm
  | drain => exact (List.append_nil _).symm
  | takeDiagnostics => rfl

theorem basePath_apply (h : Harvester) {r : Request} (hr : r.Proper) :
    (r.apply h).basePath = h.basePath := by
  cases r with
  | harvest a => exact basePath_harvest h hr
  | _ => rfl

/-- All reports that a series of requests hands out, in order. -/
def allTaken : Harvester → List Request → List Diagnostic
  | _, [] => []
  | h, r :: rs => r.taken h ++ allTaken (r.apply h) rs

/-- Over a series of requests no report is lost, made up or handed out twice. -/
theorem accounts_foldl (h : Harvester) {rs : List Request} (hrs : ∀ r ∈ rs, r.Proper) :
    allTaken h rs ++ (rs.foldl apply h).diagnostics =
      h.diagnostics ++ rs.flatMap (reported h.basePath) := by
  induction rs generalizing h with
  | nil => exact (List.append_nil _).symm
  | cons r rs ih =>
      have hr : r.Proper := hrs r List.mem_cons_self
      have hrest := ih (r.apply h) fun x hx => hrs x (List.mem_cons_of_mem _ hx)
      rw [allTaken, List.foldl_cons, List.append_assoc, hrest, basePath_apply h hr,
        ← List.append_assoc, accounts h hr, List.flatMap_cons, List.append_assoc]

end Request

/-- A call of any kind and on any node adds to the reports at most, but for the
one that takes them. -/
theorem prefix_diagnostics_apply (h : Harvester) {e : Event} (he : e ≠ .takeDiagnostics) :
    h.diagnostics <+: (e.apply h).diagnostics := by
  cases e with
  | startFile => exact List.prefix_rfl
  | visit n =>
      show h.diagnostics <+: (h.take n).diagnostics
      rw [take_eq]
      exact List.prefix_append _ _
  | leave n =>
      exact ⟨[], (List.append_nil _).trans (diagnostics_leave n h).symm⟩
  | drain => exact List.prefix_rfl
  | takeDiagnostics => exact absurd rfl he

/-! ## Completeness -/

/-- Diagnostics are complete.  A walk from any state adds the reports of its
tree, node by node in reading order.  A node is reported if an outermost test
lies above it that refuses it, and for what is refused.  A call below the test
that sets a property of a module has it added, is reported, or is passed over
for an absent name or value, and only one of these.  Whatever is asked for, the
reports that are handed out and those that are left are those that were made, in
order; and no call but the one that takes them removes or changes any. -/
theorem diagnostics_complete (h : Harvester) :
    (∀ a : Arena, a.WellFormed → (h.harvest a).2.diagnostics =
      h.diagnostics ++ a.preorder.filterMap (report? h.basePath)) ∧
    (∀ {a : Arena} (n : Node a) (d : Diagnostic), n.report? h.basePath = some d ↔
      ∃ test ∈ n.ancestors, test.isOutermostTest = true ∧ test.Refuses h.basePath n d) ∧
    (∀ a : Arena, a.WellFormed → ∀ test ∈ a.preorder, test.isOutermostTest = true →
      ∀ (call : Node a) (module : String), test ∈ call.ancestors → test.Configures call module →
        ∃! fate, EndsIn h.basePath test call module fate) ∧
    (∀ requests : List Request, (∀ r ∈ requests, r.Proper) →
      Request.allTaken h requests ++ (requests.foldl Request.apply h).diagnostics =
        h.diagnostics ++ requests.flatMap (Request.reported h.basePath)) ∧
    ∀ e : Event, e ≠ .takeDiagnostics → h.diagnostics <+: (e.apply h).diagnostics := by
  refine ⟨fun a ha => diagnostics_harvest_eq h ha, fun n d => report?_eq_some_iff h.basePath, ?_,
    fun requests hr => Request.accounts_foldl h hr, fun e he => prefix_diagnostics_apply h he⟩
  intro a ha test hp ht call module habove hc
  exact exists_unique_end ha.linked hp ht h.basePath habove hc

open PropertyHarvest.Tree in
/-- A test without a verification: its first property has a name for a value, its
second has `null`, and its second configuration has no module. -/
def refusedTest : Tree :=
  interior .compilationUnit 1 [
    interior .methodDecl 2 [
      interior .modifiers 2 [interior .annotationUse 2 [token .identifier "Test" 2]],
      interior .block 3 [
        configDeclaration 4 "createModuleConfig" [interior .expression 4 [
          interior .memberAccess 4 [
            token .identifier "FooCheck" 4, token .classLiteral "class" 4]]],
        addition 5 (token .identifier "limit" 5),
        addition 6 (token .nullLiteral "null" 6),
        configDeclaration 7 "createModuleConfig" []]]]

/-- A harvester that was left in a method, with a report that is not yet handed
out. -/
def reporting : Harvester :=
  { interrupted with
    diagnostics := [⟨9, .property "BarCheck", .unsupportedConstruct .identifier 9⟩] }

theorem diagnostics_complete_refusedTest :
    (reporting.harvest (.ofTree refusedTest)).2.diagnostics =
      reporting.diagnostics ++
        [⟨5, .property "FooCheck", .unsupportedConstruct .identifier 5⟩,
          ⟨7, .binding "config",
            .unsupportedCreationArgument "expected exactly one argument, found 0" 7⟩] ∧
    (∃ test call : Node (.ofTree refusedTest), test.isOutermostTest = true ∧ call.line = 6 ∧
      test ∈ call.ancestors ∧ test.Configures call "FooCheck" ∧
        ∃! fate, EndsIn reporting.basePath test call "FooCheck" fate) ∧
    Request.allTaken reporting
      [.harvest (.ofTree refusedTest), .drain, .startFile, .takeDiagnostics, .takeDiagnostics] =
        reporting.diagnostics ++
          (Arena.ofTree refusedTest).preorder.filterMap (report? reporting.basePath) ∧
    reporting.diagnostics <+: (Event.drain.apply reporting).diagnostics := by
  obtain ⟨hwalk, -, hend, hrequests, hevents⟩ := diagnostics_complete reporting
  have hwell : (Arena.ofTree refusedTest).WellFormed := Arena.wellFormed_ofTree refusedTest
  refine ⟨?_, ?_, ?_, hevents .drain Event.noConfusion⟩
  · rw [hwalk _ hwell]
    decide +kernel
  · have hread : ((Arena.ofTree refusedTest).preorder.any fun test => test.isOutermostTest &&
        (Arena.ofTree refusedTest).preorder.any fun call =>
          call.line = 6 && call.ancestors.contains test && call.kind = .methodCall &&
            CallSite.classify (fun _ => true) call.above call.tree = .setProperty "config" &&
            test.moduleBefore? call "config" = some "FooCheck") = true := by
      decide +kernel
    simp only [List.any_eq_true, Bool.and_eq_true, decide_eq_true_eq,
      List.contains_iff_mem] at hread
    obtain ⟨test, hp, ht, call, -, ⟨⟨⟨hline, habove⟩, hk⟩, hc⟩, hm⟩ := hread
    have hconfigures : test.Configures call "FooCheck" :=
      ⟨"config", ⟨hk, (CallSite.classify_eq_setProperty_iff.mp hc).1⟩, hm⟩
    exact ⟨test, call, ht, hline, habove, hconfigures,
      hend _ hwell test hp ht call "FooCheck" habove hconfigures⟩
  · have hproper : ∀ r ∈ [Request.harvest (.ofTree refusedTest), .drain, .startFile,
        .takeDiagnostics, .takeDiagnostics], r.Proper := by
      simp only [List.forall_mem_cons, Request.Proper]
      exact ⟨hwell, trivial, trivial, trivial, trivial, List.forall_mem_nil _⟩
    have haccounts := hrequests _ hproper
    simpa [Request.reported, Request.apply, takeDiagnostics] using haccounts

end Harvester

end PropertyHarvest
