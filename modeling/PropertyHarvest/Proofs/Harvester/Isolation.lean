/-
# Methods are isolated

A walk of the harvester over a tree comes to this: the accumulation takes in,
one after the other, what each verified outermost test has set, read from an
empty scope and from the nodes below that test alone.

The walk has two modes, and there is an induction on the tree for each.  Below
an open test every visit is one step of the reading and no leave does anything
(`run_below_open`), since what lies below a test is smaller than the test and
so is never the test again.  Outside of tests the scope stays empty and a test
adds its reading (`run_outside`).

Methods inside an outermost test are part of it, whether or not they are annotated
themselves, so a verification in one of them verifies the outer one.  The order in
which tests are merged is that of reading, which by the order of visits and leaves is
not obvious: a test is merged when it is left.
-/
import PropertyHarvest.Proofs.Arena.Layout
import PropertyHarvest.Proofs.Harvester.Reading
import PropertyHarvest.Proofs.Walk.Run

namespace PropertyHarvest

namespace MethodScope

theorem declare_opened (s : MethodScope) (id : Nat) (parent? : Option Kind) (t : Tree) :
    (s.opened id).declare parent? t = (s.declare parent? t).opened id := by
  rw [declare, declare]
  split <;> rfl

theorem call_opened (s : MethodScope) (id : Nat) (b p : String) (above : List Kind) (t : Tree) :
    (s.opened id).call b p above t = (s.call b p above t).opened id := by
  rw [call, call]
  -- None of the parts that a call looks at tells which method is open.
  have hb : (s.opened id).isBound = s.isBound := rfl
  have hm : (s.opened id).moduleOf? = s.moduleOf? := rfl
  have hf : (s.opened id).fileHandles = s.fileHandles := rfl
  rw [hb, hm, hf]
  cases CallSite.classify s.isBound above t with
  | setProperty handle =>
      dsimp only
      split <;> rfl
  | verification => rfl
  | other => rfl

theorem read_opened {a : Arena} (s : MethodScope) (id : Nat) (b p : String) (n : Node a) :
    (s.opened id).read b p n = (s.read b p n).opened id := by
  rw [read, read]
  split
  · exact declare_opened s id _ _
  · exact call_opened s id b p _ _
  · rfl

theorem skips_opened {a : Arena} (s : MethodScope) (id : Nat) (b p : String) (n : Node a) :
    (s.opened id).skips b p n = s.skips b p n :=
  rfl

end MethodScope

namespace Harvester

variable {a : Arena}

open Check Node

/-! ## Below an open test -/

theorem active?_take {h : Harvester} {i : Nat} (hi : h.scope.active? = some i) (n : Node a) :
    (h.take n).scope.active? = some i := by
  have ha : h.scope.isActive = true := by rw [MethodScope.isActive, hi]; rfl
  rw [take_of_active ha n]
  show (h.scope.read h.basePath h.packagePath n).active? = some i
  rw [(h.scope.reads_read h.basePath h.packagePath n).active?_eq, hi]

theorem active?_foldl_take {h : Harvester} {i : Nat} (hi : h.scope.active? = some i)
    (ns : List (Node a)) : (ns.foldl take h).scope.active? = some i := by
  induction ns generalizing h with
  | nil => exact hi
  | cons n ns ih => exact ih (active?_take hi n)

theorem leave_of_ne {h : Harvester} {n : Node a} (hn : h.scope.active? ≠ some n.id) :
    leave n h = h := by
  have hne : h.scope.isActiveMethod n.id = false := beq_false_of_ne hn
  rw [leave, hne, Bool.and_false, if_neg Bool.false_ne_true]

/-- The walk below one node, with the visit and the leave that go with it,
whether or not the node is shown. -/
theorem run_enter_take (n : Node a) (h : Harvester) :
    check.run [.enter n] h =
      andThen (check.run (n.children.map .enter) (h.take n)) fun h => (.ok (), leave n h) := by
  by_cases hk : check.kinds.contains n.kind = true
  · rw [run_enter _ hk]
    show andThen (visit n h) _ = _
    rw [visit_of_shown hk, andThen_ok]
    rfl
  · have hk : acceptableKinds.contains n.kind = false := Bool.eq_false_iff.mpr hk
    have hn : n.is .methodDecl = false := by
      refine is_eq_false ?_
      intro hm
      rw [hm] at hk
      cases hk
    have hl (h : Harvester) : leave n h = h := by
      rw [leave, hn, Bool.false_and, if_neg Bool.false_ne_true]
    have ht : h.take n = h := by rw [take, visit_of_hidden hk]
    rw [run_enter_hidden _ hk, ht]
    simp only [hl]
    rcases check.run (n.children.map .enter) h with ⟨e | u, s⟩ <;> rfl

theorem run_forest_below_open {i : Nat} {cs : List (Node a)}
    (each : ∀ c ∈ cs, ∀ h : Harvester, h.scope.active? = some i →
      check.run [.enter c] h = (.ok (), c.descendants.foldl take h))
    {h : Harvester} (hi : h.scope.active? = some i) :
    check.run (cs.map .enter) h = (.ok (), (descend cs).foldl take h) := by
  induction cs generalizing h with
  | nil =>
      rw [List.map_nil, run_nil, descend]
      rfl
  | cons c cs ih =>
      have hrest := ih (fun x hx => each x (List.mem_cons_of_mem _ hx))
        (active?_foldl_take hi c.descendants)
      rw [run_enter_cons, each c List.mem_cons_self h hi, andThen_ok, hrest,
        ← List.foldl_append, descend_cons_append]

theorem run_below_open (n : Node a) {h : Harvester} {i : Nat} (hi : h.scope.active? = some i)
    (hne : ∀ d ∈ n.descendants, d.id ≠ i) :
    check.run [.enter n] h = (.ok (), n.descendants.foldl take h) := by
  induction n using induction_children generalizing h with
  | step n ih =>
      have each : ∀ c ∈ n.children, ∀ h : Harvester, h.scope.active? = some i →
          check.run [.enter c] h = (.ok (), c.descendants.foldl take h) := by
        intro c hc h hi
        refine ih c hc hi fun d hd => hne d ?_
        exact mem_descendants_iff.mpr (.inr (mem_inside_iff.mpr ⟨c, hc, hd⟩))
      have hleave : (n.inside.foldl take (h.take n)).scope.active? ≠ some n.id := by
        rw [active?_foldl_take (active?_take hi n)]
        intro he
        exact hne n n.self_mem_descendants (Option.some.inj he).symm
      rw [run_enter_take, run_forest_below_open each (active?_take hi n), andThen_ok,
        descendants_eq, List.foldl_cons]
      exact congrArg (Prod.mk _) (leave_of_ne hleave)

/-- Visits below an open test, taken together, are the reading. -/
theorem foldl_take_of_opened (hl : a.Linked) {ns us vs : List (Node a)}
    (hp : a.preorder = us ++ (ns ++ vs)) {h : Harvester} {s : MethodScope} {i : Nat}
    (hs : h.scope = s.opened i) (hpath : h.packagePath = packagePathOf us) :
    ∃ skipped, ns.foldl take h =
      { h with
        packagePath := packagePathOf (us ++ ns)
        scope := (ns.foldl (fun s n => s.read h.basePath n.packagePath n) s).opened i
        diagnostics := h.diagnostics ++ skipped } := by
  -- `us` is what was read before.  It grows by each node, so that the package path that
  -- the walk has at a node is the one in force there.
  induction ns generalizing us h s with
  | nil =>
      refine ⟨[], ?_⟩
      rw [List.append_nil, List.append_nil, ← hpath]
      show h = { h with scope := s.opened i }
      rw [← hs]
  | cons n ns ih =>
      have ha : h.scope.isActive = true := by rw [hs]; rfl
      have hb : n.packagePath = h.packagePath := by
        rw [Node.packagePath, before_eq hl hp, hpath]
      have hfirst := take_of_active ha n
      have hp' : a.preorder = (us ++ [n]) ++ (ns ++ vs) := by rw [hp]; simp
      have hs' : (h.take n).scope = (s.read h.basePath n.packagePath n).opened i := by
        rw [hfirst, hb]
        show h.scope.read h.basePath h.packagePath n = _
        rw [hs, MethodScope.read_opened]
      have hpath' : (h.take n).packagePath = packagePathOf (us ++ [n]) := by
        rw [hfirst, packagePathOf_append_singleton, hpath]
      obtain ⟨rest, hrest⟩ := ih hp' hs' hpath'
      refine ⟨h.scope.skips h.basePath h.packagePath n ++ rest, ?_⟩
      rw [List.foldl_cons, hrest, hfirst]
      simp only [List.append_assoc, List.singleton_append, List.foldl_cons]

/-! ## Outside of tests -/

/-- What reading `ns`, behind `us`, makes of a harvester between two methods. -/
structure ReadOn (us ns : List (Node a)) (h h' : Harvester) : Prop where
  scope : h'.scope = .empty
  packagePath : h'.packagePath = packagePathOf (us ++ ns)
  basePath : h'.basePath = h.basePath
  found : h'.found = (findings h.basePath ns).foldl Accumulation.merge h.found

theorem ReadOn.refl {us : List (Node a)} {h : Harvester} (hs : h.scope = .empty)
    (hpath : h.packagePath = packagePathOf us) : ReadOn us [] h h :=
  ⟨hs, by rw [List.append_nil, hpath], rfl, rfl⟩

theorem ReadOn.trans {us ns ms : List (Node a)} {h h' h'' : Harvester} (first : ReadOn us ns h h')
    (next : ReadOn (us ++ ns) ms h' h'') : ReadOn us (ns ++ ms) h h'' where
  scope := next.scope
  packagePath := by rw [next.packagePath, List.append_assoc]
  basePath := by rw [next.basePath, first.basePath]
  found := by
    rw [next.found, first.found, first.basePath, findings_append, List.foldl_append]

theorem ReadOn.take {us : List (Node a)} {h : Harvester} (hs : h.scope = .empty)
    (hpath : h.packagePath = packagePathOf us) {n : Node a} (hn : n.isTest = false) :
    ReadOn us [n] h (h.take n) := by
  have ha : h.scope.isActive = false := by rw [hs]; rfl
  have hf : findings h.basePath [n] = [] := by
    refine findings_eq_nil fun m hm => ?_
    rw [List.mem_singleton.mp hm, isOutermostTest, hn, Bool.false_and]
  rw [take_of_idle ha hn]
  exact ⟨hs, by rw [packagePathOf_append_singleton, hpath], rfl, by rw [hf]; rfl⟩

theorem findings_inside (hl : a.Linked) {test : Node a} (ht : test.isTest = true) (b : String) :
    findings b test.inside = [] := by
  refine findings_eq_nil fun d hd => ?_
  have hm : d.ancestors.any isTest = true :=
    List.any_eq_true.mpr ⟨test, mem_ancestors_of_mem_inside hl hd, ht⟩
  rw [isOutermostTest, hm, Bool.not_true, Bool.and_false]

theorem findings_outermost {test : Node a} (ht : test.isOutermostTest = true) (b : String) :
    findings b [test] =
      if (test.testScope b).verified then [(test.testScope b).properties] else [] := by
  rw [findings]
  rw [List.filter_cons_of_pos ht, List.filter_nil, List.map_singleton]
  by_cases hv : (test.testScope b).verified = true
  · rw [if_pos hv, List.filter_cons_of_pos hv, List.filter_nil, List.map_singleton]
  · rw [if_neg hv, List.filter_cons_of_neg hv, List.filter_nil, List.map_nil]

theorem leave_opened {h : Harvester} {n : Node a} {s : MethodScope} (hn : n.is .methodDecl = true)
    (hs : h.scope = s.opened n.id) :
    leave n h =
      { h with
        scope := .empty
        found := if s.verified then h.found.merge s.properties else h.found } := by
  have ha : h.scope.isActiveMethod n.id = true := by rw [hs]; exact beq_self_eq_true _
  rw [leave, hn, ha, Bool.true_and, if_pos rfl, hs]
  have hfinish : (s.opened n.id).finish =
      (if s.verified then some s.properties else none, .empty) := rfl
  rw [hfinish]
  by_cases hv : s.verified = true
  · rw [if_pos hv, if_pos hv]
  · rw [if_neg hv, if_neg hv]

/-- Walking these steps between two methods is reading these nodes. -/
def RunReads (steps : List (Step a)) (ns : List (Node a)) : Prop :=
  ∀ (us vs : List (Node a)) (h : Harvester), a.preorder = us ++ (ns ++ vs) →
    h.scope = .empty → h.packagePath = packagePathOf us →
    ∃ h', check.run steps h = (.ok (), h') ∧ ReadOn us ns h h'

/-- The walk of a test is its visits, from its own on, and its leave. -/
theorem run_enter_test {n : Node a} (ht : n.isTest = true) {h : Harvester}
    (hs : h.scope = .empty) :
    check.run [.enter n] h = (.ok (), leave n (n.inside.foldl take (h.take n))) := by
  have hi : (h.take n).scope.active? = some n.id := by
    rw [take_of_test (by rw [hs]; rfl) ht]
    rfl
  have each : ∀ c ∈ n.children, ∀ h : Harvester, h.scope.active? = some n.id →
      check.run [.enter c] h = (.ok (), c.descendants.foldl take h) := by
    intro c hc h hi
    refine run_below_open c hi ?_
    intro d hd he
    have hin : d ∈ n.inside := mem_inside_iff.mpr ⟨c, hc, hd⟩
    rw [ext_id he] at hin
    exact n.not_mem_inside_self hin
  rw [run_enter_take, run_forest_below_open each hi, andThen_ok]
  rfl

/-- A test and any part of its reading, from between two methods. -/
theorem exists_foldl_take_test (hl : a.Linked) {n : Node a} (ht : n.isTest = true)
    {us ns vs : List (Node a)} (hp : a.preorder = us ++ n :: (ns ++ vs)) {h : Harvester}
    (hs : h.scope = .empty) (hpath : h.packagePath = packagePathOf us) :
    ∃ skipped, ns.foldl take (h.take n) =
      { h with
        packagePath := packagePathOf (us ++ n :: ns)
        scope := (ns.foldl (fun s m => s.read h.basePath m.packagePath m)
          MethodScope.empty).opened n.id
        diagnostics := h.diagnostics ++ skipped } := by
  have hk : n.kind ≠ .packageDecl := by
    rw [(isTest_iff.mp ht).1]
    exact Kind.noConfusion
  have hopen : h.take n = { h with scope := MethodScope.empty.opened n.id } := by
    rw [take_of_test (by rw [hs]; rfl) ht, hs]
  have hpath' : (h.take n).packagePath = packagePathOf (us ++ [n]) := by
    rw [hopen, packagePathOf_append_singleton, packagePathAfter_of_ne hk]
    exact hpath
  have hp' : a.preorder = (us ++ [n]) ++ (ns ++ vs) := by rw [hp]; simp
  obtain ⟨skipped, hread⟩ := foldl_take_of_opened hl hp' (s := .empty) (by rw [hopen]) hpath'
  refine ⟨skipped, ?_⟩
  rw [hread, hopen, List.append_assoc, List.singleton_append]

theorem run_test (hl : a.Linked) {n : Node a} (hn : n.isOutermostTest = true) :
    RunReads [.enter n] n.descendants := by
  intro us vs h hp hs hpath
  have ht : n.isTest = true := (isOutermostTest_iff.mp hn).1
  have hm : n.is .methodDecl = true := is_iff.mpr (isTest_iff.mp ht).1
  rw [descendants_eq, List.cons_append] at hp
  obtain ⟨skipped, hread⟩ := exists_foldl_take_test hl ht hp hs hpath
  have hscope : (n.inside.foldl take (h.take n)).scope =
      (n.testScope h.basePath).opened n.id := by
    rw [hread]
    rfl
  have hfound : findings h.basePath n.descendants =
      if (n.testScope h.basePath).verified then [(n.testScope h.basePath).properties] else [] := by
    rw [descendants_eq, ← List.singleton_append, findings_append, findings_inside hl ht,
      List.append_nil, findings_outermost hn]
  refine ⟨leave n (n.inside.foldl take (h.take n)), run_enter_test ht hs, ?_⟩
  rw [leave_opened hm hscope, hread]
  refine ⟨rfl, by rw [descendants_eq], rfl, ?_⟩
  rw [hfound]
  dsimp only
  split <;> rfl

theorem run_forest_outside {cs : List (Node a)}
    (each : ∀ c ∈ cs, RunReads [.enter c] c.descendants) :
    RunReads (cs.map .enter) (descend cs) := by
  induction cs with
  | nil =>
      intro us vs h _ hs hpath
      rw [List.map_nil, descend]
      exact ⟨h, run_nil _ _, .refl hs hpath⟩
  | cons c cs ih =>
      intro us vs h hp hs hpath
      rw [descend_cons_append] at hp ⊢
      obtain ⟨h₁, hrun₁, hread₁⟩ :=
        each c List.mem_cons_self us (descend cs ++ vs) h (by rw [hp]; simp) hs hpath
      obtain ⟨h₂, hrun₂, hread₂⟩ :=
        ih (fun x hx => each x (List.mem_cons_of_mem _ hx)) (us ++ c.descendants) vs h₁
          (by rw [hp]; simp) hread₁.scope hread₁.packagePath
      refine ⟨h₂, ?_, hread₁.trans hread₂⟩
      rw [run_enter_cons, hrun₁, andThen_ok, hrun₂]

theorem run_outside (hl : a.Linked) (n : Node a) (hn : n.ancestors.any isTest = false) :
    RunReads [.enter n] n.descendants := by
  induction n using induction_children with
  | step n ih =>
      by_cases ht : n.isTest = true
      · exact run_test hl (isOutermostTest_iff.mpr ⟨ht, hn⟩)
      have ht : n.isTest = false := Bool.eq_false_iff.mpr ht
      have each : ∀ c ∈ n.children, RunReads [.enter c] c.descendants := by
        intro c hc
        refine ih c hc ?_
        rw [ancestors_of_parent? ((mem_children_iff hl).mp hc), List.any_cons, ht, hn]
        rfl
      intro us vs h hp hs hpath
      have hvisit : ReadOn us [n] h (h.take n) := .take hs hpath ht
      rw [descendants_eq] at hp ⊢
      obtain ⟨h', hrun, hread⟩ :=
        run_forest_outside each (us ++ [n]) vs (h.take n) (by rw [hp]; simp [inside])
          hvisit.scope hvisit.packagePath
      have hleave : leave n h' = h' := by
        refine leave_of_ne ?_
        rw [hread.scope]
        exact fun he => by cases he
      refine ⟨h', ?_, hvisit.trans hread⟩
      rw [run_enter_take, hrun, andThen_ok, hleave]

/-! ## A whole tree -/

/-- What a tree adds to the accumulation, one entry for each verified outermost
test in reading order. -/
def treeFindings (basePath : String) (a : Arena) : List Modules :=
  findings basePath a.preorder

theorem harvest_wellFormed (h : Harvester) {a : Arena} (ha : a.WellFormed) :
    ∃ h', h.harvest a = (.ok (), h') ∧ ReadOn (a := a) [] a.preorder h.startFile h' := by
  have hstart : h.startFile.packagePath = packagePathOf ([] : List (Node a)) := rfl
  rw [harvest, Check.walk]
  cases hr : a.root? with
  | none =>
      have hp : a.preorder = [] := by rw [Arena.preorder, hr]; rfl
      rw [hp]
      exact ⟨h.startFile, rfl, .refl rfl hstart⟩
  | some root =>
      have hp : a.preorder = root.descendants := by rw [Arena.preorder, hr]; rfl
      have hroot : root.ancestors.any isTest = false := by rw [ha.ancestors_root hr]; rfl
      rw [hp]
      exact run_outside ha.linked root hroot [] [] h.startFile (by rw [hp]; simp) rfl hstart

/-- Method isolation: from whatever state, a walk ends well and between two
methods, and the accumulation takes in the verified outermost tests of the tree,
each as it reads on its own. -/
theorem harvest_isolated (h : Harvester) {a : Arena} (ha : a.WellFormed) :
    (h.harvest a).1 = .ok () ∧ (h.harvest a).2.scope = .empty ∧
      (h.harvest a).2.found = (treeFindings h.basePath a).foldl Accumulation.merge h.found := by
  obtain ⟨h', hrun, hread⟩ := harvest_wellFormed h ha
  rw [hrun]
  exact ⟨rfl, hread.scope, hread.found⟩

open PropertyHarvest.Tree in
/-- A file with one test: it configures a module, sets one property of it, and
verifies. -/
def oneTest (module name value : String) : Tree :=
  interior .compilationUnit 1 [
    interior .methodDecl 2 [
      interior .modifiers 2 [interior .annotationUse 2 [token .identifier "Test" 2]],
      interior .block 3 [
        interior .variableDecl 4 [
          interior .modifiers 4 [],
          interior .typeRef 4 [token .identifier "DefaultConfiguration" 4],
          token .identifier "config" 4,
          interior .expression 4 [interior .methodCall 4 [
            token .identifier "createModuleConfig" 4,
            interior .argumentList 4 [interior .expression 4 [interior .memberAccess 4 [
              token .identifier module 4, token .classLiteral "class" 4]]]]]],
        interior .expression 5 [interior .methodCall 5 [
          interior .memberAccess 5 [
            token .identifier "config" 5, token .identifier "addAttribute" 5],
          interior .argumentList 5 [
            interior .expression 5 [token .stringLiteral name 5],
            interior .expression 5 [token .stringLiteral value 5]]]],
        interior .expression 6 [interior .methodCall 6 [
          token .identifier "verify" 6, interior .argumentList 6 []]]]]]

open PropertyHarvest.Tree in
/-- `config.addAttribute("max", value);` -/
def addition (line : Nat) (value : Tree) : Tree :=
  interior .expression line [interior .methodCall line [
    interior .memberAccess line [
      token .identifier "config" line, token .identifier "addAttribute" line],
    interior .argumentList line [
      interior .expression line [token .stringLiteral "\"max\"" line],
      interior .expression line [value]]]]

open PropertyHarvest.Tree in
/-- A test that configures `FooCheck`, goes on with the statements, and verifies. -/
def fooTest (statements : List Tree) : Tree :=
  interior .compilationUnit 1 [
    interior .methodDecl 2 [
      interior .modifiers 2 [interior .annotationUse 2 [token .identifier "Test" 2]],
      interior .block 3 (
        interior .variableDecl 4 [
          interior .modifiers 4 [],
          interior .typeRef 4 [token .identifier "DefaultConfiguration" 4],
          token .identifier "config" 4,
          interior .expression 4 [interior .methodCall 4 [
            token .identifier "createModuleConfig" 4,
            interior .argumentList 4 [interior .expression 4 [interior .memberAccess 4 [
              token .identifier "FooCheck" 4, token .classLiteral "class" 4]]]]]]
        :: statements ++ [interior .expression 9 [interior .methodCall 9 [
          token .identifier "verify" 9, interior .argumentList 9 []]]])]]

/-- A harvester that was left in the middle of a verified method. -/
def interrupted : Harvester :=
  { ofBasePath "" with
    scope := ⟨some 7, [("config", "BarCheck")], [], [("BarCheck", [⟨"max", "3"⟩])], true⟩ }

theorem harvest_isolated_interrupted :
    (interrupted.harvest (.ofTree (oneTest "FooCheck" "\"format\"" "\"x\""))).1 = .ok () ∧
      (interrupted.harvest (.ofTree (oneTest "FooCheck" "\"format\"" "\"x\""))).2.scope =
        .empty ∧
      (interrupted.harvest (.ofTree (oneTest "FooCheck" "\"format\"" "\"x\""))).2.found =
        ⟨[("FooCheck", [⟨"format", "x"⟩])]⟩ := by
  obtain ⟨hok, hscope, hfound⟩ := harvest_isolated interrupted
    (Arena.wellFormed_ofTree (oneTest "FooCheck" "\"format\"" "\"x\""))
  refine ⟨hok, hscope, ?_⟩
  rw [hfound]
  decide +kernel

end Harvester

end PropertyHarvest
