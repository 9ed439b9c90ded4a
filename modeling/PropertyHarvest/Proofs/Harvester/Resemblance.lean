/-
# What is harvested from trees that resemble each other

A harvester does the same on two arenas whose trees resemble each other
(`harvest_eq_of_holds`).  Nothing is asked of the numbers: the nodes of the two
may have been added in any order, as long as each arena holds its tree.

A number is looked at in one place only, where the harvester asks on leaving a
method whether it is the one that was opened.  So two walks are compared in two
modes.  While a method is open the states are the same but for its number
(`take_renumbered`); between the methods they are the same
(`run_of_alike`).

Arenas that hold one tree are a special case, and the one for which this is used most:
the arena of a source file and the one that lays out its tree are numbered differently
and harvested alike (`harvest_eq_ofTree`).
-/
import PropertyHarvest.Proofs.Harvester.Isolation
import PropertyHarvest.Proofs.Literal.Resemblance

namespace PropertyHarvest

open PropertyHarvest.Tree (Resembles)

variable {t t' : Tree} {arguments? arguments'? : Option Tree}

namespace Tree

theorem Resembles.firstChild?_bind {α : Type} {f : Tree → Option α} (h : t.Resembles t')
    (hf : ∀ u u', u.Resembles u' → f u' = f u) : t'.firstChild?.bind f = t.firstChild?.bind f :=
  bind_eq_of_rel h.firstChild? hf

theorem Resembles.name_eq (h : t.Resembles t') :
    (t'.findFirstChild? .identifier).bind Tree.text? =
      (t.findFirstChild? .identifier).bind Tree.text? := by
  rcases cases_of_rel (h.findFirstChild? .identifier) with ⟨hf, hf'⟩ | ⟨u, u', hf, hf', hu⟩
  · rw [hf, hf']
  · rw [hf, hf']
    have hkind : u.kind = .identifier :=
      eq_of_beq (List.find?_some (p := fun c : Tree => c.is .identifier) hf)
    exact hu.identifier_text?_eq hkind

end Tree

/-! ## Declarations -/

namespace Declaration

theorem typeName?_eq (h : t.Resembles t') : typeName? t' = typeName? t := by
  rw [typeName?, typeName?, Option.bind_assoc, Option.bind_assoc]
  exact bind_eq_of_rel (h.findFirstChild? .typeRef) fun _ _ hu => hu.name_eq

theorem declaredName?_eq (h : t.Resembles t') : declaredName? t' = declaredName? t :=
  h.name_eq

theorem isFinal_eq (h : t.Resembles t') : isFinal t' = isFinal t := by
  rw [isFinal, isFinal]
  rcases cases_of_rel (h.findFirstChild? .modifiers) with ⟨hf, hf'⟩ | ⟨u, u', hf, hf', hu⟩
  · rw [hf, hf']
  · rw [hf, hf', Option.bind_some, Option.bind_some]
    rcases cases_of_rel (hu.findFirstChild? .finalModifier) with ⟨hw, hw'⟩ | ⟨w, w', hw, hw', -⟩
    · rw [hw, hw']
    · rw [hw, hw']
      rfl

theorem initializer?_rel (h : t.Resembles t') :
    Option.Rel Resembles (initializer? t) (initializer? t') := by
  rw [initializer?, initializer?]
  rcases cases_of_rel (h.findFirstChild? .expression) with ⟨hf, hf'⟩ | ⟨u, u', hf, hf', hu⟩
  · rw [hf, hf']
    exact .none
  · rw [hf, hf']
    exact hu.firstChild?

theorem forall₂_wrappedArguments (h : Option.Rel Resembles arguments? arguments'?) :
    List.Forall₂ Resembles (wrappedArguments arguments?) (wrappedArguments arguments'?) := by
  cases h with
  | none => exact .nil
  | some hr => exact hr.filter_is .expression

theorem classLiteralName?_eq (h : t.Resembles t') : classLiteralName? t' = classLiteralName? t := by
  rw [classLiteralName?, classLiteralName?]
  rcases cases_of_rel h.firstChild? with ⟨hf, hf'⟩ | ⟨owner, owner', hf, hf', howner⟩
  · rw [hf, hf']
  rcases cases_of_rel h.secondChild? with ⟨hs, hs'⟩ | ⟨member, member', hs, hs', hmember⟩
  · rw [hf, hf', hs, hs']
  rw [hf, hf', hs, hs']
  dsimp only
  rw [hmember.is_eq, howner.kind_eq]
  split
  · split
    · rename_i hk
      exact howner.identifier_text?_eq hk
    · rcases cases_of_rel howner.lastChild? with ⟨hl, hl'⟩ | ⟨last, last', hl, hl', hlast⟩
      · rw [hl, hl']
      · rw [hl, hl', Option.filter_some, Option.filter_some, hlast.is_eq]
        split
        · rename_i hk
          exact hlast.identifier_text?_eq (eq_of_beq hk)
        · rfl
    · rfl
  · rfl

theorem moduleOfContent_eq (h : t.Resembles t') : moduleOfContent t' = moduleOfContent t := by
  rw [moduleOfContent, moduleOfContent, h.kind_eq]
  cases hk : t.kind with
  | stringLiteral =>
      dsimp only
      rw [h.text?_eq fun word he => by rw [hk] at he; cases he]
  | memberAccess =>
      dsimp only
      rw [classLiteralName?_eq h]
  | _ => rfl

theorem moduleOfArguments_eq (h : Option.Rel Resembles arguments? arguments'?) :
    moduleOfArguments arguments'? = moduleOfArguments arguments? := by
  have hwrapped := forall₂_wrappedArguments h
  rw [moduleOfArguments, moduleOfArguments]
  generalize wrappedArguments arguments? = ts at hwrapped
  generalize wrappedArguments arguments'? = ts' at hwrapped
  have hlength := hwrapped.length_eq
  cases hwrapped with
  | nil => rfl
  | @cons u u' _ _ hu tail =>
      cases tail with
      | nil =>
          dsimp only
          rcases cases_of_rel hu.firstChild? with ⟨hf, hf'⟩ | ⟨content, content', hf, hf', hc⟩
          · rw [hf, hf']
          · rw [hf, hf']
            exact moduleOfContent_eq hc
      | cons =>
          dsimp only
          rw [hlength]

theorem moduleOf_eq (factory : Idiom.Factory) (h : t.Resembles t')
    (ha : Option.Rel Resembles arguments? arguments'?) :
    moduleOf factory t' arguments'? = moduleOf factory t arguments? := by
  cases factory with
  | root => rfl
  | treeWalker => rfl
  | fromArgument => rw [moduleOf, moduleOf, moduleOfArguments_eq ha, h.line_eq]

theorem creationCall?_rel (h : t.Resembles t') :
    Option.Rel (fun call call' => call'.1 = call.1 ∧ Option.Rel Resembles call.2 call'.2)
      t.creationCall? t'.creationCall? := by
  rw [Tree.creationCall?, Tree.creationCall?, h.is_eq]
  split
  · rcases cases_of_rel h.firstChild? with ⟨hf, hf'⟩ | ⟨callee, callee', hf, hf', hcallee⟩
    · rw [hf, hf']
      exact .none
    · rw [hf, hf']
      dsimp only
      rw [hcallee.is_eq]
      split
      · rename_i hk
        rw [hcallee.identifier_text?_eq (eq_of_beq hk)]
        cases callee.text? with
        | none => exact .none
        | some name => exact .some ⟨rfl, h.findFirstChild? .argumentList⟩
      · exact .none
  · exact .none

theorem factoryCall?_rel (h : t.Resembles t') :
    Option.Rel (fun call call' => call'.1 = call.1 ∧ call.2.1.Resembles call'.2.1 ∧
      Option.Rel Resembles call.2.2 call'.2.2) (factoryCall? t) (factoryCall? t') := by
  rw [factoryCall?, factoryCall?]
  rcases cases_of_rel (initializer?_rel h) with ⟨hi, hi'⟩ | ⟨call, call', hi, hi', hcall⟩
  · rw [hi, hi']
    exact .none
  rcases cases_of_rel (creationCall?_rel hcall) with
    ⟨hc, hc'⟩ | ⟨⟨name, arguments?⟩, ⟨name', arguments'?⟩, hc, hc', rfl, harguments⟩
  · rw [hi, hi']
    show Option.Rel _ (call.creationCall?.bind _) (call'.creationCall?.bind _)
    rw [hc, hc']
    exact .none
  · rw [hi, hi']
    show Option.Rel _ (call.creationCall?.bind _) (call'.creationCall?.bind _)
    rw [hc, hc']
    show Option.Rel _ ((Idiom.Factory.ofName? _).bind _) ((Idiom.Factory.ofName? _).bind _)
    cases Idiom.Factory.ofName? name' with
    | none => exact .none
    | some factory => exact .some ⟨rfl, hcall, harguments⟩

theorem classify_eq (parent? : Option Kind) (h : t.Resembles t') :
    classify parent? t' = classify parent? t := by
  rw [classify, classify, typeName?_eq h, declaredName?_eq h, isFinal_eq h]
  split
  · split
    · split
      · rcases cases_of_rel (factoryCall?_rel h) with ⟨hf, hf'⟩ | ⟨call, call', hf, hf', hcalls⟩
        · rw [hf, hf']
        · obtain ⟨factory, u, arguments?⟩ := call
          obtain ⟨factory', u', arguments'?⟩ := call'
          obtain ⟨hfactory, hu, harguments⟩ := hcalls
          dsimp only at hfactory hu harguments
          rw [hf, hf', hfactory]
          dsimp only
          rw [moduleOf_eq factory hu harguments]
      · rfl
    · rfl
  · rfl

end Declaration

/-! ## Calls -/

namespace CallSite

theorem classify_eq (isBound : String → Bool) (above : List Kind) (h : t.Resembles t') :
    classify isBound above t' = classify isBound above t := by
  rw [classify, classify]
  rcases cases_of_rel h.firstChild? with ⟨hf, hf'⟩ | ⟨callee, callee', hf, hf', hcallee⟩
  · rw [hf, hf']
  · rw [hf, hf']
    dsimp only
    rw [hcallee.calledName?_eq, hcallee.receiverName?_eq, hcallee.is_eq, hcallee.is_eq]

theorem argumentValue_eq (s : Surroundings) (h : Option.Rel Resembles arguments? arguments'?) :
    argumentValue s arguments'? = argumentValue s arguments? := by
  cases h with
  | none => rfl
  | some hr => exact hr.literalContent_eq s

theorem property_eq (s : Surroundings) (h : Option.Rel Resembles arguments? arguments'?) :
    property s arguments'? = property s arguments? := by
  have hwrapped := Declaration.forall₂_wrappedArguments h
  rw [property, property]
  rw [argumentValue_eq s (forall₂_getElem? hwrapped 0),
    argumentValue_eq s (forall₂_getElem? hwrapped 1)]

end CallSite

/-! ## Visits -/

namespace Harvester

theorem packageName?_eq (h : t.Resembles t') : packageName? t' = packageName? t := by
  rw [packageName?, packageName?]
  refine bind_eq_of_rel (forall₂_find? h.children ?_) fun _ _ hu => hu.dottedName?_eq
  intro u u' hu
  rw [hu.is_eq, hu.is_eq]

theorem hasTestAnnotation_eq (h : t.Resembles t') :
    hasTestAnnotation t' = hasTestAnnotation t := by
  unfold hasTestAnnotation
  rcases cases_of_rel (h.findFirstChild? .modifiers) with ⟨hf, hf'⟩ | ⟨u, u', hf, hf', hu⟩
  · rw [hf, hf']
  · rw [hf, hf']
    refine any_eq_of_forall₂ (hu.filter_is .annotationUse) fun mark mark' hmark => ?_
    rw [hmark.firstChild?_bind fun _ _ hname => hname.dottedName?_eq]

end Harvester

/-! ## Nodes that are read alike -/

namespace Node

variable {a a' : Arena}

/-- Nodes below the same kinds, with trees that resemble each other. -/
structure Alike (n : Node a) (n' : Node a') : Prop where
  tree : n.tree.Resembles n'.tree
  above_eq : n'.above = n.above

theorem map_kind_parent? (n : Node a) : n.parent?.map kind = n.above.head? := by
  cases hp : n.parent? with
  | none => rw [above, ancestors_of_root hp]; rfl
  | some p => rw [above, ancestors_of_parent? hp]; rfl

namespace Alike

variable {n : Node a} {n' : Node a'} (hn : n.Alike n')
include hn

theorem kind_eq : n'.kind = n.kind :=
  hn.tree.kind_eq

theorem is_eq (k : Kind) : n'.is k = n.is k :=
  hn.tree.is_eq k

theorem parentKind_eq : n'.parent?.map kind = n.parent?.map kind := by
  rw [map_kind_parent?, map_kind_parent?, hn.above_eq]

theorem isTest_eq : n'.isTest = n.isTest := by
  rw [isTest, isTest, hn.is_eq, Harvester.hasTestAnnotation_eq hn.tree]

theorem packagePathAfter_eq (path : String) :
    n'.packagePathAfter path = n.packagePathAfter path := by
  rw [packagePathAfter, packagePathAfter, hn.is_eq, Harvester.packageName?_eq hn.tree]

theorem read_eq (s : MethodScope) (b p : String) : s.read b p n' = s.read b p n := by
  rw [MethodScope.read, MethodScope.read, hn.kind_eq, hn.parentKind_eq, hn.above_eq]
  rw [MethodScope.declare, MethodScope.declare, MethodScope.call, MethodScope.call,
    Declaration.classify_eq _ hn.tree, CallSite.classify_eq _ _ hn.tree,
    CallSite.property_eq _ (hn.tree.findFirstChild? .argumentList)]

theorem skips_eq (s : MethodScope) (b p : String) : s.skips b p n' = s.skips b p n := by
  rw [MethodScope.skips, MethodScope.skips, hn.kind_eq, hn.parentKind_eq, hn.above_eq]
  rw [MethodScope.declarationSkips, MethodScope.declarationSkips, MethodScope.callSkips,
    MethodScope.callSkips, Declaration.classify_eq _ hn.tree, Declaration.declaredName?_eq hn.tree,
    CallSite.classify_eq _ _ hn.tree,
    CallSite.property_eq _ (hn.tree.findFirstChild? .argumentList), hn.tree.line_eq]

theorem children (hl : a.Linked) (hl' : a'.Linked) :
    List.Forall₂ Alike n.children n'.children := by
  have htrees := hn.tree.children
  rw [← map_tree_children, ← map_tree_children, List.forall₂_map_left_iff,
    List.forall₂_map_right_iff] at htrees
  refine forall₂_imp_of_mem htrees fun c hc c' hc' hcc' => ⟨hcc', ?_⟩
  rw [above_of_mem_children hl hc, above_of_mem_children hl' hc', hn.kind_eq, hn.above_eq]

end Alike

theorem forall₂_descendants (hl : a.Linked) (hl' : a'.Linked) {n : Node a} {n' : Node a'}
    (hn : n.Alike n') : List.Forall₂ Alike n.descendants n'.descendants := by
  induction n using induction_children generalizing n' with
  | step n ih =>
      rw [descendants_eq, descendants_eq, inside, inside, descend_eq_flatMap, descend_eq_flatMap]
      exact .cons hn (forall₂_flatMap (hn.children hl hl') fun c hc c' hcc' => ih c hc hcc')

end Node

/-! ## Walks -/

namespace Harvester

open Check Node

variable {a a' : Arena} {n : Node a} {n' : Node a'} {h : Harvester}

/-- The same harvester with the open method numbered `i`. -/
def renumbered (h : Harvester) (i : Nat) : Harvester :=
  { h with scope := h.scope.opened i }

/-- Which number the open method has makes no difference to a visit. -/
theorem take_renumbered (hn : n.Alike n') (ha : h.scope.isActive = true) (i : Nat) :
    (h.renumbered i).take n' = (h.take n).renumbered i := by
  have ha' : (h.renumbered i).scope.isActive = true := rfl
  rw [take_of_active ha', take_of_active ha, renumbered, renumbered]
  dsimp only
  rw [hn.packagePathAfter_eq, hn.read_eq, hn.skips_eq, MethodScope.read_opened,
    MethodScope.skips_opened]

theorem foldl_take_renumbered {ns : List (Node a)} {ns' : List (Node a')}
    (hns : List.Forall₂ Alike ns ns') (ha : h.scope.isActive = true) (i : Nat) :
    ns'.foldl take (h.renumbered i) = (ns.foldl take h).renumbered i := by
  induction hns generalizing h with
  | nil => rfl
  | @cons n n' ns ns' hn _ ih =>
      have hactive : (h.take n).scope.isActive = true := by
        obtain ⟨i, hi⟩ := Option.isSome_iff_exists.mp ha
        rw [MethodScope.isActive, active?_take hi n]
        rfl
      rw [List.foldl_cons, List.foldl_cons, take_renumbered hn ha, ih hactive]

/-- A test is walked to the same end, whatever its number. -/
theorem run_test_of_alike (hl : a.Linked) (hl' : a'.Linked) (hn : n.Alike n')
    (ht : n.isTest = true) (hs : h.scope = .empty) :
    ∃ h₁, check.run [.enter n] h = (.ok (), h₁) ∧ check.run [.enter n'] h = (.ok (), h₁) ∧
      h₁.scope = .empty := by
  have ht' : n'.isTest = true := hn.isTest_eq.trans ht
  have hidle : h.scope.isActive = false := by rw [hs]; rfl
  have hopen : h.take n = h.renumbered n.id := take_of_test hidle ht
  have hopen' : h.take n' = (h.take n).renumbered n'.id := by
    rw [take_of_test hidle ht', hopen]
    rfl
  have hactive : (h.take n).scope.isActive = true := by rw [hopen]; rfl
  have hinside : List.Forall₂ Alike n.inside n'.inside := by
    have hall := forall₂_descendants hl hl' hn
    rw [descendants_eq, descendants_eq] at hall
    exact (List.forall₂_cons.mp hall).2
  -- Whatever was read, the scope still has the number of its test and nothing else
  -- of it, so the two runs differ in that number alone until the method is left.
  obtain ⟨s, hscope⟩ :
      ∃ s : MethodScope, (n.inside.foldl take (h.take n)).scope = s.opened n.id := by
    refine ⟨(n.inside.foldl take (h.take n)).scope, ?_⟩
    have hi := active?_foldl_take (h := h.take n) (i := n.id) (by rw [hopen]; rfl) n.inside
    rw [MethodScope.opened, ← hi]
  have hfold : n'.inside.foldl take (h.take n') =
      (n.inside.foldl take (h.take n)).renumbered n'.id := by
    rw [hopen', foldl_take_renumbered hinside hactive]
  have hscope' : ((n.inside.foldl take (h.take n)).renumbered n'.id).scope = s.opened n'.id := by
    rw [renumbered, hscope]
    rfl
  have hm : n.is .methodDecl = true := is_iff.mpr (isTest_iff.mp ht).1
  have hm' : n'.is .methodDecl = true := is_iff.mpr (isTest_iff.mp ht').1
  refine ⟨leave n (n.inside.foldl take (h.take n)), run_enter_test ht hs, ?_, ?_⟩
  · rw [run_enter_test ht' hs, hfold, leave_opened hm' hscope', leave_opened hm hscope]
    rfl
  · rw [leave_opened hm hscope]

theorem run_forest_of_alike {cs : List (Node a)} {cs' : List (Node a')}
    (hcs : List.Forall₂ Alike cs cs')
    (each : ∀ c ∈ cs, ∀ c' : Node a', c.Alike c' → ∀ h : Harvester, h.scope = .empty →
      ∃ h₁, check.run [.enter c] h = (.ok (), h₁) ∧ check.run [.enter c'] h = (.ok (), h₁) ∧
        h₁.scope = .empty)
    (hs : h.scope = .empty) :
    ∃ h₁, check.run (cs.map .enter) h = (.ok (), h₁) ∧
      check.run (cs'.map .enter) h = (.ok (), h₁) ∧ h₁.scope = .empty := by
  induction hcs generalizing h with
  | nil => exact ⟨h, run_nil _ _, run_nil _ _, hs⟩
  | @cons c c' cs cs' hc _ ih =>
      obtain ⟨h₁, hrun, hrun', hs₁⟩ := each c List.mem_cons_self c' hc h hs
      obtain ⟨h₂, hrest, hrest', hs₂⟩ :=
        ih (fun x hx => each x (List.mem_cons_of_mem _ hx)) hs₁
      refine ⟨h₂, ?_, ?_, hs₂⟩
      · rw [run_enter_cons, hrun, andThen_ok, hrest]
      · rw [run_enter_cons, hrun', andThen_ok, hrest']

/-- Between two methods, nodes that are alike are walked to the same end. -/
theorem run_of_alike (hl : a.Linked) (hl' : a'.Linked) (hn : n.Alike n')
    (hs : h.scope = .empty) :
    ∃ h₁, check.run [.enter n] h = (.ok (), h₁) ∧ check.run [.enter n'] h = (.ok (), h₁) ∧
      h₁.scope = .empty := by
  induction n using induction_children generalizing n' h with
  | step n ih =>
      by_cases ht : n.isTest = true
      · exact run_test_of_alike hl hl' hn ht hs
      have ht : n.isTest = false := Bool.eq_false_iff.mpr ht
      have hidle : h.scope.isActive = false := by rw [hs]; rfl
      have htake : h.take n' = h.take n := by
        rw [take_of_idle hidle ht, take_of_idle hidle (hn.isTest_eq.trans ht),
          hn.packagePathAfter_eq]
      have hempty : (h.take n).scope = .empty := by rw [take_of_idle hidle ht, ← hs]
      obtain ⟨h₁, hrun, hrun', hs₁⟩ :=
        run_forest_of_alike (hn.children hl hl') (fun c hc c' hcc' h hs => ih c hc hcc' hs) hempty
      have hclosed : ∀ i, h₁.scope.active? ≠ some i := by
        intro i he
        rw [hs₁] at he
        cases he
      refine ⟨h₁, ?_, ?_, hs₁⟩
      · rw [run_enter_take, hrun, andThen_ok, leave_of_ne (hclosed n.id)]
      · rw [run_enter_take, htake, hrun', andThen_ok, leave_of_ne (hclosed n'.id)]

/-- A harvester does the same on any two arenas whose trees resemble each
other, however their nodes are numbered. -/
theorem harvest_eq_of_holds (h : Harvester) (ha : a.Holds t) (ha' : a'.Holds t')
    (ht : t.Resembles t') : h.harvest a' = h.harvest a := by
  obtain ⟨r, hr, rfl⟩ := ha.exists_root
  obtain ⟨r', hr', rfl⟩ := ha'.exists_root
  have hroot : r.Alike r' := by
    refine ⟨ht, ?_⟩
    rw [above, above, ha.wellFormed.ancestors_root hr, ha'.wellFormed.ancestors_root hr']
    rfl
  obtain ⟨h₁, hrun, hrun', -⟩ :=
    run_of_alike (h := h.startFile) ha.wellFormed.linked ha'.wellFormed.linked hroot rfl
  rw [harvest, harvest, Check.walk, Check.walk, hr, hr']
  exact hrun'.trans hrun.symm

/-- The order in which the nodes of a tree were added is not seen. -/
theorem harvest_eq_ofTree (h : Harvester) (ha : a.Holds t) : h.harvest a = h.harvest (.ofTree t) :=
  h.harvest_eq_of_holds (Arena.holds_ofTree t) ha (.refl t)

end Harvester

end PropertyHarvest
