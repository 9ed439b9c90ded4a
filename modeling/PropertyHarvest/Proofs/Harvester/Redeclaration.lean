/-
# Handles that are declared again

A test may declare one handle several times, in one block after the other.  The
scope keeps one flat list of bindings for the whole test, and only a declaration
that is a configuration changes it.  So a later declaration that binds nothing,
for want of a known type, of an initializer, of a known factory or of a module,
does not end the binding of an earlier one, and what is set on the new handle
goes to the module of the old.

The contribution of a call says where this happens: the module is that of the
last declaration *that binds*, however many declarations stand between
(`contribution?_eq_some_iff`).  It is that of the last declaration if every
declaration of the handle binds (`last_declaration_binds`), and
`redeclared_keeps_module` is a test where it is not.

Binding is all that a declaration can do to a handle, so nothing is lost by looking at
declarations that bind.  The handle of a file is another matter.  It is never taken
back, and a declaration may make a file handle of a name that is bound.
-/
import PropertyHarvest.Proofs.Harvester.Exactness

namespace PropertyHarvest

variable {a : Arena}

namespace Declaration

theorem of_classify_eq_configuration {parent? : Option Kind} {t : Tree} {handle module : String}
    (h : classify parent? t = .ok (.configuration handle module)) :
    isLocal parent? = true ∧ declaredName? t = some handle := by
  rw [classify] at h
  split at h
  · rename_i hlocal
    split at h
    · rename_i type name _ hname
      split at h
      · split at h
        · rename_i factory call arguments? _
          cases hm : moduleOf factory call arguments? with
          | error e =>
              rw [hm] at h
              cases h
          | ok m =>
              rw [hm] at h
              cases h
              exact ⟨hlocal, hname⟩
        · cases h
      · split at h <;> cases h
    · cases h
  · cases h

end Declaration

namespace MethodScope

/-! ## What one node adds -/

/-- The property that a call sets in the scope, with its module. -/
def addedBy? (s : MethodScope) (b path : String) (call : Node a) :
    Option (String × Property) :=
  match CallSite.classify s.isBound call.above call.tree with
  | .setProperty handle =>
    match s.moduleOf? handle, CallSite.property ⟨b, path, s.fileHandles⟩
        (call.tree.findFirstChild? .argumentList) with
    | some module, .ok (some p) => some (module, p)
    | _, _ => none
  | _ => none

/-- The property that reading a node adds to the scope, with its module. -/
def added? (s : MethodScope) (b path : String) (n : Node a) : Option (String × Property) :=
  if n.kind = .methodCall then s.addedBy? b path n else none

def withAdded (ms : Modules) (added? : Option (String × Property)) : Modules :=
  added?.elim ms fun added => ms.insert added.1 added.2

theorem properties_call (s : MethodScope) (b path : String) (n : Node a) :
    (s.call b path n.above n.tree).properties = withAdded s.properties (s.addedBy? b path n) := by
  rw [call, addedBy?]
  cases CallSite.classify s.isBound n.above n.tree with
  | setProperty handle =>
      dsimp only
      cases s.moduleOf? handle with
      | none => rfl
      | some module =>
          rcases CallSite.property _ _ with e | p?
          · rfl
          · cases p? <;> rfl
  | verification => rfl
  | other => rfl

theorem properties_read (s : MethodScope) (b path : String) (n : Node a) :
    (s.read b path n).properties = withAdded s.properties (s.added? b path n) := by
  rw [read, added?]
  split
  · rename_i hk
    rw [if_neg (by rw [hk]; exact Kind.noConfusion), properties_declare]
    rfl
  · rename_i hk
    rw [if_pos hk, properties_call]
  · rename_i hk
    rw [if_neg hk]
    rfl

/-- A node adds a property if and only if it is a call that sets it on a handle
that is bound when the call is read. -/
theorem added?_eq_some_iff (s : MethodScope) (b : String) (n : Node a) {module : String}
    {p : Property} :
    s.added? b n.packagePath n = some (module, p) ↔
      ∃ handle, n.Sets b handle p ∧ s.moduleOf? handle = some module := by
  constructor
  · intro h
    rw [added?] at h
    split at h
    · rename_i hk
      rw [addedBy?] at h
      split at h
      · rename_i handle hc
        split at h
        · rename_i m q hm hq
          cases h
          refine ⟨handle, ⟨hk, (CallSite.classify_eq_setProperty_iff.mp hc).1, ?_⟩, hm⟩
          exact (CallSite.property_eq_ok_iff b n.packagePath s.fileHandles []).mp hq
        · cases h
      · cases h
    · cases h
  · rintro ⟨handle, hsets, hm⟩
    have hbound : s.isBound handle = true := by rw [isBound, hm]; rfl
    have hc : CallSite.classify s.isBound n.above n.tree = .setProperty handle :=
      CallSite.classify_eq_setProperty_iff.mpr ⟨hsets.callee, hbound⟩
    have hq := (CallSite.property_eq_ok_iff b n.packagePath [] s.fileHandles).mp hsets.value
    rw [added?, if_pos hsets.kind_eq, addedBy?, hc]
    dsimp only
    rw [hm, hq]

end MethodScope

namespace Node

/-! ## Declarations of a handle -/

/-- A local declaration of the handle, whatever it makes of it. -/
def declares (handle : String) (d : Node a) : Bool :=
  d.is .variableDecl && Declaration.isLocal (d.parent?.map kind) &&
    Declaration.declaredName? d.tree == some handle

def readBefore (test call : Node a) : List (Node a) :=
  call.before.filter fun d => d.ancestors.contains test

/-- The local declarations of a handle in `test` that are read before `call`. -/
def declarationsBefore (test call : Node a) (handle : String) : List (Node a) :=
  (test.readBefore call).filter (declares handle)

theorem readBefore_eq_filter (test call : Node a) :
    test.readBefore call = call.before.filter fun d => test ∈ d.ancestors := by
  refine List.filter_congr fun d _ => ?_
  rw [Bool.eq_iff_iff, List.contains_iff_mem, decide_eq_true_eq]

theorem readBefore_eq (hl : a.Linked) {test : Node a} (ht : test ∈ a.preorder) {call : Node a}
    {us vs : List (Node a)} (he : test.inside = us ++ call :: vs) : test.readBefore call = us := by
  rw [readBefore_eq_filter, filter_before_eq hl ht he]

theorem declares_of_bindingOf? {handle module : String} {d : Node a}
    (h : d.bindingOf? handle = some module) : d.declares handle = true := by
  rw [bindingOf?] at h
  split at h
  · rename_i hk
    split at h
    · rename_i name m hc
      split at h
      · rename_i hname
        subst hname
        obtain ⟨hlocal, hdeclared⟩ := Declaration.of_classify_eq_configuration hc
        rw [declares, is_iff.mpr hk, hlocal, hdeclared, beq_self_eq_true]
        rfl
      · cases h
    · cases h
  · cases h

/-- The four ways for a declaration not to bind: no known type, no initializer or
no known factory in it, and no module in the arguments of the factory. -/
theorem bindingOf?_eq_none_iff {handle : String} {d : Node a} (h : d.declares handle = true) :
    d.bindingOf? handle = none ↔
      (∀ type, Declaration.typeName? d.tree = some type → type ∉ Idiom.configurationTypes) ∨
        Declaration.factoryCall? d.tree = none ∨
        ∃ factory call arguments? reason,
          Declaration.factoryCall? d.tree = some (factory, call, arguments?) ∧
            Declaration.moduleOf factory call arguments? = .error reason := by
  rw [declares, Bool.and_eq_true, Bool.and_eq_true, beq_iff_eq, is_iff] at h
  obtain ⟨⟨hk, hlocal⟩, hname⟩ := h
  rw [bindingOf?, if_pos hk, Declaration.classify, if_pos hlocal, hname]
  cases ht : Declaration.typeName? d.tree with
  | none => exact ⟨fun _ => .inl fun type he => (by cases he), fun _ => rfl⟩
  | some type =>
      dsimp only
      by_cases hc : Idiom.isConfigurationType type = true
      · rw [if_pos hc]
        cases hf : Declaration.factoryCall? d.tree with
        | none => exact ⟨fun _ => .inr (.inl rfl), fun _ => rfl⟩
        | some made =>
            obtain ⟨factory, call, arguments?⟩ := made
            dsimp only
            cases hm : Declaration.moduleOf factory call arguments? with
            | error reason =>
                exact ⟨fun _ => .inr (.inr ⟨factory, call, arguments?, reason, rfl, hm⟩),
                  fun _ => rfl⟩
            | ok module =>
                have hbinds : (if handle = handle then some module else none) ≠ none := by
                  rw [if_pos rfl]
                  exact Option.some_ne_none module
                refine ⟨fun hnone => absurd hnone hbinds, ?_⟩
                rintro (htype | hnone | ⟨_, _, _, reason, he, herror⟩)
                · exact absurd (List.contains_iff_mem.mp hc) (htype type rfl)
                · cases hnone
                · cases he
                  cases hm.symm.trans herror
      · rw [if_neg hc]
        have hignored : type ∉ Idiom.configurationTypes := fun hmem =>
          hc (List.contains_iff_mem.mpr hmem)
        refine ⟨fun _ => .inl fun type' he => ?_, fun _ => ?_⟩
        · cases he
          exact hignored
        · cases Idiom.isFileHandleType type && Declaration.isFinal d.tree <;> rfl

theorem filterMap_bindingOf?_filter_declares (handle : String) (ns : List (Node a)) :
    (ns.filter (declares handle)).filterMap (bindingOf? handle) =
      ns.filterMap (bindingOf? handle) := by
  induction ns with
  | nil => rfl
  | cons n ns ih =>
      cases hn : n.bindingOf? handle with
      | some module =>
          rw [List.filter_cons_of_pos (declares_of_bindingOf? hn), List.filterMap_cons_some hn,
            List.filterMap_cons_some hn, ih]
      | none =>
          rw [List.filterMap_cons_none hn, ← ih]
          by_cases hd : n.declares handle = true
          · rw [List.filter_cons_of_pos hd, List.filterMap_cons_none hn]
          · rw [List.filter_cons_of_neg hd]

theorem getLast?_filterMap_eq_some_iff {handle module : String} {ds : List (Node a)} :
    (ds.filterMap (bindingOf? handle)).getLast? = some module ↔
      ∃ us d vs, ds = us ++ d :: vs ∧ d.bindingOf? handle = some module ∧
        ∀ e ∈ vs, e.bindingOf? handle = none := by
  rw [List.getLast?_filterMap, List.findSome?_eq_some_iff]
  constructor
  · rintro ⟨vs, d, us, he, hd, hvs⟩
    refine ⟨us.reverse, d, vs.reverse, ?_, hd, fun e hmem => hvs e (List.mem_reverse.mp hmem)⟩
    rw [← List.reverse_reverse ds, he]
    simp only [List.reverse_append, List.reverse_cons, List.append_assoc, List.singleton_append]
  · rintro ⟨us, d, vs, rfl, hd, hvs⟩
    refine ⟨vs.reverse, d, us.reverse, ?_, hd, fun e hmem => hvs e (List.mem_reverse.mp hmem)⟩
    simp only [List.reverse_append, List.reverse_cons, List.append_assoc, List.singleton_append]

/-! ## Contributions -/

/-- The property that a call below `test` sets while the test is read, with its
module. -/
def contribution? (b : String) (test call : Node a) : Option (String × Property) :=
  (MethodScope.readAll b (test.readBefore call)).added? b call.packagePath call

theorem properties_testScope (hl : a.Linked) {test : Node a} (ht : test ∈ a.preorder)
    (b : String) :
    (test.testScope b).properties =
      (test.inside.map (contribution? b test)).foldl MethodScope.withAdded [] := by
  have prefixes (us vs : List (Node a)) (he : test.inside = us ++ vs) :
      (MethodScope.readAll b us).properties =
        (us.map (contribution? b test)).foldl MethodScope.withAdded [] := by
    induction us using List.reverseRecOn generalizing vs with
    | nil => rfl
    | append_singleton us n ih =>
        have he' : test.inside = us ++ n :: vs := by rw [he, List.append_assoc]; rfl
        have hn : contribution? b test n = (MethodScope.readAll b us).added? b n.packagePath n := by
          rw [contribution?, readBefore_eq hl ht he']
        rw [MethodScope.readAll_append_singleton, MethodScope.properties_read, ih _ he',
          List.map_append, List.foldl_append, List.map_singleton, hn]
        rfl
  exact prefixes test.inside [] (List.append_nil _).symm

/-- A call contributes to the module of the last declaration of its handle that
binds, past all declarations behind that one. -/
theorem contribution?_eq_some_iff (b : String) (test call : Node a) {module : String}
    {p : Property} :
    contribution? b test call = some (module, p) ↔
      ∃ handle, call.Sets b handle p ∧
        ∃ us d vs, declarationsBefore test call handle = us ++ d :: vs ∧
          d.bindingOf? handle = some module ∧ ∀ e ∈ vs, e.bindingOf? handle = none := by
  rw [contribution?, MethodScope.added?_eq_some_iff]
  refine exists_congr fun handle => and_congr_right fun _ => ?_
  rw [MethodScope.moduleOf?_readAll, ← filterMap_bindingOf?_filter_declares,
    getLast?_filterMap_eq_some_iff, declarationsBefore]

theorem Sets.receiver_eq {b handle : String} {call : Node a} {p : Property}
    (h : call.Sets b handle p) : call.tree.firstChild?.bind Tree.receiverName? = some handle := by
  obtain ⟨callee, hc, -, -, hr⟩ := h.callee
  rw [hc]
  exact hr

/-- Where every declaration of a handle binds it, a call contributes to the
module of the last one. -/
theorem last_declaration_binds {b : String} {test call : Node a} {handle module : String}
    {p : Property} (hs : call.Sets b handle p)
    (hall : ∀ d ∈ declarationsBefore test call handle, d.bindingOf? handle ≠ none)
    (hc : contribution? b test call = some (module, p)) :
    ∃ d, (declarationsBefore test call handle).getLast? = some d ∧
      d.bindingOf? handle = some module := by
  obtain ⟨handle', hs', us, d, vs, hdecl, hd, hvs⟩ := (contribution?_eq_some_iff b test call).mp hc
  cases hs'.receiver_eq.symm.trans hs.receiver_eq
  have hlast : vs = [] := by
    refine List.eq_nil_iff_forall_not_mem.mpr fun e he => hall e ?_ (hvs e he)
    rw [hdecl]
    exact List.mem_append.mpr (.inr (List.mem_cons_of_mem _ he))
  refine ⟨d, ?_, hd⟩
  rw [hdecl, hlast, List.getLast?_concat]

/-- What a test has is what its calls contribute, and a call contributes to the
module that its handle was last bound to, whether or not that was the last
declaration of the handle. -/
theorem contributions_of_test (ha : a.WellFormed) {test : Node a} (ht : test ∈ a.preorder)
    (b : String) :
    (test.testScope b).properties =
        (test.inside.map (contribution? b test)).foldl MethodScope.withAdded [] ∧
      ∀ call module p, contribution? b test call = some (module, p) ↔
        ∃ handle, call.Sets b handle p ∧
          ∃ us d vs, declarationsBefore test call handle = us ++ d :: vs ∧
            d.bindingOf? handle = some module ∧ ∀ e ∈ vs, e.bindingOf? handle = none := by
  constructor
  · exact properties_testScope ha.linked ht b
  · intro call module p
    exact contribution?_eq_some_iff b test call

/-! ## Two blocks with one handle -/

open PropertyHarvest.Tree in
/-- `DefaultConfiguration config = factory(arguments);` -/
def configDeclaration (line : Nat) (factory : String) (arguments : List Tree) : Tree :=
  interior .variableDecl line [
    interior .modifiers line [],
    interior .typeRef line [token .identifier "DefaultConfiguration" line],
    token .identifier "config" line,
    interior .expression line [interior .methodCall line [
      token .identifier factory line, interior .argumentList line arguments]]]

open PropertyHarvest.Tree in
/-- The handle of the second block comes from a factory that is not known. -/
def redeclared : Tree :=
  interior .compilationUnit 1 [
    interior .methodDecl 2 [
      interior .modifiers 2 [interior .annotationUse 2 [token .identifier "Test" 2]],
      interior .block 3 [
        interior .block 4 [
          configDeclaration 5 "createModuleConfig" [interior .expression 5 [
            interior .memberAccess 5 [
              token .identifier "FooCheck" 5, token .classLiteral "class" 5]]],
          interior .expression 6 [interior .methodCall 6 [
            token .identifier "verify" 6, interior .argumentList 6 []]]],
        interior .block 7 [
          configDeclaration 8 "otherConfig" [],
          interior .expression 9 [interior .methodCall 9 [
            interior .memberAccess 9 [
              token .identifier "config" 9, token .identifier "addAttribute" 9],
            interior .argumentList 9 [
              interior .expression 9 [token .stringLiteral "\"max\"" 9],
              interior .expression 9 [token .stringLiteral "\"3\"" 9]]]]]]]]

/-- The call is in `test` and contributes to a module that the last declaration
of its handle does not bind. -/
def contributesPast (b : String) (test call : Node a) (handle module : String) (p : Property) :
    Bool :=
  call.ancestors.contains test &&
    call.tree.firstChild?.bind Tree.receiverName? == some handle &&
    (declarationsBefore test call handle).getLast?.any (fun d => d.bindingOf? handle == none) &&
    contribution? b test call == some (module, p)

theorem exists_contributesPast_redeclared :
    ∃ test call : Node (.ofTree redeclared), test ∈ (Arena.ofTree redeclared).preorder ∧
      test.isOutermostTest = true ∧
      contributesPast "" test call "config" "FooCheck" ⟨"max", "3"⟩ = true := by
  have hread : ((Arena.ofTree redeclared).preorder.any fun test => test.isOutermostTest &&
      (Arena.ofTree redeclared).preorder.any fun call =>
        contributesPast "" test call "config" "FooCheck" ⟨"max", "3"⟩) = true := by
    decide +kernel
  obtain ⟨test, htest, h⟩ := List.any_eq_true.mp hread
  rw [Bool.and_eq_true] at h
  obtain ⟨call, -, hcall⟩ := List.any_eq_true.mp h.2
  exact ⟨test, call, htest, h.1, hcall⟩

theorem contributions_of_test_redeclared :
    ∃ test call : Node (.ofTree redeclared), test.isOutermostTest = true ∧
      contribution? "" test call = some ("FooCheck", ⟨"max", "3"⟩) ∧
      ∃ handle, call.Sets "" handle ⟨"max", "3"⟩ ∧
        ∃ us d vs, declarationsBefore test call handle = us ++ d :: vs ∧
          d.bindingOf? handle = some "FooCheck" ∧ ∀ e ∈ vs, e.bindingOf? handle = none := by
  obtain ⟨test, call, htest, hout, h⟩ := exists_contributesPast_redeclared
  simp only [contributesPast, Bool.and_eq_true, beq_iff_eq] at h
  have hcontributes := contributions_of_test (Arena.wellFormed_ofTree redeclared) htest ""
  exact ⟨test, call, hout, h.2, (hcontributes.2 call "FooCheck" ⟨"max", "3"⟩).mp h.2⟩

/-- The last declaration before the call is no configuration, and the call sets a
property of the module of the first. -/
theorem redeclared_keeps_module :
    ∃ test call last : Node (.ofTree redeclared), test.isOutermostTest = true ∧
      test ∈ call.ancestors ∧ call.Sets "" "config" ⟨"max", "3"⟩ ∧
      (declarationsBefore test call "config").getLast? = some last ∧
      last.bindingOf? "config" = none ∧
      contribution? "" test call = some ("FooCheck", ⟨"max", "3"⟩) ∧
      Harvester.run "" [.ofTree redeclared] = [("FooCheck", [⟨"max", "3"⟩])] := by
  have hrun : Harvester.run "" [.ofTree redeclared] = [("FooCheck", [⟨"max", "3"⟩])] := by
    decide +kernel
  obtain ⟨test, call, -, hout, h⟩ := exists_contributesPast_redeclared
  simp only [contributesPast, Bool.and_eq_true, beq_iff_eq, List.contains_iff_mem,
    Option.any_eq_true] at h
  obtain ⟨⟨⟨habove, hreceiver⟩, last, hlast, hnone⟩, hc⟩ := h
  obtain ⟨handle, hsets, -⟩ := (contribution?_eq_some_iff "" test call).mp hc
  cases hreceiver.symm.trans hsets.receiver_eq
  exact ⟨test, call, last, hout, habove, hsets, hlast, hnone, hc, hrun⟩

end Node

end PropertyHarvest
