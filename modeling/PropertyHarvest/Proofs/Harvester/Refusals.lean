/-
# What is reported of a node

A declaration is reported if it cannot be told whether it is a configuration, a
call if it sets a property of a module and its name or its value cannot be told
(`Refuses`).  Both are said of the tree: the module is the one that the handle
was last bound to, and the value is looked at with the file handles that were
declared by then.

A call that sets a property of a module comes to one of three ends.  The
property is added, the call is reported, or it is passed over because its name
or its value is missing or `null` (`exists_unique_end`).

The line and the reason of a report are told here up to what the value of the argument
is refused for.  How deep in the argument the reason lies is the matter of
`RefusedArguments`.
-/
import PropertyHarvest.Proofs.Harvester.Redeclaration

namespace PropertyHarvest

variable {a : Arena}

theorem Tree.kind_of_literal_eq_ok_none {s : Surroundings} {t : Tree}
    (h : t.literal s = .ok none) : t.kind = .nullLiteral := by
  revert h
  fun_cases literal s t with
  | case3 hk => exact fun _ => hk
  | case4 =>
      intro h
      obtain ⟨l, -, h⟩ := exists_ok_of_bind h
      obtain ⟨r, -, h⟩ := exists_ok_of_bind h
      cases h
  | case9 =>
      intro h
      obtain ⟨name?, -, h⟩ := exists_ok_of_bind h
      cases name? <;> cases h
  | _ => exact fun h => by cases h

/-! ## File handles and refusals -/

/-- Two lists that know the same files word every refusal alike. -/
theorem LiteralError.Agrees.eq_of_same_files {α : Type} {calls : Tree → Prop}
    {files files' : List String} {x x' : Except LiteralError α}
    (h : Agrees calls files files' x x') (hf : ∀ f, f ∈ files' ↔ f ∈ files) : x = x' := by
  cases h with
  | value v => rfl
  | refused alike =>
      cases alike with
      | same e => rfl
      | file _ _ known unknown => exact absurd ((hf _).mpr known) unknown
      | noFile _ _ unknown known => exact absurd ((hf _).mp known) unknown

theorem CallSite.property_congr_files (b p : String) {files files' : List String}
    (hf : ∀ f, f ∈ files' ↔ f ∈ files) (arguments? : Option Tree) :
    property ⟨b, p, files⟩ arguments? = property ⟨b, p, files'⟩ arguments? :=
  (property_agrees ⟨b, p, files⟩ files' arguments?).eq_of_same_files hf

namespace Node

def fileHandle? (n : Node a) : Option String :=
  if n.kind = .variableDecl then
    match Declaration.classify (n.parent?.map kind) n.tree with
    | .ok (.fileHandle handle) => some handle
    | _ => none
  else none

/-- The file handles that are made in `test` before `call`. -/
def filesBefore (test call : Node a) : List String :=
  (test.readBefore call).filterMap fileHandle?

end Node

namespace MethodScope

theorem mem_fileHandles_read (s : MethodScope) (b p : String) (n : Node a) (handle : String) :
    handle ∈ (s.read b p n).fileHandles ↔ handle ∈ s.fileHandles ∨ n.fileHandle? = some handle := by
  rw [read, Node.fileHandle?]
  split
  · rename_i hk
    rw [if_pos hk, declare]
    rcases Declaration.classify (n.parent?.map Node.kind) n.tree with reason | d
    · simp
    · cases d with
      | configuration h module => simp [bind]
      | fileHandle h =>
          show handle ∈ s.fileHandles.insert h ↔ _
          rw [List.mem_insert_iff, or_comm, Option.some.injEq, eq_comm]
      | ignored => simp
  · rename_i hk
    have hfiles : (s.call b p n.above n.tree).fileHandles = s.fileHandles := by
      rw [call]
      split
      · split <;> rfl
      · rfl
      · rfl
    rw [if_neg (by rw [hk]; exact Kind.noConfusion), hfiles]
    simp
  · rename_i hk _
    rw [if_neg hk]
    simp

theorem mem_fileHandles_readAll (b : String) (ns : List (Node a)) (handle : String) :
    handle ∈ (readAll b ns).fileHandles ↔ handle ∈ ns.filterMap Node.fileHandle? := by
  induction ns using List.reverseRecOn with
  | nil => rfl
  | append_singleton ns n ih =>
      rw [readAll_append_singleton, mem_fileHandles_read, ih, List.filterMap_append,
        List.mem_append, List.filterMap_cons]
      cases n.fileHandle? with
      | none => simp
      | some h => simp [eq_comm]

theorem toList_head?_skips (s : MethodScope) (b p : String) (n : Node a) :
    (s.skips b p n).head?.toList = s.skips b p n := by
  rw [skips]
  split
  · rw [declarationSkips]
    split <;> rfl
  · rw [callSkips]
    split
    · split <;> rfl
    · rfl
  · rfl

end MethodScope

namespace Node

/-! ## Refusals -/

/-- A call of the method that sets a property, through a handle. -/
structure Addresses (call : Node a) (handle : String) : Prop where
  kind_eq : call.kind = .methodCall
  callee : ∃ callee, call.tree.firstChild? = some callee ∧ callee.kind = .memberAccess ∧
    callee.calledName? = some Idiom.setPropertyMethod ∧ callee.receiverName? = some handle

/-- A call that sets a property of `module`: its handle was last bound to it. -/
def Configures (test call : Node a) (module : String) : Prop :=
  ∃ handle, call.Addresses handle ∧ test.moduleBefore? call handle = some module

/-- What the arguments of a call in `test` spell. -/
def spelled (b : String) (test call : Node a) : Except LiteralError (Option Property) :=
  CallSite.property ⟨b, call.packagePath, test.filesBefore call⟩
    (call.tree.findFirstChild? .argumentList)

/-- What is refused of a node in `test`. -/
inductive Refuses (b : String) (test n : Node a) : Diagnostic → Prop
  | binding {reason : LiteralError} (kind_eq : n.kind = .variableDecl)
      (refused : Declaration.classify (n.parent?.map kind) n.tree = .error reason) :
      Refuses b test n ⟨n.line, .binding ((Declaration.declaredName? n.tree).getD ""), reason⟩
  | property {module : String} {reason : LiteralError} (configures : test.Configures n module)
      (refused : test.spelled b n = .error reason) :
      Refuses b test n ⟨n.line, .property module, reason⟩

theorem moduleBefore?_eq (b : String) (test call : Node a) (handle : String) :
    test.moduleBefore? call handle =
      (MethodScope.readAll b (test.readBefore call)).moduleOf? handle := by
  rw [MethodScope.moduleOf?_readAll, moduleBefore?, readBefore_eq_filter]

theorem spelled_eq (b : String) (test call : Node a) :
    test.spelled b call =
      CallSite.property
        ⟨b, call.packagePath, (MethodScope.readAll b (test.readBefore call)).fileHandles⟩
        (call.tree.findFirstChild? .argumentList) :=
  CallSite.property_congr_files _ _ (MethodScope.mem_fileHandles_readAll b _) _

theorem Sets.addresses {b handle : String} {call : Node a} {p : Property}
    (h : call.Sets b handle p) : call.Addresses handle :=
  ⟨h.kind_eq, h.callee⟩

theorem Addresses.handle_eq {call : Node a} {handle handle' : String} (h : call.Addresses handle)
    (h' : call.Addresses handle') : handle = handle' := by
  obtain ⟨callee, hc, -, -, hr⟩ := h.callee
  obtain ⟨callee', hc', -, -, hr'⟩ := h'.callee
  cases hc.symm.trans hc'
  cases hr.symm.trans hr'
  rfl

theorem Configures.module_eq {test call : Node a} {module module' : String}
    (h : test.Configures call module) (h' : test.Configures call module') : module = module' := by
  obtain ⟨handle, ha, hm⟩ := h
  obtain ⟨handle', ha', hm'⟩ := h'
  cases ha.handle_eq ha'
  cases hm.symm.trans hm'
  rfl

/-- What the scope takes for a call that sets a property is one. -/
theorem configures_iff (b : String) {test call : Node a} {module : String} :
    test.Configures call module ↔
      call.kind = .methodCall ∧ ∃ handle,
        CallSite.classify (MethodScope.readAll b (test.readBefore call)).isBound call.above
          call.tree = .setProperty handle ∧
        (MethodScope.readAll b (test.readBefore call)).moduleOf? handle = some module := by
  constructor
  · rintro ⟨handle, ha, hm⟩
    rw [moduleBefore?_eq b] at hm
    refine ⟨ha.kind_eq, handle, CallSite.classify_eq_setProperty_iff.mpr ⟨ha.callee, ?_⟩, hm⟩
    rw [MethodScope.isBound, hm]
    rfl
  · rintro ⟨hk, handle, hc, hm⟩
    refine ⟨handle, ⟨hk, (CallSite.classify_eq_setProperty_iff.mp hc).1⟩, ?_⟩
    rw [moduleBefore?_eq b, hm]

/-- What the scope reports is what the tree refuses. -/
theorem mem_skips_iff (b : String) {test n : Node a} {d : Diagnostic} :
    d ∈ (MethodScope.readAll b (test.readBefore n)).skips b n.packagePath n ↔
      test.Refuses b n d := by
  constructor
  · intro h
    rw [MethodScope.skips] at h
    split at h
    · rename_i hk
      rw [MethodScope.declarationSkips] at h
      split at h
      · rename_i reason hc
        obtain rfl := List.mem_singleton.mp h
        exact .binding hk hc
      · cases h
    · rename_i hk
      rw [MethodScope.callSkips] at h
      split at h
      · rename_i handle hc
        split at h
        · rename_i module reason hm hq
          obtain rfl := List.mem_singleton.mp h
          rw [← spelled_eq] at hq
          exact .property ((configures_iff b).mpr ⟨hk, handle, hc, hm⟩) hq
        · cases h
      · cases h
    · cases h
  · rintro (⟨hk, hc⟩ | ⟨hconf, hq⟩)
    · rw [MethodScope.skips, hk]
      dsimp only
      rw [MethodScope.declarationSkips, hc]
      exact List.mem_singleton_self _
    · obtain ⟨hk, handle, hc, hm⟩ := (configures_iff b).mp hconf
      rw [spelled_eq] at hq
      rw [MethodScope.skips, hk]
      dsimp only
      rw [MethodScope.callSkips, hc]
      dsimp only
      rw [hm, hq]
      exact List.mem_singleton_self _

/-! ## Reports -/

/-- What is reported of a node: what the outermost test that it lies in refuses
of it. -/
def report? (b : String) (n : Node a) : Option Diagnostic :=
  (n.ancestors.find? isOutermostTest).bind fun test =>
    ((MethodScope.readAll b (test.readBefore n)).skips b n.packagePath n).head?

/-- A node lies in one outermost test at most. -/
theorem find?_isOutermostTest {test n : Node a} (habove : test ∈ n.ancestors)
    (ht : test.isOutermostTest = true) : n.ancestors.find? isOutermostTest = some test := by
  obtain ⟨test', hfound⟩ := Option.isSome_iff_exists.mp
    (List.find?_isSome.mpr ⟨test, habove, ht⟩)
  have habove' : test' ∈ n.ancestors := List.mem_of_find?_eq_some hfound
  have ht' : test'.isOutermostTest = true := List.find?_some hfound
  obtain ⟨htest, hnone⟩ := isOutermostTest_iff.mp ht
  obtain ⟨htest', hnone'⟩ := isOutermostTest_iff.mp ht'
  rw [List.any_eq_false] at hnone hnone'
  -- Of two nodes above `n` one is above the other, which then is not outermost.
  rcases ancestors_comparable habove habove' with rfl | h | h
  · exact hfound
  · exact absurd htest (hnone' test h)
  · exact absurd htest' (hnone test' h)

theorem report?_of_isOutermostTest (b : String) {test n : Node a} (habove : test ∈ n.ancestors)
    (ht : test.isOutermostTest = true) :
    (n.report? b).toList =
      (MethodScope.readAll b (test.readBefore n)).skips b n.packagePath n := by
  rw [report?, find?_isOutermostTest habove ht, Option.bind_some, MethodScope.toList_head?_skips]

theorem report?_eq_none (b : String) {n : Node a} (h : n.ancestors.any isTest = false) :
    n.report? b = none := by
  have hnone : n.ancestors.find? isOutermostTest = none := by
    rw [List.find?_eq_none]
    rw [List.any_eq_false] at h
    exact fun test habove ht => h test habove (isOutermostTest_iff.mp ht).1
  rw [report?, hnone, Option.bind_none]

/-- A node is reported for what the outermost test above it refuses. -/
theorem report?_eq_some_iff (b : String) {n : Node a} {d : Diagnostic} :
    n.report? b = some d ↔
      ∃ test ∈ n.ancestors, test.isOutermostTest = true ∧ test.Refuses b n d := by
  constructor
  · intro h
    obtain ⟨test, hfound, -⟩ := Option.bind_eq_some_iff.mp h
    have habove : test ∈ n.ancestors := List.mem_of_find?_eq_some hfound
    have ht : test.isOutermostTest = true := List.find?_some hfound
    refine ⟨test, habove, ht, (mem_skips_iff b).mp ?_⟩
    rw [← report?_of_isOutermostTest b habove ht]
    exact Option.mem_toList.mpr h
  · rintro ⟨test, habove, ht, hrefuses⟩
    have hmem := (mem_skips_iff b).mpr hrefuses
    rw [← report?_of_isOutermostTest b habove ht] at hmem
    exact Option.mem_toList.mp hmem

/-! ## The ends of a call -/

def IsAbsent (argument? : Option Tree) : Prop :=
  ∀ argument, argument? = some argument →
    ∃ content, argument.firstChild? = some content ∧ content.kind = .nullLiteral

/-- The name or the value is absent. -/
def LacksArgument (call : Node a) : Prop :=
  IsAbsent (Declaration.wrappedArguments (call.tree.findFirstChild? .argumentList))[0]? ∨
    IsAbsent (Declaration.wrappedArguments (call.tree.findFirstChild? .argumentList))[1]?

theorem isAbsent_of_argumentValue {s : Surroundings} {argument? : Option Tree}
    (h : CallSite.argumentValue s argument? = .ok none) : IsAbsent argument? := by
  rintro argument rfl
  change argument.literalContent s = .ok none at h
  rw [Tree.literalContent] at h
  split at h
  · rename_i content hc
    exact ⟨content, hc, Tree.kind_of_literal_eq_ok_none h⟩
  · cases h

theorem lacksArgument_of_spelled {b : String} {test call : Node a}
    (h : test.spelled b call = .ok none) : call.LacksArgument := by
  rw [spelled, CallSite.property] at h
  obtain ⟨name?, hname, h⟩ := exists_ok_of_bind h
  obtain ⟨value?, hvalue, h⟩ := exists_ok_of_bind h
  cases name? with
  | none => exact .inl (isAbsent_of_argumentValue hname)
  | some name =>
      cases value? with
      | none => exact .inr (isAbsent_of_argumentValue hvalue)
      | some value => cases h

/-- A call adds a property if its arguments spell one. -/
theorem contribution?_eq_some_iff_spelled (b : String) {test call : Node a} {module : String}
    {p : Property} :
    contribution? b test call = some (module, p) ↔
      test.Configures call module ∧ test.spelled b call = .ok (some p) := by
  rw [contribution?, MethodScope.added?_eq_some_iff]
  constructor
  · rintro ⟨handle, hsets, hm⟩
    rw [← moduleBefore?_eq] at hm
    exact ⟨⟨handle, hsets.addresses, hm⟩,
      (CallSite.property_eq_ok_iff b call.packagePath [] _).mp hsets.value⟩
  · rintro ⟨⟨handle, haddresses, hm⟩, hvalue⟩
    rw [moduleBefore?_eq b] at hm
    exact ⟨handle, ⟨haddresses.kind_eq, haddresses.callee,
      (CallSite.property_eq_ok_iff b call.packagePath _ []).mp hvalue⟩, hm⟩

theorem contribution?_eq_none (b : String) {test call : Node a}
    (h : ∀ p, test.spelled b call ≠ .ok (some p)) : contribution? b test call = none := by
  refine Option.eq_none_iff_forall_not_mem.mpr ?_
  rintro ⟨module, p⟩ hcontributes
  exact h p ((contribution?_eq_some_iff_spelled b).mp hcontributes).2

/-- A call is reported if its arguments are refused. -/
theorem report?_call (b : String) {test call : Node a} (habove : test ∈ call.ancestors)
    (ht : test.isOutermostTest = true) {module : String} (hc : test.Configures call module)
    {d : Diagnostic} :
    call.report? b = some d ↔
      ∃ reason, test.spelled b call = .error reason ∧
        d = ⟨call.line, .property module, reason⟩ := by
  rw [report?_eq_some_iff]
  constructor
  · rintro ⟨test', habove', ht', hrefuses⟩
    cases (find?_isOutermostTest habove ht).symm.trans (find?_isOutermostTest habove' ht')
    cases hrefuses with
    | binding hk _ =>
        obtain ⟨handle, haddresses, -⟩ := hc
        cases hk.symm.trans haddresses.kind_eq
    | property hc' hreason =>
        cases hc.module_eq hc'
        exact ⟨_, hreason, rfl⟩
  · rintro ⟨reason, hreason, rfl⟩
    exact ⟨test, habove, ht, .property hc hreason⟩

theorem report?_call_eq_none (b : String) {test call : Node a} (habove : test ∈ call.ancestors)
    (ht : test.isOutermostTest = true) {module : String} (hc : test.Configures call module)
    (h : ∀ reason, test.spelled b call ≠ .error reason) : call.report? b = none := by
  refine Option.eq_none_iff_forall_not_mem.mpr fun d hd => ?_
  obtain ⟨reason, hreason, -⟩ := (report?_call b habove ht hc).mp hd
  exact h reason hreason

/-- What becomes of a call that sets a property of a module. -/
inductive Fate where
  | added (p : Property)
  | reported (reason : LiteralError)
  | passedOver
  deriving DecidableEq, Repr

/-- What each fate leaves behind, and what it does not. -/
inductive EndsIn (b : String) (test call : Node a) (module : String) : Fate → Prop
  | added {p : Property} (contributes : contribution? b test call = some (module, p))
      (kept : p ∈ (test.testScope b).properties.propertiesOf module)
      (silent : call.report? b = none) : EndsIn b test call module (.added p)
  | reported {reason : LiteralError} (idle : contribution? b test call = none)
      (told : call.report? b = some ⟨call.line, .property module, reason⟩) :
      EndsIn b test call module (.reported reason)
  | passedOver (idle : contribution? b test call = none) (silent : call.report? b = none)
      (lacks : call.LacksArgument) : EndsIn b test call module .passedOver

theorem EndsIn.fate_eq {b : String} {test call : Node a} {module : String} {fate fate' : Fate}
    (h : EndsIn b test call module fate) (h' : EndsIn b test call module fate') : fate = fate' := by
  cases h with
  | added hc _ hs =>
      cases h' with
      | added hc' => cases hc.symm.trans hc'; rfl
      | reported hi => cases hc.symm.trans hi
      | passedOver hi => cases hc.symm.trans hi
  | reported hi ht =>
      cases h' with
      | added hc' => cases hc'.symm.trans hi
      | reported _ ht' => cases ht.symm.trans ht'; rfl
      | passedOver _ hs' => cases ht.symm.trans hs'
  | passedOver hi hs =>
      cases h' with
      | added hc' => cases hc'.symm.trans hi
      | reported _ ht' => cases ht'.symm.trans hs
      | passedOver => rfl

theorem exists_end (hl : a.Linked) {test : Node a} (hp : test ∈ a.preorder)
    (ht : test.isOutermostTest = true) (b : String) {call : Node a}
    (habove : test ∈ call.ancestors) {module : String} (hc : test.Configures call module) :
    ∃ fate, EndsIn b test call module fate := by
  rcases hs : test.spelled b call with reason | p?
  · have hidle : contribution? b test call = none := by
      refine contribution?_eq_none b fun p h => ?_
      cases hs.symm.trans h
    exact ⟨.reported reason, .reported hidle ((report?_call b habove ht hc).mpr ⟨reason, hs, rfl⟩)⟩
  · have hsilent : call.report? b = none := by
      refine report?_call_eq_none b habove ht hc fun reason h => ?_
      cases hs.symm.trans h
    cases p? with
    | none =>
        have hidle : contribution? b test call = none := by
          refine contribution?_eq_none b fun p h => ?_
          cases hs.symm.trans h
        exact ⟨.passedOver, .passedOver hidle hsilent (lacksArgument_of_spelled hs)⟩
    | some p =>
        have hcontributes := (contribution?_eq_some_iff_spelled b).mpr ⟨hc, hs⟩
        obtain ⟨handle, hsets, -⟩ := (contribution?_eq_some_iff b test call).mp hcontributes
        obtain ⟨handle', haddresses, hm⟩ := hc
        cases haddresses.handle_eq hsets.addresses
        have hkept : p ∈ (test.testScope b).properties.propertiesOf module :=
          (mem_propertiesOf_testScope hl hp b).mpr ⟨call, handle, habove, hsets, hm⟩
        exact ⟨.added p, .added hcontributes hkept hsilent⟩

/-- Every call that sets a property of a module comes to one of the three
ends. -/
theorem exists_unique_end (hl : a.Linked) {test : Node a} (hp : test ∈ a.preorder)
    (ht : test.isOutermostTest = true) (b : String) {call : Node a}
    (habove : test ∈ call.ancestors) {module : String} (hc : test.Configures call module) :
    ∃! fate, EndsIn b test call module fate := by
  obtain ⟨fate, hends⟩ := exists_end hl hp ht b habove hc
  exact ⟨fate, hends, fun _ h => h.fate_eq hends⟩

end Node

end PropertyHarvest
