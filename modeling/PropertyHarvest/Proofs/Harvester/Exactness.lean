/-
# What a run finds, said of the trees

The scope of a test changes with every node that is read.  Here each part of it
is said of the nodes read so far: a verification was met if one of the nodes is
one, a handle is bound to what the last of its declarations names, and a
property was set if a call set it on a handle that was bound by then.  So a run
finds a property if and only if the trees spell it, and how the harvester comes
by it no longer matters.

The right side of the equivalence does not mention a scope, an order of events or a
state.  It has the package in force at the call, the last binding before it, and a
call that verifies anywhere below the same test, also before the property was set.
It is an equivalence for every base path and every list of finished trees; the order
in which properties are found is not in it (`Proofs.Harvester.Sharding`).
-/
import Mathlib.Data.List.Induction
import PropertyHarvest.Proofs.CallSite.Roles
import PropertyHarvest.Proofs.Harvester.Sharding
import PropertyHarvest.Proofs.Literal.Handles
import PropertyHarvest.Proofs.MethodScope.History

namespace PropertyHarvest

namespace Node

variable {a : Arena}

/-! ## What single nodes spell -/

/-- The module that a declaration binds a handle to. -/
def bindingOf? (handle : String) (n : Node a) : Option String :=
  if n.kind = .variableDecl then
    match Declaration.classify (n.parent?.map kind) n.tree with
    | .ok (.configuration h module) => if h = handle then some module else none
    | _ => none
  else none

/-- The module that the last declaration below `test` and before `call` binds a
handle to. -/
def moduleBefore? (test call : Node a) (handle : String) : Option String :=
  ((call.before.filter fun d => test ∈ d.ancestors).filterMap (bindingOf? handle)).getLast?

/-- A call that sets a property on a handle, whatever the handle is. -/
structure Sets (basePath : String) (call : Node a) (handle : String) (p : Property) : Prop where
  kind_eq : call.kind = .methodCall
  callee : ∃ callee, call.tree.firstChild? = some callee ∧ callee.kind = .memberAccess ∧
    callee.calledName? = some Idiom.setPropertyMethod ∧ callee.receiverName? = some handle
  value : CallSite.property ⟨basePath, call.packagePath, []⟩
    (call.tree.findFirstChild? .argumentList) = .ok (some p)

/-- A call that verifies: undotted, on its own, and outside every `try`. -/
structure Verifies (call : Node a) : Prop where
  kind_eq : call.kind = .methodCall
  callee : ∃ callee name, call.tree.firstChild? = some callee ∧ callee.kind = .identifier ∧
    callee.text? = some name ∧ name ∈ Idiom.verifyMethods
  alone : CallSite.StandsAlone call.above

end Node

/-! ## One step of the reading -/

namespace MethodScope

variable {a : Arena}

theorem moduleOf?_call (s : MethodScope) (b p : String) (above : List Kind) (t : Tree)
    (handle : String) : (s.call b p above t).moduleOf? handle = s.moduleOf? handle := by
  rw [call]
  split
  · split <;> rfl
  · rfl
  · rfl

theorem moduleOf?_read (s : MethodScope) (b p : String) (n : Node a) (handle : String) :
    (s.read b p n).moduleOf? handle = (n.bindingOf? handle).or (s.moduleOf? handle) := by
  rw [read, Node.bindingOf?]
  split
  · rename_i hk
    rw [if_pos hk]
    rw [declare]
    rcases Declaration.classify (n.parent?.map Node.kind) n.tree with reason | d
    · rfl
    · cases d with
      | configuration h module =>
          dsimp only
          rw [moduleOf?_bind]
          split <;> rfl
      | fileHandle h => rfl
      | ignored => rfl
  · rename_i hk
    rw [if_neg (by rw [hk]; exact Kind.noConfusion)]
    exact moduleOf?_call s b p _ _ handle
  · rename_i hk _
    rw [if_neg hk]
    rfl

theorem verified_declare (s : MethodScope) (parent? : Option Kind) (t : Tree) :
    (s.declare parent? t).verified = s.verified := by
  rw [declare]
  split <;> rfl

theorem verified_read (s : MethodScope) (b p : String) (n : Node a) :
    (s.read b p n).verified = true ↔ s.verified = true ∨ n.Verifies := by
  rw [read]
  split
  · rename_i hk
    rw [verified_declare]
    refine ⟨.inl, ?_⟩
    rintro (h | h)
    · exact h
    · cases hk.symm.trans h.kind_eq
  · rename_i hk
    have hv : n.Verifies ↔ CallSite.classify s.isBound n.above n.tree = .verification := by
      rw [CallSite.classify_eq_verification_iff]
      exact ⟨fun h => ⟨h.callee, h.alone⟩, fun h => ⟨hk, h.1, h.2⟩⟩
    rw [hv]
    rw [call]
    split
    · rename_i handle hc
      rw [hc]
      split <;> simp [addProperty]
    · rename_i hc
      rw [hc]
      simp [markVerified]
    · rename_i hc
      rw [hc]
      simp
  · rename_i hk
    refine ⟨.inl, ?_⟩
    rintro (h | h)
    · exact h
    · exact absurd h.kind_eq hk

theorem properties_declare (s : MethodScope) (parent? : Option Kind) (t : Tree) :
    (s.declare parent? t).properties = s.properties := by
  rw [declare]
  split <;> rfl

theorem mem_propertiesOf_call (s : MethodScope) (b path : String) (above : List Kind) (t : Tree)
    {module : String} {p : Property} :
    p ∈ (s.call b path above t).properties.propertiesOf module ↔
      p ∈ s.properties.propertiesOf module ∨
        ∃ handle, CallSite.classify s.isBound above t = .setProperty handle ∧
          s.moduleOf? handle = some module ∧
          CallSite.property ⟨b, path, s.fileHandles⟩ (t.findFirstChild? .argumentList) =
            .ok (some p) := by
  rw [call]
  split
  · rename_i handle hc
    rw [hc]
    split
    · rename_i m q hm hq
      show p ∈ (s.properties.extend m [q]).propertiesOf module ↔ _
      rw [Modules.mem_propertiesOf_extend, List.mem_singleton]
      refine or_congr_right ?_
      constructor
      · rintro ⟨rfl, rfl⟩
        exact ⟨handle, rfl, hm, hq⟩
      · rintro ⟨handle', he, hm', hq'⟩
        cases he
        cases hm.symm.trans hm'
        cases hq.symm.trans hq'
        exact ⟨rfl, rfl⟩
    · rename_i hno
      refine ⟨.inl, ?_⟩
      rintro (h | ⟨handle', he, hm, hq⟩)
      · exact h
      · cases he
        exact absurd hq (hno module p hm)
  all_goals
    rename_i hc
    rw [hc]
    refine ⟨.inl, ?_⟩
    rintro (h | ⟨handle, he, -⟩)
    · exact h
    · cases he

/-- A node adds a property if it sets it on a handle that is bound when the node
is read. -/
theorem mem_propertiesOf_read (s : MethodScope) (b : String) (n : Node a) {module : String}
    {p : Property} :
    p ∈ (s.read b n.packagePath n).properties.propertiesOf module ↔
      p ∈ s.properties.propertiesOf module ∨
        ∃ handle, n.Sets b handle p ∧ s.moduleOf? handle = some module := by
  have other (hk : n.kind ≠ .methodCall) :
      ¬ ∃ handle, n.Sets b handle p ∧ s.moduleOf? handle = some module := by
    rintro ⟨handle, h, -⟩
    exact hk h.kind_eq
  rw [read]
  split
  · rename_i hk
    rw [properties_declare, or_iff_left (other (by rw [hk]; exact Kind.noConfusion))]
  · rename_i hk
    rw [mem_propertiesOf_call]
    refine or_congr_right (exists_congr fun handle => ?_)
    rw [CallSite.classify_eq_setProperty_iff,
      CallSite.property_eq_ok_iff b n.packagePath s.fileHandles []]
    constructor
    · rintro ⟨⟨hcallee, -⟩, hm, hq⟩
      exact ⟨⟨hk, hcallee, hq⟩, hm⟩
    · rintro ⟨h, hm⟩
      have hb : s.isBound handle = true := by rw [isBound, hm]; rfl
      exact ⟨⟨h.callee, hb⟩, hm, h.value⟩
  · rename_i hk
    rw [or_iff_left (other hk)]

/-! ## The whole reading -/

def readAll (b : String) (ns : List (Node a)) : MethodScope :=
  ns.foldl (fun s n => s.read b n.packagePath n) .empty

theorem readAll_append_singleton (b : String) (ns : List (Node a)) (n : Node a) :
    readAll b (ns ++ [n]) = (readAll b ns).read b n.packagePath n := by
  rw [readAll, List.foldl_append]
  rfl

/-- A handle is bound to what its last declaration names. -/
theorem moduleOf?_readAll (b : String) (ns : List (Node a)) (handle : String) :
    (readAll b ns).moduleOf? handle = (ns.filterMap (Node.bindingOf? handle)).getLast? := by
  induction ns using List.reverseRecOn with
  | nil => rfl
  | append_singleton ns n ih =>
      rw [readAll_append_singleton, moduleOf?_read, ih, List.filterMap_append]
      cases hn : n.bindingOf? handle with
      | none => simp [hn]
      | some module => simp [hn]

theorem verified_readAll (b : String) (ns : List (Node a)) :
    (readAll b ns).verified = true ↔ ∃ n ∈ ns, n.Verifies := by
  induction ns using List.reverseRecOn with
  | nil =>
      constructor
      · intro h
        cases h
      · rintro ⟨n, hn, -⟩
        cases hn
  | append_singleton ns n ih =>
      rw [readAll_append_singleton, verified_read, ih]
      simp [or_and_right, exists_or]

/-- A property is there if some call set it, on a handle that was bound by
then. -/
theorem mem_propertiesOf_readAll (b : String) (ns : List (Node a)) {module : String}
    {p : Property} :
    p ∈ (readAll b ns).properties.propertiesOf module ↔
      ∃ us n vs handle, ns = us ++ n :: vs ∧ n.Sets b handle p ∧
        (us.filterMap (Node.bindingOf? handle)).getLast? = some module := by
  induction ns using List.reverseRecOn with
  | nil =>
      constructor
      · intro h
        cases h
      · rintro ⟨us, n, vs, handle, h, -⟩
        simp at h
  | append_singleton ns n ih =>
      rw [readAll_append_singleton, mem_propertiesOf_read, ih]
      constructor
      · rintro (⟨us, m, vs, handle, rfl, hs, hm⟩ | ⟨handle, hs, hm⟩)
        · exact ⟨us, m, vs ++ [n], handle, by simp, hs, hm⟩
        · rw [moduleOf?_readAll] at hm
          exact ⟨ns, n, [], handle, rfl, hs, hm⟩
      · rintro ⟨us, m, vs, handle, he, hs, hm⟩
        induction vs using List.reverseRecOn with
        | nil =>
            obtain ⟨rfl, hn⟩ := List.append_inj' he rfl
            obtain rfl := List.singleton_inj.mp hn
            rw [← moduleOf?_readAll] at hm
            exact .inr ⟨handle, hs, hm⟩
        | append_singleton vs x =>
            rw [← List.cons_append, ← List.append_assoc] at he
            obtain ⟨rfl, -⟩ := List.append_inj' he rfl
            exact .inl ⟨us, m, vs, handle, rfl, hs, hm⟩

end MethodScope

/-! ## A test and its tree -/

namespace Node

variable {a : Arena} {test : Node a}

/-- What a test reads before one of its nodes is what the tree reads before that
node and has below the test. -/
theorem filter_before_eq (hl : a.Linked) (ht : test ∈ a.preorder) {call : Node a}
    {us vs : List (Node a)} (he : test.inside = us ++ call :: vs) :
    (call.before.filter fun d => test ∈ d.ancestors) = us := by
  obtain ⟨front, back, hp⟩ := Arena.exists_preorder_eq ht
  have hsplit : a.preorder = (front ++ test :: us) ++ call :: (vs ++ back) := by
    rw [hp, he]
    simp
  have hfront : ∀ d ∈ front, test ∉ d.ancestors := by
    intro d hd habove
    have hinside : d ∈ test.inside := mem_inside_of_mem_ancestors hl habove
    have hnodup := Arena.nodup_preorder hl
    rw [hp] at hnodup
    refine (List.nodup_append.mp hnodup).2.2 d hd d ?_ rfl
    exact List.mem_cons_of_mem _ (List.mem_append.mpr (.inl hinside))
  have htest : test ∉ test.ancestors := fun h => Nat.lt_irrefl _ (lt_of_mem_ancestors h)
  have hus : ∀ d ∈ us, test ∈ d.ancestors := by
    intro d hd
    refine mem_ancestors_of_mem_inside hl ?_
    rw [he]
    exact List.mem_append.mpr (.inl hd)
  have hnone : (front.filter fun d => test ∈ d.ancestors) = [] :=
    List.filter_eq_nil_iff.mpr fun d hd => by simpa using hfront d hd
  have hall : (us.filter fun d => test ∈ d.ancestors) = us :=
    List.filter_eq_self.mpr fun d hd => by simpa using hus d hd
  rw [before_eq hl hsplit, List.filter_append, hnone, List.nil_append,
    List.filter_cons_of_neg (by simpa using htest), hall]

theorem mem_propertiesOf_testScope (hl : a.Linked) (ht : test ∈ a.preorder) (b : String)
    {module : String} {p : Property} :
    p ∈ (test.testScope b).properties.propertiesOf module ↔
      ∃ call handle, test ∈ call.ancestors ∧ call.Sets b handle p ∧
        test.moduleBefore? call handle = some module := by
  show p ∈ (MethodScope.readAll b test.inside).properties.propertiesOf module ↔ _
  rw [MethodScope.mem_propertiesOf_readAll]
  constructor
  · rintro ⟨us, call, vs, handle, he, hs, hm⟩
    have hcall : call ∈ test.inside := by
      rw [he]
      exact List.mem_append.mpr (.inr List.mem_cons_self)
    refine ⟨call, handle, mem_ancestors_of_mem_inside hl hcall, hs, ?_⟩
    rw [moduleBefore?, filter_before_eq hl ht he, hm]
  · rintro ⟨call, handle, habove, hs, hm⟩
    obtain ⟨us, vs, he⟩ := List.append_of_mem (mem_inside_of_mem_ancestors hl habove)
    rw [moduleBefore?, filter_before_eq hl ht he] at hm
    exact ⟨us, call, vs, handle, he, hs, hm⟩

theorem verified_testScope (hl : a.Linked) (b : String) :
    (test.testScope b).verified = true ↔
      ∃ call : Node a, test ∈ call.ancestors ∧ call.Verifies := by
  show (MethodScope.readAll b test.inside).verified = true ↔ _
  rw [MethodScope.verified_readAll]
  refine exists_congr fun call => ?_
  rw [mem_inside_iff_mem_ancestors hl]

end Node

namespace Harvester

theorem mem_treeFindings {b : String} {a : Arena} {x : Modules} :
    x ∈ treeFindings b a ↔ ∃ test ∈ a.preorder, test.isOutermostTest = true ∧
      (test.testScope b).verified = true ∧ (test.testScope b).properties = x := by
  simp only [treeFindings, Node.findings, List.mem_map, List.mem_filter]
  constructor
  · rintro ⟨s, ⟨⟨test, ⟨hp, ht⟩, rfl⟩, hv⟩, he⟩
    exact ⟨test, hp, ht, hv, he⟩
  · rintro ⟨test, hp, ht, hv, he⟩
    exact ⟨_, ⟨⟨test, ⟨hp, ht⟩, rfl⟩, hv⟩, he⟩

/-- Exactness.  A run finds a property of a module if and only if one of its
trees has an outermost test with a call below it that sets the property on a
handle last bound to the module, and with a call below it that verifies. -/
theorem mem_run_iff (basePath : String) {trees : List Arena} (ht : ∀ a ∈ trees, a.WellFormed)
    {module : String} {p : Property} :
    p ∈ (run basePath trees).propertiesOf module ↔
      ∃ a ∈ trees, ∃ test ∈ a.preorder, test.isOutermostTest = true ∧
        (∃ call handle, test ∈ call.ancestors ∧ call.Sets basePath handle p ∧
          test.moduleBefore? call handle = some module) ∧
        ∃ call : Node a, test ∈ call.ancestors ∧ call.Verifies := by
  have hnodup : ∀ x ∈ trees.flatMap (treeFindings basePath), x.names.Nodup := by
    intro x hx
    obtain ⟨a, -, hxa⟩ := List.mem_flatMap.mp hx
    exact nodup_names_of_mem_treeFindings hxa
  have hnil : p ∉ Modules.propertiesOf [] module := List.not_mem_nil
  rw [run_eq basePath ht, Modules.mem_propertiesOf_foldl_merge hnodup, or_iff_right hnil]
  constructor
  · rintro ⟨x, hx, hp⟩
    obtain ⟨a, ha, hxa⟩ := List.mem_flatMap.mp hx
    obtain ⟨test, htest, hout, hv, rfl⟩ := mem_treeFindings.mp hxa
    have hl : a.Linked := (ht a ha).linked
    exact ⟨a, ha, test, htest, hout, (Node.mem_propertiesOf_testScope hl htest basePath).mp hp,
      (Node.verified_testScope hl basePath).mp hv⟩
  · rintro ⟨a, ha, test, htest, hout, hset, hverify⟩
    have hl : a.Linked := (ht a ha).linked
    refine ⟨(test.testScope basePath).properties, ?_, ?_⟩
    · refine List.mem_flatMap.mpr ⟨a, ha, mem_treeFindings.mpr ⟨test, htest, hout, ?_, rfl⟩⟩
      exact (Node.verified_testScope hl basePath).mpr hverify
    · exact (Node.mem_propertiesOf_testScope hl htest basePath).mpr hset

theorem mem_run_iff_oneTest :
    ⟨"format", "x"⟩ ∈
        (run "" [.ofTree (oneTest "FooCheck" "\"format\"" "\"x\"")]).propertiesOf "FooCheck" ∧
      ∃ a ∈ [Arena.ofTree (oneTest "FooCheck" "\"format\"" "\"x\"")], ∃ test ∈ a.preorder,
        test.isOutermostTest = true ∧
          (∃ call handle, test ∈ call.ancestors ∧ call.Sets "" handle ⟨"format", "x"⟩ ∧
            test.moduleBefore? call handle = some "FooCheck") ∧
          ∃ call : Node a, test ∈ call.ancestors ∧ call.Verifies := by
  have ht : ∀ a ∈ [Arena.ofTree (oneTest "FooCheck" "\"format\"" "\"x\"")], a.WellFormed :=
    List.forall_mem_singleton.mpr (Arena.wellFormed_ofTree _)
  have hfound : ⟨"format", "x"⟩ ∈
      (run "" [.ofTree (oneTest "FooCheck" "\"format\"" "\"x\"")]).propertiesOf "FooCheck" := by
    decide +kernel
  exact ⟨hfound, (mem_run_iff "" ht).mp hfound⟩

end Harvester

end PropertyHarvest
