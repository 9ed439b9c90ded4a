/-
# What one test method says

The harvester is a machine with one scope for all methods of all files.  This
module says what a test method contributes without that machine: a fold over
the nodes below the method, in reading order, that starts with an empty scope
(`Node.testScope`).  The package of a node is read off the tree as well: it is
that of the last package declaration before the node.

The second half compares one visit of the harvester with one step of the fold.

The fold is written with the same functions that the harvester calls, and nothing is
proved of them here.  What is said later of a run is said of the fold, or of the walk
as a series of readings.
-/
import PropertyHarvest.Harvester
import PropertyHarvest.Proofs.Arena.Descent

namespace PropertyHarvest

namespace MethodScope

def declare (s : MethodScope) (parent? : Option Kind) (declaration : Tree) : MethodScope :=
  match Declaration.classify parent? declaration with
  | .ok (.configuration handle module) => s.bind handle module
  | .ok (.fileHandle handle) => s.addFileHandle handle
  | _ => s

def call (s : MethodScope) (basePath packagePath : String) (above : List Kind) (call : Tree) :
    MethodScope :=
  match CallSite.classify s.isBound above call with
  | .setProperty handle =>
    match s.moduleOf? handle, CallSite.property ⟨basePath, packagePath, s.fileHandles⟩
        (call.findFirstChild? .argumentList) with
    | some module, .ok (some p) => s.addProperty module p
    | _, _ => s
  | .verification => s.markVerified
  | .other => s

/-- The scope after a node; only declarations and calls change it. -/
def read {a : Arena} (basePath packagePath : String) (s : MethodScope) (n : Node a) :
    MethodScope :=
  match n.kind with
  | .variableDecl => s.declare (n.parent?.map Node.kind) n.tree
  | .methodCall => s.call basePath packagePath n.above n.tree
  | _ => s

/-- The report of a declaration that could not be told. -/
def declarationSkips (parent? : Option Kind) (declaration : Tree) : List Diagnostic :=
  match Declaration.classify parent? declaration with
  | .error reason =>
    [⟨declaration.line, .binding ((Declaration.declaredName? declaration).getD ""), reason⟩]
  | .ok _ => []

/-- The report of a call whose property could not be told. -/
def callSkips (s : MethodScope) (basePath packagePath : String) (above : List Kind)
    (call : Tree) : List Diagnostic :=
  match CallSite.classify s.isBound above call with
  | .setProperty handle =>
    match s.moduleOf? handle, CallSite.property ⟨basePath, packagePath, s.fileHandles⟩
        (call.findFirstChild? .argumentList) with
    | some module, .error reason => [⟨call.line, .property module, reason⟩]
    | _, _ => []
  | _ => []

/-- What is reported of a node that the scope `s` reads. -/
def skips {a : Arena} (basePath packagePath : String) (s : MethodScope) (n : Node a) :
    List Diagnostic :=
  match n.kind with
  | .variableDecl => declarationSkips (n.parent?.map Node.kind) n.tree
  | .methodCall => s.callSkips basePath packagePath n.above n.tree
  | _ => []

/-- The same scope, opened by the method `id`. -/
def opened (s : MethodScope) (id : Nat) : MethodScope :=
  { s with active? := some id }

/-- All that one node can do to the scope `s`. -/
inductive Reads (s : MethodScope) : MethodScope → Prop
  | same : Reads s s
  | bind (handle module : String) : Reads s (s.bind handle module)
  | fileHandle (handle : String) : Reads s (s.addFileHandle handle)
  | property (module : String) (p : Property) : Reads s (s.addProperty module p)
  | verified : Reads s s.markVerified

theorem reads_declare (s : MethodScope) (parent? : Option Kind) (t : Tree) :
    s.Reads (s.declare parent? t) := by
  rw [declare]
  split
  · exact .bind _ _
  · exact .fileHandle _
  · exact .same

theorem reads_call (s : MethodScope) (b p : String) (above : List Kind) (t : Tree) :
    s.Reads (s.call b p above t) := by
  rw [call]
  split
  · split
    · exact .property _ _
    · exact .same
  · exact .verified
  · exact .same

theorem reads_read {a : Arena} (s : MethodScope) (b p : String) (n : Node a) :
    s.Reads (s.read b p n) := by
  rw [read]
  split
  · exact reads_declare s _ _
  · exact reads_call s b p _ _
  · exact .same

theorem Reads.active?_eq {s s' : MethodScope} (h : s.Reads s') : s'.active? = s.active? := by
  cases h <;> rfl

end MethodScope

namespace Node

variable {a : Arena}

/-! ## The reading of a test -/

def isTest (n : Node a) : Bool :=
  n.is .methodDecl && Harvester.hasTestAnnotation n.tree

/-- A test that lies in no other test. -/
def isOutermostTest (n : Node a) : Bool :=
  n.isTest && !n.ancestors.any isTest

/-- The package path after a node, where it was `path` before. -/
def packagePathAfter (path : String) (n : Node a) : String :=
  if n.is .packageDecl then (Harvester.packageName? n.tree).elim "" Harvester.pathOfName else path

/-- The package path that the last package declaration of a list sets. -/
def packagePathOf (ns : List (Node a)) : String :=
  (ns.filter (·.is .packageDecl)).getLast?.elim "" fun p =>
    (Harvester.packageName? p.tree).elim "" Harvester.pathOfName

def packagePath (n : Node a) : String :=
  packagePathOf n.before

/-- What the declarations and calls below a test leave behind, read in order
from an empty scope. -/
def testScope (basePath : String) (test : Node a) : MethodScope :=
  test.inside.foldl (fun s n => s.read basePath n.packagePath n) .empty

/-- What the verified outermost tests among the listed nodes have set. -/
def findings (basePath : String) (ns : List (Node a)) : List Modules :=
  (((ns.filter isOutermostTest).map (testScope basePath)).filter (·.verified)).map (·.properties)

theorem is_iff {n : Node a} {k : Kind} : n.is k = true ↔ n.kind = k :=
  beq_iff_eq

theorem isTest_iff {n : Node a} :
    n.isTest = true ↔ n.kind = .methodDecl ∧ Harvester.hasTestAnnotation n.tree = true := by
  rw [isTest, Bool.and_eq_true, is_iff]

theorem isOutermostTest_iff {n : Node a} :
    n.isOutermostTest = true ↔ n.isTest = true ∧ n.ancestors.any isTest = false := by
  rw [isOutermostTest, Bool.and_eq_true, Bool.not_eq_true']

theorem packagePathOf_append_singleton (ns : List (Node a)) (n : Node a) :
    packagePathOf (ns ++ [n]) = packagePathAfter (packagePathOf ns) n := by
  unfold packagePathOf packagePathAfter
  rw [List.filter_append]
  by_cases hn : n.is .packageDecl = true
  · simp [hn]
  · simp [hn]

theorem findings_append (basePath : String) (ns ms : List (Node a)) :
    findings basePath (ns ++ ms) = findings basePath ns ++ findings basePath ms := by
  simp [findings]

theorem findings_eq_nil {basePath : String} {ns : List (Node a)}
    (h : ∀ n ∈ ns, n.isOutermostTest = false) : findings basePath ns = [] := by
  have hf : ns.filter isOutermostTest = [] :=
    List.filter_eq_nil_iff.mpr fun n hn => by rw [h n hn]; exact Bool.false_ne_true
  rw [findings, hf]
  rfl

theorem is_eq_false {n : Node a} {k : Kind} (h : n.kind ≠ k) : n.is k = false :=
  beq_false_of_ne h

theorem packagePathAfter_of_ne {n : Node a} (h : n.kind ≠ .packageDecl) (path : String) :
    packagePathAfter path n = path := by
  rw [packagePathAfter, is_eq_false h, if_neg Bool.false_ne_true]

end Node

/-! ## One visit -/

namespace Harvester

theorem visitVariable_eq (h : Harvester) (parent? : Option Kind) (declaration : Tree) :
    h.visitVariable parent? declaration =
      { h with scope := h.scope.declare parent? declaration
               diagnostics :=
                h.diagnostics ++ MethodScope.declarationSkips parent? declaration } := by
  rw [visitVariable, MethodScope.declare, MethodScope.declarationSkips]
  rcases Declaration.classify parent? declaration with reason | d
  · rfl
  · cases d with
    | configuration handle module => rw [List.append_nil]
    | fileHandle handle => rw [List.append_nil]
    | ignored => rw [List.append_nil]

theorem visitCall_eq (h : Harvester) (above : List Kind) (call : Tree) :
    h.visitCall above call =
      { h with scope := h.scope.call h.basePath h.packagePath above call
               diagnostics :=
                h.diagnostics ++ h.scope.callSkips h.basePath h.packagePath above call } := by
  have unchanged : h = { h with diagnostics := h.diagnostics ++ [] } := by rw [List.append_nil]
  rw [visitCall, MethodScope.call, MethodScope.callSkips, surroundings]
  cases CallSite.classify h.scope.isBound above call with
  | setProperty handle =>
      dsimp only
      cases h.scope.moduleOf? handle with
      | none => exact unchanged
      | some module =>
          dsimp only
          rcases CallSite.property _ _ with e | p?
          · rfl
          · cases p? with
            | none => exact unchanged
            | some p => rw [List.append_nil]
  | verification => rw [List.append_nil]
  | other => exact unchanged

variable {a : Arena}

def take (h : Harvester) (n : Node a) : Harvester :=
  (visit n h).2

theorem kind_cases (k : Kind) :
    k = .packageDecl ∨ k = .methodDecl ∨ k = .variableDecl ∨ k = .methodCall ∨
      acceptableKinds.contains k = false := by
  by_cases hk : acceptableKinds.contains k = true
  · have hm : k ∈ acceptableKinds := List.contains_iff_mem.mp hk
    simp only [acceptableKinds, List.mem_cons, List.not_mem_nil, or_false] at hm
    rcases hm with h | h | h | h
    · exact .inl h
    · exact .inr (.inl h)
    · exact .inr (.inr (.inl h))
    · exact .inr (.inr (.inr (.inl h)))
  · exact .inr (.inr (.inr (.inr (Bool.eq_false_iff.mpr hk))))

theorem visit_of_hidden {n : Node a} (hk : acceptableKinds.contains n.kind = false)
    (h : Harvester) : visit n h = (.error (.unacceptableNode n.kind n.line), h) := by
  rw [visit]
  split
  · rename_i hn
    rw [hn] at hk
    cases hk
  · rename_i hn
    rw [hn] at hk
    cases hk
  · rename_i hn
    rw [hn] at hk
    cases hk
  · rename_i hn
    rw [hn] at hk
    cases hk
  · rfl

theorem visit_of_shown {n : Node a} (hk : acceptableKinds.contains n.kind = true)
    (h : Harvester) : visit n h = (.ok (), h.take n) := by
  rw [take, visit]
  rcases kind_cases n.kind with hn | hn | hn | hn | hn
  · rw [hn]
  · rw [hn]
  · rw [hn]
  · rw [hn]
  · rw [hn] at hk
    cases hk

theorem ne_of_hidden {k : Kind} (hk : acceptableKinds.contains k = false) :
    k ≠ .packageDecl ∧ k ≠ .variableDecl ∧ k ≠ .methodCall := by
  refine ⟨?_, ?_, ?_⟩
  all_goals
    rintro rfl
    cases hk

/-- While a method is open, a visit is one step of the reading. -/
theorem take_of_active {h : Harvester} (ha : h.scope.isActive = true) (n : Node a) :
    h.take n =
      { h with packagePath := n.packagePathAfter h.packagePath
               scope := h.scope.read h.basePath h.packagePath n
               diagnostics := h.diagnostics ++ h.scope.skips h.basePath h.packagePath n } := by
  -- One case for each kind that a visit looks at, and the last for all others.
  rcases kind_cases n.kind with hn | hn | hn | hn | hn
  · simp only [take, visit, visitPackage, MethodScope.read, MethodScope.skips,
      Node.packagePathAfter, hn, Node.is_iff.mpr hn, if_true, List.append_nil]
  · have hp : n.kind ≠ .packageDecl := by rw [hn]; exact Kind.noConfusion
    simp only [take, visit, visitMethod, MethodScope.read, MethodScope.skips, hn, ha,
      Bool.not_true, Bool.false_and, Node.packagePathAfter_of_ne hp, List.append_nil]
    rfl
  · have hp : n.kind ≠ .packageDecl := by rw [hn]; exact Kind.noConfusion
    simp only [take, visit, MethodScope.read, MethodScope.skips, hn, ha, if_true,
      visitVariable_eq, Node.packagePathAfter_of_ne hp]
  · have hp : n.kind ≠ .packageDecl := by rw [hn]; exact Kind.noConfusion
    simp only [take, visit, MethodScope.read, MethodScope.skips, hn, ha, if_true, visitCall_eq,
      Node.packagePathAfter_of_ne hp]
  · obtain ⟨hp, hv, hc⟩ := ne_of_hidden hn
    have hr : h.scope.read h.basePath h.packagePath n = h.scope := by
      rw [MethodScope.read]
      split
      · exact absurd ‹_› hv
      · exact absurd ‹_› hc
      · rfl
    have hs : h.scope.skips h.basePath h.packagePath n = [] := by
      rw [MethodScope.skips]
      split
      · exact absurd ‹_› hv
      · exact absurd ‹_› hc
      · rfl
    rw [take, visit_of_hidden hn, hr, hs, Node.packagePathAfter_of_ne hp, List.append_nil]

/-- Between the methods a visit moves on to another package at most. -/
theorem take_of_idle {h : Harvester} (hs : h.scope.isActive = false) {n : Node a}
    (ht : n.isTest = false) :
    h.take n = { h with packagePath := n.packagePathAfter h.packagePath } := by
  rcases kind_cases n.kind with hn | hn | hn | hn | hn
  · simp only [take, visit, visitPackage, Node.packagePathAfter, hn, Node.is_iff.mpr hn, if_true]
  · have hp : n.kind ≠ .packageDecl := by rw [hn]; exact Kind.noConfusion
    rw [Node.isTest, Node.is_iff.mpr hn, Bool.true_and] at ht
    simp only [take, visit, visitMethod, hn, ht, Bool.and_false, Node.packagePathAfter_of_ne hp]
    rfl
  · have hp : n.kind ≠ .packageDecl := by rw [hn]; exact Kind.noConfusion
    simp only [take, visit, hn, hs, Node.packagePathAfter_of_ne hp]
    rfl
  · have hp : n.kind ≠ .packageDecl := by rw [hn]; exact Kind.noConfusion
    simp only [take, visit, hn, hs, Node.packagePathAfter_of_ne hp]
    rfl
  · rw [take, visit_of_hidden hn, Node.packagePathAfter_of_ne (ne_of_hidden hn).1]

/-- A test opens the scope if no method is open. -/
theorem take_of_test {h : Harvester} (hs : h.scope.isActive = false) {n : Node a}
    (ht : n.isTest = true) : h.take n = { h with scope := h.scope.opened n.id } := by
  obtain ⟨hn, hmarked⟩ := Node.isTest_iff.mp ht
  simp only [take, visit, visitMethod, hn, hs, hmarked, Bool.not_false, Bool.true_and, if_true,
    MethodScope.enter, MethodScope.opened]
  rfl

end Harvester

end PropertyHarvest
