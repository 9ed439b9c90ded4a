/-
# Verifications as the source has them

A call counts as a verification by what the laid out tree tells of it.  Here
that is traced back to the source: the call of the grammar's tree that a node
was lowered from decides it.

Where a node comes from is read off the lowering itself.  The file is lowered a
second time with the numbers of the places in the place of rows
(`SourceFile.numbered`); rows have no part in a lowering but that they become
lines, so the same node of the second tree has the number of its origin as its
line (`SourceFile.origin?`).

Every call is traced, also one that lies in a class within a method, and one that was
lowered twice: the annotations of a declaration belong to each of its declarators and
may have calls in their arguments.  Such copies have one origin.
-/
import PropertyHarvest.Proofs.Concrete.Building
import PropertyHarvest.Proofs.Concrete.Nesting
import PropertyHarvest.SourceFile

namespace PropertyHarvest

/-! ## Lines do not matter to a call -/

theorem CallSite.classify_mapLine_eq_verification_iff {isBound : String → Bool}
    {above : List Kind} (f : Nat → Nat) (t : Tree) :
    classify isBound above (t.mapLine f) = .verification ↔
      classify isBound above t = .verification := by
  have hcallee : (∃ callee name, (t.mapLine f).firstChild? = some callee ∧
        callee.kind = .identifier ∧ callee.text? = some name ∧ name ∈ Idiom.verifyMethods) ↔
      ∃ callee name, t.firstChild? = some callee ∧
        callee.kind = .identifier ∧ callee.text? = some name ∧ name ∈ Idiom.verifyMethods := by
    rw [Tree.firstChild?_mapLine]
    cases t.firstChild? with
    | none => simp
    | some callee => simp [Tree.kind_mapLine, Tree.text?_mapLine]
  rw [classify_eq_verification_iff, classify_eq_verification_iff, hcallee]

namespace Concrete

variable (slice : Slice)

def unitTree (c : Concrete) : Tree :=
  .interior .compilationUnit c.line (c.content slice)

theorem unitTree_mapRow (g : Nat → Nat) (c : Concrete) :
    (c.mapRow g).unitTree slice = (c.unitTree slice).mapLine (lineOf g) :=
  interior_mapRow g c .compilationUnit (content_mapRow fun x _ => rowsToLines g x slice)

theorem mapLine_unitTree_numbered (c : Concrete) :
    (c.numbered.unitTree slice).mapLine (lineOf c.rowAt) = c.unitTree slice := by
  rw [← unitTree_mapRow, mapRow_rowAt_numbered]

theorem label_numbered (c : Concrete) : c.numbered.label = { c.label with row := 0 } := by
  obtain ⟨l, cs⟩ := c
  rfl

end Concrete

namespace SourceFile

variable (f : SourceFile)

theorem exists_arena (he : f.concrete.label.hasError = false) :
    ∃ a, f.arena = .ok a ∧ a.Holds (f.concrete.unitTree (slice f.text)) := by
  refine Concrete.exists_fileArena ?_
  rw [Concrete.fileTree, he]
  rfl

def numbered : SourceFile :=
  { f with concrete := f.concrete.numbered }

/-- The place that the node of this number, in reading order, was lowered
from. -/
def origin? (i : Nat) : Option Place :=
  match f.numbered.arena with
  | .ok a => a.preorder[i]?.bind fun n => f.concrete.places[n.line - 1]?
  | .error _ => none

/-- The node of the same number in the numbered file: it stands the same and is
the same but for its lines. -/
theorem exists_numbered_node (c : Concrete) (s : Concrete.Slice) {a b : Arena}
    (ha : a.Holds (c.unitTree s)) (hb : b.Holds (c.numbered.unitTree s)) {i : Nat} {n : Node a}
    (hn : a.preorder[i]? = some n) :
    ∃ m : Node b, b.preorder[i]? = some m ∧ m.above = n.above ∧
      m.tree.mapLine (Concrete.lineOf c.rowAt) = n.tree := by
  have hlocated : (((c.numbered.unitTree s).located []).map fun e =>
      (e.1, e.2.mapLine (Concrete.lineOf c.rowAt))) = (c.unitTree s).located [] := by
    rw [← Tree.located_mapLine, Concrete.mapLine_unitTree_numbered]
  rw [← ha.map_located_preorder, ← hb.map_located_preorder, List.map_map] at hlocated
  have hi := congrArg (·[i]?) hlocated
  simp only [List.getElem?_map, hn, Option.map_some] at hi
  obtain ⟨m, hm, he⟩ := Option.map_eq_some_iff.mp hi
  obtain ⟨habove, htree⟩ := Prod.mk.inj he
  exact ⟨m, hm, habove, htree⟩

/-- A file of one statement, which verifies. -/
def oneStatement : SourceFile where
  text := "verify();"
  concrete :=
    .node ⟨"program", none, 0, 0, 9, true, false, false, false⟩ [
      .node ⟨"expression_statement", none, 0, 0, 9, true, false, false, false⟩ [
        .node ⟨"method_invocation", none, 0, 0, 8, true, false, false, false⟩ [
          .node ⟨"identifier", some "name", 0, 0, 6, true, false, false, false⟩ [],
          .node ⟨"argument_list", some "arguments", 0, 6, 8, true, false, false, false⟩ []]]]

theorem regular_oneStatement : oneStatement.concrete.Regular := by
  intro p hp
  simp only [oneStatement, Concrete.places, Concrete.placesBelow, Concrete.placesIn,
    List.append_nil, List.mem_append, List.mem_cons, List.not_mem_nil, or_false] at hp
  rcases hp with rfl | rfl | rfl | rfl | rfl
  case inr.inr.inl => exact ⟨fun _ => ⟨⟨_, rfl⟩, _, rfl, rfl⟩, fun hf => absurd hf (by decide)⟩
  all_goals exact ⟨fun hk => absurd hk (by decide), fun hf => absurd hf (by decide)⟩

open PropertyHarvest.Tree in
def oneStatementTree : Tree :=
  interior .compilationUnit 1 [interior .expression 1 [
    interior .methodCall 1 [token .identifier "verify" 1, interior .argumentList 1 []]]]

theorem unitTree_oneStatement :
    oneStatement.concrete.unitTree (slice oneStatement.text) = oneStatementTree := by
  have hname : slice "verify();" 0 6 = "verify" := by decide +kernel
  have hstatement : Form.ofKind "expression_statement" = .branch .expression := rfl
  have hcall : Form.ofKind "method_invocation" = .call := rfl
  simp [oneStatement, oneStatementTree, Concrete.unitTree, Concrete.content_eq,
    Concrete.contribution, Concrete.tree, Concrete.callTree_eq, Concrete.calleeTrees,
    Concrete.argumentsTree_eq, Concrete.namedChildren, Concrete.children, Concrete.label,
    Concrete.kind, Concrete.line, Concrete.child?, Concrete.leaf, Concrete.text, hname, hstatement,
    hcall]

theorem exists_call_oneStatementTree {a : Arena} (h : a.Holds oneStatementTree) :
    ∃ call : Node a, call.kind = .methodCall ∧
      CallSite.classify (fun _ => false) call.above call.tree = .verification := by
  have hread : ((oneStatementTree.located []).any fun e => e.2.kind == .methodCall &&
      CallSite.classify (fun _ => false) e.1 e.2 == .verification) = true := by
    decide +kernel
  rw [← h.map_located_preorder, List.any_map] at hread
  obtain ⟨call, -, hrole⟩ := List.any_eq_true.mp hread
  rw [Function.comp_apply, Bool.and_eq_true, beq_iff_eq, beq_iff_eq] at hrole
  exact ⟨call, hrole⟩

end SourceFile

end PropertyHarvest
