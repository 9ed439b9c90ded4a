/-
# Syntax errors are found

A grammar marks the nodes that it could not make sense of, the errors and the
missing ones, and flags every node that holds one.  A file with a flagged root is
refused, and the line that it is refused with is searched for below flagged nodes
only.  With flags that tell the truth (`Flagged`) the search passes over nothing:
it finds what a search of all nodes in reading order finds
(`firstErrorLine?_eq`).  So a file is refused exactly if it has a fault, and with
the line of the first one.

If flags did not tell the truth, a file could be refused without a line of its own, and
it would be told the line of its root; with true flags this never happens.  That a
grammar marks every error it meets is not a statement about this library.
-/
import PropertyHarvest.Proofs.Concrete.Building
import PropertyHarvest.SourceFile

namespace PropertyHarvest

namespace Concrete

mutual

/-- The node and all nodes below it in reading order. -/
def nodes : Concrete → List Concrete
  | .node l cs => .node l cs :: nodesIn cs

def nodesIn : List Concrete → List Concrete
  | [] => []
  | c :: cs => nodes c ++ nodesIn cs

end

/-- The grammar could not make sense of the node, or lacks it. -/
def isFault (c : Concrete) : Bool :=
  c.label.isError || c.label.isMissing

/-- The flag is set exactly on the faults and on what holds one. -/
def Flagged (c : Concrete) : Prop :=
  ∀ x ∈ c.nodes, x.label.hasError = true ↔ ∃ y ∈ x.nodes, y.isFault = true

instance (c : Concrete) : Decidable c.Flagged :=
  inferInstanceAs (Decidable (∀ x ∈ c.nodes, _ ↔ _))

theorem self_mem_nodes (c : Concrete) : c ∈ c.nodes := by
  cases c
  exact List.mem_cons_self

theorem nodes_subset_nodesIn {c : Concrete} {cs : List Concrete} (h : c ∈ cs) :
    c.nodes ⊆ nodesIn cs := by
  induction cs with
  | nil => cases h
  | cons d cs ih =>
      rcases List.mem_cons.mp h with rfl | h
      · exact List.subset_append_left _ _
      · exact List.subset_append_of_subset_right _ (ih h)

theorem Flagged.child {l : Label} {c : Concrete} {cs : List Concrete} (h : Flagged (.node l cs))
    (hc : c ∈ cs) : c.Flagged :=
  fun x hx => h x (List.mem_cons_of_mem _ (nodes_subset_nodesIn hc hx))

theorem Flagged.hasError_iff {c : Concrete} (h : c.Flagged) :
    c.label.hasError = true ↔ ∃ x ∈ c.nodes, x.isFault = true :=
  h c c.self_mem_nodes

theorem Flagged.find?_eq_none {c : Concrete} (h : c.Flagged) (hc : c.label.hasError = false) :
    c.nodes.find? isFault = none := by
  rw [List.find?_eq_none]
  intro x hx hfault
  rw [h.hasError_iff.mpr ⟨x, hx, hfault⟩] at hc
  cases hc

mutual

/-- The search below flagged nodes finds what a search of all nodes finds. -/
theorem firstErrorLine?_eq : (c : Concrete) → c.Flagged →
    c.firstErrorLine? = (c.nodes.find? isFault).map line
  | .node l cs, h => by
      rw [firstErrorLine?, nodes, List.find?_cons,
        firstErrorLineIn?_eq cs fun c hc => h.child hc]
      show (if isFault (.node l cs) then _ else _) = _
      cases isFault (.node l cs) with
      | true => rfl
      | false => rfl

theorem firstErrorLineIn?_eq : (cs : List Concrete) → (∀ c ∈ cs, c.Flagged) →
    firstErrorLineIn? cs = ((nodesIn cs).find? isFault).map line
  | [], _ => rfl
  | c :: cs, h => by
      obtain ⟨hc, hcs⟩ := List.forall_mem_cons.mp h
      rw [firstErrorLineIn?, nodesIn, List.find?_append, firstErrorLineIn?_eq cs hcs]
      cases hflag : c.label.hasError with
      | true =>
          rw [if_pos rfl, firstErrorLine?_eq c hc]
          cases c.nodes.find? isFault <;> rfl
      | false =>
          rw [if_neg Bool.false_ne_true, hc.find?_eq_none hflag]
          rfl

end

/-- A refused file has a first fault, so the line of the root never stands in
for its line. -/
theorem fileTree_eq (slice : Slice) {c : Concrete} (h : c.Flagged) :
    c.fileTree slice =
      match c.nodes.find? isFault with
      | some x => .error ⟨x.line⟩
      | none => .ok (.interior .compilationUnit c.line (c.content slice)) := by
  rw [fileTree, firstErrorLine?_eq c h]
  cases hc : c.label.hasError with
  | false =>
      rw [h.find?_eq_none hc]
      rfl
  | true =>
      obtain ⟨x, hx⟩ := Option.isSome_iff_exists.mp
        (List.find?_isSome.mpr (h.hasError_iff.mp hc))
      rw [hx]
      rfl

end Concrete

namespace SourceFile

variable {f : SourceFile}

theorem arena_eq_error_iff (h : f.concrete.Flagged) (e : SyntaxError) :
    f.arena = .error e ↔
      ∃ x, f.concrete.nodes.find? Concrete.isFault = some x ∧ x.line = e.line := by
  obtain ⟨line⟩ := e
  rw [arena, Concrete.fileArena_eq_error_iff, Concrete.fileTree_eq _ h]
  cases f.concrete.nodes.find? Concrete.isFault with
  | none => simp
  | some x => simp

theorem line_le_of_pairwise {before after : List Concrete} {x y : Concrete}
    (hrows : ((before ++ x :: after).map (·.label.row)).Pairwise (· ≤ ·))
    (hbefore : ∀ z ∈ before, z.isFault = false) (hy : y ∈ before ++ x :: after)
    (hfault : y.isFault = true) : x.line ≤ y.line := by
  rw [List.pairwise_map] at hrows
  obtain ⟨hx, -⟩ := List.pairwise_cons.mp (List.pairwise_append.mp hrows).2.1
  rcases List.mem_append.mp hy with hy | hy
  · cases (hbefore y hy).symm.trans hfault
  · rcases List.mem_cons.mp hy with rfl | hy
    · exact Nat.le_refl _
    · exact Nat.succ_le_succ (hx y hy)

/-- A file is refused exactly if some node of it is a fault.  The search then
ends at the first fault in reading order, and its line is the one that is told;
it is the smallest line of a fault where rows never decrease in reading order. -/
theorem arena_refused (f : SourceFile) (h : f.concrete.Flagged) :
    ((∃ e, f.arena = .error e) ↔ ∃ x ∈ f.concrete.nodes, x.isFault = true) ∧
      ∀ e, f.arena = .error e →
        (∃ before x after, f.concrete.nodes = before ++ x :: after ∧ x.isFault = true ∧
          (∀ y ∈ before, y.isFault = false) ∧ f.concrete.firstErrorLine? = some x.line ∧
          e.line = x.line) ∧
        ((f.concrete.nodes.map (·.label.row)).Pairwise (· ≤ ·) →
          ∀ y ∈ f.concrete.nodes, y.isFault = true → e.line ≤ y.line) := by
  constructor
  · rw [← List.find?_isSome, Option.isSome_iff_exists]
    constructor
    · rintro ⟨e, he⟩
      obtain ⟨x, hx, -⟩ := (arena_eq_error_iff h e).mp he
      exact ⟨x, hx⟩
    · rintro ⟨x, hx⟩
      exact ⟨⟨x.line⟩, (arena_eq_error_iff h _).mpr ⟨x, hx, rfl⟩⟩
  · intro e he
    obtain ⟨x, hx, hline⟩ := (arena_eq_error_iff h e).mp he
    obtain ⟨hfault, before, after, hnodes, hbefore⟩ := List.find?_eq_some_iff_append.mp hx
    have hclean : ∀ y ∈ before, y.isFault = false := fun y hy => by
      simpa using hbefore y hy
    refine ⟨⟨before, x, after, hnodes, hfault, hclean, ?_, hline.symm⟩, fun hrows y hy hyf => ?_⟩
    · rw [Concrete.firstErrorLine?_eq _ h, hx]
      rfl
    · rw [hnodes] at hrows hy
      exact hline ▸ line_le_of_pairwise hrows hclean hy hyf

/-! ## A file with two faults

The class below holds a method in which the word after a dot is missing, and
behind the class stands something that is no declaration.

    class A {
      void f() { a. }
    }
    )
-/

/-- A node without role and text, as the faults of a file need no more. -/
def faultNode (kind : String) (row : Nat) (isError isMissing hasError : Bool)
    (children : List Concrete) : Concrete :=
  .node ⟨kind, none, row, 0, 0, true, isError, isMissing, hasError⟩ children

def twoFaults : SourceFile where
  text := ""
  concrete := faultNode "program" 0 false false true [
    faultNode "class_declaration" 0 false false true [
      faultNode "identifier" 0 false false false [],
      faultNode "field_access" 1 false false true [
        faultNode "identifier" 1 false false false [],
        faultNode "identifier" 1 false true true []]],
    faultNode "ERROR" 3 true false true []]

theorem arena_refused_twoFaults :
    twoFaults.concrete.Flagged ∧ ∃ e, twoFaults.arena = .error e ∧ e.line = 2 ∧
      ∀ y ∈ twoFaults.concrete.nodes, y.isFault = true → 2 ≤ y.line := by
  have hflagged : twoFaults.concrete.Flagged := by decide
  have hrows : (twoFaults.concrete.nodes.map (·.label.row)).Pairwise (· ≤ ·) := by decide
  have hfirst : twoFaults.concrete.firstErrorLine? = some 2 := rfl
  obtain ⟨hrefused, htold⟩ := arena_refused twoFaults hflagged
  obtain ⟨e, he⟩ := hrefused.mpr (by decide)
  obtain ⟨⟨-, x, -, -, -, -, hx, hline⟩, hleast⟩ := htold e he
  have h2 : e.line = 2 := hline.trans (Option.some.inj (hx.symm.trans hfirst))
  exact ⟨hflagged, e, he, h2, h2 ▸ hleast hrows⟩

end SourceFile

end PropertyHarvest
