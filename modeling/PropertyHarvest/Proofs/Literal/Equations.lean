/-
# The equations of the value

The value of an expression recurses on the size of a tree and carries the
reasons why sizes fall.  Its equations here are without them, one for each way
to have a value or to be refused.

Each shape of a call has an equation, and so has each kind with a value.  The kinds
without one are refused as they stand (`literal_of_not_hasValueKind`).  Callers rewrite
with these and unfold nothing.

A concatenation evaluates its first and its last child and nothing in between.  If there
is one child only it is both, and it is evaluated twice, to the same end.
-/
import PropertyHarvest.Literal

namespace PropertyHarvest.Tree

open Literal (callShape)

variable {s : Surroundings} {t : Tree}

theorem literal_string (hk : t.kind = .stringLiteral) {text : String}
    (ht : t.text?.bind unquote? = some text) : t.literal s = .ok (some text) := by
  rw [literal, hk]
  dsimp only
  rw [ht]

theorem literal_string_of_none (hk : t.kind = .stringLiteral)
    (ht : t.text?.bind unquote? = none) : t.literal s = .error t.unsupported := by
  rw [literal, hk]
  dsimp only
  rw [ht]

theorem literal_null (hk : t.kind = .nullLiteral) : t.literal s = .ok none := by
  rw [literal, hk]

/-- The left operand is evaluated first, and its refusal comes first. -/
theorem literal_concatenation {left right : Tree} (hk : t.kind = .concatenation)
    (hl : t.firstChild? = some left) (hr : t.lastChild? = some right) :
    t.literal s = (do
      let l ← left.literal s
      let r ← right.literal s
      .ok (some (Literal.join l r))) := by
  rw [literal, hk]
  dsimp only
  split
  · rename_i left' right' hl' hr'
    cases hl.symm.trans hl'
    cases hr.symm.trans hr'
    rfl
  · rename_i hno
    exact absurd hr (hno left right hl)

theorem literal_concatenation_of_none (hk : t.kind = .concatenation)
    (hno : ∀ left right, t.firstChild? = some left → t.lastChild? = some right → False) :
    t.literal s = .error t.unsupported := by
  rw [literal, hk]
  dsimp only
  split
  · rename_i left right hl hr
    exact (hno left right hl hr).elim
  · rfl

/-! ## Calls -/

theorem literal_constant {name : String} (hk : t.kind = .methodCall)
    (hc : callShape s.fileHandles t = .constant name) : t.literal s = .ok (some name) := by
  rw [literal, hk]
  dsimp only
  split
  case h_1 h =>
    cases hc.symm.trans h
    rfl
  all_goals
    rename_i h
    cases hc.symm.trans h

theorem literal_filePath {handle : String} (hk : t.kind = .methodCall)
    (hc : callShape s.fileHandles t = .filePath handle) :
    t.literal s = .error (.unsupportedFileVariable handle t.line) := by
  rw [literal, hk]
  dsimp only
  split
  case h_2 h =>
    cases hc.symm.trans h
    rfl
  all_goals
    rename_i h
    cases hc.symm.trans h

/-- The call is refused only for an absent argument; any other refusal is that
of the argument itself. -/
theorem literal_path {argument content : Tree} {builder : Idiom.PathBuilder}
    (hk : t.kind = .methodCall) (hc : callShape s.fileHandles t = .path builder argument)
    (ha : argument.firstChild? = some content) :
    t.literal s = (do
      match ← content.literal s with
      | some name => .ok (some (Literal.builtPath s builder name))
      | none => .error t.unsupported) := by
  rw [literal, hk]
  dsimp only
  split
  case h_3 h =>
    cases hc.symm.trans h
    split
    · rename_i hnone
      cases ha.symm.trans hnone
    · rename_i content' ha'
      cases ha.symm.trans ha'
      rfl
  all_goals
    rename_i h
    cases hc.symm.trans h

theorem literal_path_of_none {argument : Tree} {builder : Idiom.PathBuilder}
    (hk : t.kind = .methodCall) (hc : callShape s.fileHandles t = .path builder argument)
    (ha : argument.firstChild? = none) : t.literal s = .error argument.unsupported := by
  rw [literal, hk]
  dsimp only
  split
  case h_3 h =>
    cases hc.symm.trans h
    split
    · rfl
    · rename_i content ha'
      cases ha.symm.trans ha'
  all_goals
    rename_i h
    cases hc.symm.trans h

theorem literal_unknown (hk : t.kind = .methodCall)
    (hc : callShape s.fileHandles t = .unknown) : t.literal s = .error t.unsupported := by
  rw [literal, hk]
  dsimp only
  split
  case h_4 => rfl
  all_goals
    rename_i h
    cases hc.symm.trans h

/-! ## Everything else -/

/-- The kinds that can have a value. -/
def hasValueKind (k : Kind) : Bool :=
  k == .stringLiteral || k == .nullLiteral || k == .concatenation || k == .methodCall

theorem hasValueKind_eq_false_iff {k : Kind} : hasValueKind k = false ↔
    k ≠ .stringLiteral ∧ k ≠ .nullLiteral ∧ k ≠ .concatenation ∧ k ≠ .methodCall := by
  simp [hasValueKind, and_assoc]

theorem literal_of_not_hasValueKind (h : hasValueKind t.kind = false) :
    t.literal s = .error t.unsupported := by
  obtain ⟨hs, hn, hc, hm⟩ := hasValueKind_eq_false_iff.mp h
  rw [literal]
  split
  case h_1 hk => exact absurd hk hs
  case h_2 hk => exact absurd hk hn
  case h_3 hk => exact absurd hk hc
  case h_4 hk => exact absurd hk hm
  case h_5 => rfl

end PropertyHarvest.Tree
