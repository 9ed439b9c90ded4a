/-
# The grouping of operands

A sum of three or more operands can be grouped in several ways, and each way is
another tree.  `Joins t operands` says that the tree joins the operands in this
order in some way.  The value of the tree does not tell the way:

    every operand has a value     the values one after the other, an absent one
                                  as `null`
    some operand is refused       the refusal of the first such operand

Both come from one equation.  What an operand adds to a text (`operandText`) is,
for a sum, what its operands add, one after the other (`operandText_of_joins`);
and that equation composes along the grouping because appending texts is
associative and stops at the first refusal on either side.

An operand may be anything that is not itself a sum, also a call with sums in its
arguments.  Nothing is said of the order of operands: a sum in another order is
another text.
-/
import PropertyHarvest.Proofs.Literal.Constants
import PropertyHarvest.Proofs.Matching

namespace PropertyHarvest.Tree

/-- The tree joins the operands, in this order and grouped in some way.  No
operand is itself a sum. -/
inductive Joins : Tree → List Tree → Prop
  | operand {x : Tree} (kind_ne : x.kind ≠ .concatenation) : Joins x [x]
  | join {text? : Option String} {line : Nat} {left right : Tree} {xs ys : List Tree}
      (joins_left : Joins left xs) (joins_right : Joins right ys) :
      Joins (.node .concatenation text? line [left, right]) (xs ++ ys)

/-- What a tree adds to a text that it is an operand of. -/
def operandText (s : Surroundings) (t : Tree) : Except LiteralError String :=
  (t.literal s).map (·.getD nullText)

section Join

variable (s : Surroundings) (text? : Option String) (line : Nat) (left right : Tree)

theorem literal_node_concatenation :
    (node .concatenation text? line [left, right]).literal s = (do
      let l ← left.literal s
      let r ← right.literal s
      .ok (some (Literal.join l r))) :=
  literal_concatenation rfl rfl rfl

theorem operandText_join :
    (node .concatenation text? line [left, right]).operandText s = (do
      let l ← left.operandText s
      let r ← right.operandText s
      .ok (l ++ r)) := by
  rw [operandText, literal_node_concatenation, operandText, operandText]
  cases left.literal s with
  | error e => rfl
  | ok l => cases right.literal s <;> rfl

theorem literal_join :
    (node .concatenation text? line [left, right]).literal s =
      ((node .concatenation text? line [left, right]).operandText s).map some := by
  rw [operandText, literal_node_concatenation]
  cases left.literal s with
  | error e => rfl
  | ok l => cases right.literal s <;> rfl

end Join

variable {s : Surroundings} {t : Tree} {operands : List Tree}

/-- What a sum adds to a text is what its operands add to it, one after the
other. -/
theorem operandText_of_joins (h : Joins t operands) :
    t.operandText s = (operands.mapM (operandText s)).map String.join := by
  induction h with
  | @operand x =>
      rw [List.mapM_cons, List.mapM_nil]
      cases x.operandText s with
      | error e => rfl
      | ok text => exact congrArg Except.ok (String.empty_append).symm
  | @join text? line left right xs ys _ _ ihl ihr =>
      rw [operandText_join, ihl, ihr, List.mapM_append]
      cases xs.mapM (operandText s) with
      | error e => rfl
      | ok ls =>
          cases ys.mapM (operandText s) with
          | error e => rfl
          | ok rs => exact congrArg Except.ok String.join_append.symm

theorem literal_eq_of_joins (h : Joins t operands) (several : 2 ≤ operands.length) :
    t.literal s = ((operands.mapM (operandText s)).map String.join).map some := by
  rw [← operandText_of_joins h]
  cases h with
  | operand => exact absurd several (Nat.not_succ_le_self 1)
  | join => exact literal_join s _ _ _ _

/-- However the operands are grouped, the sum is the text of all of them, one
after the other and an absent one as `null`, or it is refused as the first of
them that is refused; so two groupings of operands that come to the same come to
the same. -/
theorem literal_of_joins (h : Joins t operands) (several : 2 ≤ operands.length)
    (s : Surroundings) :
    (∀ values, List.Forall₂ (fun x v => x.literal s = .ok v) operands values →
      t.literal s = .ok (some (String.join (values.map (·.getD "null"))))) ∧
    (∀ before x after e, operands = before ++ x :: after →
      (∀ y ∈ before, ∃ v, y.literal s = .ok v) → x.literal s = .error e →
      t.literal s = .error e) ∧
    ∀ u others, Joins u others → others.map (literal s) = operands.map (literal s) →
      u.literal s = t.literal s := by
  have text_of_ok {x : Tree} {v : Option String} (hx : x.literal s = .ok v) :
      x.operandText s = .ok (v.getD "null") := by
    rw [operandText, hx]
    rfl
  rw [literal_eq_of_joins h several]
  refine ⟨fun values hvalues => ?_, fun before x after e he hbefore hx => ?_,
    fun u others hu hothers => ?_⟩
  · have htexts : List.Forall₂ (fun x v => x.operandText s = .ok v) operands
        (values.map (·.getD "null")) := by
      rw [← List.map_id operands]
      exact forall₂_map hvalues fun x _ v hx => text_of_ok hx
    rw [mapM_of_forall₂ htexts]
    rfl
  · have hrefused : x.operandText s = .error e := by
      rw [operandText, hx]
      rfl
    have hmade : ∀ y ∈ before, ∃ v, y.operandText s = .ok v := by
      intro y hy
      obtain ⟨v, hv⟩ := hbefore y hy
      exact ⟨_, text_of_ok hv⟩
    rw [he, mapM_of_first_error hmade hrefused]
    rfl
  · have hlength : others.length = operands.length := by
      simpa only [List.length_map] using congrArg List.length hothers
    have hmap (xs : List Tree) : xs.mapM (operandText s) =
        (xs.map (literal s)).mapM fun r => r.map (·.getD nullText) := by
      rw [List.mapM_map]
      rfl
    rw [literal_eq_of_joins hu (hlength ▸ several), hmap, hmap, hothers]

/-- `("a" + null) + Outer.METHOD_DEF.getName()`, grouped as it is read. -/
def groupedLeft : Tree :=
  interior .concatenation 1 [
    interior .concatenation 1 [token .stringLiteral "\"a\"" 1, token .nullLiteral "null" 1],
    askedName .identifier "METHOD_DEF"]

/-- The same operands, the last two joined first. -/
def groupedRight : Tree :=
  interior .concatenation 1 [token .stringLiteral "\"a\"" 1,
    interior .concatenation 1 [token .nullLiteral "null" 1, askedName .identifier "METHOD_DEF"]]

def groupedOperands : List Tree :=
  [token .stringLiteral "\"a\"" 1, token .nullLiteral "null" 1, askedName .identifier "METHOD_DEF"]

theorem joins_groupedLeft : Joins groupedLeft groupedOperands :=
  .join (.join (.operand (by decide)) (.operand (by decide))) (.operand (by decide))

theorem joins_groupedRight : Joins groupedRight groupedOperands :=
  .join (.operand (by decide)) (.join (.operand (by decide)) (.operand (by decide)))

theorem literal_of_joins_threeOperands :
    groupedLeft.literal ⟨"", "", []⟩ = .ok (some "anullMETHOD_DEF") ∧
      groupedRight.literal ⟨"", "", []⟩ = groupedLeft.literal ⟨"", "", []⟩ := by
  have several : 2 ≤ groupedOperands.length := by decide
  obtain ⟨hvalue, -, hsame⟩ := literal_of_joins joins_groupedLeft several ⟨"", "", []⟩
  have hvalues : List.Forall₂ (fun x v => x.literal ⟨"", "", []⟩ = .ok v) groupedOperands
      [some "a", none, some "METHOD_DEF"] :=
    .cons (literal_string rfl rfl) (.cons (literal_null rfl)
      (.cons (literal_askedName _ _ _) .nil))
  exact ⟨hvalue _ hvalues, hsame _ _ joins_groupedRight rfl⟩

end PropertyHarvest.Tree
