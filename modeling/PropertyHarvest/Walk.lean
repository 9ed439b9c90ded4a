/-
# Walking a tree

A `Check` is told of the nodes of a tree in reading order: it visits a node
before what is below it and leaves the node afterwards.  Only nodes of the
kinds that it asks for are shown to it.  A visit may refuse its node, and then
the walk stops at once.

The kinds are asked for once and for all.  A check whose wishes change while it
walks is not one of these.

A walk keeps a stack of steps.  Leaving a node is a step of its own that waits below
the steps of the children, and so a node is left when all below it is done.  The same
said without a stack is in `Proofs.Walk.Recursion`.  Below a node that is not shown
the walk goes on all the same.
-/
import PropertyHarvest.Arena.Node

namespace PropertyHarvest

/-- Why a walk stopped. -/
inductive ProcessError where
  /-- The check does not know what to do with a node of this kind. -/
  | unacceptableNode (kind : Kind) (line : Nat)
  deriving DecidableEq, Repr

def ProcessError.message : ProcessError → String
  | unacceptableNode kind line => s!"the processor cannot support this ast: {kind}[{line}]"

/-- A reader of trees with a state of type `σ`. -/
structure Check (σ : Type) where
  /-- The kinds of node that are shown. -/
  kinds : List Kind
  /-- What happens before the first node of a tree. -/
  start : σ → σ
  /-- What happens before the nodes below `n`. -/
  visit : {a : Arena} → (n : Node a) → σ → Except ProcessError Unit × σ
  /-- What happens after the nodes below `n`, if `n` was visited. -/
  leave : {a : Arena} → (n : Node a) → σ → σ

namespace Check

variable {σ : Type} {a : Arena}

/-- What is still to be done in a walk. -/
inductive Step (a : Arena) where
  | enter (n : Node a)
  | leave (n : Node a)

namespace Step

/-- A bound on the steps that a step leads to. -/
def weight : Step a → Nat
  | enter n => 2 * n.tree.size
  | leave _ => 1

def weights : List (Step a) → Nat
  | [] => 0
  | s :: rest => s.weight + weights rest

theorem weights_append (xs ys : List (Step a)) :
    weights (xs ++ ys) = weights xs + weights ys := by
  induction xs with
  | nil => simp [weights]
  | cons s xs ih => simp only [List.cons_append, weights, ih]; omega

theorem weights_enter (ns : List (Node a)) :
    weights (ns.map enter) = 2 * Tree.sizes (ns.map Node.tree) := by
  induction ns with
  | nil => rfl
  | cons n ns ih => simp only [List.map_cons, weights, weight, Tree.sizes, ih]; omega

theorem weights_children (n : Node a) (rest : List (Step a)) :
    weights (n.children.map enter ++ leave n :: rest) < weights (enter n :: rest) := by
  rw [weights_append, weights_enter, n.map_tree_children]
  simp only [weights, weight]
  rw [n.tree.size_eq]
  omega

end Step

/-- Takes the steps in order until one is refused. -/
def run (c : Check σ) : List (Step a) → σ → Except ProcessError Unit × σ
  | [], s => (.ok (), s)
  | .leave n :: rest, s => c.run rest (c.leave n s)
  | .enter n :: rest, s =>
    if c.kinds.contains n.kind then
      match c.visit n s with
      | (.ok (), s) => c.run (n.children.map .enter ++ .leave n :: rest) s
      | (.error e, s) => (.error e, s)
    else c.run (n.children.map .enter ++ rest) s
termination_by steps => Step.weights steps
decreasing_by
  · simp only [Step.weights, Step.weight]; omega
  · exact Step.weights_children n rest
  · refine Nat.lt_trans ?_ (Step.weights_children n rest)
    rw [Step.weights_append, Step.weights_append]
    simp only [Step.weights, Step.weight]
    omega

def walk (c : Check σ) (a : Arena) (s : σ) : Except ProcessError Unit × σ :=
  match a.root? with
  | none => (.ok (), c.start s)
  | some root => c.run [.enter root] (c.start s)

end Check

end PropertyHarvest
