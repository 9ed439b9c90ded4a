/-
# Trees in messages

A node is shown as its kind, its quoted text if it is a token, and its line.  A
tree is shown as its outline: its nodes in reading order, each with its depth.

The depths tell the shape, so a tree can be put together again from its outline.  The
description of a node tells less: a word of the grammar that is spelled as a kind is
shown like that kind.

Both are for messages and for looking at a tree.  No decision of the harvester depends
on how a node is shown.
-/
import PropertyHarvest.Text.Quoted
import PropertyHarvest.Tree

namespace PropertyHarvest.Tree

/-- The node on one line, without what is below it. -/
def description (t : Tree) : String :=
  match t.text? with
  | some text => t.kind.name ++ "(" ++ Quoted.quote text ++ ")@" ++ toString t.line
  | none => t.kind.name ++ "@" ++ toString t.line

mutual

/-- The nodes in pre-order, each with its depth below the start, which is at
depth `d`. -/
def outlineAt (d : Nat) : Tree → List (Nat × Tree)
  | .node k t l cs => (d, .node k t l cs) :: outlinesAt (d + 1) cs

def outlinesAt (d : Nat) : List Tree → List (Nat × Tree)
  | [] => []
  | t :: ts => outlineAt d t ++ outlinesAt d ts

end

/-- The nodes in pre-order, each with its depth. -/
def outline (t : Tree) : List (Nat × Tree) :=
  t.outlineAt 0

end PropertyHarvest.Tree
