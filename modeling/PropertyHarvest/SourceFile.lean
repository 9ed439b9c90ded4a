/-
# Source files

A source file is its text together with the grammar's tree of it.

The tree is the grammar's and is not checked against the text.  A node tells where
it starts and stops, in bytes, and what stands between is its text (`slice`); bytes
that cut a character in two have the empty text.  Everything that is proved of source files
is proved of all pairs of a text and a tree, with what is asked of the tree said in
the statement.

A file has two readings, which agree: the arena that is built, node by node, and the
tree that this arena holds.
-/
import PropertyHarvest.Concrete.Building

namespace PropertyHarvest

/-- A text and the grammar's tree of it. -/
structure SourceFile where
  text : String
  concrete : Concrete
  deriving Repr

namespace SourceFile

/-- The text between two bytes; empty if that is not a text. -/
def slice (text : String) : Concrete.Slice :=
  let bytes := text.toUTF8
  fun start stop => (String.fromUTF8? (bytes.extract start stop)).getD ""

/-- The syntax tree of the file, built node by node. -/
def arena (f : SourceFile) : Except SyntaxError Arena :=
  f.concrete.fileArena (slice f.text)

def tree (f : SourceFile) : Except SyntaxError Tree :=
  f.concrete.fileTree (slice f.text)

end SourceFile

end PropertyHarvest
