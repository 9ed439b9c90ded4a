/-
# Syntax trees

A source file as the harvester reads it: a tree whose nodes carry a `Kind`, a
line, and, at tokens, their text.  The shapes that the rest of the library
relies on:

    packageDecl   [identifier | memberAccess]
    methodDecl    [modifiers, typeRef, identifier, ..., block]
    variableDecl  [modifiers, typeRef, identifier, expression?]
    methodCall    [identifier | memberAccess, argumentList]
    memberAccess  [object, identifier | classLiteral]
    argumentList  [expression, ...]
    expression    [content]
    concatenation [left, right]
    annotationUse [identifier | memberAccess, ...]
    modifiers     [annotationUse | finalModifier, ...]

Every function on trees is total on the other shapes as well.

A tree has no links and no numbers: it is what there is to say of a source file
without regard to how its nodes are kept.  Two trees are compared as values.  Where a
node stands, and what is above it, is said by the functions that walk down to it
(`Tree.located`, `Arena.Node`).
-/
import PropertyHarvest.Kind

namespace PropertyHarvest

/-- A node with its kind, its text (tokens only), its line and its children. -/
inductive Tree where
  | node (kind : Kind) (text? : Option String) (line : Nat) (children : List Tree)
  deriving Repr

namespace Tree

instance : Inhabited Tree := ⟨.node .compilationUnit none 1 []⟩

/-- A leaf that carries source text. -/
def token (kind : Kind) (text : String) (line : Nat) : Tree :=
  .node kind (some text) line []

/-- A node that owns children and no text. -/
def interior (kind : Kind) (line : Nat) (children : List Tree) : Tree :=
  .node kind none line children

def kind : Tree → Kind
  | .node k _ _ _ => k

def text? : Tree → Option String
  | .node _ t _ _ => t

def line : Tree → Nat
  | .node _ _ l _ => l

def children : Tree → List Tree
  | .node _ _ _ cs => cs

def is (t : Tree) (k : Kind) : Bool :=
  t.kind == k

def firstChild? (t : Tree) : Option Tree :=
  t.children.head?

/-- The child after the first: the member of a dotted access. -/
def secondChild? (t : Tree) : Option Tree :=
  t.children[1]?

def lastChild? (t : Tree) : Option Tree :=
  t.children.getLast?

def findFirstChild? (t : Tree) (k : Kind) : Option Tree :=
  t.children.find? (·.is k)

/-! ## Size -/

mutual

def size : Tree → Nat
  | .node _ _ _ cs => sizes cs + 1

def sizes : List Tree → Nat
  | [] => 0
  | t :: ts => t.size + sizes ts

end

theorem size_eq (t : Tree) : t.size = sizes t.children + 1 := by
  cases t
  rfl

theorem size_le_sizes {t : Tree} {ts : List Tree} (h : t ∈ ts) : t.size ≤ sizes ts := by
  induction ts with
  | nil => cases h
  | cons u us ih =>
      rw [sizes]
      cases h with
      | head => omega
      | tail _ h => have := ih h; omega

theorem sizes_append (ts us : List Tree) : sizes (ts ++ us) = sizes ts + sizes us := by
  induction ts with
  | nil => simp [sizes]
  | cons t ts ih => simp only [List.cons_append, sizes, ih]; omega

theorem size_lt_of_mem {c t : Tree} (h : c ∈ t.children) : c.size < t.size := by
  have := size_le_sizes h
  rw [size_eq t]
  omega

theorem mem_of_firstChild? {c t : Tree} (h : t.firstChild? = some c) : c ∈ t.children :=
  List.mem_of_mem_head? h

theorem mem_of_lastChild? {c t : Tree} (h : t.lastChild? = some c) : c ∈ t.children :=
  List.mem_of_getLast? h

theorem mem_of_findFirstChild? {c t : Tree} {k : Kind} (h : t.findFirstChild? k = some c) :
    c ∈ t.children :=
  List.mem_of_find?_eq_some h

theorem kind_of_findFirstChild? {c t : Tree} {k : Kind} (h : t.findFirstChild? k = some c) :
    c.kind = k :=
  eq_of_beq (List.find?_some (p := fun c : Tree => c.is k) h)

/-! ## Dotted names

Names are chains of `identifier` and `memberAccess`, nested to the left.  Three
readings of such a chain are used: the whole dotted text, the simple name at its
end, and the name just before the end.
-/

/-- The dotted text of a chain of names; nothing for any other shape, such as
a chain that starts at a call. -/
def dottedName? : Tree → Option String
  | .node .identifier text? _ _ => text?
  | .node .memberAccess _ _ (object :: member :: _) =>
    match object.dottedName?, member.dottedName? with
    | some o, some m => some (o ++ "." ++ m)
    | _, _ => none
  | _ => none

/-- The simple name of what is called: `c` in `a.b.c`. -/
def calledName? : Tree → Option String
  | .node .identifier text? _ _ => text?
  | .node .memberAccess _ _ (_ :: member :: _) => member.calledName?
  | _ => none

/-- The name of the receiver: `b` in `a.b.c`; an undotted name is its own
receiver. -/
def receiverName? : Tree → Option String
  | .node .identifier text? _ _ => text?
  | .node .memberAccess _ _ (object :: _) => object.calledName?
  | _ => none

end Tree

end PropertyHarvest
