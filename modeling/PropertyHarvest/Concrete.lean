/-
# Concrete trees

A grammar's own tree of a source file.  A node says which construct it is,
which role it has under its parent (its field), where it stands, and whether
the grammar could make sense of it.  Punctuation and keywords are nodes too;
they are the ones that are not named.

Nothing is asked of such a tree: a node may have any word, any field and any
children, and its bytes need not lie within those of its parent.  What a grammar
guarantees is said where it is used (`Concrete.Rules`, `Concrete.Regular`,
`Concrete.Anchored`), and always as a hypothesis.

The mark `hasError` is the grammar's and is trusted as it stands.  What follows if it
is right everywhere is in `Proofs.SourceFile.SyntaxErrors`.

A tree is written down as the list of its nodes with the numbers of their children, and
read back from there (`ofPreorder?`); a list that does not describe one tree is none.
-/

namespace PropertyHarvest

/-- What a grammar tells of one node. -/
structure Label where
  /-- The grammar's word for the construct. -/
  kind : String
  /-- The role under the parent. -/
  field? : Option String
  /-- The row of the first character, counted from zero. -/
  row : Nat
  /-- The byte where the node starts. -/
  start : Nat
  /-- The byte after the node. -/
  stop : Nat
  /-- Set for constructs, not for punctuation and keywords. -/
  named : Bool
  /-- The source could not be read here. -/
  isError : Bool
  /-- The source lacks this node. -/
  isMissing : Bool
  /-- The node, or one below it, is an error or missing. -/
  hasError : Bool
  deriving DecidableEq, Repr, Inhabited

/-- A node with its label and its children. -/
inductive Concrete where
  | node (label : Label) (children : List Concrete)
  deriving Repr

namespace Concrete

def label : Concrete → Label
  | .node l _ => l

def children : Concrete → List Concrete
  | .node _ cs => cs

/-- The tree of an empty file. -/
def blank : Concrete :=
  .node ⟨"program", none, 0, 0, 0, true, false, false, false⟩ []

def kind (c : Concrete) : String :=
  c.label.kind

/-- The line of the first character, counted from one. -/
def line (c : Concrete) : Nat :=
  c.label.row + 1

/-- The children that are constructs. -/
def namedChildren (c : Concrete) : List Concrete :=
  c.children.filter (·.label.named)

def childrenIn (c : Concrete) (field : String) : List Concrete :=
  c.children.filter (·.label.field? == some field)

def child? (c : Concrete) (field : String) : Option Concrete :=
  c.children.find? (·.label.field? == some field)

/-! ## Size -/

mutual

def size : Concrete → Nat
  | .node _ cs => sizes cs + 1

def sizes : List Concrete → Nat
  | [] => 0
  | c :: cs => c.size + sizes cs

end

theorem size_lt_of_mem {x c : Concrete} (h : x ∈ c.children) : x.size < c.size := by
  obtain ⟨l, cs⟩ := c
  rw [size]
  change x ∈ cs at h
  induction cs with
  | nil => cases h
  | cons y ys ih =>
    rw [sizes]
    cases h with
    | head => omega
    | tail _ h => have := ih h; omega

theorem size_lt_of_named {x c : Concrete} (h : x ∈ c.namedChildren) : x.size < c.size :=
  size_lt_of_mem (List.mem_filter.mp h).1

theorem size_lt_of_childrenIn {x c : Concrete} {field : String} (h : x ∈ c.childrenIn field) :
    x.size < c.size :=
  size_lt_of_mem (List.mem_filter.mp h).1

theorem size_lt_of_child? {x c : Concrete} {field : String} (h : c.child? field = some x) :
    x.size < c.size :=
  size_lt_of_mem (List.mem_of_find?_eq_some h)

/-! ## Reading a tree from its pre-order

A tree is written as the list of its nodes in pre-order, each with the number
of its children.  Read from the end, every node finds its children in front of
it. -/

/-- Gathers the first `count` trees under a new node. -/
def gather (label : Label) (count : Nat) (trees : List Concrete) : Option (List Concrete) :=
  let children := trees.take count
  if children.length = count then some (.node label children :: trees.drop count) else none

/-- The trees written by a list of nodes. -/
def forest? (nodes : List (Label × Nat)) : Option (List Concrete) :=
  nodes.foldr (fun (label, count) trees? => trees?.bind (gather label count)) (some [])

/-- The tree written by a list of nodes, if it is exactly one. -/
def ofPreorder? (nodes : List (Label × Nat)) : Option Concrete :=
  match forest? nodes with
  | some [c] => some c
  | _ => none

/-! ## Errors -/

mutual

/-- The line of the first error or missing node, in pre-order.  Below the start
only nodes that are marked to hold an error are searched. -/
def firstErrorLine? : Concrete → Option Nat
  | .node l cs => if l.isError || l.isMissing then some (l.row + 1) else firstErrorLineIn? cs

def firstErrorLineIn? : List Concrete → Option Nat
  | [] => none
  | c :: cs =>
    match if c.label.hasError then firstErrorLine? c else none with
    | some line => some line
    | none => firstErrorLineIn? cs

end

end Concrete

end PropertyHarvest
