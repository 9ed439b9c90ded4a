/-
# From concrete trees to syntax trees

A concrete tree is lowered to a `Tree` from the leaves up.  Most nodes become
one node.  A comment becomes none, parentheses become what they enclose, and a
declaration becomes one node for each of its declarators; so what a node
contributes to its parent is a list (`contribution`).  Where the grammar puts
exactly one node in a role, as the receiver of a call, one tree is taken
(`tree`), and parentheses there stay.

A tree with an error or a missing node is refused with the line of the first
one.

The functions recurse on the size of the concrete tree.  The second component of the
measures orders the functions that are called on one and the same node, from
`treeIn` up to `contribution`.

`Lowering` says what tree a file stands for, with all children of a node at once.
The arena of a file is built in another order (`Concrete.Building`), and that it
holds this tree is a theorem (`Concrete.holds_of_fileArena`).
-/
import PropertyHarvest.Concrete
import PropertyHarvest.Concrete.Form
import PropertyHarvest.Tree

namespace PropertyHarvest

/-- A source file that the grammar cannot read. -/
structure SyntaxError where
  line : Nat
  deriving DecidableEq, Repr

def SyntaxError.message (e : SyntaxError) : String :=
  s!"syntax error at line {e.line}"

namespace Concrete

/-- The text of a source between two bytes. -/
abbrev Slice := Nat → Nat → String

variable (slice : Slice)

def text (c : Concrete) : String :=
  slice c.label.start c.label.stop

def leaf (k : Kind) (c : Concrete) : Tree :=
  .token k (c.text slice) c.line

/-! ## Names and types -/

/-- A dotted name: an identifier, or accesses nested to the left.  A type with
arguments is named without them. -/
def nameTree (c : Concrete) : Tree :=
  match c.kind with
  | "identifier" | "type_identifier" => c.leaf slice .identifier
  | "scoped_identifier" | "scoped_type_identifier" =>
    match h : c.namedChildren with
    | scope :: next :: rest =>
      have := size_lt_of_named (h ▸ List.mem_cons_self : scope ∈ c.namedChildren)
      .interior .memberAccess c.line
        [nameTree scope, ((next :: rest).getLast (by simp)).leaf slice .identifier]
    | _ => c.leaf slice .identifier
  | "generic_type" =>
    match h : c.namedChildren with
    | base :: _ =>
      have := size_lt_of_named (h ▸ List.mem_cons_self : base ∈ c.namedChildren)
      nameTree base
    | [] => c.leaf slice (.other "generic_type")
  | kind => c.leaf slice (.other kind)
termination_by c.size

/-- A type, with its name unless it is primitive or an array. -/
def typeTree (c : Concrete) : Tree :=
  .interior .typeRef c.line <|
    match c.kind with
    | "type_identifier" | "scoped_type_identifier" | "generic_type" => [c.nameTree slice]
    | _ => []

def packageTree (c : Concrete) : Tree :=
  .interior .packageDecl c.line <|
    (c.namedChildren.filter fun x => x.kind == "identifier" || x.kind == "scoped_identifier").map
      (nameTree slice)

/-- The access to the pseudo-member of a type. -/
def classLiteralTree (c : Concrete) : Tree :=
  .interior .memberAccess c.line <|
    c.namedChildren.head?.toList.map (nameTree slice) ++ [.token .classLiteral "class" c.line]

/-! ## Leaves -/

/-- A string literal; a text block is not one. -/
def stringTree (c : Concrete) : Tree :=
  if (c.text slice).startsWith "\"\"\"" then c.leaf slice (.other "text_block")
  else c.leaf slice .stringLiteral

def operationKind (c : Concrete) : Kind :=
  if (c.child? "operator").map kind = some "+" then .concatenation
  else .other "binary_expression"

/-! ## Everything else -/

def modifiers? (c : Concrete) : Option Concrete :=
  c.namedChildren.find? (·.kind == "modifiers")

theorem size_lt_of_modifiers? {x c : Concrete} (h : c.modifiers? = some x) : x.size < c.size :=
  size_lt_of_named (List.mem_of_find?_eq_some h)

mutual

def tree (c : Concrete) : Tree :=
  match Form.ofKind c.kind with
  | .package => c.packageTree slice
  | .branch k => .interior k c.line (content c)
  | .leaf k => c.leaf slice k
  | .modifiers => modifiersTree c
  | .annotationUse => annotationTree c
  | .call => callTree c
  | .arguments => argumentsTree c
  | .access => .interior .memberAccess c.line (treeIn c "object" ++ treeIn c "field")
  | .qualifiedName => c.nameTree slice
  | .classLiteral => c.classLiteralTree slice
  | .operation =>
    .interior c.operationKind c.line (contributionIn c "left" ++ contributionIn c "right")
  | .string => c.stringTree slice
  | .type => c.typeTree slice
  | .comment | .parentheses | .declaration | .other =>
    if c.namedChildren.isEmpty then c.leaf slice (.other c.kind)
    else .interior (.other c.kind) c.line (content c)
termination_by (c.size, 2)

/-- What the node adds to the children of its parent. -/
def contribution (c : Concrete) : List Tree :=
  match Form.ofKind c.kind with
  | .comment => []
  | .parentheses => content c
  | .declaration => variableTrees c
  | _ => [tree c]
termination_by (c.size, 3)

/-- What the constructs below the node add to it. -/
def content (c : Concrete) : List Tree :=
  c.namedChildren.attach.flatMap fun ⟨x, h⟩ =>
    have := size_lt_of_named h
    contribution x
termination_by (c.size, 1)

/-- The tree of the child in a role, if there is one. -/
def treeIn (c : Concrete) (field : String) : List Tree :=
  match h : c.child? field with
  | some x =>
    have := size_lt_of_child? h
    [tree x]
  | none => []
termination_by (c.size, 0)

/-- What the child in a role adds. -/
def contributionIn (c : Concrete) (field : String) : List Tree :=
  match h : c.child? field with
  | some x =>
    have := size_lt_of_child? h
    contribution x
  | none => []
termination_by (c.size, 0)

/-- One node for each declarator; modifiers and type are those of the whole
declaration. -/
def variableTrees (c : Concrete) : List Tree :=
  (c.childrenIn "declarator").attach.map fun ⟨d, hd⟩ =>
    have := size_lt_of_childrenIn hd
    let modifiers :=
      match h : c.modifiers? with
      | some m =>
        have := size_lt_of_modifiers? h
        modifiersTree m
      | none => .interior .modifiers c.line []
    let type := (c.child? "type").toList.map (typeTree slice)
    let name := (d.child? "name").toList.map (leaf slice .identifier)
    let value := (d.child? "value").toList.map fun v =>
      .interior .expression v.line (contributionIn d "value")
    .interior .variableDecl d.line (modifiers :: (type ++ name ++ value))
termination_by (c.size, 1)

/-- Of the modifiers, annotations and the word `final` are kept. -/
def modifiersTree (c : Concrete) : Tree :=
  .interior .modifiers c.line <| c.children.attach.flatMap fun ⟨x, h⟩ =>
    have := size_lt_of_mem h
    match x.kind with
    | "final" => [x.leaf slice .finalModifier]
    | "marker_annotation" | "annotation" => [annotationTree x]
    | _ => []
termination_by (c.size, 0)

def annotationTree (c : Concrete) : Tree :=
  .interior .annotationUse c.line
    ((c.child? "name").toList.map (nameTree slice) ++ treeIn c "arguments")
termination_by (c.size, 1)

/-- A call is its callee and its arguments; a receiver makes the callee an
access. -/
def callTree (c : Concrete) : Tree :=
  let name := (c.child? "name").toList.map (leaf slice .identifier)
  let callee :=
    match treeIn c "object", name with
    | [object], [name] => [.interior .memberAccess c.line [object, name]]
    | object, name => object ++ name
  let arguments :=
    match h : c.child? "arguments" with
    | some x =>
      have := size_lt_of_child? h
      [argumentsTree x]
    | none => []
  .interior .methodCall c.line (callee ++ arguments)
termination_by (c.size, 1)

/-- Every argument is wrapped; comments are not arguments. -/
def argumentsTree (c : Concrete) : Tree :=
  .interior .argumentList c.line <| c.namedChildren.attach.flatMap fun ⟨x, h⟩ =>
    have := size_lt_of_named h
    match contribution x with
    | [] => []
    | wrapped => [.interior .expression x.line wrapped]
termination_by (c.size, 1)

end

/-- The syntax tree of a whole file. -/
def fileTree (c : Concrete) : Except SyntaxError Tree :=
  if c.label.hasError then .error ⟨c.firstErrorLine?.getD c.line⟩
  else .ok (.interior .compilationUnit c.line (c.content slice))

end Concrete

end PropertyHarvest
