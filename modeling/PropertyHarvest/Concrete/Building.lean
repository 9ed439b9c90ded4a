/-
# Building the arena of a file

The lowering as it is run: a concrete tree is read once, and each node of the
syntax tree is added to the arena when what lies below it is there.  A step
answers with the numbers of the nodes that it leaves for somebody to take.

Numbers follow the order of the additions, which is not reading order.  The name
of a call is added before its receiver, and the modifiers of a declaration once
more for each declarator.  So it has to be proved that every number that is
answered is taken exactly once; what is built is the tree of `Lowering`, laid
out.

A step that builds several nodes answers with their numbers in the order in which
they are to stand as children.  The walk down is that of `Lowering`, function by
function, so that the two can be compared one by one; the sizes that make it end are
the same.

A refused file is refused before anything is built.
-/
import PropertyHarvest.Arena
import PropertyHarvest.Concrete.Lowering

namespace PropertyHarvest.Concrete

variable (slice : Slice)

/-! ## Leaves, names and types -/

def buildLeaf (k : Kind) (c : Concrete) : Build Nat :=
  Build.token k (c.text slice) c.line

def buildName (c : Concrete) : Build Nat :=
  match c.kind with
  | "identifier" | "type_identifier" => c.buildLeaf slice .identifier
  | "scoped_identifier" | "scoped_type_identifier" =>
    match h : c.namedChildren with
    | scope :: next :: rest => do
      have := size_lt_of_named (h ▸ List.mem_cons_self : scope ∈ c.namedChildren)
      let scope ← buildName scope
      let name ← ((next :: rest).getLast (by simp)).buildLeaf slice .identifier
      Build.node .memberAccess c.line [scope, name]
    | _ => c.buildLeaf slice .identifier
  | "generic_type" =>
    match h : c.namedChildren with
    | base :: _ =>
      have := size_lt_of_named (h ▸ List.mem_cons_self : base ∈ c.namedChildren)
      buildName base
    | [] => c.buildLeaf slice (.other "generic_type")
  | kind => c.buildLeaf slice (.other kind)
termination_by c.size

def buildTypeName (c : Concrete) : Build (List Nat) :=
  match c.kind with
  | "type_identifier" | "scoped_type_identifier" | "generic_type" => do
    return [← c.buildName slice]
  | _ => return []

def buildType (c : Concrete) : Build Nat := do
  Build.node .typeRef c.line (← c.buildTypeName slice)

def buildPackage (c : Concrete) : Build Nat := do
  let names ←
    (c.namedChildren.filter fun x => x.kind == "identifier" || x.kind == "scoped_identifier")
      |> Build.each fun x => do return [← x.buildName slice]
  Build.node .packageDecl c.line names

def buildClassLiteral (c : Concrete) : Build Nat := do
  let type ← Build.maybe (buildName slice) c.namedChildren.head?
  let member ← Build.token .classLiteral "class" c.line
  Build.node .memberAccess c.line (type ++ [member])

def buildString (c : Concrete) : Build Nat :=
  if (c.text slice).startsWith "\"\"\"" then c.buildLeaf slice (.other "text_block")
  else c.buildLeaf slice .stringLiteral

/-- Adds the access to a method of a receiver; without one the name is left for
the call to take. -/
def buildCallee (line : Nat) : List Nat → List Nat → Build (List Nat)
  | [object], [name] => do return [← Build.node .memberAccess line [object, name]]
  | object, name => return object ++ name

/-! ## Everything else -/

mutual

/-- Adds the node as one node. -/
def build (c : Concrete) : Build Nat :=
  match Form.ofKind c.kind with
  | .package => c.buildPackage slice
  | .branch k => do Build.node k c.line (← buildContent c)
  | .leaf k => c.buildLeaf slice k
  | .modifiers => buildModifiers c
  | .annotationUse => buildAnnotationUse c
  | .call => buildCall c
  | .arguments => buildArguments c
  | .access => do
    let object ← buildIn c "object"
    let member ← buildIn c "field"
    Build.node .memberAccess c.line (object ++ member)
  | .qualifiedName => c.buildName slice
  | .classLiteral => c.buildClassLiteral slice
  | .operation => do
    let left ← buildContributionIn c "left"
    let right ← buildContributionIn c "right"
    Build.node c.operationKind c.line (left ++ right)
  | .string => c.buildString slice
  | .type => c.buildType slice
  | .comment | .parentheses | .declaration | .other =>
    if c.namedChildren.isEmpty then c.buildLeaf slice (.other c.kind)
    else do Build.node (.other c.kind) c.line (← buildContent c)
termination_by (c.size, 2)

/-- Adds what the node adds to the children of its parent. -/
def buildContribution (c : Concrete) : Build (List Nat) :=
  match Form.ofKind c.kind with
  | .comment => return []
  | .parentheses => buildContent c
  | .declaration => buildVariables c
  | _ => do return [← build c]
termination_by (c.size, 3)

def buildContent (c : Concrete) : Build (List Nat) :=
  c.namedChildren.attach |> Build.each fun ⟨x, h⟩ =>
    have := size_lt_of_named h
    buildContribution x
termination_by (c.size, 1)

def buildIn (c : Concrete) (field : String) : Build (List Nat) :=
  (c.child? field).attach |> Build.maybe fun ⟨x, h⟩ =>
    have := size_lt_of_child? h
    build x
termination_by (c.size, 0)

def buildContributionIn (c : Concrete) (field : String) : Build (List Nat) :=
  match h : c.child? field with
  | some x =>
    have := size_lt_of_child? h
    buildContribution x
  | none => return []
termination_by (c.size, 0)

def buildVariables (c : Concrete) : Build (List Nat) :=
  (c.childrenIn "declarator").attach |> Build.each fun ⟨d, hd⟩ => do
    have := size_lt_of_childrenIn hd
    let modifiers ← buildDeclaredModifiers c
    let type ← Build.maybe (buildType slice) (c.child? "type")
    let name ← Build.maybe (buildLeaf slice .identifier) (d.child? "name")
    let value ← buildValue d
    return [← Build.node .variableDecl d.line (modifiers :: (type ++ name ++ value))]
termination_by (c.size, 1)

def buildDeclaredModifiers (c : Concrete) : Build Nat :=
  match h : c.modifiers? with
  | some m =>
    have := size_lt_of_modifiers? h
    buildModifiers m
  | none => Build.node .modifiers c.line []
termination_by (c.size, 0)

/-- Adds the initializer of a declarator, wrapped. -/
def buildValue (d : Concrete) : Build (List Nat) :=
  (d.child? "value").attach |> Build.maybe fun ⟨v, h⟩ => do
    have := size_lt_of_child? h
    Build.node .expression v.line (← buildContribution v)
termination_by (d.size, 0)

def buildModifiers (c : Concrete) : Build Nat := do
  let marks ← c.children.attach |> Build.each fun ⟨x, h⟩ =>
    have := size_lt_of_mem h
    match x.kind with
    | "final" => do return [← x.buildLeaf slice .finalModifier]
    | "marker_annotation" | "annotation" => do return [← buildAnnotationUse x]
    | _ => return []
  Build.node .modifiers c.line marks
termination_by (c.size, 0)

def buildAnnotationUse (c : Concrete) : Build Nat := do
  let name ← Build.maybe (buildName slice) (c.child? "name")
  let arguments ← buildIn c "arguments"
  Build.node .annotationUse c.line (name ++ arguments)
termination_by (c.size, 1)

/-- The name is there before the receiver, which stands in front of it. -/
def buildCall (c : Concrete) : Build Nat := do
  let name ← Build.maybe (buildLeaf slice .identifier) (c.child? "name")
  let object ← buildIn c "object"
  let callee ← buildCallee c.line object name
  let arguments ← (c.child? "arguments").attach |> Build.maybe fun ⟨x, h⟩ =>
    have := size_lt_of_child? h
    buildArguments x
  Build.node .methodCall c.line (callee ++ arguments)
termination_by (c.size, 1)

def buildArguments (c : Concrete) : Build Nat := do
  let arguments ← c.namedChildren.attach |> Build.each fun ⟨x, h⟩ => do
    have := size_lt_of_named h
    let ids ← buildContribution x
    if ids.isEmpty then return [] else return [← Build.node .expression x.line ids]
  Build.node .argumentList c.line arguments
termination_by (c.size, 1)

end

/-- Adds the unit of a whole file. -/
def buildUnit (c : Concrete) : Build Nat := do
  Build.node .compilationUnit c.line (← c.buildContent slice)

/-- The arena of a whole file. -/
def fileArena (c : Concrete) : Except SyntaxError Arena :=
  if c.label.hasError then .error ⟨c.firstErrorLine?.getD c.line⟩
  else .ok (c.buildUnit slice).finish

end PropertyHarvest.Concrete
