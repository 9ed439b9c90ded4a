/-
# Declarations of variables

Inside a test method two kinds of declaration matter: a configuration handle,
made by a factory call that names the module under test, and a `final File`
local.  Fields, other types and other initializers are of no interest.  A
factory whose argument names no module is refused.

A declaration is told by its parts, each found by its kind among the children: the
declared type, the declared name, the initializer and the modifiers.  The first of a
kind counts.  A type that is written with its package is none of the known types,
for its name is not a simple one.

Only the declaration itself is looked at.  Whether the handle was bound before, and
by what, is a question for the scope, and a declaration that is ignored here leaves
an older binding as it is (`Proofs.Harvester.Redeclaration`).

Three outcomes are possible for a declaration that can be told: it binds a handle to a
module, it makes a file handle, or it is ignored.  The fourth is a refusal, and there is
one cause for it, a factory of a configuration whose argument names no module.  What
kind of argument was met is said in the reason.
-/
import PropertyHarvest.Literal

namespace PropertyHarvest

/-- What a declaration contributes to its method. -/
inductive Declaration where
  /-- A handle bound to the configuration of a module. -/
  | configuration (handle : String) (module : String)
  /-- A `final File` local. -/
  | fileHandle (handle : String)
  | ignored
  deriving DecidableEq, Repr

/-- The name and the argument list of an undotted call. -/
def Tree.creationCall? (t : Tree) : Option (String × Option Tree) :=
  if t.is .methodCall then
    match t.firstChild? with
    | some callee =>
      if callee.is .identifier then
        callee.text?.map fun name => (name, t.findFirstChild? .argumentList)
      else none
    | none => none
  else none

namespace Declaration

/-! ## Parts of a declaration -/

/-- Whether a declaration below a node of kind `parent?` is local: it has a
parent, and the parent is not the body of a type. -/
def isLocal (parent? : Option Kind) : Bool :=
  parent?.any (· != .classBody)

def typeName? (t : Tree) : Option String :=
  ((t.findFirstChild? .typeRef).bind (·.findFirstChild? .identifier)).bind Tree.text?

def declaredName? (t : Tree) : Option String :=
  (t.findFirstChild? .identifier).bind Tree.text?

/-- The expression that the variable starts with. -/
def initializer? (t : Tree) : Option Tree :=
  (t.findFirstChild? .expression).bind Tree.firstChild?

def isFinal (t : Tree) : Bool :=
  ((t.findFirstChild? .modifiers).bind (·.findFirstChild? .finalModifier)).isSome

/-! ## The module that a factory call names -/

/-- `Foo` in `Foo.class` and in `a.b.Foo.class`. -/
def classLiteralName? (access : Tree) : Option String :=
  match access.firstChild?, access.secondChild? with
  | some owner, some member =>
    if member.is .classLiteral then
      match owner.kind with
      | .identifier => owner.text?
      | .memberAccess => (owner.lastChild?.filter (·.is .identifier)).bind Tree.text?
      | _ => none
    else none
  | _, _ => none

/-- The module that the one argument of a factory names, or why it names none. -/
def moduleOfContent (content : Tree) : Except String String :=
  match content.kind with
  | .stringLiteral =>
    match content.text?.bind unquote? with
    | some module => .ok module
    | none => .error "malformed string literal"
  | .memberAccess =>
    match classLiteralName? content with
    | some module => .ok module
    | none => .error s!"{content.kind} is not a class literal"
  | kind => .error s!"{kind} is neither a string nor a class literal"

def wrappedArguments (arguments? : Option Tree) : List Tree :=
  arguments?.elim [] fun arguments => arguments.children.filter (·.is .expression)

/-- The module that a factory's arguments name, or why they name none. -/
def moduleOfArguments (arguments? : Option Tree) : Except String String :=
  match wrappedArguments arguments? with
  | [expression] =>
    match expression.firstChild? with
    | some content => moduleOfContent content
    | none => .error "empty argument"
  | expressions => .error s!"expected exactly one argument, found {expressions.length}"

/-- The module that a factory call configures. -/
def moduleOf (factory : Idiom.Factory) (call : Tree) (arguments? : Option Tree) :
    Except LiteralError String :=
  match factory with
  | .root => .ok Idiom.rootModule
  | .treeWalker => .ok Idiom.treeWalkerModule
  | .fromArgument =>
    (moduleOfArguments arguments?).mapError (.unsupportedCreationArgument · call.line)

/-! ## Classification -/

def factoryCall? (t : Tree) : Option (Idiom.Factory × Tree × Option Tree) := do
  let call ← initializer? t
  let (name, arguments?) ← call.creationCall?
  let factory ← Idiom.Factory.ofName? name
  some (factory, call, arguments?)

/-- What the declaration `t` contributes when it stands below a node of kind
`parent?`. -/
def classify (parent? : Option Kind) (t : Tree) : Except LiteralError Declaration :=
  if isLocal parent? then
    match typeName? t, declaredName? t with
    | some type, some handle =>
      if Idiom.isConfigurationType type then
        match factoryCall? t with
        | some (factory, call, arguments?) =>
          (moduleOf factory call arguments?).map (.configuration handle)
        | none => .ok .ignored
      else if Idiom.isFileHandleType type && isFinal t then
        .ok (.fileHandle handle)
      else .ok .ignored
    | _, _ => .ok .ignored
  else .ok .ignored

end Declaration

end PropertyHarvest
