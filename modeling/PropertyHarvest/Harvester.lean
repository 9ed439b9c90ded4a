/-
# The harvester

The harvester is the check that reads test files.  It opens a scope at a method
that carries a test annotation, fills it from the declarations and calls below
that method, and, when the method is left, keeps what a verified scope holds.
What cannot be understood is skipped and reported, and never stops a walk.

The harvester is a machine with one scope for all methods of all files, called node
by node.  It can be called in any order: what holds then is in
`Proofs.Harvester.Events`.  On a whole walk it comes to what can be read off the
tree, test by test (`Proofs.Harvester.Isolation`, `Proofs.Harvester.Exactness`).

Outside of tests only packages are looked at.  A method inside the open one, annotated
or not, belongs to the open one.

The number of a method is kept to know which leave closes the scope.  Nothing else in
the state refers to a node.
-/
import PropertyHarvest.CallSite
import PropertyHarvest.MethodScope
import PropertyHarvest.Walk

namespace PropertyHarvest

inductive Skipped where
  /-- A handle that could not be bound. -/
  | binding (handle : String)
  /-- A property of a module. -/
  | property (module : String)
  deriving DecidableEq, Repr

def Skipped.text : Skipped → String
  | binding handle => s!"skipped configuration `{handle}`"
  | property module => s!"skipped property of {module}"

/-- A declaration or a call that was skipped, with its line and the reason. -/
structure Diagnostic where
  line : Nat
  skipped : Skipped
  reason : LiteralError
  deriving DecidableEq, Repr

/-- The state of a run over any number of files. -/
structure Harvester where
  /-- Put in front of every built path. -/
  basePath : String
  /-- The package of the current file, `a/b/c/`, or empty. -/
  packagePath : String := ""
  /-- The open method of the current file. -/
  scope : MethodScope := .empty
  /-- What the verified methods set. -/
  found : Accumulation := .empty
  /-- What was skipped and not yet reported, oldest first. -/
  diagnostics : List Diagnostic := []
  deriving DecidableEq, Repr, Inhabited

namespace Harvester

def acceptableKinds : List Kind :=
  [.packageDecl, .methodDecl, .variableDecl, .methodCall]

/-- A harvester that has seen nothing. -/
def ofBasePath (basePath : String) : Harvester := { basePath }

/-- Hands out what was found and starts anew. -/
def drain (h : Harvester) : Modules × Harvester :=
  let (modules, found) := h.found.drain
  (modules, { h with found })

/-- Hands out what was skipped since the last time. -/
def takeDiagnostics (h : Harvester) : List Diagnostic × Harvester :=
  (h.diagnostics, { h with diagnostics := [] })

/-! ## The four kinds of node -/

def packageName? (package : Tree) : Option String :=
  (package.children.find? fun c => c.is .identifier || c.is .memberAccess).bind Tree.dottedName?

/-- A dotted name as the path of a directory, closed by a slash. -/
def pathOfName (name : String) : String :=
  String.ofList (name.toList.map fun c => if c = '.' then '/' else c) ++ "/"

/-- Whether a method carries a test annotation. -/
def hasTestAnnotation (method : Tree) : Bool :=
  match method.findFirstChild? .modifiers with
  | none => false
  | some modifiers =>
    (modifiers.children.filter (·.is .annotationUse)).any fun mark =>
      (mark.firstChild?.bind Tree.dottedName?).any Idiom.isTestAnnotation

def visitPackage (h : Harvester) (package : Tree) : Harvester :=
  { h with packagePath := (packageName? package).elim "" pathOfName }

def visitMethod (h : Harvester) (id : Nat) (method : Tree) : Harvester :=
  if !h.scope.isActive && hasTestAnnotation method then
    { h with scope := (h.scope.enter id).2 }
  else h

def skip (h : Harvester) (line : Nat) (skipped : Skipped) (reason : LiteralError) : Harvester :=
  { h with diagnostics := h.diagnostics ++ [⟨line, skipped, reason⟩] }

def visitVariable (h : Harvester) (parent? : Option Kind) (declaration : Tree) : Harvester :=
  match Declaration.classify parent? declaration with
  | .ok (.configuration handle module) => { h with scope := h.scope.bind handle module }
  | .ok (.fileHandle handle) => { h with scope := h.scope.addFileHandle handle }
  | .ok .ignored => h
  | .error reason =>
    h.skip declaration.line (.binding ((Declaration.declaredName? declaration).getD "")) reason

/-- What values depend on at this point of the walk. -/
def surroundings (h : Harvester) : Surroundings :=
  ⟨h.basePath, h.packagePath, h.scope.fileHandles⟩

def visitCall (h : Harvester) (above : List Kind) (call : Tree) : Harvester :=
  match CallSite.classify h.scope.isBound above call with
  | .setProperty handle =>
    match h.scope.moduleOf? handle with
    | none => h
    | some module =>
      match CallSite.property h.surroundings (call.findFirstChild? .argumentList) with
      | .ok (some p) => { h with scope := h.scope.addProperty module p }
      | .ok none => h
      | .error reason => h.skip call.line (.property module) reason
  | .verification => { h with scope := h.scope.markVerified }
  | .other => h

/-! ## The check -/

/-- A new file forgets the package and the scope of the last one. -/
def startFile (h : Harvester) : Harvester :=
  { h with packagePath := "", scope := .empty }

/-- Takes a node in; declarations and calls matter only while a method is
open. -/
def visit {a : Arena} (n : Node a) (h : Harvester) : Except ProcessError Unit × Harvester :=
  match n.kind with
  | .packageDecl => (.ok (), h.visitPackage n.tree)
  | .methodDecl => (.ok (), h.visitMethod n.id n.tree)
  | .variableDecl =>
    (.ok (), if h.scope.isActive then h.visitVariable (n.parent?.map Node.kind) n.tree else h)
  | .methodCall => (.ok (), if h.scope.isActive then h.visitCall n.above n.tree else h)
  | kind => (.error (.unacceptableNode kind n.line), h)

/-- Closes the scope when the method that opened it is left. -/
def leave {a : Arena} (n : Node a) (h : Harvester) : Harvester :=
  if n.is .methodDecl && h.scope.isActiveMethod n.id then
    match h.scope.finish with
    | (some properties, scope) => { h with scope, found := h.found.merge properties }
    | (none, scope) => { h with scope }
  else h

def check : Check Harvester where
  kinds := acceptableKinds
  start := startFile
  visit := visit
  leave := leave

def harvest (h : Harvester) (a : Arena) : Except ProcessError Unit × Harvester :=
  check.walk a h

end Harvester

end PropertyHarvest
