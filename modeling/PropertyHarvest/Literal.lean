/-
# Literal values of expressions

The value of an expression is known without running the test in five shapes:

    "text"                           text
    null                             absent
    a + b                            the two values joined, an absent one read as null
    Type.CONSTANT.toString()         CONSTANT, also for getName() and name()
    getPath("x")                     <base><resource directory><package>x

Everything else is refused, and the refusal says what was met and on which
line.  The path of a `final File` local is refused with a reason of its own.

Two recursions run through each other: an operand is a tree, an argument is a wrapper
around one.  A call is first recognised (`callShape`), and only a path builder goes
on to its argument.

Of a dotted access only the first two children are looked at, and the second may be
of any kind; what follows from that is in `Proofs.Literal.Constants`.  A wrapper with
nothing in it is refused as itself, and of a wrapper with several children the first
counts.
-/
import PropertyHarvest.Idiom
import PropertyHarvest.Tree

namespace PropertyHarvest

/-- Why an expression, or the argument of a factory, has no known value. -/
inductive LiteralError where
  /-- The argument of a factory names no module. -/
  | unsupportedCreationArgument (reason : String) (line : Nat)
  /-- The path of a file handle: its value is known only to the running test. -/
  | unsupportedFileVariable (name : String) (line : Nat)
  /-- Any other shape. -/
  | unsupportedConstruct (kind : Kind) (line : Nat)
  deriving DecidableEq, Repr

namespace LiteralError

def line : LiteralError → Nat
  | unsupportedCreationArgument _ line => line
  | unsupportedFileVariable _ line => line
  | unsupportedConstruct _ line => line

def message : LiteralError → String
  | unsupportedCreationArgument reason line =>
    s!"unsupported creation argument: {reason} (line {line})"
  | unsupportedFileVariable name line =>
    s!"file variables are not supported as values: {name} (line {line})"
  | unsupportedConstruct kind line =>
    s!"unsupported construct: {kind} (line {line})"

end LiteralError

/-- What the value of an expression depends on besides the expression. -/
structure Surroundings where
  /-- Put in front of every built path. -/
  basePath : String
  /-- The package of the file, `a/b/c/`, or empty. -/
  packagePath : String
  /-- The `final File` locals of the method. -/
  fileHandles : List String
  deriving DecidableEq, Repr, Inhabited

/-- The text between the first and the last character; nothing for a text of
fewer than two. -/
def unquote? (text : String) : Option String :=
  match text.toList with
  | _ :: c :: rest => some (String.ofList (c :: rest).dropLast)
  | _ => none

/-- The refusal of the node itself. -/
def Tree.unsupported (t : Tree) : LiteralError :=
  .unsupportedConstruct t.kind t.line

/-- What an absent operand of a concatenation reads as. -/
def nullText : String := "null"

namespace Literal

/-! ## The shapes of a call

A call used as a value is first recognised and then, if it builds a path,
evaluated through its one argument. -/

/-- The ways to read a call as a value. -/
inductive CallShape where
  /-- An enum constant asked for its name. -/
  | constant (name : String)
  /-- A file handle asked for its path. -/
  | filePath (handle : String)
  /-- A path builder, applied to one wrapped argument. -/
  | path (builder : Idiom.PathBuilder) (argument : Tree)
  | unknown
  deriving Repr

/-- The constant in `Type.CONSTANT`, if `accessor` asks for its name without
arguments. -/
def enumConstant? (access accessor : Tree) (arguments? : Option Tree) : Option String :=
  match access.firstChild?, access.secondChild? with
  | some owner, some constant =>
    if owner.is .identifier
        && accessor.text?.any Idiom.isEnumNameAccessor
        && arguments?.all (·.children.isEmpty) then
      constant.text?
    else none
  | _, _ => none

/-- The file handle whose path `object.member` asks for. -/
def fileHandle? (fileHandles : List String) (object member : Tree) : Option String :=
  if object.is .identifier && member.text? == some Idiom.filePathAccessor then
    object.text?.filter fileHandles.contains
  else none

def dottedShape (fileHandles : List String) (callee : Tree) (arguments? : Option Tree) :
    CallShape :=
  match callee.firstChild?, callee.secondChild? with
  | some object, some member =>
    if object.is .memberAccess then
      (enumConstant? object member arguments?).elim .unknown .constant
    else
      (fileHandle? fileHandles object member).elim .unknown .filePath
  | _, _ => .unknown

/-- The shape of a call by a simple name: a path builder with exactly one
argument. -/
def plainShape (callee : Tree) (arguments? : Option Tree) : CallShape :=
  match callee.text?.bind Idiom.PathBuilder.ofName?, arguments? with
  | some builder, some arguments =>
    if arguments.children.length = 1 then
      (arguments.findFirstChild? .expression).elim .unknown (.path builder)
    else .unknown
  | _, _ => .unknown

def callShape (fileHandles : List String) (call : Tree) : CallShape :=
  match call.firstChild? with
  | none => .unknown
  | some callee =>
    match callee.kind with
    | .memberAccess => dottedShape fileHandles callee (call.findFirstChild? .argumentList)
    | .identifier => plainShape callee (call.findFirstChild? .argumentList)
    | _ => .unknown

theorem dottedShape_ne_path {fileHandles : List String} {callee argument : Tree}
    {arguments? : Option Tree} {builder : Idiom.PathBuilder} :
    dottedShape fileHandles callee arguments? ≠ .path builder argument := by
  intro h
  unfold dottedShape at h
  split at h
  · split at h
    · revert h
      cases enumConstant? _ _ arguments? <;> simp
    · revert h
      cases fileHandle? fileHandles _ _ <;> simp
  · cases h

theorem of_plainShape_eq_path {callee argument : Tree} {arguments? : Option Tree}
    {builder : Idiom.PathBuilder} (h : plainShape callee arguments? = .path builder argument) :
    ∃ arguments, arguments? = some arguments ∧
      arguments.findFirstChild? .expression = some argument := by
  unfold plainShape at h
  split at h
  · rename_i arguments _
    split at h
    · cases he : arguments.findFirstChild? .expression with
      | none => simp [he] at h
      | some e =>
        simp only [he, Option.elim_some, CallShape.path.injEq] at h
        exact ⟨arguments, rfl, h.2 ▸ he⟩
    · cases h
  · cases h

theorem size_lt_of_callShape {fileHandles : List String} {call argument : Tree}
    {builder : Idiom.PathBuilder}
    (h : callShape fileHandles call = .path builder argument) : argument.size < call.size := by
  unfold callShape at h
  split at h
  · cases h
  split at h
  · exact absurd h dottedShape_ne_path
  · obtain ⟨arguments, ha, hm⟩ := of_plainShape_eq_path h
    exact Nat.lt_trans (Tree.size_lt_of_mem (Tree.mem_of_findFirstChild? hm))
      (Tree.size_lt_of_mem (Tree.mem_of_findFirstChild? ha))
  · cases h

/-! ## Evaluation -/

/-- The path that a builder makes of a file name. -/
def builtPath (s : Surroundings) (builder : Idiom.PathBuilder) (name : String) : String :=
  s.basePath ++ builder.dir ++ s.packagePath ++ name

def join (left right : Option String) : String :=
  left.getD nullText ++ right.getD nullText

end Literal

open Literal in
/-- The value of an expression; `none` is the absent value of `null`. -/
def Tree.literal (s : Surroundings) (t : Tree) : Except LiteralError (Option String) :=
  match t.kind with
  | .stringLiteral =>
    match t.text?.bind unquote? with
    | some text => .ok (some text)
    | none => .error t.unsupported
  | .nullLiteral => .ok none
  | .concatenation =>
    match hl : t.firstChild?, hr : t.lastChild? with
    | some left, some right => do
      have := size_lt_of_mem (mem_of_firstChild? hl)
      have := size_lt_of_mem (mem_of_lastChild? hr)
      let l ← left.literal s
      let r ← right.literal s
      .ok (some (join l r))
    | _, _ => .error t.unsupported
  | .methodCall =>
    match hc : callShape s.fileHandles t with
    | .constant name => .ok (some name)
    | .filePath handle => .error (.unsupportedFileVariable handle t.line)
    | .path builder argument =>
      match ha : argument.firstChild? with
      | none => .error argument.unsupported
      | some content => do
        have := Nat.lt_trans (size_lt_of_mem (mem_of_firstChild? ha)) (size_lt_of_callShape hc)
        match ← content.literal s with
        | some name => .ok (some (builtPath s builder name))
        | none => .error t.unsupported
    | .unknown => .error t.unsupported
  | _ => .error t.unsupported
termination_by t.size

/-- The value of what a wrapper holds. -/
def Tree.literalContent (s : Surroundings) (t : Tree) : Except LiteralError (Option String) :=
  match t.firstChild? with
  | some content => content.literal s
  | none => .error t.unsupported

end PropertyHarvest
