/-
# Finding the files to scan

The includes lead to the paths where a search starts, the ignores cut away from
what is found there, and the Java sources that remain are the files to scan, in
order and each spelling once.

Paths are compared and kept as texts.  One file can be spelled in several ways, and
then it is listed once for each of them (`Proofs.Discovery.Spelling`); an ignore that
is a path is compared by components, and may miss a file that is spelled otherwise
(`Proofs.Discovery.Ignores`).

What is wrong with an include or an ignore never ends a search.  It is a notice, and
the others are followed.  Of the notices the ignores come first, then the includes,
then what could not be walked.

The empty list of includes is not the union of nothing.  It stands for the directory
itself.
-/
import PropertyHarvest.Glob.Search

namespace PropertyHarvest

/-! ## Ignores -/

/-- What is left out of a scan. -/
inductive Ignore where
  /-- What is at or below a path. -/
  | below (path : String)
  /-- Each path that matches. -/
  | matching (pattern : Glob.Pattern)
  deriving DecidableEq, Repr

namespace Ignore

/-- Reads an ignore; a path is seen from the directory that is scanned. -/
def read (baseDir text : String) : Except Glob.PatternError Ignore :=
  if Glob.hasWildcard text then (Glob.Pattern.read text).map matching
  else .ok (below (Path.join baseDir text))

def covers : Ignore → String → Bool
  | below p, path => Path.startsWith path p
  | matching p, path => p.matches path

end Ignore

/-! ## Notices -/

/-- Something about a scan that its user may want to know. -/
inductive Notice where
  /-- An ignore is no pattern. -/
  | invalidIgnore (pattern : String) (error : Glob.PatternError)
  /-- An include is no pattern. -/
  | invalidInclude (pattern : String) (error : Glob.PatternError)
  /-- An include leads nowhere. -/
  | missingInclude (path : String)
  /-- What should be scanned cannot be reached. -/
  | inaccessible (path : String) (error : AccessError)
  deriving DecidableEq, Repr

namespace Notice

def text : Notice → String
  | invalidIgnore pattern e => "Invalid ignore pattern '" ++ pattern ++ "': " ++ e.message
  | invalidInclude pattern e => "Invalid glob pattern '" ++ pattern ++ "': " ++ e.message
  | missingInclude path => "Include path does not exist: " ++ path
  | inaccessible path e =>
    "Cannot access path: IO error for operation on " ++ path ++ ": " ++ e.message

/-- Whether a notice tells of a path that had to be skipped. -/
def isSkip : Notice → Bool
  | inaccessible .. => true
  | _ => false

end Notice

/-! ## Includes -/

namespace Discovery

/-- The paths to which an include leads.  A pattern leads to directories, a
path to whatever is there. -/
def startsOf (fs : FileSystem) (baseDir incl : String) : Except Notice (List String) :=
  let path := Path.join baseDir incl
  if Glob.hasWildcard incl then
    match Glob.Search.read path with
    | .ok search => .ok ((search.run fs).filter fs.isDir)
    | .error e => .error (.invalidInclude incl e)
  else if fs.hasPath path then .ok [path]
  else .error (.missingInclude path)

/-- The paths to which each of the includes leads.  Without includes all of the
directory is scanned. -/
def starts (fs : FileSystem) (baseDir : String) (includes : List String) :
    List (Except Notice (List String)) :=
  if includes.isEmpty then [.ok [baseDir]] else includes.map (startsOf fs baseDir)

/-! ## Files -/

def isJavaFile (path : String) : Bool :=
  Path.extension? path == some "java"

/-- The paths of the files at or inside the entry at `path`.  What lies so deep that
its path is too long is no file. -/
def filesAt (fs : FileSystem) (path : String) : Except Notice (List String) :=
  match fs.walk path with
  | .ok entries => .ok ((entries.map Prod.fst).filter fs.isFile)
  | .error e => .error (.inaccessible path e)

end Discovery

/-- Puts a text into a list in ascending order, unless it is there. -/
def insertAscending (s : String) : List String → List String
  | [] => [s]
  | t :: ts =>
    if s < t then s :: t :: ts else if s = t then t :: ts else t :: insertAscending s ts

def ascending (ss : List String) : List String :=
  ss.foldr insertAscending []

/-- The files to scan, and what there is to say about them. -/
structure Discovery where
  files : List String
  notices : List Notice
  deriving DecidableEq, Repr

namespace Discovery

def oks {ε α : Type} (rs : List (Except ε α)) : List α :=
  rs.filterMap Except.toOption

def errors {ε α : Type} (rs : List (Except ε α)) : List ε :=
  rs.filterMap fun
    | .ok _ => none
    | .error e => some e

/-- The errors of ignores that are no patterns. -/
def ignoreNotices (baseDir : String) (ignores : List String) : List Notice :=
  ignores.filterMap fun text =>
    match Ignore.read baseDir text with
    | .ok _ => none
    | .error e => some (.invalidIgnore text e)

/-- Finds the files below a directory. -/
def discover (fs : FileSystem) (baseDir : String) (includes ignores : List String) : Discovery :=
  let cuts := oks (ignores.map (Ignore.read baseDir))
  let starts := starts fs baseDir includes
  let walks := (oks starts).flatten.map (filesAt fs)
  let kept := (oks walks).flatten.filter fun path =>
    isJavaFile path && !cuts.any (·.covers path)
  ⟨ascending kept, ignoreNotices baseDir ignores ++ errors starts ++ errors walks⟩

def skipCount (d : Discovery) : Nat :=
  d.notices.countP Notice.isSkip

end Discovery

end PropertyHarvest
