/-
# Searching a file system by pattern

The components of a pattern are the steps of a search.  A step leads from one
path to all paths that fit it, and a search takes one step after the other.
Each path found is spelled as the steps led to it, without a leading `./`.

The whole text has to be a pattern, and so has every component.  Components that are
no patterns are joined if they are there; the others are asked of the names in a
directory.  The names that every directory has for itself and for its parent are
found only by a pattern that begins with a dot.

The order of what is found is that of the entries.  Nothing in the library depends
on it, because the files of a scan are put in order.
-/
import PropertyHarvest.FileSystem
import PropertyHarvest.Glob.Pattern

namespace PropertyHarvest.Glob

/-- How one component of a pattern leads on. -/
inductive SearchStep where
  /-- To the entry of one name. -/
  | named (name : String)
  /-- To the entries of a directory whose names match. -/
  | child (pattern : Pattern)
  /-- To the entries at any depth inside a directory whose names match. -/
  | within (pattern : Pattern)
  /-- To the directories at any depth inside a directory. -/
  | directories
  deriving DecidableEq, Repr

/-! ## The steps of a pattern -/

/-- The character of a token that stands for no other. -/
def Token.char? : Token → Option Char
  | char c => some c
  | _ => none

/-- The text of a pattern that matches one text only. -/
def Pattern.literal? (p : Pattern) : Option String :=
  (p.mapM Token.char?).map String.ofList

/-- Whether a pattern stands for any number of whole directories. -/
def Pattern.isDirectories (p : Pattern) : Bool :=
  p.contains .anyDirectories

/-- The steps of some components.  Whole directories join with the component
after them, and several of them in a row are one. -/
def stepsOf : List Pattern → List SearchStep
  | [] => []
  | p :: ps =>
    if p.isDirectories then
      match ps with
      | [] => [.directories]
      | q :: qs => if q.isDirectories then stepsOf (q :: qs) else .within q :: stepsOf qs
    else
      match p.literal? with
      | some name => .named name :: stepsOf ps
      | none => .child p :: stepsOf ps

/-- The pieces of a text between slashes; a slash at the end ends the last
piece. -/
def pieces (text : String) : List String :=
  let ss := Path.segments text
  if ss.getLast? = some "" then ss.dropLast else ss

/-- A search: the path to start from and the steps to take. -/
structure Search where
  start : String
  steps : List SearchStep
  deriving DecidableEq, Repr

/-- Reads a search.  The whole text has to be a pattern, and each of its
components too. -/
def Search.read (text : String) : Except PatternError Search := do
  let _ ← Pattern.read text
  let (start, rest) :=
    if Path.isAbsolute text then ("/", String.ofList (text.toList.drop 1)) else (".", text)
  let components ← (pieces rest).mapM Pattern.read
  return ⟨start, stepsOf (if rest = "" then [[]] else components)⟩

/-! ## Taking steps -/

/-- The path in front of what is found inside the directory at `path`; the
current directory is not spelled out. -/
def stem (path : String) : String :=
  if Path.components path = [.current] then "" else path

/-- The two names that every directory has for itself and its parent. -/
def specialNames : List String := [".", ".."]

def childrenOf (fs : FileSystem) (path : String) : List (String × Entry) :=
  (fs.find? path).elim [] Entry.entries

def insideOf (fs : FileSystem) (path : String) : List (String × Entry) :=
  (fs.find? path).elim [] (Entry.inside (stem path))

def nameMatches (p : Pattern) (path : String) : Bool :=
  (Path.fileName? path).any p.matches

/-- The special names are matched only by a pattern that begins with a dot. -/
def matchingSpecials (p : Pattern) : List String :=
  if p.head? = some (.char '.') then specialNames.filter p.matches else []

/-- The paths to which a step leads from the path `path`. -/
def SearchStep.lead (fs : FileSystem) (path : String) : SearchStep → List String
  | .named name =>
    let next := Path.join (stem path) name
    if if name ∈ specialNames then fs.isDir path else fs.hasPath next then [next] else []
  | .child p =>
    if fs.isDir path then
      ((childrenOf fs path).filter fun (name, _) => p.matches name).map
          (fun (name, _) => Path.join (stem path) name)
        ++ (matchingSpecials p).map (Path.join path)
    else []
  | .within p => ((insideOf fs path).filter fun (q, _) => nameMatches p q).map Prod.fst
  | .directories => ((insideOf fs path).filter fun (_, e) => e.isDir).map Prod.fst

def Search.run (fs : FileSystem) (s : Search) : List String :=
  s.steps.foldl (fun paths step => paths.flatMap (step.lead fs ·)) [s.start]

end PropertyHarvest.Glob
