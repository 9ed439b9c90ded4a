/-
# Files and directories

A tree of named entries and a current directory, and nothing else: no permissions,
no times, no changes while somebody looks.  Whatever is there can be read.  A file is
a text, or none if its bytes are not one.

A place is the list of names that leads there from the root.  A path names a place
by its segments: a dot or nothing stays, two dots go up, a name goes down, and each
of them needs a directory to start from.  Two dots at the top stay at the top.

Names and paths have a greatest length.  Where a walk comes so deep that a path is
too long, the path is listed by the walk and leads nowhere all the same; whoever asks
for a file has to ask again (`isFile`).

There are no links in such a tree.  They are put on it by `FileSystem.Links`.
-/
import PropertyHarvest.Path
import PropertyHarvest.SourceFile

namespace PropertyHarvest

/-! ## Entries -/

structure FileContent where
  /-- The text; nothing if the bytes are no text. -/
  text? : Option String
  /-- The grammar's tree of the text, which matters for Java sources. -/
  concrete : Concrete := .blank
  deriving Repr

/-- A file, or a directory with its named entries. -/
inductive Entry where
  | file (content : FileContent)
  | dir (entries : List (String × Entry))
  deriving Repr

namespace Entry

def isDir : Entry → Bool
  | dir _ => true
  | file _ => false

def entries : Entry → List (String × Entry)
  | dir es => es
  | file _ => []

def content? : Entry → Option FileContent
  | file content => some content
  | dir _ => none

/-- The entry at the end of a way down. -/
def at? (e : Entry) : List String → Option Entry
  | [] => some e
  | name :: rest => (e.entries.lookup name).bind fun child => child.at? rest

mutual

/-- All that lies strictly inside the entry at `path`, each with its path. -/
def inside (path : String) : Entry → List (String × Entry)
  | file _ => []
  | dir es => walkEach path es

/-- Each of the named entries of the directory at `path`, followed by all that
lies inside it. -/
def walkEach (path : String) : List (String × Entry) → List (String × Entry)
  | [] => []
  | (name, e) :: es =>
    (Path.join path name, e) :: inside (Path.join path name) e ++ walkEach path es

end

/-- The entry at `path` and all that lies inside it, each with its path. -/
def walk (path : String) (e : Entry) : List (String × Entry) :=
  (path, e) :: e.inside path

/-- Puts an entry under a name, in place of any other of that name. -/
def put (name : String) (new : Entry) : List (String × Entry) → List (String × Entry)
  | [] => [(name, new)]
  | (n, e) :: es => if n = name then (n, new) :: es else (n, e) :: put name new es

/-- Puts an entry at the end of a way down; directories that are not there are
made. -/
def place (new : Entry) : List String → Entry → Entry
  | [], _ => new
  | name :: rest, e =>
    dir (put name (place new rest ((e.entries.lookup name).getD (dir []))) e.entries)

end Entry

/-! ## File systems -/

/-- Why a path leads nowhere. -/
inductive AccessError where
  | notFound
  | notADirectory
  /-- The path, or a name in it, is longer than any can be. -/
  | tooLong
  /-- The path has a character that no name has. -/
  | nulCharacter
  deriving DecidableEq, Repr

def AccessError.message : AccessError → String
  | notFound => "No such file or directory (os error 2)"
  | notADirectory => "Not a directory (os error 20)"
  | tooLong => "File name too long (os error 36)"
  | nulCharacter => "file name contained an unexpected NUL byte"

def maxNameSize : Nat := 255

def maxPathSize : Nat := 4095

/-- All entries, and the place of the current directory. -/
structure FileSystem where
  root : Entry
  currentDir : List String
  deriving Repr

namespace FileSystem

/-- Goes one segment on from a place. -/
def follow (fs : FileSystem) (place : List String) (segment : String) :
    Except AccessError (List String) :=
  match fs.root.at? place with
  | none => .error .notFound
  | some (.file _) => .error .notADirectory
  | some (.dir es) =>
    if Path.isIdle segment then .ok place
    else if segment = ".." then .ok place.dropLast
    else if maxNameSize < segment.utf8ByteSize then .error .tooLong
    else if (es.lookup segment).isSome then .ok (place ++ [segment])
    else .error .notFound

/-- The place where a path begins. -/
def origin (fs : FileSystem) (path : String) : List String :=
  if Path.isAbsolute path then [] else fs.currentDir

/-- The place that a path names. -/
def locate (fs : FileSystem) (path : String) : Except AccessError (List String) :=
  if path.toList.contains '\x00' then .error .nulCharacter
  else if path = "" then .error .notFound
  else if maxPathSize < path.utf8ByteSize then .error .tooLong
  else (Path.segments path).foldlM fs.follow (fs.origin path)

def find? (fs : FileSystem) (path : String) : Option Entry :=
  (fs.locate path).toOption.bind fs.root.at?

def hasPath (fs : FileSystem) (path : String) : Bool :=
  (fs.find? path).isSome

def isDir (fs : FileSystem) (path : String) : Bool :=
  (fs.find? path).any Entry.isDir

def content? (fs : FileSystem) (path : String) : Option FileContent :=
  (fs.find? path).bind Entry.content?

def isFile (fs : FileSystem) (path : String) : Bool :=
  (fs.content? path).isSome

/-- What is read from a path; no text if there is no file. -/
def read (fs : FileSystem) (path : String) : FileContent :=
  (fs.content? path).getD { text? := none }

def text? (fs : FileSystem) (path : String) : Option String :=
  (fs.read path).text?

/-- The entry that a path names and all that lies inside it, each with its
path. -/
def walk (fs : FileSystem) (path : String) : Except AccessError (List (String × Entry)) := do
  let place ← fs.locate path
  return ((fs.root.at? place).map (Entry.walk path)).getD []

/-- Writes a text into a file of the current directory. -/
def writeFile (fs : FileSystem) (name text : String) : FileSystem :=
  { fs with root := Entry.place (.file { text? := some text }) (fs.currentDir ++ [name]) fs.root }

end FileSystem

end PropertyHarvest
