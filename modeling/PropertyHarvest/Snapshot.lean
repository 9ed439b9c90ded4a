/-
# Snapshots

A project can be handed over as one JSON text, because the grammar that builds
concrete trees is not part of this library:

    {"files": [
      {"path": "src/test/java/FooTest.java", "text": "...", "tree": [...]},
      {"path": "src/test/java/BarTest.java", "link": "FooTest.java", "tree": [...]},
      {"path": "notes.bin"},
      {"path": "empty", "directory": true}]}

Paths are seen from the current directory.  A file without a text is one whose
bytes are no text.  A link comes after what it leads to; its tree is that of the
text that is read through it.  The tree of a Java source is the list of its nodes
in pre-order, each written as

    [kind, field or null, row, start, stop, flags, number of children]

where the flags are the sum of 1 for a construct, 2 for an error, 4 for a
missing node and 8 for a node with an error or a missing node in it.

Directories above an entry are made.  A file that comes twice is there once, as the
later one has it.  A snapshot in which an entry cannot be read is refused as a whole.
-/
import PropertyHarvest.FileSystem.Links
import PropertyHarvest.Json.Reader

namespace PropertyHarvest

namespace Json

def nat? : Json → Option Nat
  | num digits => digits.toNat?
  | _ => none

def member? (name : String) : Json → Option Json
  | obj members => members.lookup (some name)
  | _ => none

def items? : Json → Option (List Json)
  | arr items => some items
  | _ => none

end Json

namespace Label

def ofJson? : Json → Option (Label × Nat)
  | .arr [kind, field, row, start, stop, flags, count] => do
    let flags ← flags.nat?
    let label : Label := {
      kind := ← kind.text?, field? := field.text?, row := ← row.nat?
      start := ← start.nat?, stop := ← stop.nat?
      named := flags.testBit 0, isError := flags.testBit 1
      isMissing := flags.testBit 2, hasError := flags.testBit 3 }
    return (label, ← count.nat?)
  | _ => none

end Label

def Concrete.ofJson? (v : Json) : Option Concrete := do
  ofPreorder? (← (← v.items?).mapM Label.ofJson?)

/-- Reads a file or a directory. -/
def Entry.ofJson? (v : Json) : Option Entry :=
  match v.member? "directory" with
  | some (.bool true) => some (.dir [])
  | _ =>
    let text? := (v.member? "text").bind Json.text?
    match v.member? "tree" with
    | some tree => (Concrete.ofJson? tree).map fun c => .file ⟨text?, c⟩
    | none => some (.file { text? })

namespace FileSystem

/-- A file system that holds an empty current directory. -/
def fresh : FileSystem :=
  ⟨.dir [("project", .dir [])], ["project"]⟩

/-- The place of a path that goes down from the current directory. -/
def placeBelow (fs : FileSystem) (path : String) : List String :=
  fs.currentDir ++ (Path.segments path).filter (!Path.isIdle ·)

/-- Adds an entry and the directories above it; a directory that is there stays
as it is. -/
def add (fs : FileSystem) (place : List String) (e : Entry) : FileSystem :=
  if e.isDir && (fs.root.at? place).isSome then fs
  else { fs with root := Entry.place e place fs.root }

end FileSystem

def Link.ofJson? (place : List String) (v : Json) : Option Link := do
  let target ← (← v.member? "link").text?
  let concrete ← (v.member? "tree").elim (some .blank) Concrete.ofJson?
  return ⟨place.dropLast, ← place.getLast?, target, concrete⟩

namespace LinkedFileSystem

/-- Reads one entry of a snapshot. -/
def addJson? (fs : LinkedFileSystem) (v : Json) : Option LinkedFileSystem := do
  let place := fs.plain.placeBelow (← (← v.member? "path").text?)
  match v.member? "link" with
  | some _ =>
    let l ← Link.ofJson? place v
    return ⟨fs.plain.add l.dir (.dir []), fs.links ++ [l]⟩
  | none => return { fs with plain := fs.plain.add place (← Entry.ofJson? v) }

def ofJson? (v : Json) : Option LinkedFileSystem := do
  (← (← v.member? "files").items?).foldlM addJson? { plain := .fresh }

end LinkedFileSystem

end PropertyHarvest
