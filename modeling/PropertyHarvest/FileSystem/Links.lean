/-
# Links to files

A link is a name in a directory that stands for a file elsewhere.  Whoever looks
for an entry or reads it goes through the link without knowing it, so a link is as
good as a file where there is something at its other end, and as nothing where
there is not (`seen`).  To write a new file somewhere can therefore make files
appear under other names.

  links lead to files or nowhere, and not to directories
  a link to another link comes after it in the list

A walk does not go through a link to a directory, so such links would matter only to
a path that is spelled through one; they are left out.  What is `seen` is a file
system without links, and everything else in the library is about one of these.
-/
import PropertyHarvest.FileSystem

namespace PropertyHarvest

/-- A name that stands for a file. -/
structure Link where
  /-- The place of the directory that has the name. -/
  dir : List String
  name : String
  /-- The path of the file, seen from that directory. -/
  target : String
  /-- The grammar's tree of the text that is read through the link. -/
  concrete : Concrete := .blank
  deriving Repr

/-- The same entries, seen from another directory. -/
def FileSystem.fromDir (fs : FileSystem) (dir : List String) : FileSystem :=
  { fs with currentDir := dir }

namespace Link

def place (l : Link) : List String :=
  l.dir ++ [l.name]

/-- What is read through a link, if there is something. -/
def content? (fs : FileSystem) (l : Link) : Option FileContent :=
  ((fs.fromDir l.dir).content? l.target).map fun c => { c with concrete := l.concrete }

/-- Puts what is read through a link in its place. -/
def resolve (fs : FileSystem) (l : Link) : FileSystem :=
  match l.content? fs with
  | some c => { fs with root := Entry.place (.file c) l.place fs.root }
  | none => fs

end Link

/-- Entries, and the links that lead to some of them. -/
structure LinkedFileSystem where
  plain : FileSystem
  links : List Link := []
  deriving Repr

/-- The entries that are found, whether through links or not. -/
def LinkedFileSystem.seen (fs : LinkedFileSystem) : FileSystem :=
  fs.links.foldl Link.resolve fs.plain

end PropertyHarvest
