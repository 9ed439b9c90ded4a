/-
# Paths

A path is a text; slashes divide it into segments.  Empty segments and segments
that are a single dot say nothing, except a dot at the very beginning of a
relative path, and paths are compared by the rest: by their components.  The
spelling is kept all the same, because it is what messages and reports show.

There is one kind of path, with slashes; nothing is said of drives or of letters that
are equal but for their case.  `startsWith` compares components and knows nothing of
places, so `a/../b` does not start with `b`.

Dropping the last component again and again gives the parents as they are spelled.
The parent of a single name is the empty path, and so is that of a dot; the root has
none.
-/

namespace PropertyHarvest.Path

/-! ## Segments and components -/

/-- The pieces of a text between slashes. -/
def splitSlash : List Char → List (List Char)
  | [] => [[]]
  | '/' :: rest => [] :: splitSlash rest
  | c :: rest =>
    match splitSlash rest with
    | s :: ss => (c :: s) :: ss
    | [] => [[c]]

def segments (p : String) : List String :=
  (splitSlash p.toList).map String.ofList

def ofSegments (ss : List String) : String :=
  String.intercalate "/" ss

def isAbsolute (p : String) : Bool :=
  p.toList.head? == some '/'

/-- A part of a path that says something. -/
inductive Component where
  | root
  /-- The dot at the beginning of a relative path. -/
  | current
  | parent
  | name (s : String)
  deriving DecidableEq, Repr

/-- Whether a segment says nothing. -/
def isIdle (s : String) : Bool :=
  s == "" || s == "."

/-- The component of a segment that says something. -/
def component (s : String) : Component :=
  if s = ".." then .parent else .name s

/-- How a path begins, and the segments after the beginning. -/
def beginning (p : String) : Option Component × List String :=
  match segments p with
  | "" :: rest => if isAbsolute p then (some .root, rest) else (none, [])
  | "." :: rest => (some .current, rest)
  | ss => (none, ss)

def components (p : String) : List Component :=
  let (first?, rest) := beginning p
  first?.toList ++ (rest.filter (!isIdle ·)).map component

/-- Whether `p` is at or below `q`, as far as the spelling tells. -/
def startsWith (p q : String) : Bool :=
  (components q).isPrefixOf (components p)

/-! ## Joining and taking apart -/

/-- `q` seen from `p`; an absolute `q` stands for itself. -/
def join (p q : String) : String :=
  if isAbsolute q || p = "" then q
  else if p.toList.getLast? == some '/' then p ++ q
  else p ++ "/" ++ q

/-- The path as it begins, followed by some segments. -/
def rebuild (first? : Option Component) (ss : List String) : String :=
  match first?, ss with
  | some .root, ss => "/" ++ ofSegments ss
  | some .current, [] => "."
  | some .current, ss => "./" ++ ofSegments ss
  | _, ss => ofSegments ss

/-- The parents of a path whose segments after the beginning are given from the
last to the first.  The parent of a single dot is the empty path. -/
def parentsFrom (first? : Option Component) : List String → List String
  | [] => if first? = some .current then [""] else []
  | s :: before =>
    if isIdle s then parentsFrom first? before
    else rebuild first? (before.dropWhile isIdle).reverse :: parentsFrom first? before

/-- The paths that remain when the last component is dropped again and again,
nearest first. -/
def parents (p : String) : List String :=
  let (first?, rest) := beginning p
  parentsFrom first? rest.reverse

def fileName? (p : String) : Option String :=
  match (components p).getLast? with
  | some (.name s) => some s
  | _ => none

/-- What follows the last dot of the name at the end, unless the dot begins
the name. -/
def extension? (p : String) : Option String :=
  match fileName? p with
  | none => none
  | some name =>
    let cs := name.toList
    let after := (cs.reverse.takeWhile (· != '.')).reverse
    if cs.length ≤ after.length + 1 then none else some (String.ofList after)

end PropertyHarvest.Path
