/-
# Properties by module

A property is what a test sets on the configuration of a module: a name and a
value.  Properties are ordered by name, then by value, both character by
character.

What was found is kept as a list of modules, in the order in which they were
first named, each with its properties, every one once, in the order in which
they were first found.

Both orders are kept by every addition.  A property that is there stays where it
is, a module that is named again keeps its place, and a module is named by a merge
even if it comes without properties.  The type `Modules` asks for none of this: a
list of it may name a module twice, and where a law needs a list that does not, the
law says so (`Proofs.Accumulation.Merge`).

An `Accumulation` is what a run holds between two drains.  It has no memory beyond
that: what was drained may be found and handed out again.
-/

namespace PropertyHarvest

/-- A name and a value. -/
structure Property where
  name : String
  value : String
  deriving DecidableEq, Repr, Inhabited

namespace Property

def text (p : Property) : String :=
  p.name ++ " = " ++ p.value

/-- The order of properties: by name, then by value. -/
def le (p q : Property) : Bool :=
  if p.name = q.name then decide (p.value ≤ q.value) else decide (p.name ≤ q.name)

def sort (ps : List Property) : List Property :=
  ps.mergeSort le

end Property

/-- Modules with their properties, both in order of first mention. -/
abbrev Modules := List (String × List Property)

/-- The properties `ps` with `p` behind them, unless it is among them. -/
def insertProperty (ps : List Property) (p : Property) : List Property :=
  if p ∈ ps then ps else ps ++ [p]

/-- The properties `ps` with those of `qs` that are new, each once. -/
def unionProperties (ps qs : List Property) : List Property :=
  qs.foldl insertProperty ps

namespace Modules

/-- Adds properties to one module, which is named by this if it was not
before. -/
def extend (ms : Modules) (module : String) (ps : List Property) : Modules :=
  match ms with
  | [] => [(module, unionProperties [] ps)]
  | (m, qs) :: rest =>
    if m = module then (m, unionProperties qs ps) :: rest
    else (m, qs) :: extend rest module ps

def insert (ms : Modules) (module : String) (p : Property) : Modules :=
  ms.extend module [p]

/-- Adds all properties of all modules of `new`. -/
def merge (ms new : Modules) : Modules :=
  new.foldl (fun acc (module, ps) => acc.extend module ps) ms

def propertyCount : Modules → Nat
  | [] => 0
  | (_, ps) :: rest => ps.length + propertyCount rest

end Modules

/-- All that was found in a run so far. -/
structure Accumulation where
  modules : Modules := []
  deriving DecidableEq, Repr, Inhabited

namespace Accumulation

def empty : Accumulation := ⟨[]⟩

def isEmpty (a : Accumulation) : Bool :=
  a.modules.isEmpty

/-- Adds the findings of one method. -/
def merge (a : Accumulation) (found : Modules) : Accumulation :=
  ⟨a.modules.merge found⟩

/-- Hands out what was found and starts anew. -/
def drain (a : Accumulation) : Modules × Accumulation :=
  (a.modules, empty)

end Accumulation

end PropertyHarvest
