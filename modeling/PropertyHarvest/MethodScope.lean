/-
# The scope of a test method

While a test method is open, its scope collects the handles bound to
configurations, the `final File` locals, the properties set, and whether a
verification was met.  One method is open at a time; a method inside the open
one belongs to it.  The properties count only if a verification was met by the
time the method closes.

A handle that is bound again has the new module, and nothing ends a binding but the
end of the method: a block is no scope of its own.  A file handle, once added, stays.

Nothing asks for an order of the calls.  A scope in which no method is open can be
told of properties all the same and keeps them until it is finished; what a scope
knows after any series of calls is in `Proofs.MethodScope.History`.
-/
import PropertyHarvest.Accumulation

namespace PropertyHarvest

/-- What is known of the open method. -/
structure MethodScope where
  /-- The number of the open method, if one is open. -/
  active? : Option Nat := none
  /-- Handles with their modules; the binding in force stands first. -/
  bindings : List (String × String) := []
  /-- The `final File` locals, each once. -/
  fileHandles : List String := []
  /-- The properties set so far. -/
  properties : Modules := []
  /-- Whether a verification was met. -/
  verified : Bool := false
  deriving DecidableEq, Repr, Inhabited

namespace MethodScope

def empty : MethodScope := {}

def isActive (s : MethodScope) : Bool :=
  s.active?.isSome

def isActiveMethod (s : MethodScope) (method : Nat) : Bool :=
  s.active? == some method

/-- Opens `method`, unless a method is open; the answer tells whether it was
opened. -/
def enter (s : MethodScope) (method : Nat) : Bool × MethodScope :=
  if s.isActive then (false, s) else (true, { s with active? := some method })

/-- Binds a handle to a module in place of any earlier module. -/
def bind (s : MethodScope) (handle module : String) : MethodScope :=
  { s with bindings := (handle, module) :: s.bindings.filter (·.1 != handle) }

def moduleOf? (s : MethodScope) (handle : String) : Option String :=
  s.bindings.lookup handle

def isBound (s : MethodScope) (handle : String) : Bool :=
  (s.moduleOf? handle).isSome

def addFileHandle (s : MethodScope) (handle : String) : MethodScope :=
  { s with fileHandles := s.fileHandles.insert handle }

def addProperty (s : MethodScope) (module : String) (p : Property) : MethodScope :=
  { s with properties := s.properties.insert module p }

def markVerified (s : MethodScope) : MethodScope :=
  { s with verified := true }

/-- Closes the method and forgets all about it; its properties are handed out
if a verification was met. -/
def finish (s : MethodScope) : Option Modules × MethodScope :=
  (if s.verified then some s.properties else none, empty)

end MethodScope

end PropertyHarvest
