/-
# Calls in a test method

A call matters in two roles.  `handle.addAttribute(name, value)` sets a
property if the handle is bound to a configuration.  `verify(...)` and its two
relatives verify what was set, if the call stands on its own: undotted, not an
argument or the receiver of another call, and outside every `try`.

The questions are asked in the order in which they stand here, and what a call is
called decides most of them.  Of what lies above a call no more is looked at than
the kinds, nearest first: the first two of them for a call within a call, and all of
them for a `try`.  A method of an inner class is no border, so a `try` around the
class counts as well.

The arguments are evaluated from left to right and the first refusal is the answer,
also where the other argument is absent.
-/
import PropertyHarvest.Accumulation
import PropertyHarvest.Declaration

namespace PropertyHarvest

/-- The role of a call. -/
inductive CallSite where
  /-- A property is set on a bound handle. -/
  | setProperty (handle : String)
  /-- The configuration is verified. -/
  | verification
  | other
  deriving DecidableEq, Repr

namespace CallSite

/-! ## Where a call stands

`above` lists the kinds of the strict ancestors, nearest first. -/

/-- Whether the call is an argument of a call or the receiver of a call. -/
def isNested : (above : List Kind) → Bool
  | .expression :: .argumentList :: _ => true
  | .memberAccess :: .methodCall :: _ => true
  | _ => false

/-- Whether a `try` encloses the call. -/
def isGuarded (above : List Kind) : Bool :=
  above.contains .tryBlock

/-! ## Classification -/

/-- The role of the call `t`, where `isBound` tells the handles that are bound
to a configuration. -/
def classify (isBound : String → Bool) (above : List Kind) (t : Tree) : CallSite :=
  match t.firstChild? with
  | none => .other
  | some callee =>
    match callee.calledName?, callee.receiverName? with
    | some name, some receiver =>
      if name = Idiom.setPropertyMethod && callee.is .memberAccess && isBound receiver then
        .setProperty receiver
      else if callee.is .identifier && Idiom.isVerifyMethod name
          && !isNested above && !isGuarded above then
        .verification
      else .other
    | _, _ => .other

/-! ## The property that a call sets -/

def argumentValue (s : Surroundings) (argument? : Option Tree) :
    Except LiteralError (Option String) :=
  match argument? with
  | some argument => argument.literalContent s
  | none => .ok none

/-- The property that the arguments spell: the first is its name, the second
its value.  There is none if either is missing or absent. -/
def property (s : Surroundings) (arguments? : Option Tree) :
    Except LiteralError (Option Property) := do
  let arguments := Declaration.wrappedArguments arguments?
  let name? ← argumentValue s arguments[0]?
  let value? ← argumentValue s arguments[1]?
  match name?, value? with
  | some name, some value => .ok (some ⟨name, value⟩)
  | _, _ => .ok none

end CallSite

end PropertyHarvest
