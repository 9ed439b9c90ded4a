/-
# JSON values

The configuration file and one form of the report are JSON.  A value is kept as
it was written: numbers as their digits, members of an object in their order
with repetitions, and strings as texts.  A string can be well-formed and still
be no text, when it escapes half of a surrogate pair; that is the text `none`.

Two values that are written differently are different here, even where they mean the
same, as the numbers `1` and `1.0` or the members of an object in two orders.
Nothing in the library needs them to be equal.

A member without a name is one whose name is no text.  Such an object is well-formed;
whether it can be used is for the reader of the value to say.
-/

namespace PropertyHarvest

/-- A value. -/
inductive Json where
  | null
  | bool (value : Bool)
  | num (digits : String)
  | str (text? : Option String)
  | arr (items : List Json)
  | obj (members : List (Option String × Json))
  deriving Repr, Inhabited

namespace Json

def ofText (text : String) : Json :=
  .str (some text)

def ofTexts (texts : List String) : Json :=
  .arr (texts.map ofText)

/-- The object with the given members. -/
def ofMembers (members : List (String × Json)) : Json :=
  .obj (members.map fun (name, value) => (some name, value))

def text? : Json → Option String
  | .str t => t
  | _ => none

def texts? : Json → Option (List String)
  | .arr items => items.mapM text?
  | _ => none

end Json

end PropertyHarvest
