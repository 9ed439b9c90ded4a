/-
# Configuration

A configuration says where test sources are looked for, which of them are left
out, and what is put in front of the paths that tests build.  It is written as
a JSON object or as the array of its fields in order; what is not given has its
default.

The form is strict where it can be: a known member may not be repeated, a value has
to be of the right type, and an array may not be longer than the fields.  Members of
other names are skipped with whatever they hold.

Reading and validating are two things.  A configuration that was read may still have
an ignore or an include that is no pattern, and then it is refused as a whole.  An
include without a wildcard is a path and is never refused.
-/
import PropertyHarvest.Glob.Pattern
import PropertyHarvest.Json.Reader
import PropertyHarvest.Json.Writer
import PropertyHarvest.Text.Quoted

namespace PropertyHarvest

/-- Where and how to scan. -/
structure Config where
  /-- Put in front of every built path. -/
  basePath : String := ""
  /-- The directories to scan, as paths or as patterns. -/
  includes : List String := ["src/test/java"]
  /-- What to leave out, as paths or as patterns. -/
  ignores : List String := []
  deriving DecidableEq, Repr, Inhabited

inductive PatternField where
  | includes
  | ignores
  deriving DecidableEq, Repr

def PatternField.name : PatternField → String
  | includes => "includes"
  | ignores => "ignores"

/-- Why a configuration cannot be used. -/
inductive ConfigError where
  /-- The file at `path` has no text. -/
  | unreadable (path : String)
  /-- The file at `path` spells no configuration. -/
  | malformed (path : String)
  /-- A field holds a text that is no pattern. -/
  | invalidPattern (field : PatternField) (pattern : String)
  deriving DecidableEq, Repr

def ConfigError.message : ConfigError → String
  | unreadable path => "Failed to read config file: " ++ Quoted.quote path
  | malformed path => "Failed to parse config file: " ++ Quoted.quote path
  | invalidPattern field pattern =>
    "Invalid glob pattern in '" ++ field.name ++ "': \"" ++ pattern ++ "\""

namespace Config

/-! ## Reading -/

def ofFields? (basePath? includes? ignores? : Option Json) : Option Config := do
  let default : Config := {}
  let basePath ← basePath?.elim (some default.basePath) Json.text?
  let includes ← includes?.elim (some default.includes) Json.texts?
  let ignores ← ignores?.elim (some default.ignores) Json.texts?
  return { basePath, includes, ignores }

/-- The value of a member that may be absent but not repeated. -/
def member? (members : List (Option String × Json)) (name : String) : Option (Option Json) :=
  match members.filter fun (n, _) => n == some name with
  | [] => some none
  | [(_, value)] => some (some value)
  | _ => none

/-- The configuration that a value spells.  Members of other names are
skipped, but their names have to be texts. -/
def ofJson? : Json → Option Config
  | .obj members => do
    guard (members.all fun (name, _) => name.isSome)
    ofFields? (← member? members "basePath") (← member? members "includes")
      (← member? members "ignores")
  | .arr items => do
    guard (items.length ≤ 3)
    ofFields? items[0]? items[1]? items[2]?
  | _ => none

def read? (text : String) : Option Config :=
  (Json.read? text).bind ofJson?

/-! ## Writing -/

def toJson (c : Config) : Json :=
  .ofMembers [("basePath", .ofText c.basePath), ("includes", .ofTexts c.includes),
    ("ignores", .ofTexts c.ignores)]

def text (c : Config) : String :=
  c.toJson.pretty

/-! ## Validation -/

/-- Refuses a text that is no pattern. -/
def validatePattern (field : PatternField) (pattern : String) : Except ConfigError Unit :=
  match Glob.Pattern.read pattern with
  | .ok _ => .ok ()
  | .error _ => .error (.invalidPattern field pattern)

/-- Refuses a configuration with an invalid pattern.  Every ignore is read as a
pattern; an include only if it has a wildcard. -/
def validate (c : Config) : Except ConfigError Unit := do
  c.ignores.forM (validatePattern .ignores)
  (c.includes.filter Glob.hasWildcard).forM (validatePattern .includes)

end Config

end PropertyHarvest
