/-
# Finding the configuration

The configuration of a directory is looked for in the directory itself and then
in one parent after the other, as the spelling of the path tells them.  The
nearest one that has a configuration file or is the top of a repository
decides.

Parents are taken by the spelling of the path and not by the places to which it
leads.  From a single dot nothing above the current directory is asked, and from
`sub/..` the directory `sub` is.  Which directories these are, and when they are the
ones above, is in `Proofs.Config.Nearest`.

Anything of the right name counts, also a directory; it is then found and cannot be
read.

Whatever is found first decides, and a file that is found and refused is not passed
over for another one further up.
-/
import PropertyHarvest.Config
import PropertyHarvest.FileSystem

namespace PropertyHarvest.Config

def fileName : String := ".testpropsrc.json"

/-- The name that marks the top of a repository. -/
def repositoryMark : String := ".git"

/-- What a directory decides: the path of its configuration file, or that there
is none, or nothing. -/
def verdict (fs : FileSystem) (dir : String) : Option (Option String) :=
  let path := Path.join dir fileName
  if fs.hasPath path then some (some path)
  else if fs.hasPath (Path.join dir repositoryMark) then some none
  else none

/-- The path of the configuration file for a directory. -/
def findFile? (fs : FileSystem) (dir : String) : Option String :=
  ((dir :: Path.parents dir).findSome? (verdict fs)).join

def loadFile (fs : FileSystem) (path : String) : Except ConfigError Config := do
  let text ← (fs.text? path).elim (.error (.unreadable path)) .ok
  let c ← (read? text).elim (.error (.malformed path)) .ok
  c.validate
  return c

/-- Loads the configuration for a directory; nothing if there is no file. -/
def load? (fs : FileSystem) (dir : String) : Except ConfigError (Option Config) :=
  match findFile? fs dir with
  | some path => (loadFile fs path).map some
  | none => .ok none

end PropertyHarvest.Config
