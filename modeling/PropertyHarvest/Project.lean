/-
# Projects

A project is a directory that is scanned: its configuration, and the files that
the configuration leads to.  What is asked for on the command line goes before
the configuration file, and that before the defaults.

The configuration is looked for from the directory as it is spelled.  The base path
of the command line takes the place of the other one even if it is empty.  A project
whose configuration cannot be used is not scanned at all; one without a configuration
is scanned by the defaults.

What was found and what could not be reached are known before the first file is read,
and messages about them come first.  Reading the files changes neither.
-/
import PropertyHarvest.Config.Lookup
import PropertyHarvest.Discovery
import PropertyHarvest.Scan

namespace PropertyHarvest

/-- Which project to scan. -/
structure ProjectOptions where
  /-- The directory; if absent, the current one. -/
  path? : Option String := none
  /-- Goes before the base path of the configuration file. -/
  basePath? : Option String := none
  deriving DecidableEq, Repr, Inhabited

/-- A directory ready to be scanned. -/
structure Project where
  config : Config
  /-- Whether there is a configuration file. -/
  configured : Bool
  discovery : Discovery
  deriving DecidableEq, Repr

namespace Project

/-- Loads the configuration of a project and finds its files. -/
def load (fs : FileSystem) (options : ProjectOptions) : Except ConfigError Project := do
  let dir := options.path?.getD "."
  let loaded? ← Config.load? fs dir
  let config := loaded?.getD {}
  let config := { config with basePath := options.basePath?.getD config.basePath }
  return ⟨config, loaded?.isSome, .discover fs dir config.includes config.ignores⟩

def files (p : Project) : List String :=
  p.discovery.files

def scan (fs : FileSystem) (p : Project) : ScanReport :=
  PropertyHarvest.scan p.config.basePath (p.files.map fun path => (path, fs.read path))

end Project

end PropertyHarvest
