/-
# Running a command

A command reads a file system, writes lines to two channels, may leave a new
file behind, and ends with a status: zero if all is well, one if some of the
work could not be done, two if there was no way to begin.

Whether colours are shown is decided by whoever runs the command.  A command is a
function of what is found in the file system, and it has no other input.

Only one command writes, and it writes one file in the current directory.  Where
there are links this is said twice: `run` works on what is seen, links and all, and
`leaves` says which entries and which links there are afterwards.

A scan fails if a file failed, whatever was found in the others.  It cannot begin where
there is a configuration that cannot be used.
-/
import PropertyHarvest.CommandLine
import PropertyHarvest.FileSystem.Links
import PropertyHarvest.Report
import PropertyHarvest.Report.Messages

namespace PropertyHarvest

/-- How a command ended. -/
inductive ExitStatus where
  | success
  | failure
  | error
  deriving DecidableEq, Repr

def ExitStatus.code : ExitStatus → Nat
  | success => 0
  | failure => 1
  | error => 2

/-- What a command leaves behind. -/
structure Outcome where
  status : ExitStatus
  /-- What is written as the result. -/
  output : String := ""
  /-- What is said beside the result. -/
  messages : String := ""
  fileSystem : FileSystem
  deriving Repr

namespace Command

/-! ## Scanning -/

def report (colored : Bool) (r : ScanReport) : Format → String
  | .text => Listing.text colored r
  | .json => r.json ++ "\n"

/-- Scans a project and reports. -/
def runScan (fs : FileSystem) (colored : Bool) (options : ScanOptions) : Outcome :=
  match Project.load fs options.project with
  | .error e =>
    { status := .error, messages := Style.unlines ["Error: " ++ e.message], fileSystem := fs }
  | .ok project =>
    let r := project.scan fs
    let setting : Messages.Setting := ⟨options.verbose, colored⟩
    { status := if r.failures.isEmpty then .success else .failure
      output := report colored r options.format
      messages := Style.unlines (Messages.project setting project
        ++ Messages.progress setting project.files
        ++ Messages.diagnostics setting r ++ Messages.failures setting r)
      fileSystem := fs }

/-! ## A new configuration file -/

/-- Writes the default configuration into the current directory, unless a
configuration file is there. -/
def runInit (fs : FileSystem) (colored : Bool) : Outcome :=
  if fs.hasPath Config.fileName then
    { status := .failure
      messages := Style.unlines ["Error: " ++ Config.fileName ++ " already exists"]
      fileSystem := fs }
  else
    { status := .success
      output := Style.unlines [Listing.success colored ("Created " ++ Config.fileName)]
      fileSystem := fs.writeFile Config.fileName (Config.text {}) }

/-- What a command leaves where there are links.  A new configuration is written
beside them, and what is read through them may be another thing afterwards. -/
def leaves (fs : LinkedFileSystem) : Command → LinkedFileSystem
  | .init =>
    if fs.seen.hasPath Config.fileName then fs
    else { fs with plain := fs.plain.writeFile Config.fileName (Config.text {}) }
  | _ => fs

/-! ## Help -/

/-- How the program is used. -/
def helpText : String :=
  Style.unlines [
    "Extracts module configuration properties from Java unit tests without running them",
    "",
    "Usage: testprops [COMMAND]",
    "",
    "Commands:",
    "  scan  Extract the configuration properties asserted by verified unit tests",
    "  init  Initialize a new .testpropsrc.json configuration file",
    "  help  Print this message or the help of the given subcommand(s)",
    "",
    "Options:",
    "  -h, --help     Print help",
    "  -V, --version  Print version"]

def versionText : String :=
  Style.unlines ["testprops 0.1.0"]

def run (fs : FileSystem) (colored : Bool) : Command → Outcome
  | .scan options => runScan fs colored options
  | .init => runInit fs colored
  | .help => { status := .success, output := helpText, fileSystem := fs }

end Command

end PropertyHarvest
