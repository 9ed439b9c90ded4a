/-
# Scanning files

One harvester reads all files of a scan, one after the other.  A file that
cannot be read adds a failure to the report and nothing else; what is skipped
in a file is reported with the path of the file.

A file is first read as a text, then lowered, then walked, and the first of these
that is refused is the failure.  The third cannot be: the harvester accepts every
node that it asks for (`Proofs.Harvester.Reading`).  It is in the type because a
check in general may refuse.

Skipped items are taken from the harvester after each file, so that they can be
reported with the path.  What was found is taken once, at the end.

The files are given by their paths and contents, so a scan does not depend on a file
system and does not look for anything.
-/
import PropertyHarvest.FileSystem
import PropertyHarvest.Harvester

namespace PropertyHarvest

/-- Why a file could not be read. -/
inductive FileError where
  /-- The bytes of the file are no text. -/
  | notText
  /-- The text of the file is no Java. -/
  | malformed (error : SyntaxError)
  /-- The harvester was handed a node that it did not ask for. -/
  | unacceptable (error : ProcessError)
  deriving DecidableEq, Repr

namespace FileError

def heading : FileError → String
  | notText => "read error"
  | malformed _ => "parse error"
  | unacceptable _ => "unsupported tree"

def message : FileError → String
  | notText => "stream did not contain valid UTF-8"
  | malformed e => e.message
  | unacceptable e => e.message

end FileError

/-- What a scan reports. -/
structure ScanReport where
  /-- What the verified methods of all files set. -/
  modules : Modules := []
  filesScanned : Nat := 0
  /-- The paths of the files that could not be read, with the reasons. -/
  failures : List (String × FileError) := []
  /-- What was skipped, with the paths of the files. -/
  diagnostics : List (String × Diagnostic) := []
  deriving DecidableEq, Repr, Inhabited

namespace ScanReport

def propertyCount (r : ScanReport) : Nat :=
  r.modules.propertyCount

end ScanReport

namespace FileContent

def arena (content : FileContent) : Except FileError Arena :=
  match content.text? with
  | none => .error .notText
  | some text => (SourceFile.mk text content.concrete).arena.mapError .malformed

end FileContent

namespace Harvester

def readFile (h : Harvester) (content : FileContent) : Except FileError Unit × Harvester :=
  match content.arena with
  | .error e => (.error e, h)
  | .ok a =>
    let (result, h) := h.harvest a
    (result.mapError .unacceptable, h)

/-- Reads one file of a scan and writes down what there is to report. -/
def scanFile (state : Harvester × ScanReport) (file : String × FileContent) :
    Harvester × ScanReport :=
  let (h, report) := state
  let (path, content) := file
  let (result, h) := h.readFile content
  let (diagnostics, h) := h.takeDiagnostics
  let failures := match result with
    | .ok _ => []
    | .error e => [(path, e)]
  (h, { report with
    filesScanned := report.filesScanned + 1
    failures := report.failures ++ failures
    diagnostics := report.diagnostics ++ diagnostics.map (path, ·) })

end Harvester

/-- Scans some files, each given by its path and its content. -/
def scan (basePath : String) (files : List (String × FileContent)) : ScanReport :=
  let (h, report) := files.foldl Harvester.scanFile (.ofBasePath basePath, {})
  { report with modules := h.drain.1 }

end PropertyHarvest
