/-
# Messages about a scan

What there is to say beside the report is said on lines of its own.  Some of it
is only counted, unless one asks for details.

With details each notice, each file as it is read, each item that was skipped and each
file that failed has a line of its own.  Without them the paths that could not be
reached and the files that failed are counted, and nothing else is said.  No message is
part of the report, and none has an influence on it or on the status of a scan.

The order is that of the work: what is wrong with the configuration and the search
first, then the files, then what was skipped in them, and what failed at last.
-/
import PropertyHarvest.Project
import PropertyHarvest.Report.Style

namespace PropertyHarvest.Messages

/-- How messages are shown. -/
structure Setting where
  verbose : Bool := false
  colored : Bool := false
  deriving DecidableEq, Repr, Inhabited

/-- The word before a warning. -/
def warning (s : Setting) : String :=
  Style.paint s.colored [.bold, .yellow] "warning:"

/-! ## Before the scan -/

def defaultConfig : String :=
  "Note: No " ++ Config.fileName ++ " found, using default configuration"

def skips (s : Setting) (count : Nat) : String :=
  "Warning: " ++ toString count ++ " path(s) skipped due to access errors"
    ++ if s.verbose then "" else " (use -v for details)"

/-- What there is to say about a loaded project. -/
def project (s : Setting) (p : Project) : List String :=
  (if s.verbose && !p.configured then [defaultConfig] else [])
    ++ (if s.verbose then p.discovery.notices.map fun n => warning s ++ " " ++ n.text else [])
    ++ (if p.discovery.skipCount = 0 then [] else [skips s p.discovery.skipCount])

/-! ## During the scan -/

def progress (s : Setting) (files : List String) : List String :=
  if s.verbose then files.map ("Scanning file: " ++ ·) else []

/-! ## After the scan -/

/-- Says what was skipped and where. -/
def diagnostic (s : Setting) (path : String) (d : Diagnostic) : String :=
  warning s ++ " " ++ path ++ ":" ++ toString d.line ++ ": " ++ d.skipped.text ++ ": "
    ++ d.reason.message

def diagnostics (s : Setting) (r : ScanReport) : List String :=
  if s.verbose then r.diagnostics.map fun (path, d) => diagnostic s path d else []

/-- Says why a file could not be read. -/
def failure (s : Setting) (path : String) (e : FileError) : String :=
  Style.paint s.colored [.red] "✘" ++ " " ++ Style.paint s.colored [.bold, .red] "error:" ++ " "
    ++ path ++ ": " ++ e.heading ++ ": " ++ e.message

/-- Says how many files could not be read. -/
def failureCount (s : Setting) (count : Nat) : String :=
  warning s ++ " " ++ toString count ++ " file(s) could not be processed (use "
    ++ Style.paint s.colored [.cyan] "-v" ++ " for details)"

def failures (s : Setting) (r : ScanReport) : List String :=
  if r.failures.isEmpty then []
  else if s.verbose then r.failures.map fun (path, e) => failure s path e
  else [failureCount s r.failures.length]

end PropertyHarvest.Messages
