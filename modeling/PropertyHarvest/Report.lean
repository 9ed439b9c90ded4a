/-
# The report

The report is written in one of two forms.  The listing names the modules in the
order in which they were found, each with its properties in ascending order, and
ends with a summary.  As JSON the report is an object with a member for each
module, in the same order, whose value is the array of the properties in ascending
order.

Both forms are functions of the report alone, but for the colours of the listing.  The
listing is made as lines first (`Listing.lines`), of which only the text is coloured;
what a reader can learn from the lines is in `Proofs.Report.Listing`, and from the
JSON text in `Proofs.Report.Members`.

A report without modules has no listing but its summary, and as JSON it is an empty
object.  Names and values are shown as they are in the listing; in JSON they are
escaped where the form demands it.
-/
import PropertyHarvest.Json.Writer
import PropertyHarvest.Report.Style
import PropertyHarvest.Scan

namespace PropertyHarvest

/-! ## The listing -/

namespace Listing

inductive Line where
  | header (module : String)
  | row (property : Property)
  | blank
  | summary (text : String)
  deriving DecidableEq, Repr

def moduleLines (module : String) (ps : List Property) : List Line :=
  .header module :: (Property.sort ps).map .row

/-- A number of things. -/
def counted (n : Nat) (one many : String) : String :=
  toString n ++ " " ++ if n = 1 then one else many

/-- What was found, in numbers. -/
def summary (r : ScanReport) : String :=
  let files := counted r.filesScanned "file" "files"
  if r.modules.isEmpty then "Scanned " ++ files ++ " - no module properties found"
  else
    "Extracted " ++ counted r.propertyCount "property" "properties"
      ++ " for " ++ counted r.modules.length "module" "modules"
      ++ " from " ++ files

/-- The lines of a report.  A blank line follows every module. -/
def lines (r : ScanReport) : List Line :=
  r.modules.flatMap (fun (module, ps) => moduleLines module ps ++ [.blank])
    ++ [.summary (summary r)]

/-- A message that something was done. -/
def success (colored : Bool) (text : String) : String :=
  Style.paint colored [.green] "✓" ++ " " ++ Style.paint colored [.green] text

/-- A line as it is shown. -/
def Line.text (colored : Bool) : Line → String
  | header module => Style.paint colored [.bold] module
  | row p => "  " ++ Style.paint colored [.cyan] p.name ++ " = " ++ p.value
  | blank => ""
  | summary text => success colored text

def text (colored : Bool) (r : ScanReport) : String :=
  Style.unlines ((lines r).map (Line.text colored))

end Listing

/-! ## JSON -/

def Property.toJson (p : Property) : Json :=
  .ofMembers [("name", .ofText p.name), ("value", .ofText p.value)]

/-- The properties of each module, in ascending order. -/
def Modules.toJson (ms : Modules) : Json :=
  .ofMembers (ms.map fun (module, ps) => (module, .arr ((Property.sort ps).map Property.toJson)))

def ScanReport.json (r : ScanReport) : String :=
  r.modules.toJson.pretty

end PropertyHarvest
