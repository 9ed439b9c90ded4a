/-
# What the listing tells

The listing and the JSON text of a report tell the same modules with the same
properties in the same order.  The listing is a header for each module with its
rows below it, then a blank line and what comes next, at last the summary
(`Listing.text_eq`).  A reader of the lines that puts each row under the header
above it finds just the properties of the JSON text (`Listing.under_lines`), and
the summary counts the lines that stand above it (`Listing.summary_eq`).

The colours are left out: with them each line has the same words between sequences
that a terminal does not show.  The names and values are shown as they are.  One that
has a line break in it would be read as two lines, so the reader that is described here
is one of lines and not of characters.
-/
import PropertyHarvest.Proofs.Matching
import PropertyHarvest.Proofs.Report.Members
import PropertyHarvest.Report

namespace PropertyHarvest

namespace Modules

theorem sorted_cons (e : String × List Property) (ms : Modules) :
    sorted (e :: ms) = (e.1, Property.sort e.2) :: sorted ms := rfl

theorem forall₂_sorted {ms : Modules} (h : ∀ e ∈ ms, e.2.Nodup) :
    List.Forall₂ (fun e t => t.1 = e.1 ∧ t.2.Perm e.2 ∧ t.2.Pairwise Property.Precedes)
      ms ms.sorted := by
  refine List.forall₂_map_right_iff.mpr (List.forall₂_same.mpr fun e he => ?_)
  exact ⟨rfl, Property.sort_perm e.2, Property.pairwise_precedes_sort (h e he)⟩

end Modules

namespace Listing

/-! ## Lines -/

namespace Line

def isHeader : Line → Bool
  | header _ => true
  | _ => false

def isRow : Line → Bool
  | row _ => true
  | _ => false

end Line

/-- The properties of the rows, each with the module under which it stands;
`module?` is the module that the first rows belong to. -/
def under (module? : Option String) : List Line → List (Option String × Property)
  | [] => []
  | .header module :: rest => under (some module) rest
  | .row p :: rest => (module?, p) :: under module? rest
  | .blank :: rest => under module? rest
  | .summary _ :: rest => under module? rest

/-- The lines of modules, with the properties as they are. -/
def body (ms : Modules) : List Line :=
  ms.flatMap fun (module, ps) => .header module :: ps.map .row ++ [.blank]

theorem lines_eq (r : ScanReport) : lines r = body r.modules.sorted ++ [.summary (summary r)] := by
  rw [lines, body, Modules.sorted, List.flatMap_map]
  rfl

theorem body_cons (module : String) (ps : List Property) (ms : Modules) :
    body ((module, ps) :: ms) = .header module :: (ps.map .row ++ .blank :: body ms) := by
  simp [body]

theorem under_rows (module? : Option String) (ps : List Property) (rest : List Line) :
    under module? (ps.map .row ++ rest) = ps.map (module?, ·) ++ under module? rest := by
  induction ps with
  | nil => rfl
  | cons p ps ih =>
      show (module?, p) :: under module? (ps.map .row ++ rest) = _
      rw [ih]
      rfl

theorem under_body (module? : Option String) (ms : Modules) (text : String) :
    under module? (body ms ++ [.summary text]) = ms.flatMap fun e => e.2.map (some e.1, ·) := by
  induction ms generalizing module? with
  | nil => rfl
  | cons e ms ih =>
      obtain ⟨module, ps⟩ := e
      rw [body_cons, List.cons_append, List.append_assoc, under, under_rows, List.cons_append,
        under, ih, List.flatMap_cons]

theorem under_lines (r : ScanReport) :
    under none (lines r) = r.modules.sorted.flatMap fun e => e.2.map (some e.1, ·) := by
  rw [lines_eq, under_body]

/-! ## Counts -/

theorem countP_isHeader_body (ms : Modules) : (body ms).countP Line.isHeader = ms.length := by
  induction ms with
  | nil => rfl
  | cons e ms ih =>
      obtain ⟨module, ps⟩ := e
      have hrows : (ps.map Line.row).countP Line.isHeader = 0 := by
        simp [List.countP_map, Function.comp_def, Line.isHeader]
      rw [body_cons, List.countP_cons_of_pos rfl, List.countP_append, hrows,
        List.countP_cons_of_neg Bool.false_ne_true, ih, Nat.zero_add, List.length_cons]

theorem countP_isRow_body (ms : Modules) : (body ms).countP Line.isRow = ms.propertyCount := by
  induction ms with
  | nil => rfl
  | cons e ms ih =>
      obtain ⟨module, ps⟩ := e
      have hrows : (ps.map Line.row).countP Line.isRow = ps.length := by
        simp [List.countP_map, Function.comp_def, Line.isRow]
      rw [body_cons, List.countP_cons_of_neg Bool.false_ne_true, List.countP_append, hrows,
        List.countP_cons_of_neg Bool.false_ne_true, ih]
      rfl

theorem propertyCount_sorted (ms : Modules) : ms.sorted.propertyCount = ms.propertyCount := by
  induction ms with
  | nil => rfl
  | cons e ms ih =>
      rw [Modules.sorted_cons, Modules.propertyCount, ih, (Property.sort_perm e.2).length_eq]
      rfl

/-- The summary is no line that counts. -/
theorem countP_lines {q : Line → Bool} (hq : ∀ text, q (.summary text) = false) (r : ScanReport) :
    (lines r).countP q = (body r.modules.sorted).countP q := by
  rw [lines_eq, List.countP_append, List.countP_singleton, hq, if_neg Bool.false_ne_true,
    Nat.add_zero]

theorem countP_isHeader_lines (r : ScanReport) :
    (lines r).countP Line.isHeader = r.modules.length := by
  rw [countP_lines fun _ => rfl, countP_isHeader_body, Modules.sorted, List.length_map]

theorem countP_isRow_lines (r : ScanReport) : (lines r).countP Line.isRow = r.propertyCount := by
  rw [countP_lines fun _ => rfl, countP_isRow_body, propertyCount_sorted]
  rfl

theorem summary_eq (r : ScanReport) :
    summary r =
      if (lines r).countP Line.isHeader = 0 then
        "Scanned " ++ counted r.filesScanned "file" "files" ++ " - no module properties found"
      else
        "Extracted " ++ counted ((lines r).countP Line.isRow) "property" "properties"
          ++ " for " ++ counted ((lines r).countP Line.isHeader) "module" "modules"
          ++ " from " ++ counted r.filesScanned "file" "files" := by
  have hempty : r.modules.isEmpty = true ↔ r.modules.length = 0 := by
    rw [List.isEmpty_iff, List.length_eq_zero_iff]
  rw [countP_isHeader_lines, countP_isRow_lines, summary]
  by_cases h : r.modules.length = 0
  · rw [if_pos h, if_pos (hempty.mpr h)]
  · rw [if_neg h, if_neg (mt hempty.mp h)]

/-! ## The text -/

/-- A module with its properties, line by line and without colours. -/
def block (e : String × List Property) : List String :=
  e.1 :: e.2.map fun p => "  " ++ p.name ++ " = " ++ p.value

theorem intercalate_concat {α : Type} (x : α) (blocks : List (List α)) (last : List α) :
    List.intercalate [x] (blocks ++ [last]) = blocks.flatMap (· ++ [x]) ++ last := by
  induction blocks with
  | nil => exact List.intercalate_singleton
  | cons b blocks ih =>
      have hne : blocks ++ [last] ≠ [] :=
        List.append_ne_nil_of_right_ne_nil _ (List.cons_ne_nil _ _)
      obtain ⟨c, rest, hc⟩ := List.exists_cons_of_ne_nil hne
      rw [List.cons_append, hc, List.intercalate_cons_cons, ← hc, ih, List.flatMap_cons,
        List.append_assoc (b ++ [x])]

theorem map_text_body (ms : Modules) :
    (body ms).map (Line.text false) = (ms.map block).flatMap (· ++ [""]) := by
  induction ms with
  | nil => rfl
  | cons e ms ih =>
      obtain ⟨module, ps⟩ := e
      rw [body_cons, List.map_cons, List.map_append, List.map_cons, List.map_map, ih, List.map_cons,
        List.flatMap_cons, block, List.append_assoc, List.cons_append]
      rfl

/-- Without colours the text is the modules, with one blank line between each
and the next, and the summary. -/
theorem text_eq (r : ScanReport) :
    text false r = Style.unlines (List.intercalate [""]
      (r.modules.sorted.map block ++ [["✓" ++ " " ++ summary r]])) := by
  rw [text, lines_eq, List.map_append, map_text_body, intercalate_concat]
  rfl

theorem lines_eq_of_sorted {r s : ScanReport} (hm : s.modules.sorted = r.modules.sorted)
    (hf : s.filesScanned = r.filesScanned) : lines s = lines r := by
  have hsummary : summary s = summary r := by
    rw [summary_eq, summary_eq, countP_lines fun _ => rfl, countP_lines fun _ => rfl,
      countP_lines fun _ => rfl, countP_lines fun _ => rfl, hm, hf]
  rw [lines_eq, lines_eq, hm, hsummary]

end Listing

namespace ScanReport

open Listing

/-- The two reports agree.  The JSON text tells the modules in the order in which
they were found, each with its properties in strictly increasing order; without
colours the listing shows just these, the modules with one blank line between
them, and its rows tell the same properties under the same headers.  The summary
counts these rows and headers, and the files.  And neither report depends on the
order in which the properties of a module were found. -/
theorem reports_agree (r : ScanReport) (h : ∀ e ∈ r.modules, e.2.Nodup) :
    (∃ v told, Json.IsText v r.json ∧ Json.read? r.json = some v ∧ Modules.ofJson? v = some told ∧
      List.Forall₂ (fun e t => t.1 = e.1 ∧ t.2.Perm e.2 ∧ t.2.Pairwise Property.Precedes)
        r.modules told ∧
      text false r = Style.unlines (List.intercalate [""]
        (told.map block ++ [["✓" ++ " " ++ summary r]])) ∧
      under none (lines r) = told.flatMap fun e => e.2.map (some e.1, ·)) ∧
    summary r =
      (if (lines r).countP Line.isHeader = 0 then
        "Scanned " ++ counted r.filesScanned "file" "files" ++ " - no module properties found"
      else
        "Extracted " ++ counted ((lines r).countP Line.isRow) "property" "properties"
          ++ " for " ++ counted ((lines r).countP Line.isHeader) "module" "modules"
          ++ " from " ++ counted r.filesScanned "file" "files") ∧
    ∀ s : ScanReport, s.filesScanned = r.filesScanned →
      List.Forall₂ (fun e f => e.1 = f.1 ∧ e.2.Perm f.2) s.modules r.modules →
        (∀ colored, text colored s = text colored r) ∧ s.json = r.json := by
  refine ⟨⟨_, _, r.isText_json, r.read?_json, Modules.ofJson?_toJson r.modules,
    Modules.forall₂_sorted h,
    text_eq r, under_lines r⟩, summary_eq r, ?_⟩
  intro s hfiles hmodules
  have hsorted : s.modules.sorted = r.modules.sorted := Modules.sorted_eq_sorted_iff.mpr hmodules
  refine ⟨fun colored => ?_, json_eq_json_iff.mpr hsorted⟩
  rw [text, text, lines_eq_of_sorted hsorted hfiles]

/-- Two modules, the second with two properties of one name. -/
def twoModules : ScanReport where
  modules := [("TodoCommentCheck", [⟨"format", "TODO:"⟩, ⟨"format", "FIXME:"⟩]),
    ("AbbreviationCheck", [⟨"allowedAbbreviationLength", "0"⟩])]
  filesScanned := 4

/-- The same with the properties found in another order. -/
def twoModulesAgain : ScanReport where
  modules := [("TodoCommentCheck", [⟨"format", "FIXME:"⟩, ⟨"format", "TODO:"⟩]),
    ("AbbreviationCheck", [⟨"allowedAbbreviationLength", "0"⟩])]
  filesScanned := 4

theorem reports_agree_twoModules :
    (∀ e ∈ twoModules.modules, e.2.Nodup) ∧
    (∃ told : Modules, told.map Prod.fst = ["TodoCommentCheck", "AbbreviationCheck"] ∧
      under none (lines twoModules) = told.flatMap fun e => e.2.map (some e.1, ·)) ∧
    summary twoModules = "Extracted 3 properties for 2 modules from 4 files" ∧
    text false twoModulesAgain = text false twoModules ∧
    twoModulesAgain.json = twoModules.json := by
  have h : ∀ e ∈ twoModules.modules, e.2.Nodup := by decide
  obtain ⟨⟨v, told, -, -, -, htold, -, hunder⟩, hsummary, hsame⟩ := reports_agree twoModules h
  have hnames : told.map Prod.fst = ["TodoCommentCheck", "AbbreviationCheck"] :=
    map_eq_of_forall₂ htold fun _ _ _ ht => ht.1
  have hmodules : List.Forall₂ (fun e f : String × List Property => e.1 = f.1 ∧ e.2.Perm f.2)
      twoModulesAgain.modules twoModules.modules :=
    .cons ⟨rfl, .swap _ _ _⟩ (.cons ⟨rfl, .refl _⟩ .nil)
  obtain ⟨htext, hjson⟩ := hsame twoModulesAgain rfl hmodules
  refine ⟨h, ⟨told, hnames, hunder⟩, ?_, htext false, hjson⟩
  rw [hsummary, countP_isHeader_lines, countP_isRow_lines]
  decide +kernel

end ScanReport

end PropertyHarvest
