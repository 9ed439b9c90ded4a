/-
# Scans with files that fail

One harvester goes through all files of a scan.  A file that cannot be read
leaves no trace in it: the scan finds and reports what it would without that
file, and the file is counted and named as a failure.  The state of a scan after
any number of files is told by these files (`Scanned`), and each file keeps it
so (`Scanned.scanFile`).

A file fails because its bytes are no text or because its text is no Java; that a walk
is refused is a third way in the type, and it never happens (`harvest_fst`).  Whether a
file is there when it is read is not asked again: the paths come from a search, and a
path that leads to no file is read as one without a text.
-/
import PropertyHarvest.Command
import PropertyHarvest.Proofs.Concrete.Building
import PropertyHarvest.Proofs.Concrete.Equations
import PropertyHarvest.Proofs.Discovery.Order
import PropertyHarvest.Proofs.Harvester.Plan
import PropertyHarvest.Proofs.Harvester.Resemblance

namespace PropertyHarvest

namespace FileContent

/-- Why a file cannot be read, if it cannot. -/
def error? (content : FileContent) : Option FileError :=
  match content.arena with
  | .error e => some e
  | .ok _ => none

theorem error?_cases {content : FileContent} {e : FileError} (h : content.error? = some e) :
    e = .notText ∨ ∃ reason, e = .malformed reason := by
  rw [error?, arena] at h
  cases ht : content.text? with
  | none =>
      rw [ht] at h
      cases h
      exact .inl rfl
  | some text =>
      rw [ht] at h
      dsimp only at h
      cases hf : (SourceFile.mk text content.concrete).arena with
      | error reason =>
          rw [hf] at h
          cases h
          exact .inr ⟨reason, rfl⟩
      | ok a =>
          rw [hf] at h
          cases h

end FileContent

namespace Harvester

/-! ## One walk -/

/-- What the walk of one tree reports. -/
def reports (basePath : String) (a : Arena) : List Diagnostic :=
  ((ofBasePath basePath).harvest a).2.diagnostics

theorem diagnostics_harvest (h : Harvester) (a : Arena) :
    (h.harvest a).2.diagnostics = h.diagnostics ++ reports h.basePath a := by
  obtain ⟨plan, hplan⟩ := exists_plan a
  rw [reports, hplan, hplan]
  rfl

theorem found_harvest_congr {h h' : Harvester} (hb : h.basePath = h'.basePath)
    (hf : h.found = h'.found) (a : Arena) :
    (h.harvest a).2.basePath = h.basePath ∧ (h.harvest a).2.found = (h'.harvest a).2.found := by
  obtain ⟨plan, hplan⟩ := exists_plan a
  rw [hplan, hplan, Plan.after, Plan.after, hb, hf]
  exact ⟨rfl, rfl⟩

theorem basePath_harvestAll (h : Harvester) (trees : List Arena) :
    (h.harvestAll trees).basePath = h.basePath := by
  obtain ⟨findings, ds, hplan⟩ := exists_plan_all trees
  exact (hplan h).1

/-! ## One file -/

variable {path : String} {content : FileContent} {h : Harvester} {r : ScanReport}

theorem scanFile_of_error {e : FileError} (hc : content.arena = .error e)
    (hd : h.diagnostics = []) : scanFile (h, r) (path, content) =
      (h, { r with
        filesScanned := r.filesScanned + 1
        failures := r.failures ++ [(path, e)] }) := by
  obtain ⟨basePath, packagePath, scope, found, diagnostics⟩ := h
  cases hd
  simp only [scanFile, readFile, hc, takeDiagnostics, List.map_nil, List.append_nil]

theorem scanFile_of_ok {a : Arena} (hc : content.arena = .ok a) (hd : h.diagnostics = []) :
    scanFile (h, r) (path, content) =
      ((h.harvest a).2.takeDiagnostics.2,
        { r with filesScanned := r.filesScanned + 1
                 diagnostics := r.diagnostics ++ (reports h.basePath a).map (path, ·) }) := by
  have hreports : (h.harvest a).2.diagnostics = reports h.basePath a := by
    rw [diagnostics_harvest, hd, List.nil_append]
  simp only [scanFile, readFile, hc, harvest_fst, Except.mapError, takeDiagnostics, hreports,
    List.append_nil]

end Harvester

/-! ## All files -/

namespace ScanReport

def failuresOf (files : List (String × FileContent)) : List (String × FileError) :=
  files.filterMap fun f => f.2.error?.map (f.1, ·)

def treesOf (files : List (String × FileContent)) : List Arena :=
  files.filterMap fun f => f.2.arena.toOption

/-- What the walks of the files report, file by file. -/
def reportsOf (basePath : String) (files : List (String × FileContent)) :
    List (String × Diagnostic) :=
  files.flatMap fun f =>
    (f.2.arena.toOption.elim [] (Harvester.reports basePath)).map (f.1, ·)

theorem failuresOf_concat (files : List (String × FileContent)) (file : String × FileContent) :
    failuresOf (files ++ [file]) =
      failuresOf files ++ (file.2.error?.map (file.1, ·)).toList := by
  rw [failuresOf, List.filterMap_append, List.filterMap_cons]
  cases file.2.error? <;> rfl

theorem treesOf_concat (files : List (String × FileContent)) (file : String × FileContent) :
    treesOf (files ++ [file]) = treesOf files ++ file.2.arena.toOption.toList := by
  rw [treesOf, List.filterMap_append, List.filterMap_cons]
  cases file.2.arena <;> rfl

theorem reportsOf_concat (basePath : String) (files : List (String × FileContent))
    (file : String × FileContent) : reportsOf basePath (files ++ [file]) =
      reportsOf basePath files ++
        (file.2.arena.toOption.elim [] (Harvester.reports basePath)).map (file.1, ·) := by
  rw [reportsOf, List.flatMap_append, List.flatMap_singleton]
  rfl

/-- The state of a scan after some files, of which only those that can be read
have come to the harvester. -/
structure Scanned (basePath : String) (files : List (String × FileContent))
    (state : Harvester × ScanReport) : Prop where
  basePath_eq : state.1.basePath = basePath
  reported : state.1.diagnostics = []
  found : state.1.found = ((Harvester.ofBasePath basePath).harvestAll (treesOf files)).found
  filesScanned : state.2.filesScanned = files.length
  failures : state.2.failures = failuresOf files
  diagnostics : state.2.diagnostics = reportsOf basePath files

variable {basePath : String} {files : List (String × FileContent)}

theorem Scanned.scanFile {state : Harvester × ScanReport} (hs : Scanned basePath files state)
    (file : String × FileContent) :
    Scanned basePath (files ++ [file]) (Harvester.scanFile state file) := by
  obtain ⟨h, r⟩ := state
  obtain ⟨path, content⟩ := file
  obtain ⟨hbase, hreported, hfound, hcount, hfailures, hdiagnostics⟩ := hs
  dsimp only at hbase hreported hfound hcount hfailures hdiagnostics
  cases hc : content.arena with
  | error e =>
      have herror : content.error? = some e := by rw [FileContent.error?, hc]
      rw [Harvester.scanFile_of_error hc hreported]
      refine ⟨hbase, hreported, ?_, ?_, ?_, ?_⟩
      · rw [treesOf_concat, hc]
        exact hfound.trans (congrArg (fun trees => (Harvester.harvestAll _ trees).found)
          (List.append_nil _).symm)
      · rw [List.length_append, hcount, List.length_singleton]
      · rw [failuresOf_concat, herror, hfailures]
        rfl
      · rw [reportsOf_concat, hc, hdiagnostics]
        exact (List.append_nil _).symm
  | ok a =>
      have herror : content.error? = none := by rw [FileContent.error?, hc]
      -- This harvester has handed out its diagnostics and the one of the closed form has not.
      -- What they have found is the same, and a walk adds the same to it.
      have hbase' := Harvester.basePath_harvestAll (.ofBasePath basePath) (treesOf files)
      obtain ⟨hkeep, hsame⟩ := Harvester.found_harvest_congr (hbase.trans hbase'.symm) hfound a
      rw [Harvester.scanFile_of_ok hc hreported]
      refine ⟨hkeep.trans hbase, rfl, ?_, ?_, ?_, ?_⟩
      · rw [treesOf_concat, hc, Harvester.harvestAll, List.foldl_append]
        exact hsame
      · rw [List.length_append, hcount, List.length_singleton]
      · rw [failuresOf_concat, herror, hfailures]
        exact (List.append_nil _).symm
      · rw [reportsOf_concat, hc, hdiagnostics, hbase]
        rfl

/-- Each file keeps the state of a scan as it should be, so all files do. -/
theorem scanned_foldl (basePath : String) (files : List (String × FileContent)) :
    Scanned basePath files (files.foldl Harvester.scanFile (.ofBasePath basePath, {})) := by
  induction files using List.reverseRecOn with
  | nil => exact ⟨rfl, rfl, rfl, rfl, rfl, rfl⟩
  | append_singleton files file ih =>
      rw [List.foldl_append]
      exact ih.scanFile file

/-! ## The report -/

/-- A scan in closed form. -/
theorem scan_eq (basePath : String) (files : List (String × FileContent)) :
    scan basePath files =
      { modules := Harvester.run basePath (treesOf files)
        filesScanned := files.length
        failures := failuresOf files
        diagnostics := reportsOf basePath files } := by
  have hs := scanned_foldl basePath files
  rw [scan]
  generalize files.foldl Harvester.scanFile (.ofBasePath basePath, {}) = state at hs
  obtain ⟨h, r⟩ := state
  obtain ⟨-, -, hfound, hcount, hfailures, hdiagnostics⟩ := hs
  dsimp only at hfound hcount hfailures hdiagnostics ⊢
  rw [← hcount, ← hfailures, ← hdiagnostics, Harvester.drain, hfound]
  rfl

/-- The report of a scan of the files at some paths, given what is there. -/
structure Tells (basePath : String) (content : String → FileContent) (paths : List String)
    (r : ScanReport) : Prop where
  filesScanned_eq : r.filesScanned = paths.length
  /-- The files that cannot be read are listed, and no others. -/
  mem_failures_iff : ∀ path e,
    (path, e) ∈ r.failures ↔ path ∈ paths ∧ (content path).arena = .error e
  /-- They are listed once, in the order of the bytes of their paths. -/
  ascending_failures : (r.failures.map fun f => bytes f.1).Pairwise (· < ·)
  /-- They are no text or no Java. -/
  failures_cases : ∀ f ∈ r.failures, f.2 = .notText ∨ ∃ reason, f.2 = .malformed reason
  /-- The other files are read as if there were no more files than these. -/
  modules_eq : r.modules =
    Harvester.run basePath (paths.filterMap fun path => (content path).arena.toOption)
  /-- What is reported comes file by file, each time as if there were no more
  files than this one. -/
  diagnostics_eq : r.diagnostics = paths.flatMap fun path =>
    ((content path).arena.toOption.elim [] (Harvester.reports basePath)).map (path, ·)

theorem mem_failuresOf_iff {content : String → FileContent} {paths : List String} {path : String}
    {e : FileError} : (path, e) ∈ failuresOf (paths.map fun p => (p, content p)) ↔
      path ∈ paths ∧ (content path).arena = .error e := by
  have herror : (content path).error? = some e ↔ (content path).arena = .error e := by
    rw [FileContent.error?]
    cases (content path).arena with
    | error e' => simp
    | ok a => simp
  rw [← herror]
  simp only [failuresOf, List.mem_filterMap, List.mem_map, Option.map_eq_some_iff]
  constructor
  · rintro ⟨-, ⟨p, hp, rfl⟩, e', he, heq⟩
    cases heq
    exact ⟨hp, he⟩
  · rintro ⟨hp, he⟩
    exact ⟨_, ⟨path, hp, rfl⟩, e, he, rfl⟩

theorem sublist_failuresOf (files : List (String × FileContent)) :
    ((failuresOf files).map Prod.fst).Sublist (files.map Prod.fst) := by
  induction files using List.reverseRecOn with
  | nil => exact .slnil
  | append_singleton files file ih =>
      rw [failuresOf_concat, List.map_append, List.map_append]
      refine ih.append ?_
      cases file.2.error? with
      | none => exact List.nil_sublist _
      | some e => exact List.Sublist.refl _

/-- A scan tells what its files come to, each by itself. -/
theorem tells_scan (basePath : String) (names : List String) (content : String → FileContent) :
    Tells basePath content (ascending names)
      (scan basePath ((ascending names).map fun path => (path, content path))) := by
  rw [scan_eq]
  have hpaths : ((ascending names).map fun path => (path, content path)).map Prod.fst =
      ascending names := by
    rw [List.map_map]
    exact List.map_id _
  refine ⟨List.length_map _, fun path e => mem_failuresOf_iff, ?_, ?_, ?_, ?_⟩
  · have hsub := (sublist_failuresOf
      ((ascending names).map fun path => (path, content path))).map bytes
    rw [hpaths, List.map_map] at hsub
    exact (pairwise_bytes_ascending names).sublist hsub
  · rintro ⟨path, e⟩ hf
    obtain ⟨file, -, hf⟩ := List.mem_filterMap.mp hf
    obtain ⟨e', he, heq⟩ := Option.map_eq_some_iff.mp hf
    cases heq
    exact FileContent.error?_cases he
  · exact congrArg (Harvester.run basePath) List.filterMap_map
  · exact List.flatMap_map ..

end ScanReport

/-! ## From a project to its report -/

namespace Project

theorem exists_files_discover (fs : FileSystem) (dir : String) (includes ignores : List String) :
    ∃ names, (Discovery.discover fs dir includes ignores).files = ascending names := by
  rw [Discovery.discover]
  exact ⟨_, rfl⟩

/-- The files of a project are listed in ascending order, each once. -/
theorem exists_files_eq_ascending {fs : FileSystem} {options : ProjectOptions} {p : Project}
    (h : load fs options = .ok p) : ∃ names, p.files = ascending names := by
  obtain ⟨loaded?, -, h⟩ := exists_ok_of_bind h
  rw [← Except.ok.inj h]
  exact exists_files_discover fs _ _ _

end Project

namespace Command

theorem status_runScan_of_error {fs : FileSystem} {options : ScanOptions} {e : ConfigError}
    (h : Project.load fs options.project = .error e) (colored : Bool) :
    (runScan fs colored options).status = .error := by
  unfold runScan
  rw [h]

theorem status_runScan_of_ok {fs : FileSystem} {options : ScanOptions} {p : Project}
    (h : Project.load fs options.project = .ok p) (colored : Bool) :
    (runScan fs colored options).status =
      if (p.scan fs).failures.isEmpty then .success else .failure := by
  unfold runScan
  rw [h]

/-- The status of a scan tells whether a file failed. -/
theorem status_runScan_eq_failure_iff (fs : FileSystem) (colored : Bool) (options : ScanOptions) :
    (runScan fs colored options).status = .failure ↔
      ∃ p, Project.load fs options.project = .ok p ∧ (p.scan fs).failures ≠ [] := by
  cases hload : Project.load fs options.project with
  | error e =>
      rw [status_runScan_of_error hload]
      constructor
      · exact fun h => by cases h
      · rintro ⟨p, h, -⟩
        cases h
  | ok p =>
      rw [status_runScan_of_ok hload]
      by_cases hnil : (p.scan fs).failures = []
      · rw [hnil]
        constructor
        · exact fun h => by cases h
        · rintro ⟨p', hp, hne⟩
          cases hp
          exact absurd hnil hne
      · rw [List.isEmpty_eq_false_iff.mpr hnil]
        exact ⟨fun _ => ⟨p, rfl, hnil⟩, fun _ => rfl⟩

end Command

/-- A file that fails costs only itself.  Whatever the files at a set of paths
hold, a scan reads them in the order of the bytes of their paths, counts all of
them, lists those that fail with the reason, finds what is in the others, and
reports file by file; no walk is ever refused.  A project is scanned in this
way, and the scan of a project ends as a failure exactly if a file failed. -/
theorem scan_tells_each_file (basePath : String) (names : List String)
    (content : String → FileContent) :
    (∀ path, path ∈ ascending names ↔ path ∈ names) ∧
      ((ascending names).map bytes).Pairwise (· < ·) ∧
      ScanReport.Tells basePath content (ascending names)
        (scan basePath ((ascending names).map fun path => (path, content path))) ∧
      (∀ (h : Harvester) (a : Arena), (h.harvest a).1 = .ok ()) ∧
      (∀ (fs : FileSystem) (options : ProjectOptions) (p : Project),
        Project.load fs options = .ok p →
          (∃ found, p.files = ascending found) ∧
            ScanReport.Tells p.config.basePath fs.read p.files (p.scan fs)) ∧
      ∀ (fs : FileSystem) (colored : Bool) (options : ScanOptions),
        (Command.runScan fs colored options).status = .failure ↔
          ∃ p, Project.load fs options.project = .ok p ∧ (p.scan fs).failures ≠ [] := by
  refine ⟨fun path => mem_ascending, pairwise_bytes_ascending names,
    ScanReport.tells_scan basePath names content, Harvester.harvest_fst, ?_,
    Command.status_runScan_eq_failure_iff⟩
  intro fs options p hload
  obtain ⟨found, hfiles⟩ := Project.exists_files_eq_ascending hload
  refine ⟨⟨found, hfiles⟩, ?_⟩
  rw [Project.scan, hfiles]
  exact ScanReport.tells_scan _ found fs.read

/-! ## Three files, of which one can be read -/

/-- A construct on the first row. -/
def phrase (kind : String) (field? : Option String) (start stop : Nat) (cs : List Concrete) :
    Concrete :=
  .node ⟨kind, field?, 0, start, stop, true, false, false, false⟩ cs

def rootFile : SourceFile where
  text :=
    "@Test void t()\x7bConfiguration c=createRootConfig();c.addAttribute(\"a\",\"b\");verify(c);\x7d"
  concrete :=
    phrase "program" none 0 85 [phrase "method_declaration" none 0 85 [
      phrase "modifiers" none 0 5 [
        phrase "marker_annotation" none 0 5 [phrase "identifier" (some "name") 1 5 []]],
      phrase "block" (some "body") 14 85 [
        phrase "local_variable_declaration" none 15 50 [
          phrase "type_identifier" (some "type") 15 28 [],
          phrase "variable_declarator" (some "declarator") 29 49 [
            phrase "identifier" (some "name") 29 30 [],
            phrase "method_invocation" (some "value") 31 49 [
              phrase "identifier" (some "name") 31 47 [],
              phrase "argument_list" (some "arguments") 47 49 []]]],
        phrase "expression_statement" none 50 74 [
          phrase "method_invocation" none 50 73 [
            phrase "identifier" (some "object") 50 51 [],
            phrase "identifier" (some "name") 52 64 [],
            phrase "argument_list" (some "arguments") 64 73 [
              phrase "string_literal" none 65 68 [], phrase "string_literal" none 69 72 []]]],
        phrase "expression_statement" none 74 84 [
          phrase "method_invocation" none 74 83 [
            phrase "identifier" (some "name") 74 80 [],
            phrase "argument_list" (some "arguments") 80 83 [
              phrase "identifier" none 81 82 []]]]]]]

open PropertyHarvest.Tree in
def rootTree : Tree :=
  interior .compilationUnit 1 [interior .methodDecl 1 [
    interior .modifiers 1 [interior .annotationUse 1 [token .identifier "Test" 1]],
    interior .block 1 [
      interior .variableDecl 1 [
        interior .modifiers 1 [],
        interior .typeRef 1 [token .identifier "Configuration" 1],
        token .identifier "c" 1,
        interior .expression 1 [interior .methodCall 1 [
          token .identifier "createRootConfig" 1, interior .argumentList 1 []]]],
      interior .expression 1 [interior .methodCall 1 [
        interior .memberAccess 1 [token .identifier "c" 1, token .identifier "addAttribute" 1],
        interior .argumentList 1 [
          interior .expression 1 [token .stringLiteral "\"a\"" 1],
          interior .expression 1 [token .stringLiteral "\"b\"" 1]]]],
      interior .expression 1 [interior .methodCall 1 [
        token .identifier "verify" 1,
        interior .argumentList 1 [interior .expression 1 [token .identifier "c" 1]]]]]]]

theorem slice_rootFile :
    let words := SourceFile.slice rootFile.text
    words 1 5 = "Test" ∧ words 15 28 = "Configuration" ∧ words 29 30 = "c" ∧
      words 31 47 = "createRootConfig" ∧ words 50 51 = "c" ∧
      words 52 64 = "addAttribute" ∧ words 65 68 = "\"a\"" ∧ words 69 72 = "\"b\"" ∧
      words 74 80 = "verify" ∧ words 81 82 = "c" := by
  decide +kernel

theorem tree_rootFile : rootFile.tree = .ok rootTree := by
  obtain ⟨hTest, hType, hc, hFactory, hc', hadd, ha, hb, hverify, hc''⟩ := slice_rootFile
  have hmethod : Form.ofKind "method_declaration" = .branch .methodDecl := rfl
  have hblock : Form.ofKind "block" = .branch .block := rfl
  have hstatement : Form.ofKind "expression_statement" = .branch .expression := rfl
  have hmodifiers : Form.ofKind "modifiers" = .modifiers := rfl
  have hdeclaration : Form.ofKind "local_variable_declaration" = .declaration := rfl
  have hcall : Form.ofKind "method_invocation" = .call := rfl
  have hstring : Form.ofKind "string_literal" = .string := rfl
  have hname : Form.ofKind "identifier" = .leaf .identifier := rfl
  rw [SourceFile.tree]
  generalize SourceFile.slice rootFile.text = words at *
  simp [rootFile, rootTree, phrase, hmethod, hblock, hstatement, hmodifiers, hdeclaration,
    hcall, hstring, hname, hTest, hType, hc, hFactory, hc', hadd, ha, hb, hverify, hc'',
    Concrete.fileTree, Concrete.contribution, Concrete.tree, Concrete.content_eq,
    Concrete.treeIn_eq, Concrete.contributionIn_eq, Concrete.nameTree_eq, Concrete.nameTreeOf,
    Concrete.typeTree, Concrete.stringTree, Concrete.modifiersTree_eq, Concrete.modifierTrees,
    Concrete.annotationTree, Concrete.variableTrees_eq, Concrete.variableTree,
    Concrete.declaredModifiers, Concrete.modifiers?, Concrete.callTree_eq, Concrete.calleeTrees,
    Concrete.argumentsTree_eq, Concrete.argumentTrees, Concrete.leaf, Concrete.text, Concrete.line,
    Concrete.kind, Concrete.label, Concrete.children, Concrete.namedChildren, Concrete.childrenIn,
    Concrete.child?]

/-- One file that can be read, one that is no text, and one that is no Java. -/
def threeFiles : String → FileContent
  | "FooTest.java" => { text? := some rootFile.text, concrete := rootFile.concrete }
  | "Bytes.java" => { text? := none }
  | _ => { text? := some "class",
           concrete := .node ⟨"ERROR", none, 0, 0, 5, true, true, false, true⟩ [] }

/-- The two files that fail are told, and the property of the third is found. -/
theorem scan_tells_each_file_threeFiles :
    let names := ["FooTest.java", "Broken.java", "Bytes.java"]
    let r := scan "" ((ascending names).map fun path => (path, threeFiles path))
    r.filesScanned = 3 ∧ ("Bytes.java", .notText) ∈ r.failures ∧
      ("Broken.java", .malformed ⟨1⟩) ∈ r.failures ∧
      r.modules = [("Checker", [⟨"a", "b"⟩])] := by
  intro names r
  obtain ⟨hmem, -, htells, -⟩ := scan_tells_each_file "" names threeFiles
  have hbytes : (threeFiles "Bytes.java").arena = .error .notText := rfl
  have hbroken : (threeFiles "Broken.java").arena = .error (.malformed ⟨1⟩) := rfl
  obtain ⟨a, harena, hholds⟩ := Concrete.exists_fileArena tree_rootFile
  have hroot : (threeFiles "FooTest.java").arena = .ok a := by
    show (rootFile.concrete.fileArena _).mapError FileError.malformed = _
    rw [harena]
    rfl
  have hnames : ascending names = ["Broken.java", "Bytes.java", "FooTest.java"] := by
    decide +kernel
  refine ⟨htells.filesScanned_eq.trans (by rw [hnames]; rfl),
    (htells.mem_failures_iff _ _).mpr ⟨(hmem _).mpr (by decide), hbytes⟩,
    (htells.mem_failures_iff _ _).mpr ⟨(hmem _).mpr (by decide), hbroken⟩, ?_⟩
  have htrees : (ascending names).filterMap (fun path => (threeFiles path).arena.toOption) =
      [a] := by
    rw [hnames]
    simp only [List.filterMap_cons, List.filterMap_nil, hbytes, hbroken, hroot, Except.toOption]
  have hrun : Harvester.run "" [a] = Harvester.run "" [.ofTree rootTree] := by
    show ((Harvester.ofBasePath "").harvest a).2.drain.1 = _
    rw [Harvester.harvest_eq_ofTree _ hholds]
    rfl
  rw [htells.modules_eq, htrees, hrun]
  decide +kernel

end PropertyHarvest
