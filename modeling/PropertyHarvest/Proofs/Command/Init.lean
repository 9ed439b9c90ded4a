/-
# A configuration that changes nothing

  no configuration is found       the defaults are used, and it is said so
  after one is written            it is found or not, and holds the defaults

A written configuration is one more file in the current directory
(`FileSystem.Gains`).  It is no Java source and no directory, so the search for
sources finds what it found before; where the configuration is looked for it is
found at most, and what it holds is what is used without it.

A link may show the written file under another name.  None of this holds where one
does (`init_changes_result_linkedConfig`), and so the theorem asks that all links
avoid the place of the configuration.  Links to directories are not considered.

The files, the path that is scanned and what else the command line asks for are
arbitrary; the current directory has to be there.  Nothing is claimed where a
configuration is found before.  A new one may then be the nearer one.
-/
import PropertyHarvest.Command
import PropertyHarvest.Proofs.Config.Nearest
import PropertyHarvest.Proofs.Config.Reading
import PropertyHarvest.Proofs.Discovery.Spelling
import PropertyHarvest.Proofs.FileSystem.Links

namespace PropertyHarvest

open PropertyHarvest.Path (Plain join)

variable {name : String} {content : FileContent} {fs fs' : FileSystem} {p : String}
  {dirs place : List String}

/-! ## The search for sources -/

namespace Discovery

variable {base : String} {includes ignores : List String}

/-- The name of an entry that no Java source has. -/
structure Foreign (name : String) : Prop where
  plain : Plain name
  not_java : ∀ p, Path.fileName? p = some name → isJavaFile p = false

theorem Foreign.locate_ne (hname : Foreign name) (hp : isJavaFile p = true) (dirs : List String) :
    fs.locate p ≠ .ok (dirs ++ [name]) := by
  cases hs : Path.fileName? p with
  | none =>
      rw [isJavaFile, Path.extension?, hs] at hp
      exact absurd hp (by decide)
  | some s =>
      refine FileSystem.locate_ne_concat hs ?_ dirs
      rintro rfl
      rw [hname.not_java p hs] at hp
      cases hp

theorem filesAt_of_locate (h : fs.locate p = .ok place) :
    filesAt fs p = .ok ((((fs.root.at? place).map (Entry.paths p)).getD []).filter fs.isFile) := by
  rw [filesAt, FileSystem.walk_of_locate h]
  cases fs.root.at? place <;> rfl

theorem filter_isJavaFile (h : fs.Gains dirs name content fs') (hname : Foreign name)
    (paths : List String) :
    (paths.filter fs'.isFile).filter isJavaFile = (paths.filter fs.isFile).filter isJavaFile := by
  rw [List.filter_filter, List.filter_filter]
  refine List.filter_congr fun p _ => ?_
  cases hjava : isJavaFile p with
  | false => rfl
  | true => rw [h.isFile_eq (hname.locate_ne hjava dirs)]

/-- The paths of the same Java sources are found from `p`. -/
def SameSources (fs fs' : FileSystem) (p : String) : Prop :=
  ∃ found found', filesAt fs p = .ok found ∧ filesAt fs' p = .ok found' ∧
    found'.filter isJavaFile = found.filter isJavaFile

theorem sameSources_of_locate (h : fs.Gains dirs name content fs') (hname : Foreign name)
    (hp : fs.locate p = .ok place) (hne : place ≠ dirs ++ [name]) : SameSources fs fs' p := by
  refine ⟨_, _, filesAt_of_locate hp, filesAt_of_locate (h.locate hp), ?_⟩
  rw [filter_isJavaFile h hname, List.filter_comm, List.filter_comm (p := isJavaFile)]
  cases h.root.compared place with
  | there eq => exact absurd eq hne
  | above _ before after gains =>
      obtain ⟨front, back, hbefore, hafter⟩ := Entry.paths_of_gains gains p
      have hskip : ∀ q, ¬ isJavaFile (join q name) = true := fun q => by
        rw [hname.not_java _ (Path.fileName?_join q hname.plain)]
        exact Bool.false_ne_true
      rw [before, after, Option.map_some, Option.map_some, Option.getD_some, Option.getD_some,
        hbefore, hafter, List.filter_append (p := isJavaFile) front,
        List.filter_cons_of_neg (hskip _), ← List.filter_append (p := isJavaFile)]
  | beside _ same => rw [same]

theorem sources_of_sameSources {ps : List String} (h : ∀ p ∈ ps, SameSources fs fs' p) :
    (oks (ps.map (filesAt fs'))).flatten.filter isJavaFile =
        (oks (ps.map (filesAt fs))).flatten.filter isJavaFile ∧
      errors (ps.map (filesAt fs')) = errors (ps.map (filesAt fs)) := by
  induction ps with
  | nil => exact ⟨rfl, rfl⟩
  | cons p ps ih =>
      obtain ⟨⟨found, found', hfound, hfound', hsame⟩, hps⟩ := List.forall_mem_cons.mp h
      obtain ⟨hoks, herrors⟩ := ih hps
      rw [List.map_cons, List.map_cons, hfound, hfound']
      refine ⟨?_, herrors⟩
      show (found' ++ (oks _).flatten).filter _ = (found ++ (oks _).flatten).filter _
      rw [List.filter_append, List.filter_append, hsame, hoks]

/-- An include that is no pattern and does not lead to the new file. -/
structure Untouched (dirs : List String) (name : String) (fs fs' : FileSystem)
    (base incl : String) : Prop where
  literal : Glob.hasWildcard incl = false
  elsewhere : fs'.locate (join base incl) ≠ .ok (dirs ++ [name])

theorem startsOf_of_untouched (h : fs.Gains dirs name content fs') {incl : String}
    (hincl : Untouched dirs name fs fs' base incl) :
    startsOf fs' base incl = startsOf fs base incl := by
  simp only [startsOf, hincl.literal, Bool.false_eq_true, if_false, h.hasPath_eq hincl.elsewhere]

theorem exists_locate_of_startsOf (h : fs.Gains dirs name content fs') {incl : String}
    (hincl : Glob.hasWildcard incl = false) {found : List String}
    (hfound : startsOf fs base incl = .ok found) (hp : p ∈ found) :
    ∃ place, fs.locate p = .ok place ∧ place ≠ dirs ++ [name] := by
  simp only [startsOf, hincl, Bool.false_eq_true, if_false] at hfound
  split at hfound
  · rename_i hthere
    obtain rfl := Except.ok.inj hfound
    obtain rfl := List.mem_singleton.mp hp
    obtain ⟨place, e, hplace, he⟩ := FileSystem.hasPath_iff.mp hthere
    exact ⟨place, hplace, h.ne_there (by rw [he]; rfl)⟩
  · cases hfound

/-- A file that is no Java source changes nothing for includes that are paths to
something else. -/
theorem discover_of_untouched (h : fs.Gains dirs name content fs') (hname : Foreign name)
    (hne : includes ≠ []) (hincl : ∀ incl ∈ includes, Untouched dirs name fs fs' base incl) :
    discover fs' base includes ignores = discover fs base includes ignores := by
  have hstarts : starts fs' base includes = starts fs base includes := by
    rw [starts, starts, List.isEmpty_eq_false_iff.mpr hne]
    exact List.map_congr_left fun incl hi => startsOf_of_untouched h (hincl incl hi)
  have hsources : ∀ p ∈ origins fs base includes, SameSources fs fs' p := by
    intro p hp
    rcases mem_origins_iff.mp hp with ⟨hnil, -⟩ | ⟨incl, hi, found, hfound, hmem⟩
    · exact absurd hnil hne
    · obtain ⟨place, hplace, helse⟩ :=
        exists_locate_of_startsOf h (hincl incl hi).literal hfound hmem
      exact sameSources_of_locate h hname hplace helse
  obtain ⟨hjava, herrors⟩ := sources_of_sameSources hsources
  rw [origins] at hjava herrors
  have hkept (cut : String → Bool) (paths : List String) :
      paths.filter (fun path => isJavaFile path && !cut path) =
        (paths.filter isJavaFile).filter (!cut ·) := by
    rw [List.filter_filter]
    exact List.filter_congr fun path _ => Bool.and_comm _ _
  simp only [discover, hstarts, hkept fun path => List.any _ _, hjava, herrors]

end Discovery

/-! ## The configuration -/

namespace Config

open PropertyHarvest.Discovery (Foreign)

theorem foreign_fileName : Foreign fileName where
  plain := by decide
  not_java p hp := by
    rw [Discovery.isJavaFile, Path.extension?, hp]
    decide

/-- With a file of the name of a configuration a directory decides as before, or
for the file. -/
theorem verdict_of_gains (h : fs.Gains dirs fileName content fs') (dir : String) :
    verdict fs' dir = verdict fs dir ∨
      verdict fs' dir = some (some (join dir fileName)) ∧
        fs'.locate (join dir fileName) = .ok (dirs ++ [fileName]) := by
  by_cases hplace : fs'.locate (join dir fileName) = .ok (dirs ++ [fileName])
  · have hthere : fs'.hasPath (join dir fileName) = true :=
      FileSystem.hasPath_iff.mpr ⟨_, _, hplace, h.at?_there.2⟩
    exact .inr ⟨by rw [verdict, hthere]; rfl, hplace⟩
  · have hmark : Path.fileName? (join dir repositoryMark) = some repositoryMark :=
      Path.fileName?_join dir (by decide)
    have helse : fs'.locate (join dir repositoryMark) ≠ .ok (dirs ++ [fileName]) :=
      FileSystem.locate_ne_concat hmark (by decide) dirs
    refine .inl ?_
    simp only [verdict, h.hasPath_eq hplace, h.hasPath_eq helse]

/-- Where no configuration is found, the file is found at most. -/
theorem findFile?_of_gains (h : fs.Gains dirs fileName content fs') {dir : String}
    (hnone : findFile? fs dir = none) :
    ∀ path, findFile? fs' dir = some path → fs'.locate path = .ok (dirs ++ [fileName]) := by
  rw [findFile?] at hnone ⊢
  generalize dir :: Path.parents dir = dirs at hnone
  induction dirs with
  | nil =>
      intro path hpath
      cases hpath
  | cons d dirs ih =>
      intro path
      rw [List.findSome?_cons] at hnone ⊢
      rcases verdict_of_gains h d with hsame | ⟨hfile, hplace⟩
      · rw [hsame]
        cases hv : verdict fs d with
        | none =>
            rw [hv] at hnone
            exact ih hnone path
        | some found? =>
            rw [hv] at hnone
            intro hpath
            cases hnone.symm.trans hpath
      · rw [hfile]
        intro hpath
        cases hpath
        exact hplace

theorem loadFile_of_read {c : Config} {t : String} (htext : fs.text? p = some t)
    (hread : read? t = some c) (hvalid : c.validate = .ok ()) : loadFile fs p = .ok c := by
  rw [loadFile, htext]
  show ((read? t).elim (.error (.malformed p)) Except.ok >>= fun c =>
    c.validate >>= fun _ => pure c) = Except.ok c
  rw [hread]
  show (c.validate >>= fun _ => pure c) = Except.ok c
  rw [hvalid]
  rfl

theorem load?_of_gains (h : fs.Gains dirs fileName { text? := some (text {}) } fs') {dir : String}
    (hnone : findFile? fs dir = none) :
    load? fs' dir = .ok (if (findFile? fs' dir).isSome then some {} else none) := by
  cases hfound : findFile? fs' dir with
  | none => exact load?_of_none hfound
  | some path =>
      have htext : fs'.text? path = some (text {}) := by
        rw [FileSystem.text?, h.read_there (findFile?_of_gains h hnone path hfound)]
      rw [load?_eq, hfound, Option.elim_some, loadFile_of_read htext (read?_text {}) (by decide)]
      rfl

end Config

/-! ## The project -/

namespace Project

open PropertyHarvest.Discovery (Untouched)
open PropertyHarvest.Config (fileName text)

variable {options : ProjectOptions}

theorem untouched_default (base : String) :
    ∀ incl ∈ ({} : Config).includes, Untouched dirs fileName fs fs' base incl := by
  refine List.forall_mem_singleton.mpr ⟨by decide, ?_⟩
  have hsegments : Path.segments "src/test/java" = ["src", "test"] ++ ["java"] := by decide
  have hname : Path.fileName? (join base "src/test/java") = some "java" :=
    Path.fileName?_join_concat base hsegments (by decide)
  exact FileSystem.locate_ne_concat hname (by decide) dirs

/-- The project that the defaults lead to. -/
def byDefault (fs : FileSystem) (options : ProjectOptions) (configured : Bool) : Project :=
  let c : Config := {}
  ⟨{ c with basePath := options.basePath?.getD c.basePath }, configured,
    .discover fs (options.path?.getD ".") c.includes c.ignores⟩

theorem load_of_default {configured : Bool}
    (h : Config.load? fs (options.path?.getD ".") = .ok (if configured then some {} else none)) :
    load fs options = .ok (byDefault fs options configured) := by
  rw [load, h]
  cases configured <;> rfl

/-- The same project is loaded as before, but for whether it is configured. -/
theorem load_of_gains (h : fs.Gains dirs fileName { text? := some (text {}) } fs')
    (hnone : Config.findFile? fs (options.path?.getD ".") = none) :
    load fs options = .ok (byDefault fs options false) ∧
      load fs' options = .ok (byDefault fs options
        (Config.findFile? fs' (options.path?.getD ".")).isSome) := by
  have hdiscover : ∀ configured, byDefault fs' options configured =
      byDefault fs options configured := by
    intro configured
    rw [byDefault, byDefault, Discovery.discover_of_untouched h Config.foreign_fileName
      (List.cons_ne_nil _ _) (untouched_default (options.path?.getD "."))]
  refine ⟨load_of_default (Config.load?_of_none hnone), ?_⟩
  rw [load_of_default (Config.load?_of_gains h hnone), hdiscover]

theorem files_byDefault (configured : Bool) :
    (byDefault fs options configured).files = (byDefault fs options false).files :=
  rfl

theorem isJavaFile_of_mem_files {configured : Bool}
    (hp : p ∈ (byDefault fs options configured).files) : Discovery.isJavaFile p = true :=
  (Bool.and_eq_true_iff.mp (List.mem_filter.mp (mem_ascending.mp hp)).2).1

theorem scan_of_gains (h : fs.Gains dirs fileName content fs') (configured : Bool) :
    (byDefault fs options configured).scan fs' = (byDefault fs options false).scan fs := by
  have hread : ∀ p ∈ (byDefault fs options configured).files,
      (p, fs'.read p) = (p, fs.read p) := by
    intro p hp
    rw [h.read_eq (Config.foreign_fileName.locate_ne (isJavaFile_of_mem_files hp) dirs)]
  have hconfig : (byDefault fs options configured).config =
      (byDefault fs options false).config := rfl
  rw [scan, scan, List.map_congr_left hread, files_byDefault, hconfig]

end Project

/-! ## The commands -/

/-- Two scans that differ in nothing but a text that the first of them says
before all else. -/
structure Outcome.DiffersBy (note : String) (o o' : Outcome) : Prop where
  output_eq : o'.output = o.output
  status_eq : o'.status = o.status
  messages_eq : o.messages = note ++ o'.messages

namespace Command

open PropertyHarvest.Config (fileName text)

theorem unlines_append (lines more : List String) :
    Style.unlines (lines ++ more) = Style.unlines lines ++ Style.unlines more := by
  rw [Style.unlines, List.map_append, String.join_append]
  rfl

/-- The note that there is no configuration, where it is made. -/
def missingConfig (missing : Bool) : String :=
  if missing then Style.unlines [Messages.defaultConfig] else ""

theorem project_messages (s : Messages.Setting) (project : Project)
    (h : project.configured = false) (configured : Bool) :
    Style.unlines (Messages.project s project) =
      missingConfig (s.verbose && configured) ++
        Style.unlines (Messages.project s { project with configured := configured }) := by
  obtain ⟨verbose, colored⟩ := s
  simp only [Messages.project, unlines_append, h, missingConfig, ← String.append_assoc]
  congr 2
  cases verbose <;> cases configured <;> rfl

theorem runScan_of_ok {options : ScanOptions} {project : Project}
    (h : Project.load fs options.project = .ok project) (colored : Bool) :
    runScan fs colored options =
      { status := if (project.scan fs).failures.isEmpty then .success else .failure
        output := report colored (project.scan fs) options.format
        messages := Style.unlines (Messages.project ⟨options.verbose, colored⟩ project
          ++ Messages.progress ⟨options.verbose, colored⟩ project.files
          ++ Messages.diagnostics ⟨options.verbose, colored⟩ (project.scan fs)
          ++ Messages.failures ⟨options.verbose, colored⟩ (project.scan fs))
        fileSystem := fs } := by
  unfold runScan
  rw [h]

theorem runScan_differsBy (h : fs.Gains dirs fileName { text? := some (text {}) } fs')
    {options : ScanOptions}
    (hnone : Config.findFile? fs (options.project.path?.getD ".") = none) (colored : Bool) :
    Outcome.DiffersBy
      (missingConfig (options.verbose &&
        (Config.findFile? fs' (options.project.path?.getD ".")).isSome))
      (runScan fs colored options) (runScan fs' colored options) := by
  obtain ⟨hload, hload'⟩ := Project.load_of_gains h hnone
  generalize (Config.findFile? fs' (options.project.path?.getD ".")).isSome = configured at hload' ⊢
  have hnote := project_messages ⟨options.verbose, colored⟩
    (Project.byDefault fs options.project false) rfl configured
  have hproject : { Project.byDefault fs options.project false with configured := configured } =
      Project.byDefault fs options.project configured := rfl
  rw [hproject] at hnote
  rw [runScan_of_ok hload, runScan_of_ok hload', Project.scan_of_gains h configured]
  refine ⟨rfl, rfl, ?_⟩
  simp only [unlines_append, hnote, String.append_assoc, Project.files_byDefault configured]

theorem hasPath_fileName_iff {es : List (String × Entry)}
    (hdir : fs.root.at? fs.currentDir = some (.dir es)) :
    fs.hasPath fileName = true ↔ (es.lookup fileName).isSome = true := by
  have henters : fs.Enters "" fs.currentDir :=
    ⟨FileSystem.reach_empty hdir, ⟨es, hdir⟩, by decide, by decide⟩
  have hjoin : join "" fileName = fileName := by decide
  rw [← Entry.at?_concat hdir, ← henters.hasPath_join (by decide) (by decide) (by decide), hjoin]

variable {fs : LinkedFileSystem} {es : List (String × Entry)}

theorem leaves_init_of_hasPath (h : fs.seen.hasPath fileName = true) (colored : Bool) :
    (run fs.seen colored .init).status = .failure ∧ leaves fs .init = fs := by
  refine ⟨?_, if_pos h⟩
  rw [run, runInit, if_pos h]

/-- Where nothing has the name, the current directory gains the defaults. -/
theorem gains_leaves_init (hw : fs.WellFormed)
    (hdir : fs.plain.root.at? fs.plain.currentDir = some (.dir es))
    (havoids : ∀ l ∈ fs.links, l.Avoids fs.plain (fs.plain.currentDir ++ [fileName]))
    (h : ¬ fs.seen.hasPath fileName = true) :
    fs.seen.Gains fs.plain.currentDir fileName { text? := some (text {}) }
      (leaves fs .init).seen := by
  have hmissing : es.lookup fileName = none := by
    obtain ⟨es', hdir'⟩ := hw.exists_dir_seen_iff.mpr ⟨es, hdir⟩
    rw [← Option.not_isSome_iff_eq_none, ← Entry.at?_concat hdir]
    intro hthere
    have hseen := hw.isSome_at?_seen hthere
    rw [Entry.at?_concat hdir'] at hseen
    rw [← LinkedFileSystem.currentDir_seen] at hdir'
    exact h ((hasPath_fileName_iff hdir').mpr hseen)
  rw [leaves, if_neg h]
  exact LinkedFileSystem.gains_seen hw havoids (FileSystem.gains_writeFile hdir hmissing _)

theorem hasPath_leaves_init (hw : fs.WellFormed)
    (hdir : fs.plain.root.at? fs.plain.currentDir = some (.dir es))
    (havoids : ∀ l ∈ fs.links, l.Avoids fs.plain (fs.plain.currentDir ++ [fileName])) :
    (leaves fs .init).seen.hasPath fileName = true := by
  by_cases h : fs.seen.hasPath fileName = true
  · rwa [(leaves_init_of_hasPath h false).2]
  · have hgains := gains_leaves_init hw hdir havoids h
    have hcurrent : (leaves fs .init).seen.currentDir = fs.plain.currentDir :=
      hgains.currentDir.trans (LinkedFileSystem.currentDir_seen fs)
    obtain ⟨es', hdir'⟩ := hgains.exists_dir_iff.mpr (hw.exists_dir_seen_iff.mpr ⟨es, hdir⟩)
    rw [← hcurrent] at hdir'
    rw [hasPath_fileName_iff hdir', ← Entry.at?_concat hdir', hcurrent, hgains.at?_there.2]
    rfl

/-- A project with one test, a link to it, and no configuration. -/
def linkedTest : LinkedFileSystem where
  plain :=
    { root := .dir [("project", .dir [("src", .dir [("test", .dir [("java", .dir
        [("FooCheckTest.java", .file { text? := some "" })])])])])]
      currentDir := ["project"] }
  links := [{ dir := ["project", "src", "test", "java"], name := "BarCheckTest.java",
              target := "./FooCheckTest.java" }]

theorem wellFormed_linkedTest : linkedTest.WellFormed where
  free := List.forall_mem_singleton.mpr ⟨⟨_, rfl⟩, by rfl⟩
  nodup := List.nodup_singleton _
  toFile := List.forall_mem_singleton.mpr (by decide +kernel)
  ordered := List.pairwise_singleton _ _

/-- A project whose only source is a link to where a configuration would be.  What
is written there is no Java. -/
def linkedConfig : LinkedFileSystem where
  plain :=
    { root := .dir [("project", .dir [("src", .dir [("test", .dir [("java", .dir [])])])])]
      currentDir := ["project"] }
  links := [{ dir := ["project", "src", "test", "java"], name := "Cfg.java",
              target := "../../../.testpropsrc.json"
              concrete := .node ⟨"program", none, 0, 0, 78, true, false, false, true⟩
                [.node ⟨"ERROR", none, 0, 0, 78, true, true, false, true⟩ []] }]

end Command

end PropertyHarvest
