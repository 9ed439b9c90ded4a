/-
# What an ignore leaves out

  q                     the path of an ignore that is no pattern
  f                     a file at or below the place to which `q` leads
  trunk f = trunk q     the file is left out

An ignore is compared with what is found by their components, and not by the
places to which they lead.  That is the same as long as only names follow what both
begin with.  So it is for ignores and includes that are paths below the
directory, and for patterns unless the path of the directory begins with a dot: a
search for a pattern drops that dot, and the ignore keeps it.

The hypotheses are on includes and ignores as texts, and on the path of the directory;
what is in the file system is arbitrary.  Where they do not hold, an ignore can miss
what it leads to, and `discover_twoTests_ignored` has a project for each way in which
this happens.  Whether one
can leave out too much is not asked.
-/
import PropertyHarvest.Proofs.Discovery.Patterns

namespace PropertyHarvest

namespace Discovery

open PropertyHarvest.Path (Plain join joins trunk)
open PropertyHarvest.Glob (SearchBase)

variable {fs : FileSystem} {base incl f : String} {includes ignores : List String}

/-! ## Paths below the directory -/

/-- A relative path that never goes up. -/
structure Inward (t : String) : Prop where
  relative : Path.isAbsolute t = false
  stays : ".." ∉ Path.segments t

theorem inward_iff {t : String} :
    Inward t ↔ Path.isAbsolute t = false ∧ ".." ∉ Path.segments t :=
  ⟨fun h => ⟨h.relative, h.stays⟩, fun h => ⟨h.1, h.2⟩⟩

instance : DecidablePred Inward :=
  fun _ => decidable_of_iff _ inward_iff.symm

theorem Inward.trunk_join {t : String} (h : Inward t) (hbase : base ≠ "") :
    trunk (join base t) = trunk base := by
  obtain ⟨names, hsaid⟩ := Path.exists_names_of_said h.stays
  exact Path.trunk_eq_of_components (by rw [Path.components_join hbase h.relative, hsaid])

/-- An include that leads to paths with the trunk of the directory: a path that
never goes up, or a pattern where the path of the directory does not begin with
a dot. -/
inductive Level (fs : FileSystem) (base incl : String) : Prop where
  | path (literal : Glob.hasWildcard incl = false) (inward : Inward incl)
  | pattern (place : List String) (ps : List Glob.Pattern) (below : SearchBase fs base place)
      (dotless : Path.leading base ≠ some .current) (read : PatternInclude incl ps)

theorem Level.trunk_eq (hn : fs.root.Named) (hbase : base ≠ "") (h : Level fs base incl)
    {found : List String} (hfound : startsOf fs base incl = .ok found) :
    ∀ p ∈ found, trunk p = trunk base := by
  cases h with
  | path literal inward =>
      rw [startsOf, literal, if_neg Bool.false_ne_true] at hfound
      split_ifs at hfound
      cases hfound
      exact List.forall_mem_singleton.mpr (inward.trunk_join hbase)
  | pattern place ps below dotless read =>
      obtain ⟨found', hfound', hmem⟩ := exists_startsOf_pattern hn below read
      cases hfound.symm.trans hfound'
      intro p hp
      obtain ⟨way, es, -, rfl, -, hes⟩ := (hmem p).mp hp
      have hplain : ∀ s ∈ way, Plain s := (List.forall_mem_append.mp (hn.of_at? hes).1).2
      rw [Path.trunk_joins _ hplain, trunk, trunk, below.components_topOf dotless]

theorem trunk_origins (hn : fs.root.Named) (hbase : base ≠ "")
    (h : ∀ incl ∈ includes, Level fs base incl) :
    ∀ p ∈ origins fs base includes, trunk p = trunk base := by
  intro p hp
  rcases mem_origins_iff.mp hp with ⟨-, rfl⟩ | ⟨incl, hincl, found, hfound, hmem⟩
  · rfl
  · exact (h incl hincl).trunk_eq hn hbase hfound p hmem

/-! ## Files that are left out -/

/-- The ignore leaves the path out, as its text tells. -/
def LeftOut (base ign f : String) : Prop :=
  if Glob.hasWildcard ign then ∃ p, Glob.Pattern.read ign = .ok p ∧ p.matches f = true
  else Path.startsWith f (join base ign) = true

theorem covers_iff_leftOut {ign : String} :
    (∃ cut, Ignore.read base ign = .ok cut ∧ cut.covers f = true) ↔ LeftOut base ign f := by
  rw [Ignore.read, LeftOut]
  split
  · cases Glob.Pattern.read ign with
    | ok p => simp [Except.map, Ignore.covers]
    | error e => simp [Except.map]
  · simp [Ignore.covers]

theorem not_covered_iff :
    (∀ cut ∈ oks (ignores.map (Ignore.read base)), cut.covers f = false) ↔
      ∀ ign ∈ ignores, ¬ LeftOut base ign f := by
  simp only [← covers_iff_leftOut, mem_oks, List.mem_map]
  constructor
  · rintro h ign hign ⟨cut, hread, hcovers⟩
    exact absurd hcovers (Bool.eq_false_iff.mp (h cut ⟨ign, hign, hread⟩))
  · rintro h cut ⟨ign, hign, hread⟩
    exact Bool.eq_false_iff.mpr fun hcovers => h ign hign ⟨cut, hread, hcovers⟩

theorem at?_aim (hn : fs.root.Named) {p : String} {place names : List String}
    {content : FileContent} (hplace : fs.locate p = .ok place)
    (hat : fs.root.at? (place ++ names) = some (.file content)) :
    fs.root.at? (fs.aim (joins p names)) = some (.file content) := by
  have hplain := (List.forall_mem_append.mp (hn.of_at? hat).1).2
  rw [FileSystem.aim_joins_of_locate hplace hplain, hat]

/-- A file that is found although an ignore leads to it, or to a directory
above it, has another trunk than the ignore.  Where all includes are level and
the ignores are patterns or never go up, the files that are found are those
that no ignore leads to and no pattern matches. -/
theorem ignores_take_effect (hn : fs.root.Named) (base : String) (includes ignores : List String) :
    (∀ f ∈ (discover fs base includes ignores).files,
      (∃ content, fs.root.at? (fs.aim f) = some (.file content)) ∧
      ∀ ign ∈ ignores, Glob.hasWildcard ign = false →
        fs.aim (join base ign) <+: fs.aim f → trunk f ≠ trunk (join base ign)) ∧
    (base ≠ "" → (∀ incl ∈ includes, Level fs base incl) →
      (∀ ign ∈ ignores, Glob.hasWildcard ign = false → Inward ign) →
      ∀ f, f ∈ (discover fs base includes ignores).files ↔
        (∃ p ∈ origins fs base includes, ∃ place names content, fs.locate p = .ok place ∧
          fs.root.at? (place ++ names) = some (.file content) ∧ f = joins p names ∧
          fs.hasPath f = true) ∧
        isJavaFile f = true ∧
        ∀ ign ∈ ignores,
          (Glob.hasWildcard ign = false → ¬ fs.aim (join base ign) <+: fs.aim f) ∧
          (Glob.hasWildcard ign = true →
            ∀ p, Glob.Pattern.read ign = .ok p → p.matches f = false)) := by
  refine ⟨fun f hf => ?_, fun hbase hlevel hinward f => ?_⟩
  · obtain ⟨⟨p, -, place, names, content, hplace, hat, rfl, -⟩, -, hcuts⟩ :=
      (mem_files_iff hn).mp hf
    refine ⟨⟨content, at?_aim hn hplace hat⟩, fun ign hign hliteral haim htrunk => ?_⟩
    refine not_covered_iff.mp hcuts ign hign ?_
    rw [LeftOut, hliteral, if_neg Bool.false_ne_true]
    exact (FileSystem.startsWith_iff_of_trunk htrunk).mpr haim
  · rw [mem_files_iff hn, not_covered_iff]
    refine and_congr_right fun ⟨p, hp, place, names, content, hplace, hat, hf, _⟩ =>
      and_congr_right fun _ => forall₂_congr fun ign hign => ?_
    have hplain := (List.forall_mem_append.mp (hn.of_at? hat).1).2
    have htrunk : trunk f = trunk base := by
      rw [hf, Path.trunk_joins p hplain, trunk_origins hn hbase hlevel p hp]
    rw [LeftOut]
    cases hwild : Glob.hasWildcard ign with
    | true => simp
    | false =>
        have hsame : trunk f = trunk (join base ign) :=
          htrunk.trans ((hinward ign hign hwild).trunk_join hbase).symm
        have haim : Path.startsWith f (join base ign) = true ↔
            fs.aim (join base ign) <+: fs.aim f := FileSystem.startsWith_iff_of_trunk hsame
        simp [haim]

/-- A project with a test that is written and one that is generated. -/
def twoTests : FileSystem where
  root := .dir [("gen", .dir [("FooTest.java", .file { text? := some "" })]),
    ("src", .dir [("BarTest.java", .file { text? := some "" })])]
  currentDir := []

theorem named_twoTests : twoTests.root.Named := by
  refine .dir (by decide) (by decide)
    (List.forall_mem_cons.mpr ⟨?_, List.forall_mem_singleton.mpr ?_⟩)
  · exact .dir (by decide) (by decide) (List.forall_mem_singleton.mpr (.file _))
  · exact .dir (by decide) (by decide) (List.forall_mem_singleton.mpr (.file _))

/-- Level includes: the ignore takes effect, for a pattern and for paths. -/
theorem ignores_take_effect_twoTests :
    twoTests.root.Named ∧ Level twoTests "/" "*" ∧ Level twoTests "/" "src/./" ∧ Inward "./gen" ∧
    "/gen/FooTest.java" ∉ (discover twoTests "/" ["*", "src/./"] ["./gen"]).files ∧
    "/src/BarTest.java" ∈ (discover twoTests "/" ["*", "src/./"] ["./gen"]).files := by
  have hbelow : SearchBase twoTests "/" [] := ⟨by decide +kernel, by decide, by decide⟩
  have hpattern : Level twoTests "/" "*" :=
    .pattern [] [[.anySequence]] hbelow (by decide)
      ⟨by decide, by decide, by decide +kernel, by decide +kernel, by decide⟩
  have hpath : Level twoTests "/" "src/./" := .path (by decide) (by decide)
  have hlevel : ∀ incl ∈ ["*", "src/./"], Level twoTests "/" incl :=
    List.forall_mem_cons.mpr ⟨hpattern, List.forall_mem_singleton.mpr hpath⟩
  have hinward : Inward "./gen" := by decide
  have hfound := (ignores_take_effect named_twoTests "/" ["*", "src/./"] ["./gen"]).2 (by decide)
    hlevel (List.forall_mem_singleton.mpr fun _ => hinward)
  refine ⟨named_twoTests, hpattern, hpath, hinward, fun hmem => ?_, (hfound _).mpr ?_⟩
  · have hleft := ((hfound _).mp hmem).2.2 "./gen" List.mem_cons_self
    exact hleft.1 (by decide) (by decide)
  · refine ⟨⟨"/src", by decide +kernel, ["src"], ["BarTest.java"], _, by decide +kernel, rfl,
      by decide, by decide +kernel⟩, by decide,
      List.forall_mem_singleton.mpr ⟨fun _ => by decide, fun h => ?_⟩⟩
    exact absurd h (by decide)

/-- A pattern leads to what the ignore of a directory should leave out: what the
search finds has lost the dot with which the ignore begins.  A path that goes up leads
there as well. -/
theorem discover_twoTests_ignored :
    twoTests.root.Named ∧
    (discover twoTests "." ["*"] ["gen"]).files = ["gen/FooTest.java", "src/BarTest.java"] ∧
    (discover twoTests "." ["src/../gen"] ["gen"]).files = ["./src/../gen/FooTest.java"] ∧
    (discover twoTests "." ["gen"] ["gen"]).files = [] ∧
    twoTests.locate "./gen" = .ok ["gen"] ∧
    twoTests.locate "gen/FooTest.java" = .ok ["gen", "FooTest.java"] ∧
    twoTests.locate "./src/../gen/FooTest.java" = .ok ["gen", "FooTest.java"] := by
  refine ⟨named_twoTests, ?_⟩
  decide +kernel

end Discovery

end PropertyHarvest
