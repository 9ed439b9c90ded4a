/-
# How often a file is found

A search spells what it finds from the path where it starts (`mem_files_iff`).
The paths that are found are compared by their spelling, so a file is found
once for each spelling of the directories where a search comes to it: twice
where one start lies at or below another and is not spelled from it (`Strays`),
and once where all starts are spelled alike.

Two kinds of spelling are behind this.  A path that an include names is spelled as it
stands, and so is whatever lies below it.  What a search for a pattern finds is
spelled from where the search began, without the dot of the current directory.  The
two agree for includes that are `Aligned`; where they do not, two paths of one file come
from starts of which one strays from the other.
-/
import PropertyHarvest.Proofs.Discovery.Order
import PropertyHarvest.Proofs.Glob.Search
import PropertyHarvest.Proofs.Scan.Failures

namespace PropertyHarvest

namespace FileSystem

variable (fs : FileSystem)

def SamePlace (p q : String) : Prop :=
  ∃ place, fs.locate p = .ok place ∧ fs.locate q = .ok place

/-- `q` lies at or below `p` and is spelled otherwise than from `p`. -/
def Strays (p q : String) : Prop :=
  ∃ place names, fs.locate p = .ok place ∧ fs.locate q = .ok (place ++ names) ∧
    q ≠ Path.joins p names

end FileSystem

namespace Discovery

open PropertyHarvest.Path (Plain SpelledFrom join joins)

theorem mem_oks {ε α : Type} {rs : List (Except ε α)} {a : α} : a ∈ oks rs ↔ .ok a ∈ rs := by
  rw [oks, List.mem_filterMap]
  constructor
  · rintro ⟨r, hr, ha⟩
    cases r with
    | ok b =>
        cases ha
        exact hr
    | error e => cases ha
  · exact fun h => ⟨_, h, rfl⟩

variable {fs : FileSystem} {base : String} {includes ignores : List String}

def origins (fs : FileSystem) (base : String) (includes : List String) : List String :=
  (oks (starts fs base includes)).flatten

theorem mem_origins_iff {p : String} :
    p ∈ origins fs base includes ↔
      (includes = [] ∧ p = base) ∨
        ∃ incl ∈ includes, ∃ found, startsOf fs base incl = .ok found ∧ p ∈ found := by
  rw [origins, List.mem_flatten]
  simp only [mem_oks]
  cases includes with
  | nil => simp [starts]
  | cons incl rest =>
      have hstarts (found : List String) : .ok found ∈ starts fs base (incl :: rest) ↔
          ∃ i ∈ incl :: rest, startsOf fs base i = .ok found := List.mem_map
      simp only [hstarts, List.cons_ne_nil, false_and, false_or]
      exact ⟨fun ⟨found, ⟨i, hi, hfound⟩, hp⟩ => ⟨i, hi, found, hfound, hp⟩,
        fun ⟨i, hi, found, hfound, hp⟩ => ⟨found, ⟨i, hi, hfound⟩, hp⟩⟩

theorem mem_filesAt_iff {p f : String} :
    (∃ found, filesAt fs p = .ok found ∧ f ∈ found) ↔
      (∃ e found, fs.walk p = .ok found ∧ (f, e) ∈ found) ∧ fs.isFile f = true := by
  rw [filesAt]
  cases fs.walk p with
  | error e =>
      constructor
      · rintro ⟨found, h, -⟩
        cases h
      · rintro ⟨⟨e, found, h, -⟩, -⟩
        cases h
  | ok entries =>
      constructor
      · rintro ⟨found, h, hf⟩
        cases h
        obtain ⟨hwalk, hfile⟩ := List.mem_filter.mp hf
        obtain ⟨⟨q, e⟩, hmem, rfl⟩ := List.mem_map.mp hwalk
        exact ⟨⟨e, entries, rfl, hmem⟩, hfile⟩
      · rintro ⟨⟨e, found, h, hf⟩, hfile⟩
        cases h
        exact ⟨_, rfl, List.mem_filter.mpr ⟨List.mem_map.mpr ⟨_, hf, rfl⟩, hfile⟩⟩

theorem isFile_joins_iff (hn : fs.root.Named) {p : String} {place names : List String} {e : Entry}
    (hplace : fs.locate p = .ok place) (hat : fs.root.at? (place ++ names) = some e) :
    fs.isFile (joins p names) = true ↔
      (∃ content, e = .file content) ∧ fs.hasPath (joins p names) = true := by
  have hplain := (List.forall_mem_append.mp (hn.of_at? hat).1).2
  rw [FileSystem.isFile, FileSystem.content?, FileSystem.hasPath, FileSystem.find?]
  cases hdest : fs.locate (joins p names) with
  | error err => simp [Except.toOption]
  | ok dest =>
      obtain rfl := FileSystem.eq_of_locate_joins hplain hplace hdest
      cases e <;> simp [Except.toOption, hat, Entry.content?]

theorem mem_filesAt_iff_joins (hn : fs.root.Named) {p f : String} :
    (∃ found, filesAt fs p = .ok found ∧ f ∈ found) ↔
      ∃ place names content, fs.locate p = .ok place ∧
        fs.root.at? (place ++ names) = some (.file content) ∧ f = joins p names ∧
        fs.hasPath f = true := by
  simp only [mem_filesAt_iff, FileSystem.mem_walk_iff hn]
  constructor
  · rintro ⟨⟨e, place, names, hplace, hat, rfl⟩, hfile⟩
    obtain ⟨⟨content, rfl⟩, hpath⟩ := (isFile_joins_iff hn hplace hat).mp hfile
    exact ⟨place, names, content, hplace, hat, rfl, hpath⟩
  · rintro ⟨place, names, content, hplace, hat, rfl, hpath⟩
    exact ⟨⟨_, place, names, hplace, hat, rfl⟩,
      (isFile_joins_iff hn hplace hat).mpr ⟨⟨content, rfl⟩, hpath⟩⟩

/-- The files of a search: those that a start leads to, are Java sources and are
not left out. -/
theorem mem_files_iff_filesAt {f : String} :
    f ∈ (discover fs base includes ignores).files ↔
      (∃ p ∈ origins fs base includes, ∃ found, filesAt fs p = .ok found ∧ f ∈ found) ∧
      isJavaFile f = true ∧
      ∀ cut ∈ oks (ignores.map (Ignore.read base)), cut.covers f = false := by
  have hwalks : f ∈ (oks ((origins fs base includes).map (filesAt fs))).flatten ↔
      ∃ p ∈ origins fs base includes, ∃ found, filesAt fs p = .ok found ∧ f ∈ found := by
    simp only [List.mem_flatten, mem_oks, List.mem_map]
    exact ⟨fun ⟨found, ⟨p, hp, he⟩, hf⟩ => ⟨p, hp, found, he, hf⟩,
      fun ⟨p, hp, found, he, hf⟩ => ⟨found, ⟨p, hp, he⟩, hf⟩⟩
  show f ∈ ascending _ ↔ _
  rw [mem_ascending, List.mem_filter, ← origins, hwalks, Bool.and_eq_true, Bool.not_eq_true',
    List.any_eq_false]
  simp only [Bool.not_eq_true]

/-- They lie at or below a start, and each is spelled from there. -/
theorem mem_files_iff (hn : fs.root.Named) {f : String} :
    f ∈ (discover fs base includes ignores).files ↔
      (∃ p ∈ origins fs base includes, ∃ place names content, fs.locate p = .ok place ∧
        fs.root.at? (place ++ names) = some (.file content) ∧ f = joins p names ∧
        fs.hasPath f = true) ∧
      isJavaFile f = true ∧
      ∀ cut ∈ oks (ignores.map (Ignore.read base)), cut.covers f = false := by
  simp only [mem_files_iff_filesAt, mem_filesAt_iff_joins hn]

/-- What is joined to a path below another is spelled from the other as well,
unless the path strays. -/
theorem joins_eq_or_strays {p q : String} {place names : List String}
    (hp : fs.locate p = .ok place) (hq : fs.locate q = .ok (place ++ names))
    (more : List String) : joins p (names ++ more) = joins q more ∨ fs.Strays p q := by
  by_cases hpq : q = joins p names
  · exact .inl (by rw [Path.joins_append, hpq])
  · exact .inr ⟨place, names, hp, hq, hpq⟩

/-- Two paths of one file come from starts of which one strays from the
other. -/
theorem eq_or_strays (hn : fs.root.Named) {f g : String}
    (hf : f ∈ (discover fs base includes ignores).files)
    (hg : g ∈ (discover fs base includes ignores).files) (hfg : fs.SamePlace f g) :
    f = g ∨ ∃ p ∈ origins fs base includes, ∃ q ∈ origins fs base includes, fs.Strays p q := by
  obtain ⟨dest, hfdest, hgdest⟩ := hfg
  obtain ⟨p, hp, place, names, _, hplace, hat, rfl, -⟩ := ((mem_files_iff hn).mp hf).1
  obtain ⟨q, hq, place', names', _, hplace', hat', rfl, -⟩ := ((mem_files_iff hn).mp hg).1
  have hdest : dest = place ++ names :=
    FileSystem.eq_of_locate_joins (List.forall_mem_append.mp (hn.of_at? hat).1).2 hplace hfdest
  have hdest' : dest = place' ++ names' :=
    FileSystem.eq_of_locate_joins (List.forall_mem_append.mp (hn.of_at? hat').1).2 hplace' hgdest
  have hways := List.append_eq_append_iff.mp (hdest.symm.trans hdest')
  rcases hways with ⟨way, rfl, rfl⟩ | ⟨way, rfl, rfl⟩
  · exact (joins_eq_or_strays hplace hplace' names').imp_right fun h => ⟨p, hp, q, hq, h⟩
  · exact (joins_eq_or_strays hplace' hplace names).imp Eq.symm fun h => ⟨q, hq, p, hp, h⟩

/-! ## Starts that are spelled alike -/

theorem not_strays_of_spelledFrom {top p q : String} (hp : SpelledFrom top p)
    (hq : SpelledFrom top q) : ¬ fs.Strays p q := by
  obtain ⟨names, hnames, rfl⟩ := hp
  obtain ⟨more, hmore, rfl⟩ := hq
  rintro ⟨place, way, hplace, hplace', hne⟩
  have hreach := FileSystem.reach_of_locate hplace
  rw [FileSystem.reach_joins top hnames] at hreach
  have hreach' := FileSystem.reach_of_locate hplace'
  rw [FileSystem.reach_joins top hmore] at hreach'
  cases htop : fs.reach top with
  | error e =>
      rw [htop] at hreach
      cases hreach
  | ok topPlace =>
      rw [htop] at hreach hreach'
      have hnamed := FileSystem.eq_of_foldlM_follow hnames hreach
      have hnamed' := FileSystem.eq_of_foldlM_follow hmore hreach'
      rw [hnamed, List.append_assoc] at hnamed'
      have hway : more = names ++ way := (List.append_cancel_left hnamed').symm
      exact hne (by rw [hway, Path.joins_append])

/-- An include that leads only to paths spelled from `top`: a path of names, or
a pattern that a straight search reads. -/
inductive Aligned (base top incl : String) : Prop where
  | path (literal : Glob.hasWildcard incl = false) (spelled : SpelledFrom top (join base incl))
  | pattern (wild : Glob.hasWildcard incl = true)
      (search : ∀ s, Glob.Search.read (join base incl) = .ok s →
        s.Straight ∧ Glob.stem s.start = top)

theorem Aligned.ofNames {base incl : String} (literal : Glob.hasWildcard incl = false)
    (h : ∀ s ∈ Path.segments incl, Plain s) : Aligned base base incl :=
  .path literal ⟨_, h, Path.join_eq_joins base h⟩

theorem Aligned.startsOf (hn : fs.root.Named) {top incl : String} (h : Aligned base top incl)
    {found : List String} (hfound : startsOf fs base incl = .ok found) :
    ∀ p ∈ found, SpelledFrom top p := by
  cases h with
  | path literal spelled =>
      rw [Discovery.startsOf, literal, if_neg Bool.false_ne_true] at hfound
      split_ifs at hfound with hthere
      cases hfound
      exact List.forall_mem_singleton.mpr spelled
  | pattern wild search =>
      rw [Discovery.startsOf, wild, if_pos rfl] at hfound
      split at hfound
      · rename_i s hread
        cases hfound
        obtain ⟨hstraight, rfl⟩ := search s hread
        exact fun p hp => hstraight.spelledFrom hn (List.mem_filter.mp hp).1
      · cases hfound

theorem exists_spelledFrom_origins (hn : fs.root.Named) {top : String}
    (h : ∀ incl ∈ includes, Aligned base top incl) :
    ∃ top, ∀ p ∈ origins fs base includes, SpelledFrom top p := by
  by_cases hnil : includes = []
  · refine ⟨base, fun p hp => ?_⟩
    rcases mem_origins_iff.mp hp with ⟨-, rfl⟩ | ⟨incl, hincl, -⟩
    · exact .refl p
    · exact absurd (hnil ▸ hincl) List.not_mem_nil
  · refine ⟨top, fun p hp => ?_⟩
    obtain ⟨incl, hincl, found, hfound, hmem⟩ :=
      (mem_origins_iff.mp hp).resolve_left fun hempty => hnil hempty.1
    exact (h incl hincl).startsOf hn hfound p hmem

/-! ## Each file once -/

/-- The paths that are found are all different, and those of one file come from
starts that are not spelled alike.  So no file is found twice if all includes
are aligned.  A scan counts each path once. -/
theorem files_once (hn : fs.root.Named) (base : String) (includes ignores : List String) :
    (discover fs base includes ignores).files.Pairwise (· < ·) ∧
    (∀ f ∈ (discover fs base includes ignores).files,
      ∀ g ∈ (discover fs base includes ignores).files, fs.SamePlace f g →
        f = g ∨ ∃ p ∈ origins fs base includes, ∃ q ∈ origins fs base includes, fs.Strays p q) ∧
    (∀ top, (∀ incl ∈ includes, Aligned base top incl) →
      (discover fs base includes ignores).files.Pairwise fun f g => ¬ fs.SamePlace f g) ∧
    ∀ basePath, (scan basePath ((discover fs base includes ignores).files.map
      fun path => (path, fs.read path))).filesScanned =
        (discover fs base includes ignores).files.length := by
  have hlt : (discover fs base includes ignores).files.Pairwise (· < ·) := pairwise_ascending _
  refine ⟨hlt, fun f hf g hg hfg => eq_or_strays hn hf hg hfg, fun top h => ?_, fun basePath => ?_⟩
  · obtain ⟨top', hspelled⟩ := exists_spelledFrom_origins hn h
    refine hlt.imp_of_mem fun {f g} hf hg hltfg hfg => ?_
    rcases eq_or_strays hn hf hg hfg with rfl | ⟨p, hp, q, hq, hstrays⟩
    · exact lt_irrefl _ hltfg
    · exact not_strays_of_spelledFrom (hspelled p hp) (hspelled q hq) hstrays
  · rw [ScanReport.scan_eq]
    exact List.length_map _

/-- A directory with one test in a directory of its sources. -/
def oneTest : FileSystem where
  root := .dir [("src", .dir [("checks", .dir
    [("FooCheckTest.java", .file { text? := some "" })])])]
  currentDir := []

theorem named_oneTest : oneTest.root.Named := by
  refine .dir (by decide) (by decide) (List.forall_mem_singleton.mpr ?_)
  refine .dir (by decide) (by decide) (List.forall_mem_singleton.mpr ?_)
  exact .dir (by decide) (by decide) (List.forall_mem_singleton.mpr (.file _))

/-- Includes that overlap and are paths of names lead to the test once. -/
theorem files_once_oneTest :
    oneTest.root.Named ∧ (∀ incl ∈ ["src", "src/checks"], Aligned "." "." incl) ∧
    (discover oneTest "." ["src", "src/checks"] []).files =
      ["./src/checks/FooCheckTest.java"] ∧
    (discover oneTest "." ["src", "src/checks"] []).files.Pairwise
      fun f g => ¬ oneTest.SamePlace f g := by
  have haligned : ∀ incl ∈ ["src", "src/checks"], Aligned "." "." incl :=
    List.forall_mem_cons.mpr ⟨.ofNames (by decide) (by decide),
      List.forall_mem_singleton.mpr (.ofNames (by decide) (by decide))⟩
  refine ⟨named_oneTest, haligned, by decide +kernel, ?_⟩
  exact (files_once named_oneTest "." ["src", "src/checks"] []).2.2.1 "." haligned

/-- Two includes that spell one directory differently lead to the test twice. -/
theorem discover_oneTest_twice :
    oneTest.root.Named ∧ ({ includes := ["src", "./src"] } : Config).validate = .ok () ∧
    (discover oneTest "." ["src", "./src"] []).files =
      ["././src/checks/FooCheckTest.java", "./src/checks/FooCheckTest.java"] ∧
    oneTest.SamePlace "././src/checks/FooCheckTest.java" "./src/checks/FooCheckTest.java" :=
  ⟨named_oneTest, rfl, by decide +kernel, ["src", "checks", "FooCheckTest.java"],
    by decide +kernel, by decide +kernel⟩

end Discovery

end PropertyHarvest
