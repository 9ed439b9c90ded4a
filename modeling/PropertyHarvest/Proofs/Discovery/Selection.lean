/-
# Includes are united, ignores are cut

Whether a path is a file to scan is told by the path alone:

  one of the includes, taken by itself, leads to it        (`searched_iff`)
  it is a Java source
  none of the ignores leaves it out

So a list of includes acts by what it holds, and so does a list of ignores.  The
files of two lists of includes are the files of both, the files that two lists of
ignores leave are those that each of them leaves, and neither order nor
repetition makes a difference to what is scanned or to the order of scanning.

Only the empty list of includes is an exception.  It stands for the directory
itself, and with a first include there may be fewer files.

That details are asked for is no exception: what is scanned is the same, and the
status is the same.  Only the messages differ.
-/
import PropertyHarvest.Proofs.Discovery.Ignores

namespace PropertyHarvest

namespace Discovery

variable {fs : FileSystem} {base f : String} {includes more ignores cuts : List String}

/-! ## One path -/

/-- The search for the includes comes to the path. -/
def Searched (fs : FileSystem) (base : String) (includes : List String) (f : String) : Prop :=
  ∃ p ∈ origins fs base includes, ∃ found, filesAt fs p = .ok found ∧ f ∈ found

theorem mem_files_iff_searched :
    f ∈ (discover fs base includes ignores).files ↔
      Searched fs base includes f ∧ isJavaFile f = true ∧
        ∀ ign ∈ ignores, ¬ LeftOut base ign f := by
  rw [mem_files_iff_filesAt, not_covered_iff, Searched]

theorem mem_origins_iff_of_ne_nil (hne : includes ≠ []) {p : String} :
    p ∈ origins fs base includes ↔ ∃ incl ∈ includes, p ∈ origins fs base [incl] := by
  simp only [mem_origins_iff, hne, List.cons_ne_nil, false_and, false_or, List.mem_singleton,
    exists_eq_left]

theorem searched_iff (hne : includes ≠ []) :
    Searched fs base includes f ↔ ∃ incl ∈ includes, Searched fs base [incl] f := by
  constructor
  · rintro ⟨p, hp, hfound⟩
    obtain ⟨incl, hincl, hp⟩ := (mem_origins_iff_of_ne_nil hne).mp hp
    exact ⟨incl, hincl, p, hp, hfound⟩
  · rintro ⟨incl, hincl, p, hp, hfound⟩
    exact ⟨p, (mem_origins_iff_of_ne_nil hne).mpr ⟨incl, hincl, hp⟩, hfound⟩

theorem searched_append (hne : includes ≠ []) (hmore : more ≠ []) :
    Searched fs base (includes ++ more) f ↔
      Searched fs base includes f ∨ Searched fs base more f := by
  rw [searched_iff (List.append_ne_nil_of_left_ne_nil hne more), searched_iff hne,
    searched_iff hmore]
  simp only [List.mem_append, or_and_right, exists_or]

theorem Searched.mono (h : Searched fs base includes f) (hne : includes ≠ [])
    (hsub : includes ⊆ more) : Searched fs base more f := by
  obtain ⟨incl, hincl, hsearched⟩ := (searched_iff hne).mp h
  exact (searched_iff (List.ne_nil_of_mem (hsub hincl))).mpr ⟨incl, hsub hincl, hsearched⟩

theorem searched_congr (h : ∀ incl, incl ∈ includes ↔ incl ∈ more) :
    Searched fs base includes f ↔ Searched fs base more f := by
  by_cases hne : includes = []
  · have hmore : more = [] := by
      refine List.eq_nil_iff_forall_not_mem.mpr fun incl hincl => ?_
      exact absurd ((h incl).mpr hincl) (hne ▸ List.not_mem_nil)
    rw [hne, hmore]
  · obtain ⟨incl, hincl⟩ := List.exists_mem_of_ne_nil includes hne
    exact ⟨fun hs => hs.mono hne fun i => (h i).mp,
      fun hs => hs.mono (List.ne_nil_of_mem ((h incl).mp hincl)) fun i => (h i).mpr⟩

/-! ## All files -/

theorem pairwise_files (fs : FileSystem) (base : String) (includes ignores : List String) :
    (discover fs base includes ignores).files.Pairwise (· < ·) :=
  pairwise_ascending _

theorem files_append_includes (hne : includes ≠ []) (hmore : more ≠ []) :
    (discover fs base (includes ++ more) ignores).files =
      ascending ((discover fs base includes ignores).files ++
        (discover fs base more ignores).files) := by
  refine eq_of_pairwise_lt (pairwise_files ..) (pairwise_ascending _) fun f => ?_
  rw [mem_ascending, List.mem_append, mem_files_iff_searched, mem_files_iff_searched,
    mem_files_iff_searched, searched_append hne hmore, or_and_right]

theorem files_append_ignores :
    (discover fs base includes (ignores ++ cuts)).files =
      (discover fs base includes ignores).files.filter fun f =>
        f ∈ (discover fs base includes cuts).files := by
  refine eq_of_pairwise_lt (pairwise_files ..) ((pairwise_files ..).filter _) fun f => ?_
  rw [List.mem_filter, decide_eq_true_eq, mem_files_iff_searched, mem_files_iff_searched,
    mem_files_iff_searched, List.forall_mem_append]
  constructor
  · rintro ⟨hs, hj, hi, hc⟩
    exact ⟨⟨hs, hj, hi⟩, hs, hj, hc⟩
  · rintro ⟨⟨hs, hj, hi⟩, -, -, hc⟩
    exact ⟨hs, hj, hi, hc⟩

theorem files_congr (hincludes : ∀ incl, incl ∈ includes ↔ incl ∈ more)
    (hignores : ∀ ign, ign ∈ ignores ↔ ign ∈ cuts) :
    (discover fs base includes ignores).files = (discover fs base more cuts).files := by
  refine eq_of_pairwise_lt (pairwise_files ..) (pairwise_files ..) fun f => ?_
  rw [mem_files_iff_searched, mem_files_iff_searched, searched_congr hincludes]
  simp only [hignores]

theorem files_subset_of_includes (hne : includes ≠ []) (hsub : includes ⊆ more) :
    (discover fs base includes ignores).files ⊆ (discover fs base more ignores).files := by
  intro f hf
  obtain ⟨hsearched, hrest⟩ := mem_files_iff_searched.mp hf
  exact mem_files_iff_searched.mpr ⟨hsearched.mono hne hsub, hrest⟩

theorem files_subset_of_ignores (hsub : ignores ⊆ cuts) :
    (discover fs base includes cuts).files ⊆ (discover fs base includes ignores).files := by
  intro f hf
  obtain ⟨hsearched, hjava, hcuts⟩ := mem_files_iff_searched.mp hf
  exact mem_files_iff_searched.mpr ⟨hsearched, hjava, fun ign hign => hcuts ign (hsub hign)⟩

end Discovery

/-! ## Projects and commands -/

namespace Project

variable {fs : FileSystem} {dir : String} {p p' : Project}

/-- The files of the project are those that its configuration leads to. -/
def Discovers (fs : FileSystem) (dir : String) (p : Project) : Prop :=
  p.discovery = .discover fs dir p.config.includes p.config.ignores

theorem discovers_of_load {options : ProjectOptions} (h : load fs options = .ok p) :
    p.Discovers fs (options.path?.getD ".") := by
  obtain ⟨loaded?, -, h⟩ := exists_ok_of_bind h
  rw [← Except.ok.inj h]
  rfl

/-- Two configurations that differ in order and repetition alone are scanned
alike. -/
theorem scan_congr (h : p.Discovers fs dir) (h' : p'.Discovers fs dir)
    (hbase : p.config.basePath = p'.config.basePath)
    (hincludes : ∀ incl, incl ∈ p.config.includes ↔ incl ∈ p'.config.includes)
    (hignores : ∀ ign, ign ∈ p.config.ignores ↔ ign ∈ p'.config.ignores) :
    p.scan fs = p'.scan fs := by
  have hfiles : p.files = p'.files := by
    rw [files, files, h, h']
    exact Discovery.files_congr hincludes hignores
  rw [scan, scan, hbase, hfiles]

end Project

namespace Command

/-- What is scanned, and how it ends, is the same with details and without. -/
theorem runScan_verbose (fs : FileSystem) (colored verbose : Bool) (options : ScanOptions) :
    (runScan fs colored { options with verbose := verbose }).output =
        (runScan fs colored options).output ∧
      (runScan fs colored { options with verbose := verbose }).status =
        (runScan fs colored options).status := by
  unfold runScan
  dsimp only
  cases Project.load fs options.project with
  | error e => exact ⟨rfl, rfl⟩
  | ok p => exact ⟨rfl, rfl⟩

end Command

namespace Discovery

/-- The files are a union of includes that is cut by the ignores.  Joined lists
of includes lead to the files of both, joined lists of ignores leave what both
leave; lists that hold the same lead to the same files in the same order, and to
the same report of a project; no include removes a file where there is one
already, and no ignore adds one; and to ask for details changes nothing. -/
theorem includes_unite_ignores_cut (fs : FileSystem) (dir : String) :
    (∀ includes more ignores : List String, includes ≠ [] → more ≠ [] →
      (discover fs dir (includes ++ more) ignores).files =
        ascending ((discover fs dir includes ignores).files ++
          (discover fs dir more ignores).files)) ∧
    (∀ includes ignores cuts : List String,
      (discover fs dir includes (ignores ++ cuts)).files =
        (discover fs dir includes ignores).files.filter fun f =>
          f ∈ (discover fs dir includes cuts).files) ∧
    (∀ includes includes' ignores ignores' : List String,
      (∀ incl, incl ∈ includes ↔ incl ∈ includes') → (∀ ign, ign ∈ ignores ↔ ign ∈ ignores') →
        (discover fs dir includes ignores).files = (discover fs dir includes' ignores').files) ∧
    ((∀ (options : ProjectOptions) (p : Project), Project.load fs options = .ok p →
        p.Discovers fs (options.path?.getD ".")) ∧
      ∀ p p' : Project, p.Discovers fs dir → p'.Discovers fs dir →
        p.config.basePath = p'.config.basePath →
        (∀ incl, incl ∈ p.config.includes ↔ incl ∈ p'.config.includes) →
        (∀ ign, ign ∈ p.config.ignores ↔ ign ∈ p'.config.ignores) → p.scan fs = p'.scan fs) ∧
    (∀ includes more ignores : List String, includes ≠ [] → includes ⊆ more →
      (discover fs dir includes ignores).files ⊆ (discover fs dir more ignores).files) ∧
    (∀ includes ignores cuts : List String, ignores ⊆ cuts →
      (discover fs dir includes cuts).files ⊆ (discover fs dir includes ignores).files) ∧
    ∀ (colored verbose : Bool) (options : ScanOptions),
      (Command.runScan fs colored { options with verbose := verbose }).output =
          (Command.runScan fs colored options).output ∧
        (Command.runScan fs colored { options with verbose := verbose }).status =
          (Command.runScan fs colored options).status := by
  refine ⟨?_, ?_, ?_, ⟨?_, ?_⟩, ?_, ?_, ?_⟩
  · exact fun includes more ignores hne hmore => files_append_includes hne hmore
  · exact fun includes ignores cuts => files_append_ignores
  · exact fun includes includes' ignores ignores' => files_congr
  · exact fun options p => Project.discovers_of_load
  · exact fun p p' => Project.scan_congr
  · exact fun includes more ignores => files_subset_of_includes
  · exact fun includes ignores cuts => files_subset_of_ignores
  · exact Command.runScan_verbose fs

/-- The tests that are written and those that are generated, the latter by two
ways. -/
theorem includes_unite_ignores_cut_twoTests :
    (discover twoTests "." (["src"] ++ ["gen", "*"]) []).files =
      ["./gen/FooTest.java", "./src/BarTest.java", "gen/FooTest.java", "src/BarTest.java"] ∧
    (discover twoTests "." (["src"] ++ ["gen", "*"]) (["gen"] ++ ["src/*"])).files =
      ["./src/BarTest.java", "gen/FooTest.java"] ∧
    (discover twoTests "." ["src", "gen"] []).files =
      (discover twoTests "." ["gen", "src", "gen"] []).files := by
  obtain ⟨hunion, hcut, hsame, -⟩ := includes_unite_ignores_cut twoTests "."
  refine ⟨?_, ?_, hsame _ _ [] [] (fun incl => ?_) fun _ => Iff.rfl⟩
  · rw [hunion ["src"] ["gen", "*"] [] (by decide) (by decide)]
    decide +kernel
  · rw [hcut]
    decide +kernel
  · simp [or_comm]

end Discovery

end PropertyHarvest
