/-
# What a search finds

  names fit patterns            `Fits ps names`
  names are spanned by steps    `Spans (stepsOf ps) names`
  a search from `path`          finds `path` with the names that its steps span

A way down a tree fits the pieces of a pattern if its names match them one by
one, where a piece of whole directories stands for any number of names.  The
steps of a search span exactly the ways that fit (`fits_iff_spans`), and a step
leads from a directory down each of the ways that it spans.

`Fits` does not mention the search or the matcher, and it is about lists of names and
not about texts with slashes.  What a single piece matches is taken from the matcher
as it stands.  A name has no slash in it, so whether a piece could match one plays no
part.
-/
import PropertyHarvest.Proofs.Glob.Reading
import PropertyHarvest.Proofs.Glob.Search

namespace PropertyHarvest

namespace Glob

open PropertyHarvest.Path (Plain join joins)

/-! ## Patterns and names -/

theorem eq_verbatim_of_literal? {p : Pattern} {name : String} (h : p.literal? = some name) :
    p = verbatim name := by
  obtain ⟨cs, hcs, rfl⟩ := Option.map_eq_some_iff.mp h
  rw [verbatim, String.toList_ofList]
  clear h
  induction p generalizing cs with
  | nil =>
      cases hcs
      rfl
  | cons t p ih =>
      rw [List.mapM_cons] at hcs
      obtain ⟨c, hc, hcs⟩ := Option.bind_eq_some_iff.mp hcs
      obtain ⟨ds, hds, he⟩ := Option.bind_eq_some_iff.mp hcs
      cases he
      cases t with
      | char d =>
          cases hc
          rw [ih ds hds]
          rfl
      | _ => cases hc

theorem matches_verbatim (name s : String) : (verbatim name).matches s = true ↔ s = name := by
  have hrun (cs ds : List Char) : Pattern.run (cs.map .char) ds = .matched ↔ ds = cs := by
    induction cs generalizing ds with
    | nil => cases ds <;> simp [Pattern.run]
    | cons c cs ih =>
        cases ds with
        | nil => simp [Pattern.run]
        | cons d ds =>
            rw [List.map_cons, List.cons.injEq, ← ih ds, Pattern.run, Token.accepts]
            · by_cases h : d = c <;> simp [h]
            · exact Token.noConfusion
            · exact Token.noConfusion
  rw [Pattern.matches, beq_iff_eq, verbatim, hrun, String.toList_inj]

/-- The names fit the patterns one by one.  Whole directories stand for any
number of names, and at the end for one at least. -/
inductive Fits : List Pattern → List String → Prop where
  | nil : Fits [] []
  | name {p : Pattern} {ps : List Pattern} {s : String} {names : List String}
      (single : p.isDirectories = false) (h : p.matches s = true) (rest : Fits ps names) :
      Fits (p :: ps) (s :: names)
  | deeper {p : Pattern} {ps : List Pattern} {s : String} {names : List String}
      (whole : p.isDirectories = true) (rest : Fits (p :: ps) names) : Fits (p :: ps) (s :: names)
  | enough {p q : Pattern} {ps : List Pattern} {names : List String}
      (whole : p.isDirectories = true) (rest : Fits (q :: ps) names) : Fits (p :: q :: ps) names
  | last {p : Pattern} {s : String} (whole : p.isDirectories = true) : Fits [p] [s]

theorem Fits.ne_nil {ps : List Pattern} {names : List String} (h : Fits ps names) (hps : ps ≠ []) :
    names ≠ [] := by
  induction h with
  | nil => exact absurd rfl hps
  | name => exact List.cons_ne_nil _ _
  | deeper => exact List.cons_ne_nil _ _
  | enough _ _ ih => exact ih (List.cons_ne_nil _ _)
  | last => exact List.cons_ne_nil _ _

theorem fits_nil_iff {names : List String} : Fits [] names ↔ names = [] := by
  constructor
  · intro h
    cases h
    rfl
  · rintro rfl
    exact .nil

section

variable {p q : Pattern} {ps : List Pattern} {names : List String}

theorem fits_name_iff (single : p.isDirectories = false) :
    Fits (p :: ps) names ↔ ∃ s rest, names = s :: rest ∧ p.matches s = true ∧ Fits ps rest := by
  constructor
  · intro h
    cases h with
    | name _ h rest => exact ⟨_, _, rfl, h, rest⟩
    | deeper whole => rw [single] at whole; cases whole
    | enough whole => rw [single] at whole; cases whole
    | last whole => rw [single] at whole; cases whole
  · rintro ⟨s, rest, rfl, h, hrest⟩
    exact .name single h hrest

theorem fits_last_iff (whole : p.isDirectories = true) : Fits [p] names ↔ names ≠ [] := by
  refine ⟨fun h => h.ne_nil (List.cons_ne_nil _ _), fun h => ?_⟩
  induction names with
  | nil => exact absurd rfl h
  | cons s names ih =>
      cases names with
      | nil => exact .last whole
      | cons t names => exact .deeper whole (ih (List.cons_ne_nil _ _))

theorem fits_whole_whole_iff (hp : p.isDirectories = true) (hq : q.isDirectories = true) :
    Fits (p :: q :: ps) names ↔ Fits (q :: ps) names := by
  refine ⟨fun h => ?_, fun h => .enough hp h⟩
  induction names with
  | nil =>
      cases h with
      | enough _ rest => exact rest
  | cons s names ih =>
      cases h with
      | name single => rw [hp] at single; cases single
      | deeper _ rest => exact .deeper hq (ih rest)
      | enough _ rest => exact rest

/-- Whole directories before a name stand for all that comes before the name. -/
theorem fits_within_iff (hp : p.isDirectories = true) (hq : q.isDirectories = false) :
    Fits (p :: q :: ps) names ↔
      ∃ before s rest, names = before ++ s :: rest ∧ q.matches s = true ∧ Fits ps rest := by
  constructor
  · intro h
    induction names with
    | nil =>
        cases h with
        | enough _ rest => exact absurd rfl (rest.ne_nil (List.cons_ne_nil _ _))
    | cons t names ih =>
        cases h with
        | name single => rw [hp] at single; cases single
        | deeper _ h =>
            obtain ⟨before, s, rest, rfl, hs, hrest⟩ := ih h
            exact ⟨t :: before, s, rest, rfl, hs, hrest⟩
        | enough _ h =>
            obtain ⟨s, rest, he, hs, hrest⟩ := (fits_name_iff hq).mp h
            exact ⟨[], s, rest, he, hs, hrest⟩
  · rintro ⟨before, s, rest, rfl, hs, hrest⟩
    induction before with
    | nil => exact .enough hp (.name hq hs hrest)
    | cons t before ih => exact .deeper hp ih

end

/-! ## Steps and ways -/

/-- The steps lead down this way, one after the other. -/
inductive Spans : List SearchStep → List String → Prop where
  | nil : Spans [] []
  | cons {step : SearchStep} {steps : List SearchStep} {way names : List String}
      (h : step.Spans way) (rest : Spans steps names) : Spans (step :: steps) (way ++ names)

theorem spans_cons_iff {step : SearchStep} {steps : List SearchStep} {names : List String} :
    Spans (step :: steps) names ↔
      ∃ way rest, names = way ++ rest ∧ step.Spans way ∧ Spans steps rest := by
  constructor
  · intro h
    cases h with
    | cons h rest => exact ⟨_, _, rfl, h, rest⟩
  · rintro ⟨way, rest, rfl, h, hrest⟩
    exact .cons h hrest

/-- The steps of some patterns lead down the ways that fit the patterns. -/
theorem fits_iff_spans {ps : List Pattern} {names : List String} :
    Fits ps names ↔ Spans (stepsOf ps) names := by
  fun_induction stepsOf ps generalizing names with
  | case1 =>
      rw [fits_nil_iff]
      constructor
      · rintro rfl
        exact .nil
      · intro h
        cases h
        rfl
  | case2 p hp =>
      rw [fits_last_iff hp, spans_cons_iff]
      constructor
      · intro hne
        obtain ⟨s, names, rfl⟩ := List.exists_cons_of_ne_nil hne
        exact ⟨_, [], (List.append_nil _).symm, .directories s names, .nil⟩
      · rintro ⟨way, rest, rfl, h, -⟩
        exact List.append_ne_nil_of_left_ne_nil h.ne_nil _
  -- Two pieces for whole directories in a row are one step.
  | case3 p hp q qs hq ih => rw [fits_whole_whole_iff hp hq, ih]
  | case4 p hp q qs hq ih =>
      rw [fits_within_iff hp (Bool.eq_false_iff.mpr hq), spans_cons_iff]
      constructor
      · rintro ⟨before, s, rest, rfl, hs, hrest⟩
        exact ⟨before ++ [s], rest, by simp, .within before hs, ih.mp hrest⟩
      · rintro ⟨way, rest, rfl, h, hrest⟩
        cases h with
        | @within _ before s hs => exact ⟨before, s, rest, by simp, hs, ih.mpr hrest⟩
  | case5 p ps hp name hname ih =>
      rw [fits_name_iff (Bool.eq_false_iff.mpr hp), spans_cons_iff]
      have hmatches (s : String) : p.matches s = true ↔ s = name := by
        rw [eq_verbatim_of_literal? hname]
        exact matches_verbatim name s
      constructor
      · rintro ⟨s, rest, rfl, hs, hrest⟩
        rw [(hmatches s).mp hs]
        exact ⟨[name], rest, rfl, .named name, ih.mp hrest⟩
      · rintro ⟨way, rest, rfl, h, hrest⟩
        cases h
        exact ⟨name, rest, rfl, (hmatches name).mpr rfl, ih.mpr hrest⟩
  | case6 p ps hp hname ih =>
      rw [fits_name_iff (Bool.eq_false_iff.mpr hp), spans_cons_iff]
      constructor
      · rintro ⟨s, rest, rfl, hs, hrest⟩
        exact ⟨[s], rest, rfl, .child hs, ih.mp hrest⟩
      · rintro ⟨way, rest, rfl, h, hrest⟩
        cases h with
        | child hs => exact ⟨_, rest, rfl, hs, ih.mpr hrest⟩

/-! ## One step in a file system -/

variable {fs : FileSystem}

/-- The current directory, or a path with which what is found below it begins. -/
def Settled (path : String) : Prop :=
  path = "." ∨ path ≠ "" ∧ stem path = path

theorem stem_dot : stem "." = "" := by
  decide

theorem settled_joins (path : String) {s : String} {names : List String}
    (h : ∀ t ∈ s :: names, Plain t) :
    joins path (s :: names) ≠ "" ∧ stem (joins path (s :: names)) = joins path (s :: names) := by
  refine ⟨?_, (spelledFrom_joins (.refl path) h).2⟩
  induction names generalizing path s with
  | nil => exact Path.join_ne_empty path (h s List.mem_cons_self).ne_empty
  | cons t names ih => exact ih (join path s) fun u hu => h u (List.mem_cons_of_mem _ hu)

theorem follow_dot (place : List String) : fs.follow place "." = fs.follow place "" := by
  have hdot : Path.isIdle "." = true := by decide
  have hempty : Path.isIdle "" = true := by decide
  simp only [FileSystem.follow, hdot, hempty, if_true]

theorem reach_dot : fs.reach "." = fs.follow fs.currentDir "." := by
  show ["."].foldlM fs.follow (fs.origin ".") = _
  simp only [List.foldlM_cons, List.foldlM_nil, bind_pure]
  rfl

theorem reach_stem {path : String} (h : Settled path) : fs.reach (stem path) = fs.reach path := by
  rcases h with rfl | ⟨-, h⟩
  · have hempty : fs.reach "" = fs.follow fs.currentDir "" := by
      show [""].foldlM fs.follow (fs.origin "") = _
      simp only [List.foldlM_cons, List.foldlM_nil, bind_pure]
      rfl
    rw [stem_dot, hempty, reach_dot, follow_dot]
  · rw [h]

theorem exists_joins_eq_append {p : String} (hp : p ≠ "") {names : List String}
    (h : ∀ s ∈ names, Plain s) : ∃ u, joins p names = p ++ u := by
  induction names generalizing p with
  | nil => exact ⟨"", String.append_empty.symm⟩
  | cons s names ih =>
      obtain ⟨hs, hnames⟩ := List.forall_mem_cons.mp h
      obtain ⟨u, hu⟩ := ih (Path.join_ne_empty p hs.ne_empty) hnames
      obtain ⟨v, hv⟩ := Path.exists_join_eq_append hp hs.not_absolute
      refine ⟨v ++ u, ?_⟩
      rw [← String.append_assoc, ← hv, ← hu]
      rfl

theorem exists_place_of_isDir_joins {path : String} (hsettled : Settled path)
    {names : List String} (hplain : ∀ s ∈ names, Plain s)
    (h : fs.isDir (joins (stem path) names) = true) :
    ∃ place es, fs.locate path = .ok place ∧ fs.root.at? (place ++ names) = some (.dir es) := by
  obtain ⟨dest, es, hdest, hes⟩ := FileSystem.isDir_iff.mp h
  obtain ⟨hnul, -, hsize, hreach⟩ := FileSystem.locate_eq_ok_iff.mp hdest
  rw [FileSystem.reach_joins _ hplain, reach_stem hsettled] at hreach
  obtain ⟨place, hplace, hfollow⟩ := exists_ok_of_bind hreach
  rw [FileSystem.eq_of_foldlM_follow hplain hfollow] at hes
  refine ⟨place, es, FileSystem.locate_eq_ok_iff.mpr ?_, hes⟩
  rcases hsettled with rfl | ⟨hne, hstem⟩
  · exact ⟨by decide, by decide, by decide, hplace⟩
  · rw [hstem] at hnul hsize
    obtain ⟨u, hu⟩ := exists_joins_eq_append hne hplain
    rw [hu, String.toList_append] at hnul
    rw [hu, String.utf8ByteSize_append] at hsize
    exact ⟨fun hmem => hnul (List.mem_append_left _ hmem), hne, by omega, hplace⟩

theorem isDir_of_isDir_joins {p : String} (hp : p ≠ "") {names : List String}
    (h : ∀ s ∈ names, Plain s) (hdir : fs.isDir (joins p names) = true) : fs.isDir p = true := by
  induction names generalizing p with
  | nil => exact hdir
  | cons s names ih =>
      obtain ⟨hs, hnames⟩ := List.forall_mem_cons.mp h
      have hnext := ih (Path.join_ne_empty p hs.ne_empty) hnames hdir
      exact FileSystem.isDir_of_hasPath_join hp hs.not_absolute (FileSystem.hasPath_of_isDir hnext)

theorem not_mem_specialNames {s : String} (h : Plain s) : s ∉ specialNames := by
  intro hmem
  rcases List.mem_cons.mp hmem with rfl | hmem
  · exact absurd h.not_idle (by decide)
  · exact h.ne_parent (List.mem_singleton.mp hmem)

theorem SearchStep.Descends.mem_lead (hn : fs.root.Named) {step : SearchStep}
    (hstep : step.Descends) {path : String} (hsettled : Settled path) {way : List String}
    (hplain : ∀ s ∈ way, Plain s) (hspans : step.Spans way)
    (hdir : fs.isDir (joins (stem path) way) = true) :
    joins (stem path) way ∈ step.lead fs path := by
  obtain ⟨place, es, hplace, hes⟩ := exists_place_of_isDir_joins hsettled hplain hdir
  obtain ⟨top, htop, hbelow⟩ : ∃ top, fs.root.at? place = some top ∧
      top.at? way = some (.dir es) := by
    rw [Entry.at?_append] at hes
    exact Option.bind_eq_some_iff.mp hes
  have hfind : fs.find? path = some top := by
    rw [FileSystem.find?, hplace]
    exact htop
  have hnamed : top.Named := FileSystem.named_of_find? hn hfind
  have hinside : (joins (stem path) way, .dir es) ∈ insideOf fs path := by
    obtain ⟨s, names, rfl⟩ := List.exists_cons_of_ne_nil hspans.ne_nil
    rw [insideOf, hfind]
    exact (Entry.mem_inside_iff hnamed).mpr ⟨s, names, hbelow, rfl⟩
  cases hspans with
  | named name =>
      have hspecial : name ∉ specialNames :=
        not_mem_specialNames (hplain name List.mem_cons_self)
      rw [SearchStep.lead]
      refine List.mem_ite_nil_right.mpr ⟨?_, List.mem_singleton_self _⟩
      rw [if_neg hspecial]
      exact FileSystem.hasPath_of_isDir hdir
  | @child p s hmatch =>
      cases hnamed with
      | file content => cases hbelow
      | @dir entries hnodup _ _ =>
          obtain ⟨c, hc, -⟩ := (Entry.at?_cons_eq_some_iff hnodup).mp hbelow
          have hchild : (s, c) ∈ childrenOf fs path := by
            rw [childrenOf, hfind]
            exact hc
          have hpath : fs.isDir path = true := FileSystem.isDir_iff.mpr ⟨place, _, hplace, htop⟩
          rw [SearchStep.lead, if_pos hpath]
          exact List.mem_append_left _
            (List.mem_map.mpr ⟨(s, c), List.mem_filter.mpr ⟨hchild, hmatch⟩, rfl⟩)
  | @within p before s hmatch =>
      rw [← nameMatches_joins p (stem path) hplain] at hmatch
      exact List.mem_map.mpr ⟨_, List.mem_filter.mpr ⟨hinside, hmatch⟩, rfl⟩
  | directories =>
      exact List.mem_map.mpr ⟨_, List.mem_filter.mpr ⟨hinside, rfl⟩, rfl⟩

/-! ## A search of steps that descend -/

theorem mem_pathsAfter_cons {start q : String} {step : SearchStep} {steps : List SearchStep} :
    q ∈ pathsAfter fs start (step :: steps) ↔
      ∃ path ∈ step.lead fs start, q ∈ pathsAfter fs path steps := by
  have hfold (paths : List String) :
      steps.foldl (fun paths step => paths.flatMap (step.lead fs ·)) paths =
        paths.flatMap fun path => pathsAfter fs path steps := by
    induction steps generalizing paths with
    | nil => exact (List.flatMap_singleton' paths).symm
    | cons next steps ih =>
        rw [List.foldl_cons, ih, List.flatMap_assoc]
        refine List.flatMap_congr fun path _ => ?_
        rw [pathsAfter, List.foldl_cons, List.flatMap_singleton, ih]
  rw [pathsAfter, List.foldl_cons, List.flatMap_singleton, hfold, List.mem_flatMap]

/-- The path for what lies down a way from a settled path. -/
def spell (path : String) (way : List String) : String :=
  if way = [] then path else joins (stem path) way

theorem spell_of_stem_eq {path : String} (h : stem path = path) (way : List String) :
    spell path way = joins path way := by
  rw [spell, h]
  split_ifs with hway
  · rw [hway]
    rfl
  · rfl

/-- The directories that a search finds are those down the ways that its steps
span. -/
theorem mem_pathsAfter_iff (hn : fs.root.Named) {steps : List SearchStep}
    (hsteps : ∀ step ∈ steps, step.Descends) {path : String} (hsettled : Settled path) {q : String}
    (hdir : fs.isDir q = true) :
    q ∈ pathsAfter fs path steps ↔
      ∃ names, (∀ s ∈ names, Plain s) ∧ Spans steps names ∧ q = spell path names := by
  induction steps generalizing path with
  | nil =>
      constructor
      · intro hq
        exact ⟨[], fun s hs => absurd hs List.not_mem_nil, .nil, List.mem_singleton.mp hq⟩
      · rintro ⟨names, -, hspans, rfl⟩
        cases hspans
        exact List.mem_singleton_self path
  | cons step steps ih =>
      obtain ⟨hstep, hsteps⟩ := List.forall_mem_cons.mp hsteps
      -- A way has a name in it, so the path at its end is settled again.
      have hnext {way : List String} (hway : step.Spans way) (hplain : ∀ s ∈ way, Plain s) :
          joins (stem path) way ≠ "" ∧ stem (joins (stem path) way) = joins (stem path) way ∧
            ∀ names, spell (joins (stem path) way) names = spell path (way ++ names) := by
        obtain ⟨s, rest, rfl⟩ := List.exists_cons_of_ne_nil hway.ne_nil
        obtain ⟨hne, hstem⟩ := settled_joins (stem path) hplain
        refine ⟨hne, hstem, fun names => ?_⟩
        rw [spell_of_stem_eq hstem, ← Path.joins_append]
        rfl
      rw [mem_pathsAfter_cons]
      constructor
      · rintro ⟨next, hlead, hq⟩
        obtain ⟨way, hplain, hway, rfl⟩ := hstep.exists_way hn hlead
        obtain ⟨hne, hstem, hspell⟩ := hnext hway hplain
        obtain ⟨names, hnames, hspans, rfl⟩ := (ih hsteps (.inr ⟨hne, hstem⟩)).mp hq
        exact ⟨way ++ names, List.forall_mem_append.mpr ⟨hplain, hnames⟩, .cons hway hspans,
          hspell names⟩
      · rintro ⟨names, hnames, hspans, rfl⟩
        obtain ⟨way, rest, rfl, hway, hrest⟩ := spans_cons_iff.mp hspans
        obtain ⟨hplain, hnames⟩ := List.forall_mem_append.mp hnames
        obtain ⟨hne, hstem, hspell⟩ := hnext hway hplain
        refine ⟨_, hstep.mem_lead hn hsettled hplain hway ?_,
          (ih hsteps (.inr ⟨hne, hstem⟩)).mpr ⟨rest, hnames, hrest, (hspell rest).symm⟩⟩
        rw [← hspell, spell_of_stem_eq hstem] at hdir
        exact isDir_of_isDir_joins hne hnames hdir

end Glob

end PropertyHarvest
