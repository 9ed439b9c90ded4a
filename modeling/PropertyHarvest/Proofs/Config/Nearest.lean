/-
# The directories that are asked for a configuration

  p                   a path that leads to the directory `D`
  `places fs p`       the places that are asked, `D` first

A configuration is looked for along the spelling of a path: one component after
the other is dropped, and each beginning of the components leads to a place
(`aim_parents`).  The first place that decides is the answer.  Without two dots
in the path these places are `D` and the directories above it, up to the one
where the path begins: an absolute path asks all of them, and a relative one
stops at the current directory.

What the place of a configuration says is compared with the directories of the file
system, not with the texts of paths: two paths of one directory ask the same places
if they never go up and begin at one directory.  Where a path goes up, or begins
below the configuration, another file may be found or none, and both happen
(`findFile?_fromSources`).

That the path is short enough for one more name is assumed (`Enters`).  Without that
the question would be what is found by a path that leads nowhere.
-/
import PropertyHarvest.Config.Lookup
import PropertyHarvest.Proofs.FileSystem.Parents

namespace PropertyHarvest

/-! ## Directories on the way -/

namespace FileSystem

open PropertyHarvest.Path (Plain join segments components said resolve beginnings)

variable {fs : FileSystem} {p q : String} {place : List String}

/-- A path that leads to a directory, with room for a name of the configuration. -/
structure Enters (fs : FileSystem) (p : String) (place : List String) : Prop where
  reach : fs.reach p = .ok place
  isDir : ∃ es, fs.root.at? place = some (.dir es)
  no_nul : '\x00' ∉ p.toList
  room : p.utf8ByteSize + 18 ≤ maxPathSize

theorem Enters.eq_aim (h : Enters fs p place) : place = fs.aim p :=
  eq_aim_of_reach h.reach

theorem Enters.of_append {t : String} (h : Enters fs (q ++ "/" ++ t) place) (hq : q ≠ "") :
    Enters fs q (fs.aim q) := by
  have horigin : fs.origin (q ++ "/" ++ t) = fs.origin q := by
    rw [origin, origin, String.append_assoc, Path.isAbsolute_append hq]
  have hreach := h.reach
  rw [FileSystem.reach, Path.segments_append, List.foldlM_append, horigin] at hreach
  obtain ⟨dest, hdest, hrest⟩ := exists_ok_of_bind hreach
  obtain rfl := eq_aim_of_reach (p := q) hdest
  refine ⟨hdest, exists_dir_of_foldlM_follow hrest, fun hnul => h.no_nul ?_, ?_⟩
  · rw [String.append_assoc, String.toList_append]
    exact List.mem_append_left _ hnul
  · have hroom := h.room
    rw [String.append_assoc, String.utf8ByteSize_append] at hroom
    omega

theorem Enters.parent (h : Enters fs p place) (hq : q ∈ Path.parents p) :
    Enters fs q (fs.aim q) := by
  have hstart := h.reach
  rw [FileSystem.reach] at hstart
  obtain ⟨es, hes⟩ := exists_dir_of_foldlM_follow hstart
  have hroot : (Path.beginning p).1 = some .root ↔ Path.isAbsolute p = true := by
    rw [← Path.leading, Path.leading_eq]
    split_ifs <;> simp_all
  have hparent : q ∈ Path.parentsFrom (Path.beginning p).1 (Path.beginning p).2.reverse := hq
  have hcases := Path.of_mem_parentsFrom hparent
  rw [List.reverse_reverse, Path.rebuild_beginning, ne_eq, hroot] at hcases
  rcases hcases with ⟨rfl, hrelative⟩ | ⟨rfl, habsolute⟩ | ⟨t, rfl, hempty⟩
  · rw [origin, if_neg hrelative] at hes
    exact ⟨reach_empty hes, ⟨es, hes⟩, by decide, by decide⟩
  · rw [origin, if_pos habsolute] at hes
    exact ⟨reach_root hes, ⟨es, hes⟩, by decide, by decide⟩
  · refine h.of_append ?_
    rintro rfl
    refine hempty ?_ rfl
    rw [Path.isAbsolute, String.toList_append]
    rfl

/-- The places that are asked for the configuration of a path: where the
beginnings of its components lead. -/
def places (fs : FileSystem) (p : String) : List (List String) :=
  (beginnings (said (segments p))).map (resolve (fs.origin p))

/-- The parents of a path lead to its places; that of a dot leads to the current
directory again. -/
theorem aim_parents (p : String) :
    (p :: Path.parents p).map fs.aim =
      fs.places p ++ if Path.leading p = some .current then [fs.currentDir] else [] := by
  have haim : fs.aim = resolve fs.currentDir ∘ components := rfl
  rw [haim, ← List.map_map, List.map_cons, Path.components_parents, Path.components_eq p,
    ← List.cons_append, ← List.map_cons, ← Path.beginnings_eq_cons, List.map_append, List.map_map,
    places]
  have hlead : resolve fs.currentDir ∘ ((Path.leading p).toList ++ ·) = resolve (fs.origin p) :=
    funext (resolve_leading p)
  rw [hlead]
  split <;> rfl

theorem currentDir_mem_places (h : Path.leading p = some .current) :
    fs.currentDir ∈ places fs p := by
  have horigin : fs.currentDir = resolve (fs.origin p) [] := by
    have hlead : resolve fs.currentDir ((Path.leading p).toList ++ []) = resolve (fs.origin p) [] :=
      resolve_leading p []
    rw [h] at hlead
    exact hlead
  rw [horigin]
  refine List.mem_map_of_mem (List.mem_reverse.mpr ?_)
  exact (List.mem_inits _ _).mpr List.nil_prefix

theorem follow_name_iff {es : List (String × Entry)} (hes : fs.root.at? place = some (.dir es))
    {s : String} (hs : Plain s) (hsize : s.utf8ByteSize ≤ maxNameSize) {dest : List String} :
    fs.follow place s = .ok dest ↔
      dest = place ++ [s] ∧ (fs.root.at? (place ++ [s])).isSome = true := by
  have hchild : fs.root.at? (place ++ [s]) = es.lookup s := Entry.at?_concat hes s
  simp only [hchild, follow, hes, hs.not_idle, Bool.false_eq_true, if_false, hs.ne_parent,
    Nat.not_lt.mpr hsize]
  split
  · rename_i hthere
    rw [Except.ok.injEq]
    exact ⟨fun he => ⟨he.symm, hthere⟩, fun he => he.1.symm⟩
  · rename_i hmissing
    exact ⟨fun he => (by cases he), fun he => absurd he.2 hmissing⟩

theorem Enters.join_fits (h : Enters fs p place) {s : String} (hs : Plain s)
    (hsize : s.utf8ByteSize ≤ 17) (hnul : '\x00' ∉ s.toList) :
    '\x00' ∉ (join p s).toList ∧ join p s ≠ "" ∧ (join p s).utf8ByteSize ≤ maxPathSize := by
  obtain ⟨between, hbetween, hjoin⟩ := Path.exists_join_eq p hs
  have hslash : '\x00' ∉ between.toList ∧ between.utf8ByteSize ≤ 1 := by
    rcases hbetween with rfl | rfl
    · exact ⟨by decide, by decide⟩
    · exact ⟨by decide, by decide⟩
  rw [hjoin]
  refine ⟨?_, by simp [hs.ne_empty], ?_⟩
  · rw [String.toList_append, String.toList_append, List.mem_append, List.mem_append]
    rintro ((hmem | hmem) | hmem)
    · exact h.no_nul hmem
    · exact hslash.1 hmem
    · exact hnul hmem
  · have hroom := h.room
    rw [String.utf8ByteSize_append, String.utf8ByteSize_append]
    omega

theorem Enters.locate_join (h : Enters fs p place) {s : String} (hs : Plain s)
    (hsize : s.utf8ByteSize ≤ 17) (hnul : '\x00' ∉ s.toList) {dest : List String} :
    fs.locate (join p s) = .ok dest ↔
      dest = place ++ [s] ∧ (fs.root.at? (place ++ [s])).isSome = true := by
  obtain ⟨es, hes⟩ := h.isDir
  have hreach : fs.reach (join p s) = fs.follow place s := by
    rw [reach_join p hs, h.reach]
    rfl
  have hshort : s.utf8ByteSize ≤ maxNameSize := by
    rw [maxNameSize]
    omega
  obtain ⟨hno, hne, hfits⟩ := h.join_fits hs hsize hnul
  rw [locate_eq_ok_iff, hreach, follow_name_iff hes hs hshort]
  exact ⟨fun hall => hall.2.2.2, fun hdest => ⟨hno, hne, hfits, hdest⟩⟩

theorem Enters.hasPath_join (h : Enters fs p place) {s : String} (hs : Plain s)
    (hsize : s.utf8ByteSize ≤ 17) (hnul : '\x00' ∉ s.toList) :
    fs.hasPath (join p s) = true ↔ (fs.root.at? (place ++ [s])).isSome = true := by
  rw [hasPath_iff]
  constructor
  · rintro ⟨dest, e, hdest, -⟩
    exact ((h.locate_join hs hsize hnul).mp hdest).2
  · intro hthere
    obtain ⟨e, he⟩ := Option.isSome_iff_exists.mp hthere
    exact ⟨_, e, (h.locate_join hs hsize hnul).mpr ⟨rfl, hthere⟩, he⟩

end FileSystem

/-! ## Places that decide -/

namespace Config

open PropertyHarvest.Path (Plain join)
open PropertyHarvest.FileSystem (Enters places)

variable {fs : FileSystem} {p q : String} {dir top : List String} {dirs : List (List String)}

def Configured (fs : FileSystem) (dir : List String) : Prop :=
  (fs.root.at? (dir ++ [fileName])).isSome = true

def Marked (fs : FileSystem) (dir : List String) : Prop :=
  (fs.root.at? (dir ++ [repositoryMark])).isSome = true

instance : Decidable (Configured fs dir) :=
  inferInstanceAs (Decidable (_ = true))

instance : Decidable (Marked fs dir) :=
  inferInstanceAs (Decidable (_ = true))

/-- `dir` is the first of some directories with a configuration file, and none
before it is the top of a repository. -/
inductive First (fs : FileSystem) : List (List String) → List String → Prop where
  | here {dir : List String} {dirs : List (List String)} :
      Configured fs dir → First fs (dir :: dirs) dir
  | next {dir d : List String} {dirs : List (List String)} :
      ¬ Configured fs d → ¬ Marked fs d → First fs dirs dir → First fs (d :: dirs) dir

theorem verdict_eq (h : Enters fs p dir) :
    (Configured fs dir → verdict fs p = some (some (join p fileName))) ∧
    (¬ Configured fs dir → Marked fs dir → verdict fs p = some none) ∧
    (¬ Configured fs dir → ¬ Marked fs dir → verdict fs p = none) := by
  have hconfig := h.hasPath_join (s := fileName) (by decide) (by decide) (by decide)
  have hmark := h.hasPath_join (s := repositoryMark) (by decide) (by decide) (by decide)
  rw [Configured, Marked, ← hconfig, ← hmark]
  simp only [verdict]
  split_ifs <;> simp_all

/-- The configuration file of one of the directories in question is found, or
there is none. -/
def Finds (fs : FileSystem) (found? : Option String) (InQuestion : List String → Prop) : Prop :=
  match found? with
  | some path => ∃ dir, InQuestion dir ∧ fs.locate path = .ok (dir ++ [fileName])
  | none => ∀ dir, ¬ InQuestion dir

theorem Finds.congr {found? : Option String} {P Q : List String → Prop} (h : Finds fs found? P)
    (hPQ : ∀ dir, P dir ↔ Q dir) : Finds fs found? Q := by
  rwa [← funext fun dir => propext (hPQ dir)]

/-- What is found along paths to some directories is in the first of these. -/
theorem first_of_verdicts {ps : List String} (h : List.Forall₂ (Enters fs) ps dirs) :
    Finds fs (ps.findSome? (verdict fs)).join (First fs dirs) := by
  induction h with
  | nil => exact fun dir hfirst => by cases hfirst
  | @cons p dir ps dirs hp _ ih =>
      obtain ⟨hconfigured, hmarked, hneither⟩ := verdict_eq hp
      by_cases hc : Configured fs dir
      · rw [List.findSome?_cons, hconfigured hc]
        exact ⟨dir, .here hc,
          (hp.locate_join (by decide) (by decide) (by decide)).mpr ⟨rfl, hc⟩⟩
      · by_cases hm : Marked fs dir
        · rw [List.findSome?_cons, hmarked hc hm]
          intro d hfirst
          cases hfirst with
          | here hd => exact hc hd
          | next _ hunmarked _ => exact hunmarked hm
        · rw [List.findSome?_cons, hneither hc hm]
          refine Finds.congr ih fun d => ⟨.next hc hm, fun hfirst => ?_⟩
          cases hfirst with
          | here hd => exact absurd hd hc
          | next _ _ hrest => exact hrest

theorem First.of_concat {d : List String} (h : First fs (dirs ++ [d]) dir)
    (hd : d ∈ dirs ∨ (¬ Configured fs d ∧ ¬ Marked fs d)) : First fs dirs dir := by
  induction dirs with
  | nil =>
      obtain ⟨hc, hm⟩ := hd.resolve_left List.not_mem_nil
      cases h with
      | here hdir => exact absurd hdir hc
      | next _ _ hrest => cases hrest
  | cons e dirs ih =>
      cases h with
      | here hdir => exact .here hdir
      | next hc hm hrest =>
          refine .next hc hm (ih hrest ?_)
          rcases hd with hd | hd
          · rcases List.mem_cons.mp hd with rfl | hd
            · exact .inr ⟨hc, hm⟩
            · exact .inl hd
          · exact .inr hd

theorem First.concat {d : List String} (h : First fs dirs dir) : First fs (dirs ++ [d]) dir := by
  induction h with
  | here hdir => exact .here hdir
  | next hc hm _ ih => exact .next hc hm ih

/-- The configuration of a path is that of the first of its places. -/
theorem findFile?_first (h : Enters fs p dir) :
    Finds fs (findFile? fs p) (First fs (places fs p)) := by
  have henters : ∀ q ∈ p :: Path.parents p, Enters fs q (fs.aim q) :=
    List.forall_mem_cons.mpr ⟨h.eq_aim ▸ h, fun q => h.parent⟩
  have hverdicts := first_of_verdicts (List.forall₂_map_right_iff.mpr
    (List.forall₂_same.mpr henters))
  rw [FileSystem.aim_parents] at hverdicts
  refine hverdicts.congr fun d => ?_
  split
  · rename_i hcurrent
    have hlast : fs.currentDir ∈ places fs p := FileSystem.currentDir_mem_places hcurrent
    exact ⟨fun hfirst => hfirst.of_concat (.inl hlast), First.concat⟩
  · rw [List.append_nil]

/-! ## Directories above -/

/-- `dir` is the nearest of `D` and the directories above it with a configuration
file, and none that is nearer is the top of a repository. -/
structure Nearest (fs : FileSystem) (D dir : List String) : Prop where
  above : dir <+: D
  configured : Configured fs dir
  undecided : ∀ d, dir <+: d → d <+: D → d ≠ dir → ¬ Configured fs d ∧ ¬ Marked fs d

theorem Nearest.unique {D dir' : List String} (h : Nearest fs D dir) (h' : Nearest fs D dir') :
    dir = dir' := by
  rcases List.prefix_or_prefix_of_prefix h.above h'.above with hle | hle
  · by_contra hne
    exact (h.undecided dir' hle h'.above (Ne.symm hne)).1 h'.configured
  · by_contra hne
    exact (h'.undecided dir hle h.above hne).1 h.configured

theorem nearest_self {D : List String} (h : Configured fs D) : Nearest fs D D :=
  ⟨List.prefix_rfl, h, fun _ hd hdD hne => absurd (hdD.eq_of_length_le hd.length_le) hne⟩

/-- A directory that does not decide leaves it to those above. -/
theorem nearest_concat_iff {D : List String} {n : String} :
    Nearest fs (D ++ [n]) dir ↔
      (dir = D ++ [n] ∧ Configured fs dir) ∨
        (¬ Configured fs (D ++ [n]) ∧ ¬ Marked fs (D ++ [n]) ∧ Nearest fs D dir) := by
  have hle : D <+: D ++ [n] := List.prefix_append D [n]
  constructor
  · intro h
    rcases List.prefix_concat_iff.mp h.above with rfl | habove
    · exact .inl ⟨rfl, h.configured⟩
    · have hne : D ++ [n] ≠ dir := by
        rintro rfl
        exact absurd habove.length_le (by simp)
      obtain ⟨hc, hm⟩ := h.undecided _ h.above List.prefix_rfl hne
      exact .inr ⟨hc, hm, habove, h.configured, fun d hd hdD => h.undecided d hd (hdD.trans hle)⟩
  · rintro (⟨rfl, hc⟩ | ⟨hc, hm, h⟩)
    · exact nearest_self hc
    · refine ⟨h.above.trans hle, h.configured, fun d hd hdD hne => ?_⟩
      rcases List.prefix_concat_iff.mp hdD with rfl | hdD
      · exact ⟨hc, hm⟩
      · exact h.undecided d hd hdD hne

/-- Asking the directories from one up to another is asking for the nearest one
that is not above the other. -/
theorem first_iff_nearest (names : List String) :
    First fs ((Path.beginnings (names.map .name)).map (Path.resolve top)) dir ↔
      top <+: dir ∧ Nearest fs (top ++ names) dir := by
  -- The search goes up, so the names are taken away from the end.
  induction names using List.reverseRecOn with
  | nil =>
      show First fs [top] dir ↔ _
      rw [List.append_nil]
      constructor
      · intro h
        cases h with
        | here hc => exact ⟨List.prefix_rfl, nearest_self hc⟩
        | next _ _ hrest => cases hrest
      · rintro ⟨htop, h⟩
        obtain rfl := h.above.eq_of_length_le htop.length_le
        exact .here h.configured
  | append_singleton names n ih =>
      rw [List.map_append, List.map_singleton, Path.beginnings_concat, List.map_cons,
        ← List.append_assoc, nearest_concat_iff, ← List.map_singleton, ← List.map_append,
        Path.resolve_names, ← List.append_assoc]
      constructor
      · intro h
        cases h with
        | here hc => exact ⟨(List.prefix_append top names).trans (List.prefix_append _ _),
            .inl ⟨rfl, hc⟩⟩
        | next hc hm hrest =>
            obtain ⟨htop, hnearest⟩ := ih.mp hrest
            exact ⟨htop, .inr ⟨hc, hm, hnearest⟩⟩
      · rintro ⟨htop, ⟨rfl, hc⟩ | ⟨hc, hm, hnearest⟩⟩
        · exact .here hc
        · exact .next hc hm (ih.mpr ⟨htop, hnearest⟩)

/-- A path that never goes up finds the nearest configuration, unless it is
above the directory where the path begins. -/
theorem finds_nearest {D : List String} (h : Enters fs p D) (hup : ".." ∉ Path.segments p) :
    Finds fs (findFile? fs p) fun dir => fs.origin p <+: dir ∧ Nearest fs D dir := by
  obtain ⟨names, hnames⟩ := Path.exists_names_of_said hup
  have hD : D = fs.origin p ++ names := by
    rw [h.eq_aim, FileSystem.aim, Path.components_eq, FileSystem.resolve_leading, hnames,
      Path.resolve_names]
  refine (findFile?_first h).congr fun dir => ?_
  rw [places, hnames, first_iff_nearest, hD]

/-! ## What is loaded -/

theorem loadFile_congr {path path' : String} (h : fs.locate path = fs.locate path') :
    (loadFile fs path).toOption = (loadFile fs path').toOption := by
  have htext : fs.text? path = fs.text? path' := by
    rw [FileSystem.text?, FileSystem.text?, FileSystem.read, FileSystem.read, FileSystem.content?,
      FileSystem.content?, FileSystem.find?, FileSystem.find?, h]
  rw [loadFile, loadFile, htext]
  cases fs.text? path' with
  | none => rfl
  | some text =>
      simp only [Option.elim, bind, Except.bind]
      cases read? text <;> rfl

theorem load?_eq (fs : FileSystem) (p : String) : load? fs p =
    (findFile? fs p).elim (.ok none) fun path => (loadFile fs path).map some := by
  unfold load?
  cases findFile? fs p <;> rfl

theorem load?_of_none (h : findFile? fs p = none) : load? fs p = .ok none := by
  rw [load?_eq, h, Option.elim_none]

theorem load?_of_some {path : String} (h : findFile? fs p = some path) :
    (load? fs p).toOption = (loadFile fs path).toOption.map some := by
  rw [load?_eq, h, Option.elim_some]
  cases loadFile fs path <;> rfl

theorem load?_congr {P : List String → Prop} (hunique : ∀ dir dir', P dir → P dir' → dir = dir')
    (hp : Finds fs (findFile? fs p) P) (hq : Finds fs (findFile? fs q) P) :
    (load? fs p).toOption = (load? fs q).toOption := by
  cases hfp : findFile? fs p with
  | none =>
      rw [hfp] at hp
      cases hfq : findFile? fs q with
      | none => rw [load?_of_none hfp, load?_of_none hfq]
      | some path =>
          rw [hfq] at hq
          obtain ⟨dir, hdir, -⟩ := hq
          exact absurd hdir (hp dir)
  | some path =>
      rw [hfp] at hp
      obtain ⟨dir, hdir, hlocate⟩ := hp
      cases hfq : findFile? fs q with
      | none =>
          rw [hfq] at hq
          exact absurd hdir (hq dir)
      | some path' =>
          rw [hfq] at hq
          obtain ⟨dir', hdir', hlocate'⟩ := hq
          cases hunique dir dir' hdir hdir'
          rw [load?_of_some hfp, load?_of_some hfq, loadFile_congr (hlocate.trans hlocate'.symm)]

/-- The configuration of a directory is that of the first of the places of its
path.  If the path never goes up, it is the nearest one that is not above the
directory where the path begins: for an absolute path the nearest one.  Paths of
one directory that never go up and begin at one directory load the same. -/
theorem findFile?_nearest {D : List String} (h : Enters fs p D) :
    Finds fs (findFile? fs p) (First fs (places fs p)) ∧
    (".." ∉ Path.segments p →
      Finds fs (findFile? fs p) fun dir => fs.origin p <+: dir ∧ Nearest fs D dir) ∧
    (".." ∉ Path.segments p → Path.isAbsolute p = true →
      Finds fs (findFile? fs p) (Nearest fs D)) ∧
    (".." ∉ Path.segments p → ∀ q, Enters fs q D → ".." ∉ Path.segments q →
      fs.origin q = fs.origin p → (load? fs q).toOption = (load? fs p).toOption) := by
  refine ⟨findFile?_first h, finds_nearest h, fun hup habsolute => ?_,
    fun hup q hq hup' horigin => ?_⟩
  · refine (finds_nearest h hup).congr fun dir => and_iff_right ?_
    rw [FileSystem.origin, if_pos habsolute]
    exact List.nil_prefix
  · have hfinds := finds_nearest hq hup'
    rw [horigin] at hfinds
    exact load?_congr (fun _ _ hd hd' => hd.2.unique hd'.2) hfinds (finds_nearest h hup)

/-- A project, seen from the directory of its sources. -/
def fromSources : FileSystem where
  root := .dir [("project", .dir [(".git", .dir []),
    (".testpropsrc.json", .file { text? := some "[\"lib/\"]" }), ("src", .dir [])])]
  currentDir := ["project", "src"]

/-- Two absolute paths of the sources lead to the configuration of the project. -/
theorem findFile?_nearest_fromSources :
    Enters fromSources "/project//src/" ["project", "src"] ∧
    Enters fromSources "/./project/src" ["project", "src"] ∧
    (∃ path, findFile? fromSources "/project//src/" = some path ∧
      fromSources.locate path = .ok ["project", ".testpropsrc.json"]) ∧
    (load? fromSources "/./project/src").toOption =
      (load? fromSources "/project//src/").toOption := by
  have hsources : Enters fromSources "/project//src/" ["project", "src"] :=
    ⟨by decide +kernel, ⟨[], rfl⟩, by decide, by decide⟩
  have hagain : Enters fromSources "/./project/src" ["project", "src"] :=
    ⟨by decide +kernel, ⟨[], rfl⟩, by decide, by decide⟩
  have hproject : Nearest fromSources (["project"] ++ ["src"]) ["project"] :=
    nearest_concat_iff.mpr (.inr ⟨by decide, by decide, nearest_self (by decide)⟩)
  obtain ⟨-, -, habsolute, hsame⟩ := findFile?_nearest hsources
  refine ⟨hsources, hagain, ?_, hsame (by decide) _ hagain (by decide) (by decide)⟩
  have hfinds := habsolute (by decide) (by decide)
  cases hfound : findFile? fromSources "/project//src/" with
  | none =>
      rw [hfound] at hfinds
      exact absurd hproject (hfinds ["project"])
  | some path =>
      rw [hfound] at hfinds
      obtain ⟨dir, hdir, hlocate⟩ := hfinds
      cases hdir.unique hproject
      exact ⟨path, rfl, hlocate⟩

/-- A directory with a configuration, seen from the directory above. -/
def aboveConfigured : FileSystem where
  root := .dir [("sub", .dir [(".testpropsrc.json", .file { text? := some "[\"lib/\"]" })])]
  currentDir := []

/-- From the sources of a project, a dot finds nothing where longer paths of the
same directory find the configuration of the project, and a path that goes down
and up again finds the configuration of the directory that it leaves. -/
theorem findFile?_fromSources :
    Nearest fromSources ["project", "src"] ["project"] ∧
    fromSources.locate "." = .ok ["project", "src"] ∧
    fromSources.locate "../src" = .ok ["project", "src"] ∧
    findFile? fromSources "." = none ∧
    findFile? fromSources "../src" = some "../.testpropsrc.json" ∧
    aboveConfigured.locate "sub/.." = .ok [] ∧ ¬ Configured aboveConfigured [] ∧
    findFile? aboveConfigured "." = none ∧
    findFile? aboveConfigured "sub/.." = some "sub/.testpropsrc.json" := by
  have hproject : Nearest fromSources (["project"] ++ ["src"]) ["project"] :=
    nearest_concat_iff.mpr (.inr ⟨by decide, by decide, nearest_self (by decide)⟩)
  refine ⟨hproject, ?_⟩
  decide +kernel

end Config

end PropertyHarvest
