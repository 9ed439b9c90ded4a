/-
# Searching below a directory

A search for a pattern that is joined to the path of a directory goes to the
directory first, segment by segment (`respell`), and then down every way that
fits the pattern (`SearchBase.mem_results_iff`).  The path must not be read as a
pattern itself, and it must not get lost on the way: after a dot, an empty segment
leads nowhere.

The list of results may have a directory more than once, where two ways down the
pattern lead to it.  Only membership is told.

Two things can go wrong with the path of a directory, and both are excluded by
hypotheses that can be read off its text.  A character of it may be read as a wildcard.
And a search drops the dot of the current directory, so that the path that is found
does not begin with the path that was searched.
-/
import PropertyHarvest.Proofs.Glob.Fitting

namespace PropertyHarvest

namespace Glob

open PropertyHarvest.Path (Plain join joins)

variable {fs : FileSystem}

/-! ## The way to the directory -/

/-- The path to which steps to some names lead. -/
def respell (path : String) (names : List String) : String :=
  names.foldl (fun path name => join (stem path) name) path

/-- The names do not end in an empty path: nothing is joined to the current
directory that says nothing, but for a dot. -/
def SpellsOut (path : String) (names : List String) : Prop :=
  path = "." → names.head? ≠ some "" ∧ (names.head? = some "." → "" ∉ names)

theorem respell_cons (path name : String) (names : List String) :
    respell path (name :: names) = respell (join (stem path) name) names :=
  rfl

variable {path name : String} {names : List String}

theorem join_stem_dot (name : String) : join (stem ".") name = name := by
  rw [stem_dot, join]
  simp

theorem stem_eq_iff (hpath : path ≠ "") :
    stem path = path ↔ Path.components path ≠ [.current] := by
  rw [stem]
  split_ifs with h
  · exact iff_of_false (fun he => hpath he.symm) fun hne => hne h
  · exact iff_of_true rfl h

theorem stem_of_no_slash (hempty : name ≠ "") (hdot : name ≠ ".") (hslash : '/' ∉ name.toList) :
    stem name = name ∧ Path.components name = Path.said [name] := by
  have hsaid : Path.components name = Path.said [name] := by
    rw [Path.components_eq, Path.leading_eq, Path.not_absolute_of_no_slash hslash,
      Path.segments_of_no_slash hslash]
    simp [hdot]
  refine ⟨(stem_eq_iff hempty).mpr fun he => Path.current_not_mem_said [name] ?_, hsaid⟩
  rw [← hsaid, he]
  exact List.mem_singleton_self _

theorem settled_join (hne : path ≠ "") (hstem : stem path = path)
    (hrelative : Path.isAbsolute name = false) :
    join path name ≠ "" ∧ stem (join path name) = join path name := by
  have hcurrent : Path.components (join path name) ≠ [.current] := by
    rw [Path.components_join hne hrelative]
    intro he
    rcases List.append_eq_singleton_iff.mp he with ⟨-, hsaid⟩ | ⟨hpath, -⟩
    · exact Path.current_not_mem_said _ (hsaid ▸ List.mem_singleton_self _)
    · exact (stem_eq_iff hne).mp hstem hpath
  have hnext : join path name ≠ "" := by
    obtain ⟨u, hu⟩ := Path.exists_join_eq_append hne hrelative
    rw [hu]
    simp [hne]
  exact ⟨hnext, (stem_eq_iff hnext).mpr hcurrent⟩

/-- The next path has the next name in place of the current directory, or at
the end. -/
theorem SpellsOut.next (fs : FileSystem) (hsettled : Settled path)
    (h : SpellsOut path (name :: names)) (hslash : '/' ∉ name.toList) :
    Settled (join (stem path) name) ∧ SpellsOut (join (stem path) name) names ∧
      fs.reach (join (stem path) name) = fs.reach path >>= (fs.follow · name) := by
  have hrelative : Path.isAbsolute name = false := Path.not_absolute_of_no_slash hslash
  have hsegments : Path.segments name = [name] := Path.segments_of_no_slash hslash
  rcases hsettled with rfl | ⟨hne, hstem⟩
  · obtain ⟨hhead, hdot⟩ := h rfl
    have hempty : name ≠ "" := fun he => hhead (by rw [he]; rfl)
    have hreach : fs.reach name = fs.reach "." >>= (fs.follow · name) := by
      rw [reach_dot, follow_dot, FileSystem.follow_idle_bind, FileSystem.reach, hsegments,
        FileSystem.origin, hrelative]
      simp only [List.foldlM_cons, List.foldlM_nil, bind_pure]
      rfl
    rw [join_stem_dot]
    refine ⟨?_, ?_, hreach⟩
    · by_cases hname : name = "."
      · exact .inl hname
      · exact .inr ⟨hempty, (stem_of_no_slash hempty hname hslash).1⟩
    · rintro rfl
      have hrest : "" ∉ names := fun hmem => hdot rfl (List.mem_cons_of_mem _ hmem)
      exact ⟨fun hhead => hrest (List.mem_of_mem_head? hhead), fun _ => hrest⟩
  · obtain ⟨hnext, hcurrent⟩ := settled_join hne hstem hrelative
    rw [hstem]
    refine ⟨.inr ⟨hnext, hcurrent⟩, fun he => ?_, ?_⟩
    · rw [he] at hcurrent
      exact absurd hcurrent (by decide)
    · rw [FileSystem.reach_join_of_relative hne hrelative, hsegments]
      simp only [List.foldlM_cons, List.foldlM_nil, bind_pure]

theorem settled_respell (fs : FileSystem) (hsettled : Settled path) (h : SpellsOut path names)
    (hslash : ∀ s ∈ names, '/' ∉ s.toList) :
    Settled (respell path names) ∧
      fs.reach (respell path names) =
        fs.reach path >>= fun place => names.foldlM fs.follow place := by
  induction names generalizing path with
  | nil => exact ⟨hsettled, (bind_pure _).symm⟩
  | cons name names ih =>
      obtain ⟨hname, hnames⟩ := List.forall_mem_cons.mp hslash
      obtain ⟨hnext, hspells, hreach⟩ := h.next fs hsettled hname
      obtain ⟨hrespell, hnames⟩ := ih hnext hspells hnames
      refine ⟨hrespell, ?_⟩
      rw [respell_cons, hnames, hreach]
      simp only [List.foldlM_cons, bind_assoc]

theorem isDir_of_hasPath_next (hsettled : Settled path) (hslash : '/' ∉ name.toList)
    (h : fs.hasPath (join (stem path) name) = true) : fs.isDir path = true := by
  have hrelative : Path.isAbsolute name = false := Path.not_absolute_of_no_slash hslash
  rcases hsettled with rfl | ⟨hne, hstem⟩
  · obtain ⟨place, e, hplace, -⟩ := FileSystem.hasPath_iff.mp h
    have hreach := FileSystem.reach_of_locate hplace
    rw [join_stem_dot, FileSystem.reach, FileSystem.origin, hrelative] at hreach
    obtain ⟨es, hes⟩ := FileSystem.exists_dir_of_foldlM_follow hreach
    refine FileSystem.isDir_iff.mpr ⟨_, es, FileSystem.locate_eq_ok_iff.mpr ?_, hes⟩
    exact ⟨by decide, by decide, by decide,
      reach_dot.trans (FileSystem.follow_idle hes (by decide))⟩
  · rw [hstem] at h
    exact FileSystem.isDir_of_hasPath_join hne hrelative h

theorem hasPath_of_respell (hsettled : Settled path) (h : SpellsOut path names)
    (hslash : ∀ s ∈ names, '/' ∉ s.toList) (hpath : fs.hasPath (respell path names) = true) :
    fs.hasPath path = true := by
  induction names generalizing path with
  | nil => exact hpath
  | cons name names ih =>
      obtain ⟨hname, hnames⟩ := List.forall_mem_cons.mp hslash
      obtain ⟨hnext, hspells, -⟩ := h.next fs hsettled hname
      exact FileSystem.hasPath_of_isDir
        (isDir_of_hasPath_next hsettled hname (ih hnext hspells hnames hpath))

/-- Steps to some names lead to one path, if there is anything. -/
theorem mem_pathsAfter_named_append (hsettled : Settled path) (h : SpellsOut path names)
    (hslash : ∀ s ∈ names, '/' ∉ s.toList) (steps : List SearchStep) (q : String) :
    (q ∈ pathsAfter fs path (names.map .named ++ steps) →
      q ∈ pathsAfter fs (respell path names) steps) ∧
    (fs.hasPath (respell path names) = true → q ∈ pathsAfter fs (respell path names) steps →
      q ∈ pathsAfter fs path (names.map .named ++ steps)) := by
  induction names generalizing path with
  | nil => exact ⟨id, fun _ => id⟩
  | cons name names ih =>
      obtain ⟨hname, hnames⟩ := List.forall_mem_cons.mp hslash
      obtain ⟨hnext, hspells, -⟩ := h.next fs hsettled hname
      rw [List.map_cons, List.cons_append, mem_pathsAfter_cons, SearchStep.lead]
      refine ⟨?_, fun hpath hq => ?_⟩
      · rintro ⟨next, hlead, hq⟩
        rw [List.mem_singleton.mp (List.mem_ite_nil_right.mp hlead).2] at hq
        exact (ih hnext hspells hnames).1 hq
      · have hthere := hasPath_of_respell hnext hspells hnames hpath
        refine ⟨_, List.mem_ite_nil_right.mpr ⟨?_, List.mem_singleton_self _⟩,
          (ih hnext hspells hnames).2 hpath hq⟩
        split
        · exact isDir_of_hasPath_next hsettled hname hthere
        · exact hthere

/-! ## The directory itself -/

/-- The path to which a search goes first, for a directory at `base`. -/
def settledBase (base : String) : String :=
  respell (route base).1 (pieces (route base).2)

/-- With what the paths begin that a search below a directory finds. -/
def topOf (base : String) : String :=
  stem (settledBase base)

/-- A path that leads to `place` and is no pattern.  Where it begins with a dot,
it has no two slashes in a row. -/
structure SearchBase (fs : FileSystem) (base : String) (place : List String) : Prop where
  located : fs.locate base = .ok place
  verbatim : Verbatim base
  dots : Path.leading base = some .current → "" ∉ pieces base

namespace SearchBase

variable {base : String} {place : List String}

theorem ne_empty (h : SearchBase fs base place) : base ≠ "" :=
  (FileSystem.locate_eq_ok_iff.mp h.located).2.1

theorem no_slash (base : String) : ∀ s ∈ pieces (route base).2, '/' ∉ s.toList :=
  fun _ hs hmem => (Path.of_mem_pieces hs hmem).2 rfl

theorem settled_start (base : String) : Settled (route base).1 := by
  have hroot : stem "/" = "/" := by decide
  have hne : "/" ≠ "" := by decide
  rw [route]
  split
  · exact .inr ⟨hne, hroot⟩
  · exact .inl rfl

theorem spellsOut (h : SearchBase fs base place) :
    SpellsOut (route base).1 (pieces (route base).2) := by
  have hne := h.ne_empty
  rw [route]
  split_ifs with habsolute
  · intro he
    have hroot : "/" ≠ "." := by decide
    exact absurd he hroot
  · rw [Bool.not_eq_true] at habsolute
    have hhead := (Path.head?_pieces hne).symm
    refine fun _ => ⟨fun hempty => ?_, fun hdot => h.dots ?_⟩
    · obtain ⟨rest, hrest⟩ := List.head?_eq_some_iff.mp (hhead.trans hempty)
      rw [Path.eq_nil_of_segments hrest habsolute] at hrest
      exact hne (Path.eq_empty_of_segments hrest)
    · rw [Path.leading_eq, habsolute, hhead, hdot]
      rfl

theorem settled (h : SearchBase fs base place) : Settled (settledBase base) :=
  (settled_respell fs (settled_start base) h.spellsOut (no_slash base)).1

theorem reach (h : SearchBase fs base place) : fs.reach (settledBase base) = .ok place := by
  have hbase := FileSystem.reach_of_locate h.located
  have hpieces {p : String} {start : List String}
      (hp : (Path.segments p).foldlM fs.follow start = .ok place) :
      (Except.ok start >>= fun dir => (pieces p).foldlM fs.follow dir) = .ok place := by
    show (pieces p).foldlM fs.follow start = .ok place
    rcases Path.segments_eq_pieces p with hs | hs
    · exact hs ▸ hp
    · rw [hs, List.foldlM_append] at hp
      obtain ⟨dest, hdest, hend⟩ := exists_ok_of_bind hp
      rw [FileSystem.said_of_foldlM_follow hend]
      exact hdest
  rw [settledBase, (settled_respell fs (settled_start base) h.spellsOut (no_slash base)).2, route]
  rw [FileSystem.reach, FileSystem.origin] at hbase
  split_ifs at hbase ⊢ with habsolute
  · rw [Path.segments_of_absolute habsolute, List.foldlM_cons] at hbase
    obtain ⟨start, hstart, hbase⟩ := exists_ok_of_bind hbase
    obtain rfl : start = [] := FileSystem.said_of_follow hstart
    obtain ⟨es, hes⟩ := FileSystem.exists_dir_of_follow hstart
    rw [FileSystem.reach_root hes]
    exact hpieces hbase
  · obtain ⟨es, hes⟩ := FileSystem.exists_dir_of_foldlM_follow hbase
    rw [reach_dot, FileSystem.follow_idle hes (by decide)]
    exact hpieces hbase

end SearchBase

/-- Names that are joined one after the other say what they say. -/
theorem components_respell (hne : path ≠ "") (hstem : stem path = path)
    (hslash : ∀ s ∈ names, '/' ∉ s.toList) :
    stem (respell path names) = respell path names ∧
      Path.components (respell path names) = Path.components path ++ Path.said names := by
  induction names generalizing path with
  | nil => exact ⟨hstem, (List.append_nil _).symm⟩
  | cons name names ih =>
      obtain ⟨hname, hnames⟩ := List.forall_mem_cons.mp hslash
      have hrelative : Path.isAbsolute name = false := Path.not_absolute_of_no_slash hname
      obtain ⟨hnext, hsettled⟩ := settled_join hne hstem hrelative
      rw [respell_cons, hstem]
      refine ⟨(ih hnext hsettled hnames).1, ?_⟩
      rw [(ih hnext hsettled hnames).2, Path.components_join hne hrelative,
        Path.segments_of_no_slash hname, List.append_assoc, ← Path.said_append]
      rfl

/-- Only a dot at the beginning of a path gets lost in a search. -/
theorem SearchBase.components_topOf {base : String} {place : List String}
    (h : SearchBase fs base place) (hcurrent : Path.leading base ≠ some .current) :
    Path.components (topOf base) = Path.components base := by
  have hne := h.ne_empty
  have hslash := SearchBase.no_slash base
  have hspells := h.spellsOut
  rw [topOf, settledBase]
  rw [route] at hslash hspells ⊢
  split_ifs at hslash hspells ⊢ with habsolute
  · have hroot : "/" ≠ "" := by decide
    obtain ⟨hstem, hcomponents⟩ := components_respell hroot (by decide) hslash
    rw [hstem, hcomponents, Path.components_eq base, Path.leading_eq, if_pos habsolute,
      Path.segments_of_absolute habsolute, Path.said_cons_idle (by decide), Path.said_pieces]
    rfl
  · obtain ⟨first, rest, hpieces⟩ := List.exists_cons_of_ne_nil (Path.pieces_ne_nil hne)
    have hhead : (Path.segments base).head? = some first := by
      rw [← Path.head?_pieces hne, hpieces]
      rfl
    have hleading : Path.leading base = none := by
      rw [Path.leading_eq, if_neg habsolute] at hcurrent ⊢
      exact if_neg fun hdot => hcurrent (if_pos hdot)
    have hdot : first ≠ "." := by
      rintro rfl
      exact hcurrent (by rw [Path.leading_eq, if_neg habsolute, if_pos hhead])
    rw [hpieces] at hslash hspells ⊢
    obtain ⟨hfirst, hrest⟩ := List.forall_mem_cons.mp hslash
    have hempty : first ≠ "" := fun he => (hspells rfl).1 (by rw [he]; rfl)
    obtain ⟨hstem, hsaid⟩ := stem_of_no_slash hempty hdot hfirst
    obtain ⟨hsettled, hcomponents⟩ := components_respell hempty hstem hrest
    rw [respell_cons, join_stem_dot, hsettled, hcomponents, hsaid, Path.components_eq base,
      hleading, ← Path.said_pieces, hpieces, ← Path.said_append]
    rfl

/-! ## What is found below the directory -/

/-- A pattern that asks for entries by name: it is not empty, and it matches
none of the special names. -/
def Pattern.AsksName (p : Pattern) : Prop :=
  p ≠ [] ∧ matchingSpecials p = []

instance : DecidablePred Pattern.AsksName :=
  fun p => inferInstanceAs (Decidable (p ≠ [] ∧ matchingSpecials p = []))

theorem descends_stepsOf {ps : List Pattern}
    (h : ∀ p ∈ ps, p.isDirectories = false → p.AsksName ∧ .char '/' ∉ p) :
    ∀ step ∈ stepsOf ps, step.Descends := by
  fun_induction stepsOf ps with
  | case1 => exact fun step hstep => absurd hstep List.not_mem_nil
  | case2 p hp => exact List.forall_mem_singleton.mpr .directories
  | case3 p hp q qs hq ih => exact ih fun r hr => h r (List.mem_cons_of_mem _ hr)
  | case4 p hp q qs hq ih =>
      refine List.forall_mem_cons.mpr ⟨.within q, ih fun r hr => h r ?_⟩
      exact List.mem_cons_of_mem _ (List.mem_cons_of_mem _ hr)
  | case5 p ps hp name hname ih =>
      obtain ⟨⟨hne, hspecial⟩, hslash⟩ := h p List.mem_cons_self (Bool.eq_false_iff.mpr hp)
      rw [eq_verbatim_of_literal? hname] at hne hspecial hslash
      have hplain : Plain name := by
        refine ⟨?_, ?_, fun hmem => hslash (List.mem_map_of_mem hmem)⟩
        · rw [Path.isIdle, Bool.or_eq_false_iff, beq_eq_false_iff_ne, beq_eq_false_iff_ne]
          refine ⟨?_, ?_⟩
          · rintro rfl
            exact hne rfl
          · rintro rfl
            exact absurd hspecial (by decide)
        · rintro rfl
          exact absurd hspecial (by decide)
      exact List.forall_mem_cons.mpr ⟨.named hplain, ih fun r hr => h r (List.mem_cons_of_mem _ hr)⟩
  | case6 p ps hp hname ih =>
      obtain ⟨⟨-, hspecial⟩, -⟩ := h p List.mem_cons_self (Bool.eq_false_iff.mpr hp)
      exact List.forall_mem_cons.mpr
        ⟨.child hspecial, ih fun r hr => h r (List.mem_cons_of_mem _ hr)⟩

theorem Pieced.no_slash {text : String} {ps : List Pattern} (h : Pieced text ps) :
    ps ≠ [] ∧ ∀ p ∈ ps, .char '/' ∉ p := by
  have hpieces := forall₂_of_mapM h.read
  refine ⟨?_, fun p hp hmem => ?_⟩
  · rintro rfl
    exact Path.pieces_ne_nil h.ne_empty (List.forall₂_nil_right_iff.mp hpieces)
  · obtain ⟨s, hs, hread⟩ := exists_mem_of_forall₂ hpieces hp
    rcases mem_of_readFrom hread hmem with hnil | hslash
    · exact absurd hnil List.not_mem_nil
    · exact (Path.of_mem_pieces hs hslash).2 rfl

/-- The directories that a search finds below a directory are those whose way
from there fits the pieces. -/
theorem SearchBase.mem_results_iff (hn : fs.root.Named) {base : String} {place : List String}
    (hbase : SearchBase fs base place) {incl : String} {ps : List Pattern} (hincl : Pieced incl ps)
    (hasks : ∀ p ∈ ps, p.isDirectories = false → p.AsksName) {s : Search}
    (hs : Search.read (join base incl) = .ok s) {q : String} :
    q ∈ s.run fs ∧ fs.isDir q = true ↔
      ∃ way es, Fits ps way ∧ q = joins (topOf base) way ∧ fs.locate q = .ok (place ++ way) ∧
        fs.root.at? (place ++ way) = some (.dir es) := by
  obtain ⟨hne, hslash⟩ := hincl.no_slash
  have hsteps : ∀ step ∈ stepsOf ps, step.Descends :=
    descends_stepsOf fun p hp hsingle => ⟨hasks p hp hsingle, hslash p hp⟩
  rw [Search.read_join hbase.ne_empty hbase.verbatim hincl] at hs
  cases hs
  have hway : _ ∧ (fs.hasPath (settledBase base) = true → _ → _) :=
    mem_pathsAfter_named_append (settled_start base) hbase.spellsOut (no_slash base) (stepsOf ps) q
  constructor
  · rintro ⟨hrun, hdir⟩
    obtain ⟨way, hplain, hspans, rfl⟩ :=
      (mem_pathsAfter_iff hn hsteps hbase.settled hdir).mp (hway.1 hrun)
    have hfits := fits_iff_spans.mpr hspans
    have hspell : spell (settledBase base) way = joins (topOf base) way :=
      if_neg (hfits.ne_nil hne)
    rw [hspell] at hdir ⊢
    -- Where the path leads can be read off its text: to `place`, and on along `way`.
    obtain ⟨dest, es, hdest, hes⟩ := FileSystem.isDir_iff.mp hdir
    have hreach := FileSystem.reach_of_locate hdest
    rw [FileSystem.reach_joins _ hplain, topOf, reach_stem hbase.settled, hbase.reach] at hreach
    have hplace := FileSystem.eq_of_foldlM_follow hplain hreach
    rw [hplace] at hdest hes
    exact ⟨way, es, hfits, rfl, hdest, hes⟩
  · rintro ⟨way, es, hfits, rfl, hdest, hes⟩
    have hdir := FileSystem.isDir_iff.mpr ⟨_, es, hdest, hes⟩
    have hplain := (List.forall_mem_append.mp (hn.of_at? hes).1).2
    have hspell : spell (settledBase base) way = joins (topOf base) way :=
      if_neg (hfits.ne_nil hne)
    obtain ⟨here, _, hhere, hbelow⟩ := exists_place_of_isDir_joins hbase.settled hplain hdir
    have hthere : fs.hasPath (settledBase base) = true := by
      rw [Entry.at?_append] at hbelow
      obtain ⟨e, he, -⟩ := Option.bind_eq_some_iff.mp hbelow
      exact FileSystem.hasPath_iff.mpr ⟨here, e, hhere, he⟩
    refine ⟨hway.2 hthere ((mem_pathsAfter_iff hn hsteps hbase.settled hdir).mpr ?_), hdir⟩
    exact ⟨way, hplain, fits_iff_spans.mp hfits, hspell.symm⟩

end Glob

end PropertyHarvest
