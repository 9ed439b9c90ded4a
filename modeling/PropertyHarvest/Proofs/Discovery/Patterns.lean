/-
# Includes that are patterns

  base   `SearchBase fs base place`    a path to `place` that is no pattern
  incl   `PatternInclude incl ps`      a valid pattern with the pieces `ps`

Such an include leads to all directories whose way from `place` fits its pieces,
and to no others.  What the directory is called does not matter: a project that is
moved is scanned as before.  Where a character of the path is read as part of a
pattern, none of this holds.

The pieces of the pattern are arbitrary as long as each asks for entries by name: none
of them matches a dot or two dots, which lead back or up.  A piece that does is
searched for all the same and is not described.  Of the order in which directories
are found nothing is said, for the files are put in order.
-/
import PropertyHarvest.Config
import PropertyHarvest.Proofs.Discovery.Spelling
import PropertyHarvest.Proofs.Glob.Below

namespace PropertyHarvest

namespace Discovery

open PropertyHarvest.Path (Plain join joins)
open PropertyHarvest.Glob (Fits SearchBase topOf)

variable {fs : FileSystem} {base incl : String} {place : List String} {ps : List Glob.Pattern}

/-- An include that is accepted as a pattern, each of its pieces a pattern by
itself that asks for entries by name. -/
structure PatternInclude (incl : String) (ps : List Glob.Pattern) : Prop where
  wild : Glob.hasWildcard incl = true
  relative : Path.isAbsolute incl = false
  valid : Config.validatePattern .includes incl = .ok ()
  read : (Glob.pieces incl).mapM Glob.Pattern.read = .ok ps
  asks : ∀ p ∈ ps, p.isDirectories = false → p.AsksName

theorem PatternInclude.pieced (h : PatternInclude incl ps) : Glob.Pieced incl ps where
  relative := h.relative
  read := h.read
  valid := by
    have hvalid := h.valid
    rw [Config.validatePattern] at hvalid
    cases hread : Glob.Pattern.read incl with
    | ok p => rfl
    | error e =>
        rw [hread] at hvalid
        cases hvalid
  ne_empty := by
    rintro rfl
    exact absurd h.wild (by decide)

/-- A pattern below a directory is searched for, and what is found are the
directories whose way fits. -/
theorem exists_startsOf_pattern (hn : fs.root.Named) (hbase : SearchBase fs base place)
    (hincl : PatternInclude incl ps) :
    ∃ found, startsOf fs base incl = .ok found ∧ ∀ q, q ∈ found ↔
      ∃ way es, Fits ps way ∧ q = joins (topOf base) way ∧ fs.locate q = .ok (place ++ way) ∧
        fs.root.at? (place ++ way) = some (.dir es) := by
  have hread := Glob.Search.read_join hbase.ne_empty hbase.verbatim hincl.pieced
  rw [startsOf, if_pos hincl.wild, hread]
  refine ⟨_, rfl, fun q => ?_⟩
  rw [List.mem_filter]
  exact hbase.mem_results_iff hn hincl.pieced hincl.asks hread

/-! ## Projects that are moved -/

/-- All that lies below the base is reached by its path: no path is too long. -/
def Accessible (fs : FileSystem) (base : String) (place : List String) : Prop :=
  ∀ way e, way ≠ [] → fs.root.at? (place ++ way) = some e →
    fs.locate (joins (topOf base) way) = .ok (place ++ way)

/-- The include leads to a file at `dest`. -/
def Scans (fs : FileSystem) (base incl : String) (dest : List String) : Prop :=
  ∃ found, startsOf fs base incl = .ok found ∧ ∃ p ∈ found, ∃ files, filesAt fs p = .ok files ∧
    ∃ f ∈ files, fs.aim f = dest

/-- The files to which a pattern leads are told by the tree below the directory
alone. -/
theorem scans_iff (hn : fs.root.Named) (hbase : SearchBase fs base place)
    (hincl : PatternInclude incl ps) (haccess : Accessible fs base place) (way : List String) :
    Scans fs base incl (place ++ way) ↔
      (∃ content, fs.root.at? (place ++ way) = some (.file content)) ∧
      ∃ before after es, way = before ++ after ∧ Fits ps before ∧
        fs.root.at? (place ++ before) = some (.dir es) := by
  obtain ⟨found, hfound, hmem⟩ := exists_startsOf_pattern hn hbase hincl
  constructor
  · rintro ⟨found', hfound', p, hp, files, hfiles, f, hf, haim⟩
    cases hfound.symm.trans hfound'
    obtain ⟨before, es, hfits, rfl, hdest, hes⟩ := (hmem p).mp hp
    obtain ⟨dest, after, content, hdest', hat, rfl, -⟩ :=
      (mem_filesAt_iff_joins hn).mp ⟨files, hfiles, hf⟩
    cases hdest.symm.trans hdest'
    have hplain := (List.forall_mem_append.mp (hn.of_at? hat).1).2
    rw [FileSystem.aim_joins_of_locate hdest hplain, List.append_assoc] at haim
    rw [List.append_assoc] at hat
    cases List.append_cancel_left haim
    exact ⟨⟨content, hat⟩, before, after, es, rfl, hfits, hes⟩
  · rintro ⟨⟨content, hat⟩, before, after, es, rfl, hfits, hes⟩
    have hne : before ≠ [] := hfits.ne_nil hincl.pieced.no_slash.1
    have hdest := haccess before _ hne hes
    have hpath : fs.hasPath (joins (joins (topOf base) before) after) = true := by
      rw [← Path.joins_append]
      exact FileSystem.hasPath_iff.mpr
        ⟨_, _, haccess _ _ (List.append_ne_nil_of_left_ne_nil hne after) hat, hat⟩
    rw [← List.append_assoc] at hat
    obtain ⟨files, hfiles, hf⟩ := (mem_filesAt_iff_joins hn).mpr
      ⟨_, after, content, hdest, hat, rfl, hpath⟩
    refine ⟨found, hfound, _, (hmem _).mpr ⟨before, es, hfits, rfl, hdest, hes⟩, files, hfiles, _,
      hf, ?_⟩
    have hplain := (List.forall_mem_append.mp (hn.of_at? hat).1).2
    rw [FileSystem.aim_joins_of_locate hdest hplain, List.append_assoc]

/-- Below a path that is no pattern, a pattern leads to the directories whose
way from there fits it.  Wherever the same tree stands, and under whatever name,
the pattern leads to the same files in it. -/
theorem pattern_leads_below (hn : fs.root.Named) (hbase : SearchBase fs base place)
    (hincl : PatternInclude incl ps) :
    fs.reach (topOf base) = .ok place ∧
    (∃ found, startsOf fs base incl = .ok found ∧ ∀ q, q ∈ found ↔
      ∃ way es, Fits ps way ∧ q = joins (topOf base) way ∧ fs.locate q = .ok (place ++ way) ∧
        fs.root.at? (place ++ way) = some (.dir es)) ∧
    ∀ (fs' : FileSystem) (base' : String) (place' : List String), fs'.root.Named →
      SearchBase fs' base' place' → fs'.root.at? place' = fs.root.at? place →
      Accessible fs base place → Accessible fs' base' place' →
      ∀ way, Scans fs' base' incl (place' ++ way) ↔ Scans fs base incl (place ++ way) := by
  refine ⟨?_, exists_startsOf_pattern hn hbase hincl, ?_⟩
  · rw [topOf, Glob.reach_stem hbase.settled, hbase.reach]
  · intro fs' base' place' hn' hbase' hmoved haccess haccess' way
    rw [scans_iff hn' hbase' hincl haccess', scans_iff hn hbase hincl haccess]
    simp only [Entry.at?_append, hmoved]

/-- The same test in a project below the current directory. -/
def movedTest : FileSystem where
  root := .dir [("moved", oneTest.root)]
  currentDir := []

theorem named_movedTest : movedTest.root.Named :=
  .dir (by decide) (by decide) (List.forall_mem_singleton.mpr named_oneTest)

theorem ways_oneTest {way : List String} {e : Entry} (h : oneTest.root.at? way = some e) :
    way = [] ∨ way = ["src"] ∨ way = ["src", "checks"] ∨
      way = ["src", "checks", "FooCheckTest.java"] := by
  have honly {name s : String} {d : Entry} {rest : List String}
      (h : (Entry.dir [(name, d)]).at? (s :: rest) = some e) :
      s = name ∧ d.at? rest = some e := by
    have hnodup : ([(name, d)].map Prod.fst).Nodup := List.nodup_singleton name
    obtain ⟨c, hc, hat⟩ := (Entry.at?_cons_eq_some_iff hnodup).mp h
    cases List.mem_singleton.mp hc
    exact ⟨rfl, hat⟩
  rcases way with _ | ⟨s, _ | ⟨t, _ | ⟨u, rest⟩⟩⟩
  · exact .inl rfl
  · exact .inr (.inl (by rw [(honly h).1]))
  · obtain ⟨hs, hbelow⟩ := honly h
    exact .inr (.inr (.inl (by rw [hs, (honly hbelow).1])))
  · obtain ⟨hs, hbelow⟩ := honly h
    obtain ⟨ht, hfile⟩ := honly hbelow
    obtain ⟨hu, hend⟩ := honly hfile
    cases rest with
    | nil => exact .inr (.inr (.inr (by rw [hs, ht, hu])))
    | cons v rest => cases hend

/-- A pattern with whole directories, in a project and in the same project moved. -/
theorem pattern_leads_below_oneTest :
    oneTest.root.Named ∧ SearchBase oneTest "." [] ∧
    PatternInclude "**/checks" [[.anyDirectories], Glob.verbatim "checks"] ∧
    (∃ found, startsOf oneTest "." "**/checks" = .ok found ∧ "src/checks" ∈ found) ∧
    Scans movedTest "moved" "**/checks" ["moved", "src", "checks", "FooCheckTest.java"] := by
  have hbase : SearchBase oneTest "." [] := ⟨by decide +kernel, by decide, by decide⟩
  have hmoved : SearchBase movedTest "moved" ["moved"] := ⟨by decide +kernel, by decide, by decide⟩
  have hincl : PatternInclude "**/checks" [[.anyDirectories], Glob.verbatim "checks"] :=
    ⟨by decide, by decide, by decide +kernel, by decide +kernel, by decide⟩
  have hfits : Fits [[.anyDirectories], Glob.verbatim "checks"] ["src", "checks"] :=
    .deeper rfl (.enough rfl (.name rfl (by decide) .nil))
  have haccess : Accessible oneTest "." [] := by
    intro way e hne hat
    rcases ways_oneTest hat with rfl | rfl | rfl | rfl
    · exact absurd rfl hne
    · decide +kernel
    · decide +kernel
    · decide +kernel
  have haccess' : Accessible movedTest "moved" ["moved"] := by
    intro way e hne hat
    rw [Entry.at?_append] at hat
    rcases ways_oneTest hat with rfl | rfl | rfl | rfl
    · exact absurd rfl hne
    · decide +kernel
    · decide +kernel
    · decide +kernel
  obtain ⟨-, ⟨found, hfound, hmem⟩, hmoves⟩ := pattern_leads_below named_oneTest hbase hincl
  have hthere : "src/checks" ∈ found :=
    (hmem _).mpr ⟨["src", "checks"], _, hfits, by decide +kernel, by decide +kernel, rfl⟩
  refine ⟨named_oneTest, hbase, hincl, ⟨found, hfound, hthere⟩, ?_⟩
  refine (hmoves movedTest "moved" ["moved"] named_movedTest hmoved rfl haccess haccess'
    ["src", "checks", "FooCheckTest.java"]).mpr ?_
  exact (scans_iff named_oneTest hbase hincl haccess _).mpr
    ⟨⟨_, rfl⟩, ["src", "checks"], ["FooCheckTest.java"], _, rfl, hfits, rfl⟩

/-- A project whose directory is called as a pattern. -/
def bracketed : FileSystem where
  root := .dir [("a[b]", oneTest.root)]
  currentDir := []

/-- Where brackets in the name of the directory are read as a class, the pattern
leads nowhere. -/
theorem startsOf_bracketed :
    bracketed.root.at? ["a[b]"] = movedTest.root.at? ["moved"] ∧
    bracketed.locate "a[b]" = .ok ["a[b]"] ∧ bracketed.isDir "a[b]/src" = true ∧
    PatternInclude "*" [[.anySequence]] ∧ Fits [[.anySequence]] ["src"] ∧
    startsOf movedTest "moved" "*" = .ok ["moved/src"] ∧
    startsOf bracketed "a[b]" "*" = .ok [] := by
  refine ⟨rfl, by decide +kernel, by decide +kernel,
    ⟨by decide, by decide, by decide +kernel, by decide +kernel, by decide⟩,
    .name rfl (by decide) .nil, by decide +kernel, by decide +kernel⟩

end Discovery

end PropertyHarvest
