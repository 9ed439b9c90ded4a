/-
# Writing a new file where there are links

  a link gives way to what is read through it     only its place changes    `Free.gains`
  a file is written that the link does not lead   the same is read          `content?_eq`
    to, in another place than that of the link      through the link

So if no link is or leads to the place of a new file, what is seen gains the file and
nothing else (`LinkedFileSystem.gains_seen`).  A link that leads there is a second
file, under a name of its own.

What is asked of the links is that they hang in directories that have no other entry
of their name, that none leads to a directory, and that each leads to a file or to an
earlier link (`WellFormed`).  A loop of links is excluded by the last.  What a write
does through a link that leads to the new place is not told here; what a scan then
sees is in `Proofs.Command.Init`.
-/
import PropertyHarvest.FileSystem.Links
import PropertyHarvest.Proofs.FileSystem.Writing

namespace PropertyHarvest

/-! ## Entries -/

namespace Entry

variable {name s : String} {content : FileContent} {dirs names : List String} {e e' new : Entry}

theorem lookup_put_of_ne (h : s ≠ name) (es : List (String × Entry)) :
    (put s new es).lookup name = es.lookup name := by
  have hskip : (name == s) = false := beq_eq_false_iff_ne.mpr (Ne.symm h)
  induction es with
  | nil => rw [put, List.lookup_cons, hskip]
  | cons c es ih =>
      obtain ⟨n, e⟩ := c
      rw [put]
      split
      · rename_i hn
        rw [hn, List.lookup_cons, List.lookup_cons, hskip]
      · rw [List.lookup_cons, List.lookup_cons, ih]

theorem exists_put_append (h : s ≠ name) (new : Entry) (before after : List (String × Entry)) :
    ∃ front back, front.lookup name = before.lookup name ∧ back.lookup name = after.lookup name ∧
      put s new (before ++ after) = front ++ back ∧
      ∀ e, put s new (before ++ (name, e) :: after) = front ++ (name, e) :: back := by
  induction before with
  | nil =>
      exact ⟨[], put s new after, rfl, lookup_put_of_ne h after, rfl,
        fun e => if_neg fun he => h he.symm⟩
  | cons c before ih =>
      obtain ⟨n, d⟩ := c
      by_cases hn : n = s
      · have hskip : (name == n) = false := beq_eq_false_iff_ne.mpr fun he => h (he.trans hn).symm
        refine ⟨(n, new) :: before, after, ?_, rfl, if_pos hn, fun e => if_pos hn⟩
        rw [List.lookup_cons, List.lookup_cons, hskip]
      · obtain ⟨front, back, hfront, hback, hput, hputs⟩ := ih
        refine ⟨(n, d) :: front, back, ?_, hback, ?_, fun e => ?_⟩
        · rw [List.lookup_cons, List.lookup_cons, hfront]
        · rw [List.cons_append, put, if_neg hn, hput]
          rfl
        · rw [List.cons_append, put, if_neg hn, hputs]
          rfl

/-- An entry that is placed elsewhere, under a name that is free, is placed beside
the file that is gained. -/
theorem Gains.place (h : Gains name content dirs e e') {es : List (String × Entry)}
    (hdir : e.at? names = some (.dir es)) (hfree : es.lookup s = none)
    (hne : names ++ [s] ≠ dirs ++ [name]) (new : Entry) :
    Gains name content dirs (place new (names ++ [s]) e) (place new (names ++ [s]) e') := by
  induction h generalizing names with
  | @here before after missing =>
      obtain ⟨t, rest, hnames, ht⟩ : ∃ t rest, names ++ [s] = t :: rest ∧ t ≠ name := by
        cases names with
        | nil => exact ⟨s, [], rfl, fun he => hne (by rw [he])⟩
        | cons t names =>
            refine ⟨t, names ++ [s], rfl, ?_⟩
            rintro rfl
            rw [at?, entries, missing] at hdir
            cases hdir
      rw [hnames, Entry.place, Entry.place, entries, entries, lookup_append_cons_of_ne ht]
      obtain ⟨front, back, hfront, hback, hput, hputs⟩ := exists_put_append ht
        (Entry.place new rest (((before ++ after).lookup t).getD (dir []))) before after
      rw [hput, hputs]
      refine .here ?_
      rw [List.lookup_append, hfront, hback, ← List.lookup_append, missing]
  | @inside n dirs e e' before after first gains ih =>
      obtain ⟨t, rest, hnames⟩ : ∃ t rest, names ++ [s] = t :: rest := by
        cases names with
        | nil => exact ⟨s, [], rfl⟩
        | cons t names => exact ⟨t, names ++ [s], rfl⟩
      rw [hnames, Entry.place, Entry.place, entries, entries]
      -- The place lies below the directory that gains, or it is beside that one.
      by_cases ht : t = n
      · subst ht
        cases names with
        | nil =>
            cases hdir
            obtain ⟨rfl, -⟩ := List.cons.inj hnames
            rw [lookup_append_cons first] at hfree
            cases hfree
        | cons t names =>
            obtain ⟨rfl, rfl⟩ := List.cons.inj hnames
            rw [at?, entries, lookup_append_cons first] at hdir
            rw [lookup_append_cons first, lookup_append_cons first, put_append first,
              put_append first]
            exact .inside first (ih hdir fun he => hne (congrArg _ he))
      · rw [lookup_append_cons_of_ne ht, lookup_append_cons_of_ne ht]
        obtain ⟨front, back, hfront, -, -, hputs⟩ := exists_put_append ht
          (Entry.place new rest (((before ++ after).lookup t).getD (dir []))) before after
        rw [hputs, hputs]
        exact .inside (hfront.trans first) gains

end Entry

/-! ## Links -/

namespace FileSystem

variable {dirs place : List String} {name : String} {content : FileContent}
  {fs fs' : FileSystem}

theorem Gains.fromDir (h : Gains dirs name content fs fs') (dir : List String) :
    Gains dirs name content (fs.fromDir dir) (fs'.fromDir dir) :=
  ⟨h.root, rfl⟩

theorem Gains.at?_eq_none_iff (h : Gains dirs name content fs fs')
    (hne : place ≠ dirs ++ [name]) : fs'.root.at? place = none ↔ fs.root.at? place = none := by
  rw [← Option.map_eq_none_iff, h.content?_at? hne, Option.map_eq_none_iff]

end FileSystem

namespace Link

open FileSystem (Gains)

variable {dirs : List String} {name : String} {content : FileContent} {fs fs' : FileSystem}
  {l : Link} {ls : List Link}

/-- The link hangs in a directory that has no entry of its name. -/
structure Free (fs : FileSystem) (l : Link) : Prop where
  exists_dir : ∃ es, fs.root.at? l.dir = some (.dir es)
  missing : fs.root.at? l.place = none

/-- The link neither is nor leads to the place. -/
structure Avoids (fs : FileSystem) (place : List String) (l : Link) : Prop where
  place_ne : l.place ≠ place
  target_ne : (fs.fromDir l.dir).aim l.target ≠ place

theorem Free.exists_lookup (h : l.Free fs) :
    ∃ es, fs.root.at? l.dir = some (.dir es) ∧ es.lookup l.name = none := by
  obtain ⟨es, hes⟩ := h.exists_dir
  exact ⟨es, hes, Entry.at?_concat hes l.name ▸ h.missing⟩

theorem resolve_of_none (h : l.content? fs = none) : l.resolve fs = fs := by
  rw [resolve, h]

theorem resolve_of_some (h : l.content? fs = some content) :
    l.resolve fs = { fs with root := Entry.place (.file content) l.place fs.root } := by
  rw [resolve, h]

/-- What is read through a link is gained, in the place of the link. -/
theorem Free.gains (hl : l.Free fs) (h : l.content? fs = some content) :
    Gains l.dir l.name content fs (l.resolve fs) := by
  obtain ⟨es, hdir, hfree⟩ := hl.exists_lookup
  rw [resolve_of_some h]
  exact ⟨Entry.gains_place hdir hfree, rfl⟩

theorem Free.exists_dir_iff (hl : l.Free fs) {place : List String} :
    (∃ es, (l.resolve fs).root.at? place = some (.dir es)) ↔
      ∃ es, fs.root.at? place = some (.dir es) := by
  cases h : l.content? fs with
  | none => rw [resolve_of_none h]
  | some content => exact (hl.gains h).exists_dir_iff

theorem Free.isSome_at? (hl : l.Free fs) {place : List String}
    (h : (fs.root.at? place).isSome = true) : ((l.resolve fs).root.at? place).isSome = true := by
  cases hc : l.content? fs with
  | none => rwa [resolve_of_none hc]
  | some content => exact (hl.gains hc).isSome_at? h

theorem Free.at?_eq_none_iff (hl : l.Free fs) {place : List String} (hne : place ≠ l.place) :
    (l.resolve fs).root.at? place = none ↔ fs.root.at? place = none := by
  cases h : l.content? fs with
  | none => rw [resolve_of_none h]
  | some content => exact (hl.gains h).at?_eq_none_iff hne

theorem Free.resolve {k : Link} (hl : l.Free fs) (hk : k.Free fs) (hne : k.place ≠ l.place) :
    k.Free (l.resolve fs) :=
  ⟨hl.exists_dir_iff.mpr hk.exists_dir, (hl.at?_eq_none_iff hne).mpr hk.missing⟩

theorem currentDir_resolve : (l.resolve fs).currentDir = fs.currentDir := by
  rw [Link.resolve]
  split <;> rfl

theorem content?_eq (h : Gains dirs name content fs fs') (hl : l.Avoids fs (dirs ++ [name])) :
    l.content? fs' = l.content? fs := by
  have haim : (fs'.fromDir l.dir).locate l.target ≠ .ok (dirs ++ [name]) := by
    intro hlocate
    exact hl.target_ne (FileSystem.eq_aim_of_reach (FileSystem.reach_of_locate hlocate)).symm
  rw [content?, content?, (h.fromDir l.dir).content?_eq haim]

theorem gains_resolve (h : Gains dirs name content fs fs') (hfree : l.Free fs)
    (hl : l.Avoids fs (dirs ++ [name])) :
    Gains dirs name content (l.resolve fs) (l.resolve fs') := by
  have hsame := content?_eq h hl
  cases hc : l.content? fs with
  | none => rwa [resolve_of_none hc, resolve_of_none (hsame.trans hc)]
  | some c =>
      obtain ⟨es, hdir, hmissing⟩ := hfree.exists_lookup
      rw [resolve_of_some hc, resolve_of_some (hsame.trans hc)]
      exact ⟨h.root.place hdir hmissing hl.place_ne _, h.currentDir⟩

end Link

namespace LinkedFileSystem

open FileSystem (Gains)

/-- The links hang in directories that have nothing else of their names, no link
leads to a directory, and none to itself or to one that comes after it. -/
structure WellFormed (fs : LinkedFileSystem) : Prop where
  free : ∀ l ∈ fs.links, l.Free fs.plain
  nodup : (fs.links.map Link.place).Nodup
  toFile : ∀ l ∈ fs.links, (fs.plain.fromDir l.dir).isDir l.target = false
  ordered : fs.links.Pairwise fun l k => (fs.plain.fromDir l.dir).aim l.target ≠ k.place

variable {dirs place : List String} {name : String} {content : FileContent} {fs : FileSystem}
  {l : Link} {ls : List Link}

theorem free_resolve (hfree : ∀ k ∈ l :: ls, k.Free fs)
    (hnodup : ((l :: ls).map Link.place).Nodup) : ∀ k ∈ ls, k.Free (l.resolve fs) := by
  obtain ⟨hl, hls⟩ := List.forall_mem_cons.mp hfree
  intro k hk
  refine hl.resolve (hls k hk) fun he => (List.nodup_cons.mp hnodup).1 ?_
  exact he ▸ List.mem_map_of_mem hk

/-- What each link keeps when it gives way, all of them keep. -/
theorem foldl_resolve_induction {P : FileSystem → Prop}
    (step : ∀ (fs : FileSystem) (l : Link), l.Free fs → P fs → P (l.resolve fs))
    (hfree : ∀ l ∈ ls, l.Free fs) (hnodup : (ls.map Link.place).Nodup) (h : P fs) :
    P (ls.foldl Link.resolve fs) := by
  induction ls generalizing fs with
  | nil => exact h
  | cons l ls ih =>
      exact ih (free_resolve hfree hnodup) (List.nodup_cons.mp hnodup).2
        (step fs l (List.forall_mem_cons.mp hfree).1 h)

theorem gains_foldl_resolve {fs' : FileSystem} (h : Gains dirs name content fs fs')
    (hfree : ∀ l ∈ ls, l.Free fs) (hnodup : (ls.map Link.place).Nodup)
    (havoids : ∀ l ∈ ls, l.Avoids fs (dirs ++ [name])) :
    Gains dirs name content (ls.foldl Link.resolve fs) (ls.foldl Link.resolve fs') := by
  induction ls generalizing fs fs' with
  | nil => exact h
  | cons l ls ih =>
      obtain ⟨hl, hls⟩ := List.forall_mem_cons.mp havoids
      -- Where a link leads to is told by its text, so it avoids what it avoided before.
      exact ih (Link.gains_resolve h (List.forall_mem_cons.mp hfree).1 hl)
        (free_resolve hfree hnodup) (List.nodup_cons.mp hnodup).2
        fun k hk => ⟨(hls k hk).place_ne, (hls k hk).target_ne⟩

variable {fs : LinkedFileSystem}

theorem currentDir_seen (fs : LinkedFileSystem) : fs.seen.currentDir = fs.plain.currentDir := by
  obtain ⟨plain, links⟩ := fs
  show (links.foldl Link.resolve plain).currentDir = plain.currentDir
  induction links generalizing plain with
  | nil => rfl
  | cons l ls ih => exact (ih _).trans Link.currentDir_resolve

theorem WellFormed.exists_dir_seen_iff (hw : fs.WellFormed) :
    (∃ es, fs.seen.root.at? place = some (.dir es)) ↔
      ∃ es, fs.plain.root.at? place = some (.dir es) :=
  foldl_resolve_induction (P := fun seen => (∃ es, seen.root.at? place = some (.dir es)) ↔
    ∃ es, fs.plain.root.at? place = some (.dir es))
    (fun _ _ hl h => hl.exists_dir_iff.trans h) hw.free hw.nodup Iff.rfl

theorem WellFormed.isSome_at?_seen (hw : fs.WellFormed)
    (h : (fs.plain.root.at? place).isSome = true) : (fs.seen.root.at? place).isSome = true :=
  foldl_resolve_induction (P := fun seen => (seen.root.at? place).isSome = true)
    (fun _ _ hl h => hl.isSome_at? h) hw.free hw.nodup h

/-- A file that no link is or leads to is gained by what is seen. -/
theorem gains_seen (hw : fs.WellFormed)
    (havoids : ∀ l ∈ fs.links, l.Avoids fs.plain (dirs ++ [name]))
    {plain : FileSystem} (h : Gains dirs name content fs.plain plain) :
    Gains dirs name content fs.seen { fs with plain := plain }.seen :=
  gains_foldl_resolve h hw.free hw.nodup havoids

end LinkedFileSystem

end PropertyHarvest
