/-
# Writing a new file

  `dirs`    the way down to a directory
  `name`    the name of a file that the directory does not have

After the file is written, what lies at the end of some names is (`Compared`)

  the file                        at the end of `dirs` and `name`,
  a directory that gains it       on the way there,
  what it was before              anywhere else.

So a path leads where it led before, unless it leads to the file, and a walk
finds what it found before, and the file at most.

Nothing is said of writing over a file that is there, which no command does.  The
directory of the new file exists before; where directories had to be made on the way,
more than one entry would be new.
-/
import PropertyHarvest.Proofs.FileSystem.Components

namespace PropertyHarvest

/-! ## Entries -/

namespace Entry

open PropertyHarvest.Path (join joins)

variable {name : String} {content : FileContent} {dirs names : List String} {e e' : Entry}

/-- `e'` is `e` with one more file, in the directory at the end of `dirs`. -/
inductive Gains (name : String) (content : FileContent) : List String → Entry → Entry → Prop where
  | here {before after : List (String × Entry)}
      (missing : (before ++ after).lookup name = none) :
      Gains name content [] (.dir (before ++ after))
        (.dir (before ++ (name, .file content) :: after))
  | inside {n : String} {dirs : List String} {e e' : Entry} {before after : List (String × Entry)}
      (first : before.lookup n = none) (gains : Gains name content dirs e e') :
      Gains name content (n :: dirs) (.dir (before ++ (n, e) :: after))
        (.dir (before ++ (n, e') :: after))

theorem put_of_lookup_eq_none {es : List (String × Entry)} (h : es.lookup name = none)
    (new : Entry) : put name new es = es ++ [(name, new)] := by
  induction es with
  | nil => rfl
  | cons c es ih =>
      obtain ⟨n, e⟩ := c
      rw [List.lookup_cons] at h
      split at h
      · cases h
      · rename_i hne
        rw [put, if_neg fun he => beq_eq_false_iff_ne.mp hne he.symm, ih h]
        rfl

theorem put_append {before after : List (String × Entry)} (h : before.lookup name = none)
    (new : Entry) : put name new (before ++ (name, e) :: after) =
      before ++ (name, new) :: after := by
  induction before with
  | nil => exact if_pos rfl
  | cons c before ih =>
      obtain ⟨n, d⟩ := c
      rw [List.lookup_cons] at h
      split at h
      · cases h
      · rename_i hne
        rw [List.cons_append, put, if_neg fun he => beq_eq_false_iff_ne.mp hne he.symm, ih h]
        rfl

theorem lookup_append_cons {before after : List (String × Entry)} {n : String}
    (h : before.lookup n = none) (e : Entry) :
    (before ++ (n, e) :: after).lookup n = some e := by
  rw [List.lookup_append, h, Option.none_or, List.lookup_cons_self]

theorem lookup_append_cons_of_ne {before after : List (String × Entry)} {n s : String}
    (h : s ≠ n) (e : Entry) :
    (before ++ (n, e) :: after).lookup s = (before ++ after).lookup s := by
  rw [List.lookup_append, List.lookup_append, List.lookup_cons, beq_eq_false_iff_ne.mpr h]

theorem exists_append_of_lookup {es : List (String × Entry)} {n : String}
    (h : es.lookup n = some e) :
    ∃ before after, es = before ++ (n, e) :: after ∧ before.lookup n = none := by
  obtain ⟨before, after, rfl, hbefore⟩ := List.lookup_eq_some_iff.mp h
  exact ⟨before, after, rfl, List.lookup_eq_none_iff.mpr hbefore⟩

theorem place_cons {es : List (String × Entry)} {n : String} (h : es.lookup n = some e)
    (new : Entry) (rest : List String) :
    place new (n :: rest) (.dir es) = .dir (put n (place new rest e) es) := by
  rw [place, entries, h, Option.getD_some]

/-- A file that is placed in a directory that has none of its name is gained. -/
theorem gains_place {es : List (String × Entry)} (hdir : e.at? dirs = some (.dir es))
    (hmissing : es.lookup name = none) :
    Gains name content dirs e (place (.file content) (dirs ++ [name]) e) := by
  induction dirs generalizing e with
  | nil =>
      obtain rfl := Option.some.inj hdir
      have hplace : place (.file content) [name] (.dir es) = .dir (es ++ [(name, .file content)]) :=
        congrArg dir (put_of_lookup_eq_none hmissing _)
      have hgains : Gains name content [] (.dir (es ++ []))
          (.dir (es ++ [(name, .file content)])) := .here (by rwa [List.append_nil])
      rwa [List.append_nil, ← hplace] at hgains
  | cons n dirs ih =>
      cases e with
      | file c => cases hdir
      | dir cs =>
          obtain ⟨child, hchild, hrest⟩ :
              ∃ child, cs.lookup n = some child ∧ child.at? dirs = some (.dir es) :=
            Option.bind_eq_some_iff.mp hdir
          rw [List.cons_append, place_cons hchild]
          obtain ⟨before, after, rfl, hfirst⟩ := exists_append_of_lookup hchild
          rw [put_append hfirst]
          exact .inside hfirst (ih hrest)

/-- What lies at the end of some names, before and after a file is gained. -/
inductive Compared (name : String) (content : FileContent) (dirs names : List String)
    (before? after? : Option Entry) : Prop where
  | there (names_eq : names = dirs ++ [name]) (before : before? = none)
      (after : after? = some (.file content))
  | above {rest : List String} {e e' : Entry} (dirs_eq : dirs = names ++ rest)
      (before : before? = some e) (after : after? = some e')
      (gains : Gains name content rest e e')
  | beside (ne : names ≠ dirs ++ [name]) (same : after? = before?)

theorem Gains.compared (h : Gains name content dirs e e') (names : List String) :
    Compared name content dirs names (e.at? names) (e'.at? names) := by
  induction h generalizing names with
  | here missing =>
      cases names with
      | nil => exact .above rfl rfl rfl (.here missing)
      | cons s names =>
          rw [at?, at?, entries, entries]
          by_cases hs : s = name
          · subst hs
            have hfirst := missing
            rw [List.lookup_append, Option.or_eq_none_iff] at hfirst
            rw [missing, lookup_append_cons hfirst.1]
            cases names with
            | nil => exact .there rfl rfl rfl
            | cons t names => exact .beside (by simp) rfl
          · rw [lookup_append_cons_of_ne hs]
            exact .beside (fun he => hs (List.cons.inj he).1) rfl
  | @inside n dirs e e' before after first gains ih =>
      cases names with
      | nil => exact .above rfl rfl rfl (.inside first gains)
      | cons s names =>
          rw [at?, at?, entries, entries]
          -- Below the directory that gains the induction tells; beside it nothing changes.
          by_cases hs : s = n
          · subst hs
            rw [lookup_append_cons first, lookup_append_cons first, Option.bind_some,
              Option.bind_some]
            cases ih names with
            | there eq before after => exact .there (congrArg _ eq) before after
            | above eq before after gains => exact .above (congrArg _ eq) before after gains
            | beside ne same => exact .beside (fun he => ne (List.cons.inj he).2) same
          · rw [lookup_append_cons_of_ne hs, lookup_append_cons_of_ne hs]
            exact .beside (fun he => hs (List.cons.inj he).1) rfl

theorem Gains.exists_dir (h : Gains name content dirs e e') :
    ∃ es es', e = .dir es ∧ e' = .dir es' := by
  cases h with
  | here _ => exact ⟨_, _, rfl, rfl⟩
  | inside _ _ => exact ⟨_, _, rfl, rfl⟩

/-! ### Walks -/

def paths (path : String) (e : Entry) : List String :=
  (e.walk path).map Prod.fst

theorem paths_dir (path : String) (es : List (String × Entry)) :
    paths path (.dir es) = path :: es.flatMap fun c => paths (join path c.1) c.2 := by
  have hwalk : (dir es).walk path = (path, dir es) :: walkEach path es := by
    rw [walk, inside]
  rw [paths, hwalk, List.map_cons, walkEach_eq, List.map_flatMap]
  rfl

/-- A walk comes by the file that is gained, and else by what it came by before. -/
theorem paths_of_gains (h : Gains name content dirs e e') (path : String) :
    ∃ front back, paths path e = front ++ back ∧
      paths path e' = front ++ join (joins path dirs) name :: back := by
  induction h generalizing path with
  | @here before after =>
      refine ⟨path :: before.flatMap fun c => paths (join path c.1) c.2,
        after.flatMap fun c => paths (join path c.1) c.2, ?_, ?_⟩
      · rw [paths_dir, List.flatMap_append]
        rfl
      · rw [paths_dir, List.flatMap_append]
        rfl
  | @inside n dirs e e' before after first gains ih =>
      obtain ⟨front, back, hbefore, hafter⟩ := ih (join path n)
      refine ⟨path :: before.flatMap (fun c => paths (join path c.1) c.2) ++ front,
        back ++ after.flatMap (fun c => paths (join path c.1) c.2), ?_, ?_⟩
      · rw [paths_dir, List.flatMap_append, List.flatMap_cons, hbefore]
        simp only [List.append_assoc, List.cons_append]
      · rw [paths_dir, List.flatMap_append, List.flatMap_cons, hafter]
        simp only [List.append_assoc, List.cons_append]
        rfl

end Entry

/-! ## File systems -/

namespace FileSystem

open PropertyHarvest.Path (components)

variable {dirs : List String} {name p : String} {content : FileContent} {fs fs' : FileSystem}
  {place : List String}

/-- `fs'` is `fs` with one more file, in the directory at the end of `dirs`. -/
structure Gains (dirs : List String) (name : String) (content : FileContent)
    (fs fs' : FileSystem) : Prop where
  root : Entry.Gains name content dirs fs.root fs'.root
  currentDir : fs'.currentDir = fs.currentDir

theorem gains_writeFile {es : List (String × Entry)}
    (hdir : fs.root.at? fs.currentDir = some (.dir es)) (hmissing : es.lookup name = none)
    (text : String) :
    Gains fs.currentDir name { text? := some text } fs (fs.writeFile name text) :=
  ⟨Entry.gains_place hdir hmissing, rfl⟩

namespace Gains

theorem at?_there (h : Gains dirs name content fs fs') :
    fs.root.at? (dirs ++ [name]) = none ∧
      fs'.root.at? (dirs ++ [name]) = some (.file content) := by
  cases h.root.compared (dirs ++ [name]) with
  | there _ before after => exact ⟨before, after⟩
  | above eq =>
      have hlength := congrArg List.length eq
      simp at hlength
  | beside ne => exact absurd rfl ne

theorem content?_at? (h : Gains dirs name content fs fs') (hne : place ≠ dirs ++ [name]) :
    (fs'.root.at? place).map Entry.content? = (fs.root.at? place).map Entry.content? := by
  cases h.root.compared place with
  | there eq => exact absurd eq hne
  | above _ before after gains =>
      obtain ⟨es, es', rfl, rfl⟩ := gains.exists_dir
      rw [before, after]
      rfl
  | beside _ same => rw [same]

theorem exists_dir_iff (h : Gains dirs name content fs fs') :
    (∃ es, fs'.root.at? place = some (.dir es)) ↔ ∃ es, fs.root.at? place = some (.dir es) := by
  cases h.root.compared place with
  | there _ before after => simp [before, after]
  | above _ before after gains =>
      obtain ⟨es, es', rfl, rfl⟩ := gains.exists_dir
      simp [before, after]
  | beside _ same => rw [same]

theorem isSome_at? (h : Gains dirs name content fs fs')
    (hthere : (fs.root.at? place).isSome = true) :
    (fs'.root.at? place).isSome = true := by
  cases h.root.compared place with
  | there _ before _ => simp [before] at hthere
  | above _ _ after _ => simp [after]
  | beside _ same => rwa [same]

theorem ne_there (h : Gains dirs name content fs fs')
    (hthere : (fs.root.at? place).isSome = true) : place ≠ dirs ++ [name] := by
  rintro rfl
  rw [h.at?_there.1] at hthere
  cases hthere

end Gains

/-! ### Paths -/

/-- A path leads to a place that ends with the name at its end. -/
theorem locate_ne_concat {s : String} (hs : Path.fileName? p = some s) (hne : s ≠ name)
    (dirs : List String) : fs.locate p ≠ .ok (dirs ++ [name]) := by
  intro hp
  have haim := eq_aim_of_reach (reach_of_locate hp)
  have hlast : (components p).getLast? = some (.name s) := by
    rw [Path.fileName?] at hs
    split at hs
    · rename_i t ht
      rw [ht, Option.some.inj hs]
    · cases hs
  obtain ⟨cs, hcs⟩ := List.getLast?_eq_some_iff.mp hlast
  rw [aim, hcs, Path.resolve_append] at haim
  exact hne (List.singleton_inj.mp (List.append_inj_right' haim rfl)).symm

theorem follow_of_follow {s : String} {dest : List String} (hf : fs.follow place s = .ok dest)
    (hdir : ∃ es, fs'.root.at? place = some (.dir es))
    (hthere : (fs.root.at? dest).isSome = true → (fs'.root.at? dest).isSome = true) :
    fs'.follow place s = .ok dest := by
  obtain ⟨es, hes⟩ := exists_dir_of_follow hf
  obtain ⟨es', hes'⟩ := hdir
  simp only [follow, hes] at hf
  simp only [follow, hes']
  split_ifs at hf ⊢
  · exact hf
  · exact hf
  · exact hf
  · rename_i hmissing hlookup
    obtain rfl := Except.ok.inj hf
    rw [Entry.at?_concat hes, Entry.at?_concat hes'] at hthere
    exact absurd (hthere hlookup) hmissing

namespace Gains

theorem origin_eq (h : Gains dirs name content fs fs') (p : String) :
    fs'.origin p = fs.origin p := by
  rw [origin, origin, h.currentDir]

theorem foldlM_follow (h : Gains dirs name content fs fs') {ss start : List String}
    (hf : ss.foldlM fs.follow start = .ok place) : ss.foldlM fs'.follow start = .ok place := by
  induction ss generalizing start with
  | nil => exact hf
  | cons s ss ih =>
      rw [List.foldlM_cons] at hf ⊢
      obtain ⟨next, hstep, hrest⟩ := exists_ok_of_bind hf
      have hdir := h.exists_dir_iff.mpr (exists_dir_of_follow hstep)
      rw [follow_of_follow hstep hdir h.isSome_at?]
      exact ih hrest

/-- Steps that do not lead to the file led where they lead before. -/
theorem foldlM_follow_of_ne (h : Gains dirs name content fs fs') {ss start : List String}
    (hf : ss.foldlM fs'.follow start = .ok place) (hne : place ≠ dirs ++ [name]) :
    ss.foldlM fs.follow start = .ok place := by
  -- From the end, since only the last step can lead to the file, which is no directory.
  induction ss using List.reverseRecOn generalizing place with
  | nil => exact hf
  | append_singleton ss s ih =>
      simp only [List.foldlM_append, List.foldlM_cons, List.foldlM_nil, bind_pure] at hf ⊢
      obtain ⟨mid, hmid, hlast⟩ := exists_ok_of_bind hf
      obtain ⟨es, hes⟩ := h.exists_dir_iff.mp (exists_dir_of_follow hlast)
      have hthere : (fs'.root.at? place).isSome = true → (fs.root.at? place).isSome = true := by
        rw [← Option.isSome_map (f := Entry.content?), h.content?_at? hne, Option.isSome_map]
        exact id
      rw [ih hmid (h.ne_there (by rw [hes]; rfl))]
      exact follow_of_follow hlast ⟨es, hes⟩ hthere

theorem locate (h : Gains dirs name content fs fs') (hp : fs.locate p = .ok place) :
    fs'.locate p = .ok place := by
  obtain ⟨hnul, hempty, hsize, hreach⟩ := locate_eq_ok_iff.mp hp
  rw [reach, ← h.origin_eq] at hreach
  exact locate_eq_ok_iff.mpr ⟨hnul, hempty, hsize, h.foldlM_follow hreach⟩

theorem locate_of_ne (h : Gains dirs name content fs fs') (hp : fs'.locate p = .ok place)
    (hne : place ≠ dirs ++ [name]) : fs.locate p = .ok place := by
  obtain ⟨hnul, hempty, hsize, hreach⟩ := locate_eq_ok_iff.mp hp
  rw [reach, h.origin_eq] at hreach
  exact locate_eq_ok_iff.mpr ⟨hnul, hempty, hsize, h.foldlM_follow_of_ne hreach hne⟩

/-- A path that does not lead to the file finds the same content as before. -/
theorem content?_find? (h : Gains dirs name content fs fs')
    (hp : fs'.locate p ≠ .ok (dirs ++ [name])) :
    (fs'.find? p).map Entry.content? = (fs.find? p).map Entry.content? := by
  rw [find?, find?]
  cases hplace : fs'.locate p with
  | ok place =>
      have hne : place ≠ dirs ++ [name] := fun he => hp (by rw [hplace, he])
      rw [h.locate_of_ne hplace hne]
      exact h.content?_at? hne
  | error err =>
      cases hbefore : fs.locate p with
      | ok place =>
          rw [h.locate hbefore] at hplace
          cases hplace
      | error err => rfl

theorem hasPath_eq (h : Gains dirs name content fs fs')
    (hp : fs'.locate p ≠ .ok (dirs ++ [name])) : fs'.hasPath p = fs.hasPath p := by
  have hfind := congrArg Option.isSome (h.content?_find? hp)
  rwa [Option.isSome_map, Option.isSome_map] at hfind

theorem content?_eq (h : Gains dirs name content fs fs')
    (hp : fs'.locate p ≠ .ok (dirs ++ [name])) : fs'.content? p = fs.content? p := by
  have hbind (e? : Option Entry) : e?.bind Entry.content? = (e?.map Entry.content?).join := by
    cases e? <;> rfl
  rw [content?, content?, hbind, hbind, h.content?_find? hp]

theorem isFile_eq (h : Gains dirs name content fs fs')
    (hp : fs'.locate p ≠ .ok (dirs ++ [name])) : fs'.isFile p = fs.isFile p := by
  rw [isFile, isFile, h.content?_eq hp]

theorem read_eq (h : Gains dirs name content fs fs')
    (hp : fs'.locate p ≠ .ok (dirs ++ [name])) : fs'.read p = fs.read p := by
  rw [read, read, h.content?_eq hp]

/-- A path that leads to the file reads it. -/
theorem read_there (h : Gains dirs name content fs fs')
    (hp : fs'.locate p = .ok (dirs ++ [name])) : fs'.read p = content := by
  rw [read, content?, find?, hp]
  show ((fs'.root.at? _).bind _).getD _ = _
  rw [h.at?_there.2]
  rfl

end Gains

end FileSystem

end PropertyHarvest
