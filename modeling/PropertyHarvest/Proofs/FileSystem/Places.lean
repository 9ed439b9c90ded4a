/-
# Paths and the places they lead to

  p                          leads to P                 `FileSystem.reach`
  p joined with some names   leads to P and the names   `reach_joins`

A name of a directory entry says one step down and has no slash in it, so what
is joined to a path goes on from where the path leads, however the path is
spelled.  A walk spells what it finds in this way, from the path where it
starts (`mem_walk`).

Only names go down in this way.  A segment that says nothing may stand anywhere in a
path and leaves the place as it is, as long as it is a directory.  Which places are
named by other segments is the matter of `Components`.

Where a walk is asked what it misses, a directory may have no name twice and only names
that a path can spell (`Named`).
-/
import Mathlib.Data.List.Nodup
import PropertyHarvest.FileSystem

namespace PropertyHarvest

/-! ## Segments -/

namespace Path

theorem splitSlash_ne_nil (cs : List Char) : splitSlash cs ≠ [] := by
  fun_cases splitSlash cs <;> simp

theorem splitSlash_append (cs ds : List Char) :
    splitSlash (cs ++ '/' :: ds) = splitSlash cs ++ splitSlash ds := by
  fun_induction splitSlash cs with
  | case1 => rfl
  | case2 rest ih => rw [List.cons_append, splitSlash, ih]; rfl
  | case3 c rest hc s ss hs ih =>
      rw [List.cons_append, splitSlash, ih, hs]
      · rfl
      · exact hc
  | case4 c rest hc hs ih => exact absurd hs (splitSlash_ne_nil rest)

theorem splitSlash_of_not_mem {cs : List Char} (h : '/' ∉ cs) : splitSlash cs = [cs] := by
  fun_induction splitSlash cs with
  | case1 => rfl
  | case2 rest ih => exact absurd List.mem_cons_self h
  | case3 c rest hc s ss hs ih =>
      rw [ih fun hmem => h (List.mem_cons_of_mem _ hmem)] at hs
      cases hs
      rfl
  | case4 c rest hc hs ih => exact absurd hs (splitSlash_ne_nil rest)

theorem segments_of_no_slash {s : String} (h : '/' ∉ s.toList) : segments s = [s] := by
  rw [segments, splitSlash_of_not_mem h, List.map_singleton, String.ofList_toList]

theorem segments_append (p t : String) : segments (p ++ "/" ++ t) = segments p ++ segments t := by
  rw [segments, String.toList_append, String.toList_append, List.append_assoc]
  show (splitSlash (p.toList ++ '/' :: t.toList)).map String.ofList = _
  rw [splitSlash_append, List.map_append]
  rfl

theorem segments_cons {s : String} (h : '/' ∉ s.toList) (t : String) :
    segments (s ++ "/" ++ t) = s :: segments t := by
  rw [segments_append, segments_of_no_slash h]
  rfl

/-- What follows a slash at the end takes the place of the empty segment. -/
theorem exists_segments_of_slash {p : String} (h : p.toList.getLast? = some '/') :
    ∃ before, segments p = before ++ [""] ∧ ∀ t, segments (p ++ t) = before ++ segments t := by
  obtain ⟨cs, hcs⟩ := List.getLast?_eq_some_iff.mp h
  have hp : p = String.ofList cs ++ "/" := by
    rw [← String.toList_inj, String.toList_append, String.toList_ofList, hcs]
    rfl
  have happend (t : String) : segments (p ++ t) = segments (String.ofList cs) ++ segments t := by
    rw [hp, segments_append]
  refine ⟨segments (String.ofList cs), ?_, happend⟩
  have hempty := happend ""
  rwa [String.append_empty] at hempty

/-- A segment that names an entry of a directory. -/
structure Plain (s : String) : Prop where
  not_idle : isIdle s = false
  ne_parent : s ≠ ".."
  no_slash : '/' ∉ s.toList

theorem plain_iff {s : String} : Plain s ↔ isIdle s = false ∧ s ≠ ".." ∧ '/' ∉ s.toList :=
  ⟨fun h => ⟨h.not_idle, h.ne_parent, h.no_slash⟩, fun h => ⟨h.1, h.2.1, h.2.2⟩⟩

instance : DecidablePred Plain :=
  fun _ => decidable_of_iff _ plain_iff.symm

theorem Plain.ne_empty {s : String} (h : Plain s) : s ≠ "" := by
  rintro rfl
  exact absurd h.not_idle (by decide)

theorem Plain.not_absolute {s : String} (h : Plain s) : isAbsolute s = false := by
  rw [isAbsolute, beq_eq_false_iff_ne]
  intro hhead
  exact h.no_slash (List.mem_of_mem_head? hhead)

/-- The segments of a path and a name joined to it: the name comes last, in
place of the empty segment that a slash at the end makes. -/
theorem segments_join {p s : String} (h : Plain s) :
    segments (join p s) = segments p ++ [s] ∨
      ∃ before, segments p = before ++ [""] ∧ segments (join p s) = before ++ [s] := by
  have hone : segments s = [s] := segments_of_no_slash h.no_slash
  rw [join, h.not_absolute, Bool.false_or]
  split
  · rename_i hp
    rw [of_decide_eq_true hp]
    exact .inr ⟨[], rfl, hone⟩
  · split
    · rename_i hlast
      obtain ⟨before, hp, happend⟩ := exists_segments_of_slash (eq_of_beq hlast)
      exact .inr ⟨before, hp, by rw [happend, hone]⟩
    · exact .inl (by rw [segments_append, hone])

theorem isAbsolute_append {s : String} (h : s ≠ "") (t : String) :
    isAbsolute (s ++ t) = isAbsolute s := by
  obtain ⟨c, cs, hcs⟩ := List.exists_cons_of_ne_nil (mt String.toList_eq_nil_iff.mp h)
  rw [isAbsolute, isAbsolute, String.toList_append, hcs]
  rfl

theorem isAbsolute_join (p : String) {s : String} (h : Plain s) :
    isAbsolute (join p s) = isAbsolute p := by
  rw [join, h.not_absolute, Bool.false_or]
  split
  · rename_i hp
    rw [of_decide_eq_true hp, h.not_absolute]
    rfl
  · rename_i hp
    rw [decide_eq_true_iff] at hp
    split
    · exact isAbsolute_append hp s
    · rw [String.append_assoc]
      exact isAbsolute_append hp _

theorem join_append (p : String) {s : String} (h : Plain s) (t : String) :
    join p (s ++ t) = join p s ++ t := by
  rw [join, join, isAbsolute_append h.ne_empty]
  split
  · rfl
  · split <;> simp only [String.append_assoc]

theorem getLast?_join (p : String) {s : String} (h : Plain s) :
    (join p s).toList.getLast? = s.toList.getLast? := by
  have hs : s.toList ≠ [] := mt String.toList_eq_nil_iff.mp h.ne_empty
  rw [join]
  split
  · rfl
  · split <;> simp only [String.toList_append, List.getLast?_append_of_ne_nil _ hs]

theorem join_join (p : String) {s : String} (h : Plain s) {t : String}
    (ht : isAbsolute t = false) : join (join p s) t = join p (s ++ "/" ++ t) := by
  have hne : join p s ≠ "" := by
    intro he
    have hlast := getLast?_join p h
    rw [he] at hlast
    exact h.ne_empty (String.toList_eq_nil_iff.mp (List.getLast?_eq_none_iff.mp hlast.symm))
  have hslash : ((join p s).toList.getLast? == some '/') = false := by
    rw [getLast?_join p h, beq_eq_false_iff_ne]
    exact fun hlast => h.no_slash (List.mem_of_getLast? hlast)
  rw [String.append_assoc, join_append p h, join.eq_def (join p s), ht, decide_eq_false hne, hslash,
    ← String.append_assoc]
  rfl

/-- A path with names joined to it one after the other. -/
def joins (p : String) (names : List String) : String :=
  names.foldl join p

theorem joins_append (p : String) (names more : List String) :
    joins p (names ++ more) = joins (joins p names) more :=
  List.foldl_append

/-- The path is spelled name by name from `top`. -/
def SpelledFrom (top path : String) : Prop :=
  ∃ names, (∀ s ∈ names, Plain s) ∧ path = joins top names

theorem SpelledFrom.refl (top : String) : SpelledFrom top top :=
  ⟨[], fun _ hs => absurd hs List.not_mem_nil, rfl⟩

theorem SpelledFrom.join {top path s : String} (h : SpelledFrom top path) (hs : Plain s) :
    SpelledFrom top (join path s) := by
  obtain ⟨names, hnames, rfl⟩ := h
  refine ⟨names ++ [s], List.forall_mem_append.mpr ⟨hnames, List.forall_mem_singleton.mpr hs⟩, ?_⟩
  rw [joins_append]
  rfl

theorem segments_cases (p : String) :
    segments p = [p] ∨ ∃ s t, p = s ++ "/" ++ t ∧ segments p = s :: segments t := by
  by_cases h : '/' ∈ p.toList
  · obtain ⟨cs, ds, hp, hcs⟩ := List.eq_append_cons_of_mem h
    have htext : p = String.ofList cs ++ "/" ++ String.ofList ds := by
      rw [← String.toList_inj, hp]
      simp only [String.toList_append, String.toList_ofList, List.append_assoc]
      rfl
    refine .inr ⟨_, _, htext, ?_⟩
    rw [htext]
    exact segments_cons (by rwa [String.toList_ofList]) _
  · exact .inl (segments_of_no_slash h)

theorem not_absolute_of_plain {p : String} (h : ∀ s ∈ segments p, Plain s) :
    isAbsolute p = false := by
  rcases segments_cases p with hp | ⟨s, t, rfl, hst⟩
  · exact (h p (hp ▸ List.mem_singleton_self p)).not_absolute
  · have hs : Plain s := h s (hst ▸ List.mem_cons_self)
    rw [String.append_assoc, isAbsolute_append hs.ne_empty]
    exact hs.not_absolute

theorem join_eq_joins (p : String) {q : String} (h : ∀ s ∈ segments q, Plain s) :
    join p q = joins p (segments q) := by
  generalize hss : segments q = ss at h ⊢
  induction ss generalizing p q with
  | nil =>
      rcases segments_cases q with hq | ⟨s, t, -, hst⟩
      · rw [hq] at hss
        cases hss
      · rw [hst] at hss
        cases hss
  | cons s ss ih =>
      obtain ⟨hs, hss'⟩ := List.forall_mem_cons.mp h
      rcases segments_cases q with hq | ⟨s', t, rfl, hst⟩
      · rw [hq] at hss
        cases hss
        rfl
      · rw [hst] at hss
        cases hss
        rw [← join_join p hs (not_absolute_of_plain hss')]
        exact ih _ rfl hss'

end Path

/-! ## Places -/

namespace FileSystem

open PropertyHarvest.Path (Plain join joins)

variable (fs : FileSystem)

/-- The place to which the segments of a path lead, whatever the length of the
path. -/
def reach (path : String) : Except AccessError (List String) :=
  (Path.segments path).foldlM fs.follow (fs.origin path)

variable {fs}

theorem reach_of_locate {p : String} {place : List String} (h : fs.locate p = .ok place) :
    fs.reach p = .ok place := by
  rw [locate] at h
  split_ifs at h
  exact h

theorem follow_idle_bind (place : List String) (s : String) :
    (fs.follow place "" >>= fun place => fs.follow place s) = fs.follow place s := by
  have hidle : Path.isIdle "" = true := rfl
  cases hat : fs.root.at? place with
  | none =>
      simp only [follow, hat]
      rfl
  | some e =>
      cases e with
      | file content =>
          simp only [follow, hat]
          rfl
      | dir es =>
          have hstay : fs.follow place "" = .ok place := by
            simp only [follow, hat, hidle, if_true]
          rw [hstay]
          rfl

theorem reach_join (p : String) {s : String} (h : Plain s) :
    fs.reach (join p s) = fs.reach p >>= fun place => fs.follow place s := by
  have horigin : fs.origin (join p s) = fs.origin p := by
    rw [origin, origin, Path.isAbsolute_join p h]
  rw [reach, reach, horigin]
  rcases Path.segments_join h with hs | ⟨before, hp, hs⟩
  · rw [hs, List.foldlM_append]
    simp only [List.foldlM_cons, List.foldlM_nil, bind_pure]
  · rw [hs, hp, List.foldlM_append, List.foldlM_append]
    simp only [List.foldlM_cons, List.foldlM_nil, bind_pure, bind_assoc, follow_idle_bind]

theorem reach_joins (p : String) {names : List String} (h : ∀ s ∈ names, Plain s) :
    fs.reach (joins p names) = fs.reach p >>= fun place => names.foldlM fs.follow place := by
  induction names generalizing p with
  | nil =>
      simp only [List.foldlM_nil, bind_pure]
      rfl
  | cons s names ih =>
      obtain ⟨hs, hnames⟩ := List.forall_mem_cons.mp h
      show fs.reach (joins (join p s) names) = _
      rw [ih _ hnames, reach_join p hs]
      simp only [List.foldlM_cons, bind_assoc]

/-- One step to a name goes down to it. -/
theorem eq_of_follow {place dest : List String} {s : String} (h : Plain s)
    (hf : fs.follow place s = .ok dest) : dest = place ++ [s] := by
  rw [follow] at hf
  split at hf
  · cases hf
  · cases hf
  · rw [if_neg (by rw [h.not_idle]; exact Bool.false_ne_true), if_neg h.ne_parent] at hf
    split_ifs at hf
    exact (Except.ok.inj hf).symm

theorem eq_of_foldlM_follow {place dest names : List String} (h : ∀ s ∈ names, Plain s)
    (hf : names.foldlM fs.follow place = .ok dest) : dest = place ++ names := by
  induction names generalizing place with
  | nil =>
      cases hf
      exact (List.append_nil dest).symm
  | cons s names ih =>
      obtain ⟨hs, hnames⟩ := List.forall_mem_cons.mp h
      rw [List.foldlM_cons] at hf
      cases hstep : fs.follow place s with
      | error e =>
          rw [hstep] at hf
          cases hf
      | ok next =>
          rw [hstep] at hf
          rw [ih hnames hf, eq_of_follow hs hstep, List.append_assoc]
          rfl

/-- What is joined to a path leads down from where the path leads. -/
theorem eq_of_locate_joins {p : String} {place dest names : List String}
    (h : ∀ s ∈ names, Plain s) (hp : fs.locate p = .ok place)
    (hj : fs.locate (joins p names) = .ok dest) : dest = place ++ names := by
  have hreach := reach_of_locate hj
  rw [reach_joins p h, reach_of_locate hp] at hreach
  exact eq_of_foldlM_follow h hreach

end FileSystem

/-! ## Walks -/

namespace Entry

open PropertyHarvest.Path (Plain join joins)

/-- The names in a directory are all different, and each of them names an
entry. -/
inductive Named : Entry → Prop where
  | file (content : FileContent) : Named (.file content)
  | dir {es : List (String × Entry)} (nodup : (es.map Prod.fst).Nodup)
      (plain : ∀ e ∈ es, Plain e.1) (inside : ∀ e ∈ es, Named e.2) : Named (.dir es)

theorem walkEach_eq (path : String) (es : List (String × Entry)) :
    walkEach path es = es.flatMap fun e => e.2.walk (join path e.1) := by
  induction es with
  | nil => rfl
  | cons e es ih => rw [walkEach, ih, List.flatMap_cons, walk]

theorem mem_walk_dir {path q : String} {e : Entry} {es : List (String × Entry)} :
    (q, e) ∈ (dir es).walk path ↔
      (q, e) = (path, dir es) ∨ ∃ c ∈ es, (q, e) ∈ c.2.walk (join path c.1) := by
  rw [walk, inside, walkEach_eq, List.mem_cons, List.mem_flatMap]

theorem lookup_eq_some_iff {es : List (String × Entry)} (h : (es.map Prod.fst).Nodup)
    {name : String} {e : Entry} : es.lookup name = some e ↔ (name, e) ∈ es := by
  rw [List.lookup_eq_some_iff]
  constructor
  · rintro ⟨before, after, rfl, -⟩
    exact List.mem_append_right _ List.mem_cons_self
  · intro hmem
    obtain ⟨before, after, rfl⟩ := List.append_of_mem hmem
    refine ⟨before, after, rfl, fun c hc => ?_⟩
    rw [List.map_append, List.map_cons] at h
    rw [bne_iff_ne]
    exact fun he => (List.nodup_append.mp h).2.2 c.1 (List.mem_map_of_mem hc) name
      List.mem_cons_self he.symm

theorem at?_cons_eq_some_iff {es : List (String × Entry)} (h : (es.map Prod.fst).Nodup)
    {name : String} {names : List String} {e : Entry} :
    (dir es).at? (name :: names) = some e ↔ ∃ c, (name, c) ∈ es ∧ c.at? names = some e := by
  rw [at?, Option.bind_eq_some_iff]
  exact exists_congr fun c => and_congr_left fun _ => lookup_eq_some_iff h

/-- A walk finds what lies at the end of each way down, and spells it as the
path from where it started with the names of the way. -/
theorem mem_walk_iff {root : Entry} (h : root.Named) {path q : String} {e : Entry} :
    (q, e) ∈ root.walk path ↔ ∃ names, root.at? names = some e ∧ q = joins path names := by
  induction h generalizing path with
  | file content =>
      rw [walk, inside, List.mem_singleton, Prod.mk.injEq]
      constructor
      · rintro ⟨rfl, rfl⟩
        exact ⟨[], rfl, rfl⟩
      · rintro ⟨names, hat, rfl⟩
        cases names with
        | nil => exact ⟨rfl, (Option.some.inj hat).symm⟩
        | cons name names => cases hat
  | @dir es hnodup _ _ ih =>
      rw [mem_walk_dir, Prod.mk.injEq]
      constructor
      · rintro (⟨rfl, rfl⟩ | ⟨⟨name, c⟩, hc, hmem⟩)
        · exact ⟨[], rfl, rfl⟩
        · obtain ⟨names, hat, rfl⟩ := (ih _ hc).mp hmem
          exact ⟨name :: names, (at?_cons_eq_some_iff hnodup).mpr ⟨c, hc, hat⟩, rfl⟩
      · rintro ⟨names, hat, rfl⟩
        cases names with
        | nil => exact .inl ⟨rfl, (Option.some.inj hat).symm⟩
        | cons name names =>
            obtain ⟨c, hc, hat⟩ := (at?_cons_eq_some_iff hnodup).mp hat
            exact .inr ⟨(name, c), hc, (ih _ hc).mpr ⟨names, hat, rfl⟩⟩

theorem mem_inside_iff {root : Entry} (h : root.Named) {path q : String} {e : Entry} :
    (q, e) ∈ root.inside path ↔
      ∃ s names, root.at? (s :: names) = some e ∧ q = joins path (s :: names) := by
  cases h with
  | file content =>
      constructor
      · intro hmem
        cases hmem
      · rintro ⟨s, names, hat, -⟩
        cases hat
  | @dir es hnodup hplain hinside =>
      show (q, e) ∈ walkEach path es ↔ _
      rw [walkEach_eq, List.mem_flatMap]
      constructor
      · rintro ⟨c, hc, hmem⟩
        obtain ⟨names, hat, rfl⟩ := (mem_walk_iff (hinside c hc)).mp hmem
        exact ⟨c.1, names, (at?_cons_eq_some_iff hnodup).mpr ⟨c.2, hc, hat⟩, rfl⟩
      · rintro ⟨s, names, hat, rfl⟩
        obtain ⟨c, hc, hat⟩ := (at?_cons_eq_some_iff hnodup).mp hat
        exact ⟨(s, c), hc, (mem_walk_iff (hinside _ hc)).mpr ⟨names, hat, rfl⟩⟩

theorem Named.of_at? {root e : Entry} (h : root.Named) {names : List String}
    (hat : root.at? names = some e) : (∀ s ∈ names, Plain s) ∧ e.Named := by
  induction h generalizing names with
  | file content =>
      cases names with
      | nil =>
          cases hat
          exact ⟨fun s hs => absurd hs List.not_mem_nil, .file content⟩
      | cons name names => cases hat
  | dir hnodup hplain inside ih =>
      cases names with
      | nil =>
          cases hat
          exact ⟨fun s hs => absurd hs List.not_mem_nil, .dir hnodup hplain inside⟩
      | cons name names =>
          obtain ⟨c, hc, hat⟩ := (at?_cons_eq_some_iff hnodup).mp hat
          obtain ⟨hnames, he⟩ := ih _ hc hat
          exact ⟨List.forall_mem_cons.mpr ⟨hplain _ hc, hnames⟩, he⟩

theorem at?_append (root : Entry) (names more : List String) :
    root.at? (names ++ more) = (root.at? names).bind (·.at? more) := by
  induction names generalizing root with
  | nil => rfl
  | cons name names ih =>
      rw [List.cons_append, at?, at?, Option.bind_assoc]
      exact congrArg _ (funext fun c => ih c)

theorem at?_concat {root : Entry} {names : List String} {es : List (String × Entry)}
    (h : root.at? names = some (.dir es)) (s : String) : root.at? (names ++ [s]) = es.lookup s := by
  rw [at?_append, h]
  exact Option.bind_fun_some _

end Entry

theorem FileSystem.named_of_find? {fs : FileSystem} (h : fs.root.Named) {p : String} {e : Entry}
    (hp : fs.find? p = some e) : e.Named := by
  obtain ⟨place, -, hat⟩ := Option.bind_eq_some_iff.mp hp
  exact (h.of_at? hat).2

theorem FileSystem.walk_of_locate {fs : FileSystem} {p : String} {place : List String}
    (h : fs.locate p = .ok place) :
    fs.walk p = .ok (((fs.root.at? place).map (Entry.walk p)).getD []) := by
  rw [walk, h]
  rfl

/-- A walk from a path finds what lies at or below the place to which it
leads. -/
theorem FileSystem.mem_walk_iff {fs : FileSystem} (h : fs.root.Named) {p q : String} {e : Entry} :
    (∃ found, fs.walk p = .ok found ∧ (q, e) ∈ found) ↔
      ∃ place names, fs.locate p = .ok place ∧ fs.root.at? (place ++ names) = some e ∧
        q = Path.joins p names := by
  cases hp : fs.locate p with
  | error e =>
      have hwalk : fs.walk p = .error e := by
        rw [walk, hp]
        rfl
      constructor
      · rintro ⟨found, hfound, -⟩
        rw [hwalk] at hfound
        cases hfound
      · rintro ⟨place, names, hplace, -⟩
        cases hplace
  | ok place =>
      have hwalk := walk_of_locate hp
      have hfound : (q, e) ∈ ((fs.root.at? place).map (Entry.walk p)).getD [] ↔
          ∃ names, fs.root.at? (place ++ names) = some e ∧ q = Path.joins p names := by
        simp only [Entry.at?_append]
        cases hat : fs.root.at? place with
        | none => simp
        | some top => exact Entry.mem_walk_iff (h.of_at? hat).2
      constructor
      · rintro ⟨found, hok, hmem⟩
        rw [hwalk] at hok
        cases hok
        obtain ⟨names, hnames⟩ := hfound.mp hmem
        exact ⟨place, names, rfl, hnames⟩
      · rintro ⟨place', names, hplace, hnames⟩
        cases hplace
        exact ⟨_, hwalk, hfound.mpr ⟨names, hnames⟩⟩

end PropertyHarvest
