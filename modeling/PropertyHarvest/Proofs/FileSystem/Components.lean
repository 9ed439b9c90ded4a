/-
# What the components of a path say

  p                  leads to P          ⟹   P is `aim p`, which its components tell
  p joined with t    leads where t leads from where p leads

The components of a path lead on one after the other: the root to the top, a
dot nowhere, two dots up and a name down.  So a place can be read off the
components of any path that leads to it, and paths whose components differ only
in names at the end can be compared by their text.

The converse does not hold: a path may say where to go and lead nowhere, because
something on the way is missing or is no directory.  Two dots are taken back from the
place that was reached, which is where they lead when there are no links.

The second half is about `trunk`, the components without the names at the end.  It
makes the comparison of two paths one of places whenever they have it in common.
-/
import Mathlib.Data.List.DropRight
import PropertyHarvest.Glob.Search
import PropertyHarvest.Proofs.FileSystem.Places
import PropertyHarvest.Proofs.Matching

namespace PropertyHarvest

/-! ## Components -/

namespace Path

open PropertyHarvest.Glob (pieces)

/-- What some segments say. -/
def said (ss : List String) : List Component :=
  (ss.filter (!isIdle ·)).map component

theorem said_append (ss ts : List String) : said (ss ++ ts) = said ss ++ said ts := by
  rw [said, List.filter_append, List.map_append]
  rfl

theorem said_cons_idle {s : String} (h : isIdle s = true) (ss : List String) :
    said (s :: ss) = said ss := by
  rw [said, List.filter_cons_of_neg (by simp [h])]
  rfl

theorem said_singleton {s : String} (h : ¬ isIdle s = true) : said [s] = [component s] := by
  rw [said, List.filter_cons_of_pos (by simpa using h)]
  rfl

theorem current_not_mem_said (ss : List String) : .current ∉ said ss := by
  intro h
  obtain ⟨s, -, hs⟩ := List.mem_map.mp h
  rw [component] at hs
  split at hs <;> cases hs

theorem said_names {ss : List String} (h : ∀ s ∈ ss, Plain s) : said ss = ss.map .name := by
  have hkeep : ss.filter (!isIdle ·) = ss :=
    List.filter_eq_self.mpr fun s hs => by rw [(h s hs).not_idle]; rfl
  rw [said, hkeep]
  exact List.map_congr_left fun s hs => if_neg (h s hs).ne_parent

theorem segments_ne_nil (p : String) : segments p ≠ [] := by
  rw [segments, ne_eq, List.map_eq_nil_iff]
  exact splitSlash_ne_nil _

theorem of_mem_splitSlash {cs ds : List Char} (h : ds ∈ splitSlash cs) {c : Char} (hc : c ∈ ds) :
    c ∈ cs ∧ c ≠ '/' := by
  fun_induction splitSlash cs generalizing ds with
  | case1 =>
      rw [List.mem_singleton.mp h] at hc
      exact absurd hc List.not_mem_nil
  | case2 rest ih =>
      rcases List.mem_cons.mp h with rfl | h
      · exact absurd hc List.not_mem_nil
      · exact (ih h hc).imp_left (List.mem_cons_of_mem _)
  | case3 d rest hd s ss hs ih =>
      rw [hs] at ih
      rcases List.mem_cons.mp h with rfl | h
      · rcases List.mem_cons.mp hc with rfl | hc
        · exact ⟨List.mem_cons_self, hd⟩
        · exact (ih List.mem_cons_self hc).imp_left (List.mem_cons_of_mem _)
      · exact (ih (List.mem_cons_of_mem _ h) hc).imp_left (List.mem_cons_of_mem _)
  | case4 d rest hd hs ih => exact absurd hs (splitSlash_ne_nil rest)

theorem of_mem_segments {p s : String} (h : s ∈ segments p) {c : Char} (hc : c ∈ s.toList) :
    c ∈ p.toList ∧ c ≠ '/' := by
  obtain ⟨ds, hds, rfl⟩ := List.mem_map.mp h
  rw [String.toList_ofList] at hc
  exact of_mem_splitSlash hds hc

theorem segments_of_absolute {p : String} (h : isAbsolute p = true) :
    segments p = "" :: segments (String.ofList (p.toList.drop 1)) := by
  rw [isAbsolute, beq_iff_eq] at h
  obtain ⟨cs, hcs⟩ := List.head?_eq_some_iff.mp h
  rw [segments, segments, hcs, String.toList_ofList]
  rfl

theorem eq_nil_of_segments {p : String} {rest : List String} (h : segments p = "" :: rest)
    (ha : isAbsolute p = false) : rest = [] := by
  rcases segments_cases p with hp | ⟨s, t, rfl, hst⟩
  · rw [hp] at h
    exact (List.cons.inj h).2.symm
  · rw [hst] at h
    have habsolute : isAbsolute "/" = true := by decide
    rw [(List.cons.inj h).1, String.empty_append, isAbsolute_append (by decide), habsolute] at ha
    cases ha

/-- The component with which a path begins, if it is the root or a dot. -/
def leading (p : String) : Option Component :=
  (beginning p).1

theorem components_eq (p : String) : components p = (leading p).toList ++ said (segments p) := by
  show (beginning p).1.toList ++ said (beginning p).2 = _
  rw [leading, beginning]
  split
  · rename_i rest hp
    rw [hp, said_cons_idle (by decide)]
    split
    · rfl
    · rename_i ha
      rw [eq_nil_of_segments hp (Bool.eq_false_iff.mpr ha)]
  · rename_i rest hp
    rw [hp, said_cons_idle (by decide)]
  · rfl

/-- Only the first character and the first segment decide how a path begins. -/
theorem leading_eq (p : String) :
    leading p = if isAbsolute p then some .root
      else if (segments p).head? = some "." then some .current else none := by
  rw [leading, beginning]
  split
  · rename_i rest hp
    rw [hp]
    split <;> simp
  · rename_i rest hp
    have ha : ¬ isAbsolute p = true := fun ha =>
      absurd (List.cons.inj ((segments_of_absolute ha).symm.trans hp)).1 (by decide)
    rw [if_neg ha, hp]
    rfl
  · rename_i hempty hdot
    have ha : ¬ isAbsolute p = true := fun ha => hempty _ (segments_of_absolute ha)
    rw [if_neg ha, if_neg]
    intro hhead
    obtain ⟨rest, hrest⟩ := List.head?_eq_some_iff.mp hhead
    exact hdot rest hrest

theorem getLast?_of_splitSlash {cs : List Char} (h : (splitSlash cs).getLast? = some []) :
    cs = [] ∨ cs.getLast? = some '/' := by
  fun_induction splitSlash cs with
  | case1 => exact .inl rfl
  | case2 rest ih =>
      rw [List.getLast?_cons_of_ne_nil (splitSlash_ne_nil rest)] at h
      rcases ih h with rfl | hlast
      · exact .inr rfl
      · exact .inr (by rw [List.getLast?_cons, hlast]; rfl)
  | case3 c rest hc s ss hs ih =>
      cases ss with
      | nil => cases h
      | cons t ts =>
          rw [hs, List.getLast?_cons_cons] at ih
          rw [List.getLast?_cons_cons] at h
          rcases ih h with rfl | hlast
          · cases hs
          · exact .inr (by rw [List.getLast?_cons, hlast]; rfl)
  | case4 c rest hc hs ih => exact absurd hs (splitSlash_ne_nil rest)

theorem eq_empty_of_segments {p : String} (h : segments p = [""]) : p = "" := by
  rcases segments_cases p with hp | ⟨s, t, -, hp⟩
  · rw [h] at hp
    exact (List.cons.inj hp).1.symm
  · rw [h] at hp
    exact absurd (List.cons.inj hp).2.symm (segments_ne_nil t)

theorem segments_eq_pieces (p : String) :
    segments p = pieces p ∨ segments p = pieces p ++ [""] := by
  rw [pieces]
  split_ifs with hlast
  · exact .inr (List.dropLast_append_getLast? "" hlast).symm
  · exact .inl rfl

theorem pieces_ne_nil {p : String} (hp : p ≠ "") : pieces p ≠ [] := by
  intro hnil
  have hempty : segments p = [""] := by
    rcases segments_eq_pieces p with h | h
    · exact absurd (h.trans hnil) (segments_ne_nil p)
    · rw [h, hnil]
      rfl
  exact hp (eq_empty_of_segments hempty)

theorem said_pieces (p : String) : said (pieces p) = said (segments p) := by
  rcases segments_eq_pieces p with h | h
  · rw [h]
  · rw [h, said_append]
    simp [said, isIdle]

theorem head?_pieces {p : String} (hp : p ≠ "") : (pieces p).head? = (segments p).head? := by
  rcases segments_eq_pieces p with h | h
  · rw [h]
  · rw [h, List.head?_append_of_ne_nil _ (pieces_ne_nil hp)]

/-- The segments of a relative path follow the pieces of the path to which it
is joined. -/
theorem segments_join_of_relative {p t : String} (hp : p ≠ "") (ht : isAbsolute t = false) :
    segments (join p t) = pieces p ++ segments t := by
  rw [join, ht, Bool.false_or, if_neg (by simpa using hp), pieces]
  split
  · rename_i hlast
    obtain ⟨before, hp, happend⟩ := exists_segments_of_slash (eq_of_beq hlast)
    rw [hp, List.getLast?_concat, if_pos rfl, List.dropLast_concat, happend]
  · rename_i hlast
    have hsegments : (segments p).getLast? ≠ some "" := by
      intro h
      rw [segments, List.getLast?_map, Option.map_eq_some_iff] at h
      obtain ⟨cs, hcs, hempty⟩ := h
      rw [show cs = [] by simpa using hempty] at hcs
      rcases getLast?_of_splitSlash hcs with hnil | hslash
      · exact hp (String.toList_eq_nil_iff.mp hnil)
      · exact hlast (by rw [hslash]; rfl)
    rw [if_neg hsegments, segments_append]

theorem exists_join_eq_append {p t : String} (hp : p ≠ "") (ht : isAbsolute t = false) :
    ∃ u, join p t = p ++ u := by
  rw [join, ht, Bool.false_or, if_neg (by simpa using hp)]
  split
  · exact ⟨t, rfl⟩
  · exact ⟨"/" ++ t, String.append_assoc⟩

/-- Only a slash stands between a path and the name that is joined. -/
theorem exists_join_eq (p : String) {s : String} (h : Plain s) :
    ∃ between, (between = "" ∨ between = "/") ∧ join p s = p ++ between ++ s := by
  rw [join, h.not_absolute, Bool.false_or]
  split
  · rename_i hp
    rw [of_decide_eq_true hp]
    exact ⟨"", .inl rfl, by simp⟩
  · split
    · exact ⟨"", .inl rfl, by simp⟩
    · exact ⟨"/", .inr rfl, rfl⟩

theorem isAbsolute_join_of_ne {p t : String} (hp : p ≠ "") (ht : isAbsolute t = false) :
    isAbsolute (join p t) = isAbsolute p := by
  rw [join, ht, Bool.false_or, if_neg (by simpa using hp)]
  split
  · exact isAbsolute_append hp t
  · rw [String.append_assoc]
    exact isAbsolute_append hp _

theorem leading_join {p t : String} (hp : p ≠ "") (ht : isAbsolute t = false) :
    leading (join p t) = leading p := by
  have hhead : (segments (join p t)).head? = (segments p).head? := by
    rw [segments_join_of_relative hp ht, List.head?_append_of_ne_nil _ (pieces_ne_nil hp),
      head?_pieces hp]
  rw [leading_eq, leading_eq, isAbsolute_join_of_ne hp ht, hhead]

/-- A relative path that is joined adds what its segments say. -/
theorem components_join {p t : String} (hp : p ≠ "") (ht : isAbsolute t = false) :
    components (join p t) = components p ++ said (segments t) := by
  rw [components_eq, leading_join hp ht, components_eq]
  rw [segments_join_of_relative hp ht, said_append, said_pieces, List.append_assoc]

theorem not_absolute_of_no_slash {s : String} (h : '/' ∉ s.toList) : isAbsolute s = false := by
  rw [isAbsolute, beq_eq_false_iff_ne]
  exact fun hhead => h (List.mem_of_mem_head? hhead)

theorem components_of_plain {s : String} (h : Plain s) : components s = [.name s] := by
  have hdot : s ≠ "." := fun he => absurd (he ▸ h.not_idle) (by decide)
  rw [components_eq, leading_eq, h.not_absolute, segments_of_no_slash h.no_slash,
    said_names (List.forall_mem_singleton.mpr h)]
  simp [hdot]

theorem components_join_name (p : String) {s : String} (h : Plain s) :
    components (join p s) = components p ++ [.name s] := by
  by_cases hp : p = ""
  · subst hp
    have hjoin : join "" s = s := by simp [join]
    rw [hjoin, components_of_plain h]
    rfl
  · rw [components_join hp h.not_absolute, segments_of_no_slash h.no_slash,
      said_names (List.forall_mem_singleton.mpr h)]
    rfl

theorem components_joins (p : String) {names : List String} (h : ∀ s ∈ names, Plain s) :
    components (joins p names) = components p ++ names.map .name := by
  induction names generalizing p with
  | nil => exact (List.append_nil _).symm
  | cons s names ih =>
      obtain ⟨hs, hnames⟩ := List.forall_mem_cons.mp h
      show components (joins (join p s) names) = _
      rw [ih _ hnames, components_join_name p hs, List.append_assoc]
      rfl

theorem fileName?_join (p : String) {s : String} (h : Plain s) :
    fileName? (join p s) = some s := by
  rw [fileName?, components_join_name p h, List.getLast?_concat]

theorem fileName?_join_concat (p : String) {q s : String} {ss : List String}
    (hq : segments q = ss ++ [s]) (h : ∀ t ∈ segments q, Plain t) :
    fileName? (join p q) = some s := by
  have hs : Plain s := h s (by rw [hq]; exact List.mem_append_right _ List.mem_cons_self)
  rw [join_eq_joins p h, hq, joins_append]
  exact fileName?_join _ hs

/-! ## Trunks -/

def Component.isName : Component → Bool
  | .name _ => true
  | _ => false

/-- The components of a path without the names at the end. -/
def trunk (p : String) : List Component :=
  (components p).rdropWhile Component.isName

theorem exists_names_of_isName {cs : List Component} (h : ∀ c ∈ cs, c.isName = true) :
    ∃ names : List String, cs = names.map .name := by
  induction cs with
  | nil => exact ⟨[], rfl⟩
  | cons c cs ih =>
      obtain ⟨hc, hcs⟩ := List.forall_mem_cons.mp h
      obtain ⟨names, rfl⟩ := ih hcs
      cases c with
      | name s => exact ⟨s :: names, rfl⟩
      | root => cases hc
      | current => cases hc
      | parent => cases hc

theorem exists_names_of_said {ss : List String} (h : ".." ∉ ss) :
    ∃ names : List String, said ss = names.map .name := by
  refine exists_names_of_isName fun c hc => ?_
  obtain ⟨s, hs, rfl⟩ := List.mem_map.mp hc
  have hne : s ≠ ".." := fun he => h (he ▸ (List.mem_filter.mp hs).1)
  rw [component, if_neg hne]
  rfl

theorem exists_components_eq_trunk (p : String) :
    ∃ names : List String, components p = trunk p ++ names.map .name := by
  have hend : ∀ c ∈ (components p).rtakeWhile Component.isName, c.isName = true :=
    fun c hc => List.mem_rtakeWhile_imp hc
  obtain ⟨names, hnames⟩ := exists_names_of_isName hend
  exact ⟨names, by rw [← hnames, trunk, List.rdropWhile_append_rtakeWhile]⟩

theorem trunk_eq_of_components {p q : String} {names : List String}
    (h : components q = components p ++ names.map .name) : trunk q = trunk p := by
  have hnames : ∀ c ∈ (names.map Component.name).reverse, c.isName = true := by
    intro c hc
    obtain ⟨s, -, rfl⟩ := List.mem_map.mp (List.mem_reverse.mp hc)
    rfl
  rw [trunk, trunk, h, List.rdropWhile, List.reverse_append,
    List.dropWhile_append_of_pos hnames]
  rfl

theorem trunk_joins (p : String) {names : List String} (h : ∀ s ∈ names, Plain s) :
    trunk (joins p names) = trunk p :=
  trunk_eq_of_components (components_joins p h)

/-! ## Where components lead -/

/-- Where a component leads from a place. -/
def Component.lead (place : List String) : Component → List String
  | .root => []
  | .current => place
  | .parent => place.dropLast
  | .name s => place ++ [s]

/-- Where some components lead, one after the other. -/
def resolve (place : List String) (cs : List Component) : List String :=
  cs.foldl Component.lead place

theorem resolve_append (place : List String) (cs ds : List Component) :
    resolve place (cs ++ ds) = resolve (resolve place cs) ds :=
  List.foldl_append

theorem resolve_names (place names : List String) :
    resolve place (names.map .name) = place ++ names := by
  induction names generalizing place with
  | nil => exact (List.append_nil place).symm
  | cons s names ih =>
      show resolve (place ++ [s]) (names.map .name) = _
      rw [ih, List.append_assoc]
      rfl

end Path

/-! ## Places -/

namespace FileSystem

open PropertyHarvest.Path (Plain join joins segments components said resolve)

variable {fs : FileSystem}

theorem locate_eq_ok_iff {p : String} {place : List String} :
    fs.locate p = .ok place ↔
      '\x00' ∉ p.toList ∧ p ≠ "" ∧ p.utf8ByteSize ≤ maxPathSize ∧ fs.reach p = .ok place := by
  rw [locate, reach]
  split_ifs with hnul hempty hsize
  · simp_all
  · simp_all
  · simp [Nat.not_le.mpr hsize]
  · simp_all

/-- A segment that is followed leads where it says. -/
theorem said_of_follow {place dest : List String} {s : String}
    (h : fs.follow place s = .ok dest) : dest = resolve place (said [s]) := by
  rw [follow] at h
  split at h
  · cases h
  · cases h
  · by_cases hidle : Path.isIdle s = true
    · rw [if_pos hidle] at h
      rw [Path.said_cons_idle hidle]
      exact (Except.ok.inj h).symm
    · rw [if_neg hidle] at h
      rw [Path.said_singleton hidle, Path.component]
      split_ifs at h ⊢ with hparent
      · exact (Except.ok.inj h).symm
      · exact (Except.ok.inj h).symm

theorem follow_idle {place : List String} {es : List (String × Entry)}
    (h : fs.root.at? place = some (.dir es)) {s : String} (hs : Path.isIdle s = true) :
    fs.follow place s = .ok place := by
  simp only [follow, h, hs, if_true]

theorem reach_empty {es : List (String × Entry)}
    (h : fs.root.at? fs.currentDir = some (.dir es)) : fs.reach "" = .ok fs.currentDir := by
  have hfollow : fs.follow fs.currentDir "" = .ok fs.currentDir := follow_idle h (by decide)
  show [""].foldlM fs.follow fs.currentDir = _
  rw [List.foldlM_cons, hfollow]
  rfl

theorem reach_root {es : List (String × Entry)} (h : fs.root.at? [] = some (.dir es)) :
    fs.reach "/" = .ok [] := by
  have hfollow : fs.follow [] "" = .ok [] := follow_idle h (by decide)
  show ["", ""].foldlM fs.follow [] = _
  rw [List.foldlM_cons, hfollow]
  show [""].foldlM fs.follow [] = _
  rw [List.foldlM_cons, hfollow]
  rfl

theorem said_of_foldlM_follow {place dest ss : List String}
    (h : ss.foldlM fs.follow place = .ok dest) : dest = resolve place (said ss) := by
  induction ss generalizing place with
  | nil => exact (Except.ok.inj h).symm
  | cons s ss ih =>
      rw [List.foldlM_cons] at h
      obtain ⟨next, hstep, h⟩ := exists_ok_of_bind h
      rw [ih h, said_of_follow hstep, ← Path.resolve_append, ← Path.said_append]
      rfl

/-- Where the components of a path lead from the current directory, whatever is
there. -/
def aim (fs : FileSystem) (p : String) : List String :=
  resolve fs.currentDir (components p)

theorem resolve_leading (p : String) (cs : List Path.Component) :
    resolve fs.currentDir ((Path.leading p).toList ++ cs) = resolve (fs.origin p) cs := by
  rw [Path.resolve_append, origin, Path.leading_eq]
  split_ifs <;> rfl

/-- A path that leads somewhere leads where its components lead. -/
theorem eq_aim_of_reach {p : String} {place : List String} (h : fs.reach p = .ok place) :
    place = fs.aim p := by
  rw [said_of_foldlM_follow h, aim, Path.components_eq, resolve_leading]

theorem aim_joins (p : String) {names : List String} (h : ∀ s ∈ names, Plain s) :
    fs.aim (joins p names) = fs.aim p ++ names := by
  rw [aim, Path.components_joins p h, Path.resolve_append, Path.resolve_names]
  rfl

/-- Names that are joined lead on from where the path leads. -/
theorem aim_joins_of_locate {p : String} {place names : List String}
    (hplace : fs.locate p = .ok place) (h : ∀ s ∈ names, Plain s) :
    fs.aim (joins p names) = place ++ names := by
  rw [aim_joins p h, ← eq_aim_of_reach (reach_of_locate hplace)]

/-- Of paths with the same trunk, one begins with the other if it leads to or
below where the other leads. -/
theorem startsWith_iff_of_trunk {p q : String} (h : Path.trunk p = Path.trunk q) :
    Path.startsWith p q = true ↔ fs.aim q <+: fs.aim p := by
  obtain ⟨names, hp⟩ := Path.exists_components_eq_trunk p
  obtain ⟨more, hq⟩ := Path.exists_components_eq_trunk q
  have hinj : Function.Injective Path.Component.name := fun _ _ he => Path.Component.name.inj he
  rw [Path.startsWith, List.isPrefixOf_iff_prefix, aim, aim, hp, hq, h, Path.resolve_append,
    Path.resolve_append, Path.resolve_names, Path.resolve_names, List.prefix_append_right_inj,
    List.prefix_append_right_inj, List.prefix_map_iff_of_injective hinj]

/-- A joined path leads where the relative one leads from where the other one
leads. -/
theorem reach_join_of_relative {p t : String} (hp : p ≠ "") (ht : Path.isAbsolute t = false) :
    fs.reach (join p t) = fs.reach p >>= fun place => (segments t).foldlM fs.follow place := by
  have horigin : fs.origin (join p t) = fs.origin p := by
    rw [origin, origin, Path.isAbsolute_join_of_ne hp ht]
  rw [reach, reach, horigin, Path.segments_join_of_relative hp ht, List.foldlM_append]
  rcases Path.segments_eq_pieces p with hsegments | hsegments
  · rw [hsegments]
  · -- The slash at the end asks for a directory, which the next segment does as well.
    obtain ⟨s, ss, hss⟩ := List.exists_cons_of_ne_nil (Path.segments_ne_nil t)
    have hidle (place : List String) :
        (fs.follow place "" >>= fun place => (segments t).foldlM fs.follow place) =
          (segments t).foldlM fs.follow place := by
      rw [hss]
      simp only [List.foldlM_cons]
      rw [← bind_assoc, follow_idle_bind]
    rw [hsegments, List.foldlM_append]
    simp only [List.foldlM_cons, List.foldlM_nil, bind_pure, bind_assoc, hidle]

/-! ## Paths that lead somewhere -/

theorem hasPath_iff {p : String} :
    fs.hasPath p = true ↔ ∃ place e, fs.locate p = .ok place ∧ fs.root.at? place = some e := by
  rw [hasPath, find?, Option.isSome_iff_exists]
  cases fs.locate p with
  | error err => simp [Except.toOption]
  | ok place => simp [Except.toOption]

theorem isDir_iff {p : String} :
    fs.isDir p = true ↔
      ∃ place es, fs.locate p = .ok place ∧ fs.root.at? place = some (.dir es) := by
  rw [isDir, find?]
  cases fs.locate p with
  | error err => simp [Except.toOption]
  | ok place =>
      cases hat : fs.root.at? place with
      | none => simp [Except.toOption, hat]
      | some e => cases e <;> simp [Except.toOption, hat, Entry.isDir]

theorem hasPath_of_isDir {p : String} (h : fs.isDir p = true) : fs.hasPath p = true := by
  obtain ⟨place, es, hplace, hes⟩ := isDir_iff.mp h
  exact hasPath_iff.mpr ⟨place, _, hplace, hes⟩

theorem exists_dir_of_follow {place dest : List String} {s : String}
    (h : fs.follow place s = .ok dest) : ∃ es, fs.root.at? place = some (.dir es) := by
  rw [follow] at h
  split at h
  · cases h
  · cases h
  · exact ⟨_, ‹_›⟩

theorem exists_dir_of_foldlM_follow {place dest : List String} {t : String}
    (h : (Path.segments t).foldlM fs.follow place = .ok dest) :
    ∃ es, fs.root.at? place = some (.dir es) := by
  obtain ⟨s, ss, hss⟩ := List.exists_cons_of_ne_nil (Path.segments_ne_nil t)
  rw [hss, List.foldlM_cons] at h
  obtain ⟨next, hstep, -⟩ := exists_ok_of_bind h
  exact exists_dir_of_follow hstep

theorem locate_of_locate_join {p t : String} (hp : p ≠ "") (ht : Path.isAbsolute t = false)
    {dest : List String} (h : fs.locate (join p t) = .ok dest) :
    ∃ place, fs.locate p = .ok place ∧
      (Path.segments t).foldlM fs.follow place = .ok dest := by
  obtain ⟨hnul, -, hsize, hreach⟩ := locate_eq_ok_iff.mp h
  rw [reach_join_of_relative hp ht] at hreach
  obtain ⟨place, hplace, hfollow⟩ := exists_ok_of_bind hreach
  obtain ⟨u, hu⟩ := Path.exists_join_eq_append hp ht
  rw [hu, String.toList_append] at hnul
  rw [hu, String.utf8ByteSize_append] at hsize
  refine ⟨place, locate_eq_ok_iff.mpr ⟨?_, hp, by omega, hplace⟩, hfollow⟩
  exact fun hmem => hnul (List.mem_append_left _ hmem)

/-- What is joined to a path leads somewhere only if the path leads to a
directory. -/
theorem isDir_of_hasPath_join {p t : String} (hp : p ≠ "") (ht : Path.isAbsolute t = false)
    (h : fs.hasPath (join p t) = true) : fs.isDir p = true := by
  obtain ⟨dest, e, hdest, -⟩ := hasPath_iff.mp h
  obtain ⟨place, hplace, hfollow⟩ := locate_of_locate_join hp ht hdest
  obtain ⟨es, hes⟩ := exists_dir_of_foldlM_follow hfollow
  exact isDir_iff.mpr ⟨place, es, hplace, hes⟩

end FileSystem

end PropertyHarvest
