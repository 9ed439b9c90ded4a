/-
# Reading a pattern below a directory

  base   verbatim, and `route base` is where a search for it starts, and the rest
  incl   relative, with the patterns `ps` for its pieces

The search for `join base incl` goes to the pieces of `base` one by one and then
takes the steps of `ps` (`Search.read_join`): as long as `base` has no character
that a pattern reads as more than itself, it is no pattern, and what follows it is
read as if nothing stood before it.

Whether the rest can be read depends on what was read before in one respect only: two
stars are allowed after a slash (`isOk_readFrom`).  That is why `base` may be any text
that is verbatim, and also why `incl` has to be relative.  Of patterns that are refused
it is said that they are refused, not with which fault.
-/
import PropertyHarvest.Proofs.FileSystem.Components

namespace PropertyHarvest

namespace Path

open PropertyHarvest.Glob (pieces)

theorem mem_segments_of_mem_pieces {p s : String} (h : s ∈ pieces p) : s ∈ segments p := by
  rcases segments_eq_pieces p with hp | hp
  · exact hp ▸ h
  · exact hp ▸ List.mem_append_left _ h

theorem of_mem_pieces {p s : String} (h : s ∈ pieces p) {c : Char} (hc : c ∈ s.toList) :
    c ∈ p.toList ∧ c ≠ '/' :=
  of_mem_segments (mem_segments_of_mem_pieces h) hc

theorem join_ne_empty (p : String) {t : String} (ht : t ≠ "") : join p t ≠ "" := by
  rw [join]
  split
  · exact ht
  · split <;> simp [ht]

theorem pieces_join (p : String) {t : String} (ht : isAbsolute t = false) :
    pieces (join p t) = pieces p ++ pieces t := by
  by_cases hp : p = ""
  · subst hp
    have hjoin : join "" t = t := by simp [join]
    rw [hjoin]
    rfl
  · have hne := segments_ne_nil t
    rw [pieces, segments_join_of_relative hp ht, List.getLast?_append_of_ne_nil _ hne,
      List.dropLast_append_of_ne_nil hne, ← apply_ite]
    rfl

end Path

namespace Glob

open PropertyHarvest.Path (join isAbsolute)

/-! ## Texts that are no patterns -/

/-- No character of the text is read as more than itself. -/
def Verbatim (text : String) : Prop :=
  ∀ c ∈ text.toList, c ≠ '?' ∧ c ≠ '*' ∧ c ≠ '['

instance : DecidablePred Verbatim :=
  fun text => List.decidableBAll _ text.toList

/-- The pattern that matches this text only. -/
def verbatim (text : String) : Pattern :=
  text.toList.map .char

theorem readFrom_append {cs : List Char} (h : ∀ c ∈ cs, c ≠ '?' ∧ c ≠ '*' ∧ c ≠ '[')
    (position : Nat) (previous? : Option Char) (done : List Token) (rest : List Char) :
    readFrom position previous? done (cs ++ rest) =
      readFrom (position + cs.length) (cs.getLast?.or previous?)
        ((cs.map Token.char).reverse ++ done) rest := by
  induction cs generalizing position previous? done with
  | nil => rfl
  | cons c cs ih =>
      obtain ⟨⟨hany, hstar, hclass⟩, hcs⟩ := List.forall_mem_cons.mp h
      have hlast : cs.getLast?.or (some c) = (c :: cs).getLast?.or previous? := by
        rw [List.getLast?_cons]
        cases cs.getLast? <;> rfl
      rw [List.cons_append, readFrom, ih hcs, hlast]
      · simp only [List.length_cons, List.map_cons, List.reverse_cons, List.append_assoc,
          List.singleton_append, Nat.add_assoc, Nat.add_comm 1]
      · exact hany
      · exact fun _ hc => absurd hc hstar
      · exact fun _ hc => absurd hc hstar
      · exact hstar
      · exact hclass

theorem read_of_verbatim {text : String} (h : Verbatim text) :
    Pattern.read text = .ok (verbatim text) := by
  have hread := readFrom_append h 0 none [] []
  rw [List.append_nil, List.append_nil, readFrom, List.reverse_reverse] at hread
  exact hread

/-- Whether the rest of a text can be read depends on what was read before only
in that two stars may follow a slash. -/
theorem isOk_readFrom (cs : List Char) {position position' : Nat}
    {previous? previous'? : Option Char} {done done' : List Token}
    (h : previous?.all (· == '/') = previous'?.all (· == '/')) :
    (readFrom position previous? done cs).isOk =
      (readFrom position' previous'? done' cs).isOk := by
  -- Only two stars ask for what was read before, and only whether it is a slash.
  fun_induction readFrom position previous? done cs generalizing position' previous'? done' with
  | case1 =>
      rw [readFrom]
      rfl
  | case2 position previous? done rest ih =>
      rw [readFrom]
      exact ih rfl
  | case3 position previous? done tail =>
      rw [readFrom]
      rfl
  | case4 position previous? done hall hend =>
      rw [readFrom, ← h, if_pos hall]
      rfl
  | case5 position previous? done hall rest hstar ih =>
      rw [readFrom, ← h, if_pos hall]
      exact ih rfl
  | case6 position previous? done rest hstar hall hend hslash =>
      rw [readFrom, ← h, if_pos hall]
      · rfl
      all_goals assumption
  | case7 position previous? done rest hstar hall =>
      rcases rest with _ | ⟨c, rest⟩
      · rw [readFrom, ← h, if_neg hall]
        rfl
      · by_cases hslash : c = '/'
        · rw [hslash, readFrom, ← h, if_neg hall]
          rfl
        · rw [readFrom, ← h, if_neg hall]
          · rfl
          · exact hstar
          · exact List.cons_ne_nil c rest
          · exact fun _ he => hslash (List.cons.inj he).1
  | case8 position previous? done rest hstars hstar ih =>
      rw [readFrom]
      · exact ih rfl
      · exact hstars
      · exact hstar
  | case9 position previous? done rest t after hclass _ ih =>
      rw [readFrom]
      split
      · rename_i hread
        cases hread.symm.trans hclass
        exact ih rfl
      · rename_i hread
        cases hread.symm.trans hclass
  | case10 position previous? done rest hclass =>
      rw [readFrom]
      split
      · rename_i hread
        cases hread.symm.trans hclass
      · rfl
  | case11 position previous? done c rest hany hstars hstars' hstar hclass ih =>
      rw [readFrom]
      · exact ih rfl
      all_goals assumption

/-- Where a directory is verbatim, what is joined to it can be read if it can
be read alone. -/
theorem isOk_read_join {base : String} (hbase : base ≠ "") (hverbatim : Verbatim base)
    {incl : String} (hincl : isAbsolute incl = false) :
    (Pattern.read (join base incl)).isOk = (Pattern.read incl).isOk := by
  have happend {text : String} (h : Verbatim text) (hlast : text.toList.getLast? = some '/') :
      (Pattern.read (text ++ incl)).isOk = (Pattern.read incl).isOk := by
    rw [Pattern.read, String.toList_append, readFrom_append h, hlast]
    exact isOk_readFrom _ rfl
  rw [join, hincl, Bool.false_or, if_neg (by simpa using hbase)]
  split
  · rename_i hlast
    exact happend hverbatim (eq_of_beq hlast)
  · refine happend ?_ (by rw [String.toList_append]; exact List.getLast?_concat)
    have hslash : Verbatim "/" := by decide
    rw [Verbatim, String.toList_append]
    exact List.forall_mem_append.mpr ⟨hverbatim, hslash⟩

theorem of_readClass? {cs after : List Char} {t : Token} (h : readClass? cs = some (t, after)) :
    after <:+ cs ∧ t.char? = none := by
  have hsplit {cs items after : List Char} (h : splitClass? cs = some (items, after)) :
      after <:+ cs := by
    cases cs with
    | nil => cases h
    | cons c rest =>
        rw [splitClass?] at h
        split at h
        · cases h
        · rename_i d after' hdrop
          cases h
          exact ((List.suffix_cons d _).trans (hdrop ▸ List.dropWhile_suffix _)).trans
            (List.suffix_cons c rest)
  unfold readClass? at h
  split at h
  all_goals
    obtain ⟨⟨items, after'⟩, hs, he⟩ := Option.map_eq_some_iff.mp h
    cases he
  · exact ⟨(hsplit hs).trans (List.suffix_cons _ _), rfl⟩
  · exact ⟨hsplit hs, rfl⟩

theorem mem_of_readFrom {cs : List Char} {position : Nat} {previous? : Option Char}
    {done : List Token} {p : Pattern} (h : readFrom position previous? done cs = .ok p) {c : Char}
    (hc : .char c ∈ p) : .char c ∈ done ∨ c ∈ cs := by
  have hpush (done : List Token) (hmem : .char c ∈ pushDirectories done) : .char c ∈ done := by
    unfold pushDirectories at hmem
    split at hmem
    · exact hmem
    · simpa using hmem
  fun_induction readFrom position previous? done cs with
  | case1 =>
      cases h
      exact .inl (List.mem_reverse.mp hc)
  | case2 position previous? done rest ih =>
      refine (ih h).imp ?_ (List.mem_cons_of_mem _)
      simp
  | case3 => cases h
  | case4 position previous? done =>
      cases h
      exact .inl (hpush _ (List.mem_reverse.mp hc))
  | case5 position previous? done _ rest _ ih =>
      refine (ih h).imp (hpush _) fun hmem => ?_
      simp [hmem]
  | case6 => cases h
  | case7 => cases h
  | case8 position previous? done rest _ _ ih =>
      refine (ih h).imp ?_ (List.mem_cons_of_mem _)
      simp
  | case9 position previous? done rest t after hclass _ ih =>
      obtain ⟨hafter, ht⟩ := of_readClass? hclass
      refine (ih h).imp (fun hmem => ?_) fun hmem => ?_
      · rcases List.mem_cons.mp hmem with rfl | hmem
        · cases ht
        · exact hmem
      · exact List.mem_cons_of_mem _ (hafter.subset hmem)
  | case10 => cases h
  | case11 position previous? done d rest _ _ _ _ _ ih =>
      refine (ih h).elim (fun hmem => ?_) fun hmem => .inr (List.mem_cons_of_mem _ hmem)
      rcases List.mem_cons.mp hmem with he | hmem
      · cases he
        exact .inr List.mem_cons_self
      · exact .inl hmem

/-! ## A search below a directory -/

/-- Where a search for a text starts, and what it looks for from there. -/
def route (text : String) : String × String :=
  if isAbsolute text then ("/", String.ofList (text.toList.drop 1)) else (".", text)

theorem Search.read_eq (text : String) :
    Search.read text = do
      let _ ← Pattern.read text
      let components ← (pieces (route text).2).mapM Pattern.read
      return ⟨(route text).1, stepsOf (if (route text).2 = "" then [[]] else components)⟩ := by
  rw [Search.read, route]

/-- What is joined to a path is looked for from where the path is. -/
theorem route_join {base : String} (hbase : base ≠ "") {incl : String}
    (hincl : isAbsolute incl = false) :
    route (join base incl) = ((route base).1, join (route base).2 incl) := by
  rw [route, route, Path.isAbsolute_join_of_ne hbase hincl]
  split_ifs with habsolute
  · obtain ⟨cs, hcs⟩ := List.head?_eq_some_iff.mp (beq_iff_eq.mp habsolute)
    rw [Prod.mk.injEq, join, join, hincl, Bool.false_or, Bool.false_or,
      if_neg (by simpa using hbase), hcs]
    refine ⟨rfl, String.toList_inj.mp ?_⟩
    cases cs with
    | nil => simp [hcs]
    | cons c cs =>
        rw [List.getLast?_cons_cons]
        split <;> simp_all
  · rfl

theorem mapM_read_verbatim {names : List String} (h : ∀ s ∈ names, Verbatim s) :
    names.mapM Pattern.read = .ok (names.map verbatim) := by
  induction names with
  | nil => rfl
  | cons s names ih =>
      obtain ⟨hs, hnames⟩ := List.forall_mem_cons.mp h
      rw [List.mapM_cons, read_of_verbatim hs, ih hnames]
      rfl

theorem literal?_verbatim (text : String) : (verbatim text).literal? = some text := by
  have hmap (cs : List Char) : (cs.map Token.char).mapM Token.char? = some cs := by
    induction cs with
    | nil => rfl
    | cons c cs ih =>
        rw [List.map_cons, List.mapM_cons, ih]
        rfl
  rw [Pattern.literal?, verbatim, hmap, Option.map_some, String.ofList_toList]

theorem stepsOf_verbatim_append (names : List String) (ps : List Pattern) :
    stepsOf (names.map verbatim ++ ps) = names.map .named ++ stepsOf ps := by
  induction names with
  | nil => rfl
  | cons s names ih =>
      have hplain : (verbatim s).isDirectories = false := by
        simp [Pattern.isDirectories, verbatim]
      rw [List.map_cons, List.cons_append, stepsOf.eq_def]
      simp only [hplain, literal?_verbatim, ih, Bool.false_eq_true, if_false, List.map_cons,
        List.cons_append]

/-- A relative text whose pieces are the patterns `ps`. -/
structure Pieced (text : String) (ps : List Pattern) : Prop where
  relative : isAbsolute text = false
  valid : (Pattern.read text).isOk = true
  read : (pieces text).mapM Pattern.read = .ok ps
  ne_empty : text ≠ ""

/-- A search below a directory goes to the directory and takes the steps of the
pattern from there. -/
theorem Search.read_join {base : String} (hbase : base ≠ "") (hverbatim : Verbatim base)
    {incl : String} {ps : List Pattern} (h : Pieced incl ps) :
    Search.read (join base incl) =
      .ok ⟨(route base).1, (pieces (route base).2).map .named ++ stepsOf ps⟩ := by
  have hpieces : ∀ s ∈ pieces (route base).2, Verbatim s := by
    intro s hs c hc
    refine hverbatim c ?_
    have hmem := (Path.of_mem_pieces hs hc).1
    rw [route] at hmem
    split at hmem
    · rw [String.toList_ofList] at hmem
      exact List.mem_of_mem_drop hmem
    · exact hmem
  have hrest : join (route base).2 incl ≠ "" := Path.join_ne_empty _ h.ne_empty
  obtain ⟨p, hp⟩ : ∃ p, Pattern.read (join base incl) = .ok p := by
    have hvalid := (isOk_read_join hbase hverbatim h.relative).trans h.valid
    cases hread : Pattern.read (join base incl) with
    | ok p => exact ⟨p, rfl⟩
    | error e =>
        rw [hread] at hvalid
        cases hvalid
  rw [Search.read_eq, hp, route_join hbase h.relative, Path.pieces_join _ h.relative,
    List.mapM_append, mapM_read_verbatim hpieces, h.read]
  simp only [if_neg hrest]
  show Except.ok _ = _
  rw [stepsOf_verbatim_append]

end Glob

end PropertyHarvest
