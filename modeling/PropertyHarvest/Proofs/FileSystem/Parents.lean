/-
# Parents of a path

  components of a path       c₁ … cₙ
  those of its parents       c₁ … cₙ₋₁,  then c₁ … cₙ₋₂,  and so on

The parents of a path are spelled by its beginnings, up to the last slash before
a component.  A path is made of its beginning and its segments
(`rebuild_beginning`), so each parent is a part of the text before a slash, and
its components are what is left when the last ones are dropped
(`components_parents`).

The empty path stands above a single name and above a dot.  It leads to the current
directory when a name is joined to it, so a relative path ends there, and its parents
do not go on above.

Nothing here needs a file system.  It is about texts and lists of components, and the
one place where spelling matters is a slash that stands twice or at the end.
-/
import Mathlib.Data.List.Infix
import PropertyHarvest.Proofs.FileSystem.Components

namespace PropertyHarvest

namespace Path

variable {first? : Option Component}

theorem ofSegments_cons (s : String) {ss : List String} (h : ss ≠ []) :
    ofSegments (s :: ss) = s ++ "/" ++ ofSegments ss := by
  obtain ⟨t, ts, rfl⟩ := List.exists_cons_of_ne_nil h
  exact String.intercalate_cons_cons

theorem ofSegments_append {ss ts : List String} (hs : ss ≠ []) (ht : ts ≠ []) :
    ofSegments (ss ++ ts) = ofSegments ss ++ "/" ++ ofSegments ts := by
  induction ss with
  | nil => exact absurd rfl hs
  | cons s ss ih =>
      by_cases hss : ss = []
      · subst hss
        rw [List.singleton_append, ofSegments_cons s ht, ofSegments, ofSegments,
          String.intercalate_singleton]
      · rw [List.cons_append, ofSegments_cons s (List.append_ne_nil_of_left_ne_nil hss ts), ih hss,
          ofSegments_cons s hss]
        simp only [String.append_assoc]

theorem ofSegments_segments (p : String) : ofSegments (segments p) = p := by
  generalize hss : segments p = ss
  induction ss generalizing p with
  | nil => exact absurd hss (segments_ne_nil p)
  | cons s ss ih =>
      rcases segments_cases p with hp | ⟨s', t, rfl, hst⟩
      · rw [hss] at hp
        rw [hp, ofSegments, String.intercalate_singleton]
      · rw [hss] at hst
        cases hst
        rw [ofSegments_cons _ (segments_ne_nil t), ih t rfl]

theorem segments_ofSegments {ss : List String} (hne : ss ≠ []) (h : ∀ s ∈ ss, '/' ∉ s.toList) :
    segments (ofSegments ss) = ss := by
  induction ss with
  | nil => exact absurd rfl hne
  | cons s ss ih =>
      obtain ⟨hs, hss⟩ := List.forall_mem_cons.mp h
      by_cases hnil : ss = []
      · subst hnil
        rw [ofSegments, String.intercalate_singleton, segments_of_no_slash hs]
      · rw [ofSegments_cons s hnil, segments_cons hs, ih hnil hss]

/-- How a path may begin, and which segments may follow. -/
structure Begins (first? : Option Component) (ss : List String) : Prop where
  first : first? = none ∨ first? = some .root ∨ first? = some .current
  no_slash : ∀ s ∈ ss, '/' ∉ s.toList
  head : first? = none → ss.head? ≠ some "" ∧ ss.head? ≠ some "."

theorem Begins.of_append {ss ts : List String} (h : Begins first? (ss ++ ts)) :
    Begins first? ss where
  first := h.first
  no_slash s hs := h.no_slash s (List.mem_append_left _ hs)
  head hnone := by
    cases ss with
    | nil => simp
    | cons s ss => exact h.head hnone

theorem begins_beginning (p : String) : Begins (beginning p).1 (beginning p).2 := by
  have hslash : ∀ s ∈ segments p, '/' ∉ s.toList :=
    fun s hs hmem => (of_mem_segments hs hmem).2 rfl
  rw [beginning]
  split
  · rename_i rest hp
    rw [hp] at hslash
    split
    · exact ⟨.inr (.inl rfl), (List.forall_mem_cons.mp hslash).2, by simp⟩
    · exact ⟨.inl rfl, by simp, by simp⟩
  · rename_i rest hp
    rw [hp] at hslash
    exact ⟨.inr (.inr rfl), (List.forall_mem_cons.mp hslash).2, by simp⟩
  · rename_i hempty hdot
    refine ⟨.inl rfl, hslash, fun _ => ⟨fun h => ?_, fun h => ?_⟩⟩
    · obtain ⟨rest, hrest⟩ := List.head?_eq_some_iff.mp h
      exact hempty rest hrest
    · obtain ⟨rest, hrest⟩ := List.head?_eq_some_iff.mp h
      exact hdot rest hrest

theorem rebuild_current {ss : List String} (h : ss ≠ []) :
    rebuild (some .current) ss = "." ++ "/" ++ ofSegments ss := by
  obtain ⟨s, ss, rfl⟩ := List.exists_cons_of_ne_nil h
  rfl

theorem rebuild_root (ss : List String) : rebuild (some .root) ss = "/" ++ ofSegments ss :=
  rfl

theorem rebuild_beginning (p : String) : rebuild (beginning p).1 (beginning p).2 = p := by
  have hp := ofSegments_segments p
  rw [beginning]
  split
  · rename_i rest hrest
    rw [hrest] at hp
    split
    · rename_i habsolute
      rw [segments_of_absolute habsolute] at hrest
      obtain rfl := (List.cons.inj hrest).2
      rw [ofSegments_cons _ (segments_ne_nil _), String.empty_append] at hp
      rw [rebuild_root]
      exact hp
    · rename_i habsolute
      rw [eq_nil_of_segments hrest (Bool.eq_false_iff.mpr habsolute), ofSegments,
        String.intercalate_singleton] at hp
      exact hp
  · rename_i rest hrest
    rw [hrest] at hp
    by_cases hnil : rest = []
    · subst hnil
      rw [ofSegments, String.intercalate_singleton] at hp
      exact hp
    · rw [rebuild_current hnil, ← ofSegments_cons _ hnil]
      exact hp
  · exact hp

theorem components_rebuild {ss : List String} (h : Begins first? ss) :
    components (rebuild first? ss) = first?.toList ++ said ss := by
  have hsegments (hne : ss ≠ []) := segments_ofSegments hne h.no_slash
  rcases h.first with rfl | rfl | rfl
  · show components (ofSegments ss) = said ss
    by_cases hnil : ss = []
    · subst hnil
      decide
    · obtain ⟨hempty, hdot⟩ := h.head rfl
      have habsolute : ¬ isAbsolute (ofSegments ss) = true := fun ha =>
        hempty (by rw [← hsegments hnil, segments_of_absolute ha]; rfl)
      rw [components_eq, leading_eq, if_neg habsolute, hsegments hnil, if_neg hdot]
      rfl
  · have habsolute : isAbsolute ("/" ++ ofSegments ss) = true := by
      rw [isAbsolute, String.toList_append]
      rfl
    have hrest : String.ofList (("/" ++ ofSegments ss).toList.drop 1) = ofSegments ss := by
      rw [String.toList_append]
      exact String.ofList_toList
    show components ("/" ++ ofSegments ss) = _
    rw [components_eq, leading_eq, if_pos habsolute, segments_of_absolute habsolute,
      said_cons_idle (by decide), hrest]
    by_cases hnil : ss = []
    · subst hnil
      decide
    · rw [hsegments hnil]
  · by_cases hnil : ss = []
    · subst hnil
      decide
    · have hdot : '/' ∉ ".".toList := by decide
      have hbegin : segments ("." ++ "/" ++ ofSegments ss) = "." :: ss := by
        rw [segments_cons hdot, hsegments hnil]
      have habsolute : ¬ isAbsolute ("." ++ "/" ++ ofSegments ss) = true := fun ha =>
        absurd (hbegin.symm.trans (segments_of_absolute ha)) (by simp)
      rw [rebuild_current hnil, components_eq, leading_eq, if_neg habsolute, hbegin,
        said_cons_idle (by decide)]
      rfl

/-- What is left of some components when the last one is dropped again and
again, the longest first. -/
def beginnings (cs : List Component) : List (List Component) :=
  cs.inits.reverse

theorem beginnings_concat (cs : List Component) (c : Component) :
    beginnings (cs ++ [c]) = (cs ++ [c]) :: beginnings cs := by
  rw [beginnings, List.inits_append, List.reverse_append]
  rfl

theorem beginnings_eq_cons (cs : List Component) : beginnings cs = cs :: (beginnings cs).tail := by
  induction cs using List.reverseRecOn with
  | nil => rfl
  | append_singleton cs c ih => rw [beginnings_concat]; rfl

theorem said_idle {ss : List String} (h : ∀ s ∈ ss, isIdle s = true) : said ss = [] := by
  rw [said, List.filter_eq_nil_iff.mpr fun s hs => by simp [h s hs]]
  rfl

/-- The parents of a path have the beginnings of its components; that of a dot
is the empty path. -/
theorem components_parentsFrom {rss : List String} (h : Begins first? rss.reverse) :
    (parentsFrom first? rss).map components =
      (beginnings (said rss.reverse)).tail.map (first?.toList ++ ·) ++
        if first? = some .current then [[]] else [] := by
  induction rss with
  | nil =>
      rw [parentsFrom]
      split
      · rfl
      · rfl
  | cons s before ih =>
      rw [List.reverse_cons] at h
      rw [parentsFrom, List.reverse_cons, said_append]
      split
      · rename_i hidle
        rw [said_cons_idle hidle, ih h.of_append]
        simp [said]
      · rename_i hidle
        have hbefore := congrArg List.reverse (List.takeWhile_append_dropWhile (p := isIdle)
          (l := before)).symm
        rw [List.reverse_append] at hbefore
        have hdrop : said before.reverse = said (before.dropWhile isIdle).reverse := by
          rw [hbefore, said_append, said_idle fun s hs => List.mem_takeWhile_imp
            (List.mem_reverse.mp hs), List.append_nil]
        have hbegins : Begins first? (before.dropWhile isIdle).reverse :=
          (hbefore ▸ h.of_append).of_append
        rw [said_singleton hidle, beginnings_concat, List.tail_cons, beginnings_eq_cons,
          List.map_cons, List.map_cons, List.cons_append, ih h.of_append,
          components_rebuild hbegins, hdrop]

theorem components_parents (p : String) :
    (parents p).map components =
      (beginnings (said (segments p))).tail.map ((leading p).toList ++ ·) ++
        if leading p = some .current then [[]] else [] := by
  have hsaid : said (beginning p).2 = said (segments p) :=
    List.append_cancel_left (components_eq p)
  have hbegins : Begins (leading p) (beginning p).2.reverse.reverse := by
    rw [List.reverse_reverse]
    exact begins_beginning p
  have hparents : parents p = parentsFrom (leading p) (beginning p).2.reverse := rfl
  rw [hparents, components_parentsFrom hbegins, List.reverse_reverse, hsaid]

theorem rebuild_append {ss ts : List String} (hss : ss ≠ [] ∨ first? = some .current)
    (hts : ts ≠ []) : rebuild first? (ss ++ ts) = rebuild first? ss ++ "/" ++ ofSegments ts := by
  by_cases hnil : ss = []
  · subst hnil
    rcases hss with hss | rfl
    · exact absurd rfl hss
    · exact rebuild_current hts
  · have happend := ofSegments_append hnil hts
    have hne : ss ++ ts ≠ [] := List.append_ne_nil_of_left_ne_nil hnil ts
    rcases first? with _ | _ | _ | _ | _
    · exact happend
    · show "/" ++ ofSegments (ss ++ ts) = _
      rw [happend]
      simp only [rebuild, String.append_assoc]
    · rw [rebuild_current hne, rebuild_current hnil, happend]
      simp only [String.append_assoc]
    · exact happend
    · exact happend

/-- A parent is rebuilt from some of the first segments, but for the empty path
above a dot. -/
theorem exists_rebuild_of_mem_parentsFrom {rss : List String} {q : String}
    (h : q ∈ parentsFrom first? rss) :
    (q = "" ∧ first? = some .current) ∨
      ∃ ss ts, rss.reverse = ss ++ ts ∧ ts ≠ [] ∧ q = rebuild first? ss := by
  induction rss with
  | nil =>
      obtain ⟨hcurrent, hq⟩ := List.mem_ite_nil_right.mp h
      exact .inl ⟨List.mem_singleton.mp hq, hcurrent⟩
  | cons s before ih =>
      rw [List.reverse_cons]
      have hdeeper (hq : q ∈ parentsFrom first? before) :=
        (ih hq).imp_right fun ⟨ss, ts, hreverse, hts, hq⟩ =>
          (⟨ss, ts ++ [s], by rw [hreverse, List.append_assoc], by simp, hq⟩ :
            ∃ ss ts, before.reverse ++ [s] = ss ++ ts ∧ ts ≠ [] ∧ q = rebuild first? ss)
      rw [parentsFrom] at h
      split at h
      · exact hdeeper h
      · rcases List.mem_cons.mp h with rfl | h
        · refine .inr ⟨_, (before.takeWhile isIdle).reverse ++ [s], ?_, by simp, rfl⟩
          rw [← List.append_assoc, ← List.reverse_append, List.takeWhile_append_dropWhile]
        · exact hdeeper h

theorem of_mem_parentsFrom {rss : List String} {q : String} (h : q ∈ parentsFrom first? rss) :
    (q = "" ∧ first? ≠ some .root) ∨ (q = "/" ∧ first? = some .root) ∨
      ∃ t, rebuild first? rss.reverse = q ++ "/" ++ t ∧ (first? = some .root → q ≠ "") := by
  rcases exists_rebuild_of_mem_parentsFrom h with ⟨rfl, rfl⟩ | ⟨ss, ts, hreverse, hts, rfl⟩
  · exact .inl ⟨rfl, by simp⟩
  · by_cases hss : ss ≠ [] ∨ first? = some .current
    · refine .inr (.inr ⟨_, hreverse ▸ rebuild_append hss hts, ?_⟩)
      rintro rfl
      simp [rebuild]
    · obtain ⟨hnil, hcurrent⟩ := not_or.mp hss
      rw [not_not.mp hnil]
      rcases first? with _ | _ | _ | _ | _
      · exact .inl ⟨rfl, by simp⟩
      · exact .inr (.inl ⟨rfl, rfl⟩)
      · exact absurd rfl hcurrent
      · exact .inl ⟨rfl, by simp⟩
      · exact .inl ⟨rfl, by simp⟩

end Path

end PropertyHarvest
