/-
# How a search spells what it finds

A step of a search joins names to the path that it starts from, and the current
directory is not spelled out.  The names are those on a way down the tree
(`SearchStep.Descends.exists_way`).  So what a search of straight steps finds is
spelled name by name from where it started, as a walk would spell it.

A step that is not straight can lead back or up: a pattern that matches two dots, or
a literal component that says nothing or is two dots.  For these only the way is
described (`SearchStep.Spans`), not the spelling.

Two facts about a step are enough for all that follows: which ways down the tree it can
take, and how it spells the end of such a way.  The first is needed to know what a
search finds, the second to compare it with an ignore or with another search.
-/
import Mathlib.Data.List.Induction
import PropertyHarvest.Proofs.FileSystem.Components

namespace PropertyHarvest

namespace Glob

open PropertyHarvest.Path (Plain SpelledFrom join joins)

/-! ## One step -/

theorem stem_join (p : String) {s : String} (h : Plain s) : stem (join p s) = join p s := by
  rw [stem, if_neg]
  intro hcurrent
  have hlast := congrArg List.getLast? hcurrent
  rw [Path.components_join_name p h, List.getLast?_concat] at hlast
  cases hlast

/-- Names that are joined keep to the spelling, and end with a name. -/
theorem spelledFrom_joins {top path : String} (h : SpelledFrom top path) {s : String}
    {names : List String} (hnames : ∀ t ∈ s :: names, Plain t) :
    SpelledFrom top (joins path (s :: names)) ∧
      stem (joins path (s :: names)) = joins path (s :: names) := by
  induction names generalizing path s with
  | nil =>
      have hs := hnames s List.mem_cons_self
      exact ⟨h.join hs, stem_join path hs⟩
  | cons t names ih =>
      obtain ⟨hs, hrest⟩ := List.forall_mem_cons.mp hnames
      exact ih (h.join hs) hrest

variable {fs : FileSystem}

theorem plain_of_mem_childrenOf (hn : fs.root.Named) {path : String} {c : String × Entry}
    (h : c ∈ childrenOf fs path) : Plain c.1 := by
  rw [childrenOf] at h
  cases hfind : fs.find? path with
  | none =>
      rw [hfind] at h
      cases h
  | some e =>
      rw [hfind] at h
      cases FileSystem.named_of_find? hn hfind with
      | file content => cases h
      | dir _ hplain _ => exact hplain c h

theorem exists_of_mem_insideOf (hn : fs.root.Named) {path : String} {c : String × Entry}
    (h : c ∈ insideOf fs path) :
    ∃ s names, (∀ t ∈ s :: names, Plain t) ∧ c.1 = joins (stem path) (s :: names) := by
  rw [insideOf] at h
  cases hfind : fs.find? path with
  | none =>
      rw [hfind] at h
      cases h
  | some e =>
      rw [hfind] at h
      have hnamed := FileSystem.named_of_find? hn hfind
      obtain ⟨s, names, hat, hspelled⟩ := (Entry.mem_inside_iff hnamed).mp h
      exact ⟨s, names, (hnamed.of_at? hat).1, hspelled⟩

theorem nameMatches_joins (p : Pattern) (path : String) {before : List String} {s : String}
    (h : ∀ t ∈ before ++ [s], Plain t) :
    nameMatches p (joins path (before ++ [s])) = p.matches s := by
  have hname : Path.fileName? (joins path (before ++ [s])) = some s := by
    rw [Path.fileName?, Path.components_joins path h, List.map_append, ← List.append_assoc]
    simp only [List.map_cons, List.map_nil, List.getLast?_concat]
  rw [nameMatches, hname]
  rfl

/-- The step leads down this way. -/
inductive SearchStep.Spans : SearchStep → List String → Prop where
  | named (s : String) : Spans (.named s) [s]
  | child {p : Pattern} {s : String} (h : p.matches s = true) : Spans (.child p) [s]
  | within {p : Pattern} (before : List String) {s : String} (h : p.matches s = true) :
      Spans (.within p) (before ++ [s])
  | directories (s : String) (names : List String) : Spans .directories (s :: names)

theorem SearchStep.Spans.ne_nil {step : SearchStep} {way : List String} (h : step.Spans way) :
    way ≠ [] := by
  cases h <;> simp

/-- A step that leads to entries by their names only. -/
inductive SearchStep.Descends : SearchStep → Prop where
  | named {name : String} (h : Plain name) : Descends (.named name)
  | child {p : Pattern} (h : matchingSpecials p = []) : Descends (.child p)
  | within (p : Pattern) : Descends (.within p)
  | directories : Descends .directories

/-- A step leads nowhere else than down the ways that it spans. -/
theorem SearchStep.Descends.exists_way (hn : fs.root.Named) {step : SearchStep}
    (hstep : step.Descends) {path next : String} (h : next ∈ step.lead fs path) :
    ∃ way, (∀ s ∈ way, Plain s) ∧ step.Spans way ∧ next = joins (stem path) way := by
  cases hstep with
  | @named name hname =>
      rw [SearchStep.lead] at h
      refine ⟨[name], List.forall_mem_singleton.mpr hname, .named name, ?_⟩
      exact List.mem_singleton.mp (List.mem_ite_nil_right.mp h).2
  | @child p hp =>
      rw [SearchStep.lead, hp, List.map_nil, List.append_nil] at h
      obtain ⟨-, h⟩ := List.mem_ite_nil_right.mp h
      obtain ⟨c, hc, rfl⟩ := List.mem_map.mp h
      obtain ⟨hmem, hmatch⟩ := List.mem_filter.mp hc
      exact ⟨[c.1], List.forall_mem_singleton.mpr (plain_of_mem_childrenOf hn hmem), .child hmatch,
        rfl⟩
  | within p =>
      obtain ⟨c, hc, rfl⟩ := List.mem_map.mp h
      obtain ⟨hmem, hmatch⟩ := List.mem_filter.mp hc
      change nameMatches p c.1 = true at hmatch
      obtain ⟨s, names, hplain, hspelled⟩ := exists_of_mem_insideOf hn hmem
      obtain ⟨before, t, hway⟩ := (List.eq_nil_or_concat' (s :: names)).resolve_left
        (List.cons_ne_nil s names)
      rw [hway] at hplain hspelled
      refine ⟨before ++ [t], hplain, .within before ?_, hspelled⟩
      rwa [hspelled, nameMatches_joins p _ hplain] at hmatch
  | directories =>
      obtain ⟨c, hc, rfl⟩ := List.mem_map.mp h
      obtain ⟨s, names, hplain, hspelled⟩ := exists_of_mem_insideOf hn (List.mem_filter.mp hc).1
      exact ⟨s :: names, hplain, .directories s names, hspelled⟩

/-- A step that joins names of entries only. -/
inductive SearchStep.Straight : SearchStep → Prop where
  | named {name : String} (h : Plain name) : Straight (.named name)
  | child {p : Pattern} (h : p.head? ≠ some (.char '.')) : Straight (.child p)
  | within (p : Pattern) : Straight (.within p)
  | directories : Straight .directories

theorem SearchStep.Straight.descends {step : SearchStep} (h : step.Straight) : step.Descends := by
  cases h with
  | named hname => exact .named hname
  | child hp => exact .child (by rw [matchingSpecials, if_neg hp])
  | within p => exact .within p
  | directories => exact .directories

theorem SearchStep.Straight.lead (hn : fs.root.Named) {step : SearchStep} (h : step.Straight)
    {top path : String} (hpath : SpelledFrom top (stem path)) {q : String}
    (hq : q ∈ step.lead fs path) : SpelledFrom top q ∧ stem q = q := by
  obtain ⟨way, hplain, hspans, rfl⟩ := h.descends.exists_way hn hq
  obtain ⟨s, names, rfl⟩ := List.exists_cons_of_ne_nil hspans.ne_nil
  exact spelledFrom_joins hpath hplain

/-! ## A whole search -/

/-- The paths to which some steps lead from a path. -/
def pathsAfter (fs : FileSystem) (start : String) (steps : List SearchStep) : List String :=
  steps.foldl (fun paths step => paths.flatMap (step.lead fs ·)) [start]

theorem mem_pathsAfter_concat {start q : String} {steps : List SearchStep} {step : SearchStep} :
    q ∈ pathsAfter fs start (steps ++ [step]) ↔
      ∃ path ∈ pathsAfter fs start steps, q ∈ step.lead fs path := by
  rw [pathsAfter, List.foldl_append]
  exact List.mem_flatMap

theorem spelledFrom_stem_of_mem_pathsAfter (hn : fs.root.Named) {start : String}
    {steps : List SearchStep} (h : ∀ step ∈ steps, step.Straight) {q : String}
    (hq : q ∈ pathsAfter fs start steps) : SpelledFrom (stem start) (stem q) := by
  induction steps using List.reverseRecOn generalizing q with
  | nil =>
      cases List.mem_singleton.mp hq
      exact .refl _
  | append_singleton steps step ih =>
      obtain ⟨hsteps, hstep⟩ := List.forall_mem_append.mp h
      obtain ⟨path, hpath, hlead⟩ := mem_pathsAfter_concat.mp hq
      obtain ⟨hspelled, hstem⟩ :=
        (hstep step (List.mem_singleton_self step)).lead hn (ih hsteps hpath) hlead
      rw [hstem]
      exact hspelled

/-- A search of straight steps, of which there is one at least. -/
structure Search.Straight (s : Search) : Prop where
  steps_ne_nil : s.steps ≠ []
  straight : ∀ step ∈ s.steps, step.Straight

/-- What a straight search finds is spelled from its start. -/
theorem Search.Straight.spelledFrom (hn : fs.root.Named) {s : Search} (h : s.Straight)
    {q : String} (hq : q ∈ s.run fs) : SpelledFrom (stem s.start) q := by
  obtain ⟨hne, hsteps⟩ := h
  have hq : q ∈ pathsAfter fs s.start s.steps := hq
  rcases List.eq_nil_or_concat s.steps with hnil | ⟨steps, step, hconcat⟩
  · exact absurd hnil hne
  · rw [hconcat, List.concat_eq_append] at hq hsteps
    obtain ⟨path, hpath, hlead⟩ := mem_pathsAfter_concat.mp hq
    obtain ⟨hbefore, hlast⟩ := List.forall_mem_append.mp hsteps
    exact ((hlast step (List.mem_singleton_self step)).lead hn
      (spelledFrom_stem_of_mem_pathsAfter hn hbefore hpath) hlead).1

end Glob

end PropertyHarvest
