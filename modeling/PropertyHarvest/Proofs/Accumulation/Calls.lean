/-
# A series of calls

An accumulation is called in two ways, in any order: findings are merged into it,
and it is drained.  After any series of calls it is what the log of the merges
since the last drain comes to (`modules_after`), and the log is a list that
nothing was ever left out of.  So every question about an accumulation is one
about lists:

    what a drain hands out     the modules of the log, each once, with the
                               properties logged under them, each once
    merging in two steps       a log that is cut in two
    merging again              entries that the log holds already
    merging in another order   the log in another order

A series of calls says nothing about what is in the findings that are merged: they may
name a module twice or a module without properties, and the log has them as they
came.  Two accumulations with the same log are equal, order and all; that logs in
another order differ in nothing but orders is `reorders_merge_nil`.
-/
import PropertyHarvest.Proofs.Accumulation.Log

namespace PropertyHarvest

theorem perm_eraseDups {α : Type} [DecidableEq α] {xs ys : List α} (h : xs.Perm ys) :
    xs.eraseDups.Perm ys.eraseDups :=
  (List.perm_ext_iff_of_nodup (nodup_eraseDups xs) (nodup_eraseDups ys)).mpr fun x => by
    rw [List.mem_eraseDups, List.mem_eraseDups, h.mem_iff]

namespace Modules

/-- The same modules with the same properties, in other orders perhaps. -/
structure Reorders (ms ns : Modules) : Prop where
  names : ms.names.Perm ns.names
  propertiesOf : ∀ m, (ms.propertiesOf m).Perm (ns.propertiesOf m)

theorem reorders_merge_nil {log log' : Modules} (h : log.Perm log') :
    Reorders (merge [] log) (merge [] log') where
  names := by
    rw [names_merge_nil, names_merge_nil]
    exact perm_eraseDups (h.map Prod.fst)
  propertiesOf := by
    intro m
    rw [propertiesOf_merge_nil, propertiesOf_merge_nil]
    exact perm_eraseDups ((h.filter _).flatMap_right _)

theorem covers_merge_nil {log new : Modules}
    (h : ∀ m ps, (m, ps) ∈ new → m ∈ log.names ∧ ∀ p ∈ ps, p ∈ log.propertiesIn m) :
    Covers (merge [] log) new := by
  intro m ps hm
  obtain ⟨hname, hps⟩ := h m ps hm
  rw [names_merge_nil, propertiesOf_merge_nil]
  exact ⟨List.mem_eraseDups.mpr hname, fun p hp => List.mem_eraseDups.mpr (hps p hp)⟩

end Modules

namespace Accumulation

inductive Call where
  /-- Findings are merged. -/
  | merge (found : Modules)
  /-- What was found is handed out. -/
  | drain

namespace Call

def apply (a : Accumulation) : Call → Accumulation
  | merge found => a.merge found
  | drain => a.drain.2

/-- The log after the call. -/
def record (log : Modules) : Call → Modules
  | merge found => log ++ found
  | drain => []

end Call

def after (calls : List Call) : Accumulation :=
  calls.foldl Call.apply .empty

/-- All entries of all merges since the last drain, oldest first. -/
def logged (calls : List Call) : Modules :=
  calls.foldl Call.record []

/-- What a call keeps: the accumulation is what the log comes to. -/
theorem modules_apply {a : Accumulation} {log : Modules} (h : a.modules = Modules.merge [] log)
    (c : Call) : (c.apply a).modules = Modules.merge [] (c.record log) := by
  cases c with
  | merge found =>
      show a.modules.merge found = Modules.merge [] (log ++ found)
      rw [h, Modules.merge_append]
  | drain => rfl

theorem modules_after (calls : List Call) :
    (after calls).modules = Modules.merge [] (logged calls) := by
  induction calls using List.reverseRecOn with
  | nil => rfl
  | append_singleton calls c ih =>
      rw [after, logged, List.foldl_append, List.foldl_append]
      exact modules_apply ih c

theorem after_append_drain (calls further : List Call) :
    after (calls ++ .drain :: further) = after further := by
  rw [after, List.foldl_append]
  rfl

theorem isEmpty_after_iff (calls : List Call) :
    (after calls).isEmpty = true ↔ ∀ m, m ∉ (logged calls).names := by
  have hnames : (after calls).isEmpty = (after calls).modules.names.isEmpty :=
    List.isEmpty_map.symm
  rw [hnames, modules_after, List.isEmpty_iff, List.eq_nil_iff_forall_not_mem]
  simp only [Modules.names_merge_nil, List.mem_eraseDups]

/-! ## More merges -/

theorem after_concat (calls : List Call) (found : Modules) :
    after (calls ++ [.merge found]) = (after calls).merge found :=
  List.foldl_append

theorem logged_append_merges (calls : List Call) (found : List Modules) :
    logged (calls ++ found.map .merge) = logged calls ++ found.flatten := by
  induction found using List.reverseRecOn with
  | nil => simp
  | append_singleton found x ih =>
      rw [List.map_append, ← List.append_assoc, logged, List.foldl_append, ← logged, ih,
        List.flatten_append, ← List.append_assoc, List.flatten_singleton]
      rfl

theorem modules_after_merges (calls : List Call) (found : List Modules) :
    (after (calls ++ found.map .merge)).modules =
      Modules.merge [] (logged calls ++ found.flatten) := by
  rw [modules_after, logged_append_merges]

/-- A union that was made elsewhere can be merged in the place of its parts. -/
theorem after_merge_union (calls : List Call) (parts : List Modules) :
    after (calls ++ [.merge (after (parts.map .merge)).drain.1]) =
      after (calls ++ parts.map .merge) := by
  have hunion : (after (parts.map .merge)).drain.1 = Modules.merge [] parts.flatten :=
    modules_after_merges [] parts
  refine congrArg Accumulation.mk ?_
  show (after _).modules = (after _).modules
  rw [after_concat, modules_after_merges, hunion, Modules.merge_append, ← modules_after]
  exact Modules.merge_merge_nil _ _

/-- What an accumulation is after a series of calls, and what more merges make of
it: the log decides both. -/
theorem after_calls (calls : List Call) :
    (after calls).drain.1 =
        (logged calls).names.eraseDups.map
          (fun m => (m, ((logged calls).propertiesIn m).eraseDups)) ∧
      (∀ further, after (calls ++ .drain :: further) = after further) ∧
      ((after calls).isEmpty = true ↔ ∀ m, m ∉ (logged calls).names) ∧
      (∀ x (parts : List Modules),
        after (calls ++ [.merge x, .merge (after (parts.map .merge)).drain.1]) =
          after (calls ++ .merge x :: parts.map .merge)) ∧
      (∀ again : Modules, (∀ m ps, (m, ps) ∈ again →
          m ∈ (logged calls).names ∧ ∀ p ∈ ps, p ∈ (logged calls).propertiesIn m) →
        after (calls ++ [.merge again]) = after calls) ∧
      ∀ found others : List Modules, found.Perm others →
        (after (calls ++ found.map .merge)).drain.1.Reorders
          (after (calls ++ others.map .merge)).drain.1 := by
  refine ⟨?_, after_append_drain calls, isEmpty_after_iff calls, fun x parts => ?_,
    fun again hagain => ?_, fun found others hperm => ?_⟩
  · exact (modules_after calls).trans (Modules.merge_nil_eq _)
  · have hunion := after_merge_union (calls ++ [.merge x]) parts
    rw [← List.append_cons, ← List.append_cons] at hunion
    exact hunion
  · have hcovers := Modules.covers_merge_nil hagain
    rw [← modules_after] at hcovers
    rw [after_concat]
    exact congrArg Accumulation.mk (Modules.merge_of_covers hcovers)
  · show (after _).modules.Reorders (after _).modules
    rw [modules_after_merges, modules_after_merges]
    exact Modules.reorders_merge_nil ((List.Perm.refl _).append hperm.flatten)

/-- A module is named even where nothing is set on it. -/
example : (after [.merge [("A", [])], .merge [("B", [⟨"max", "3"⟩]), ("A", [])]]).drain.1 =
    [("A", []), ("B", [⟨"max", "3"⟩])] := by
  decide

end Accumulation

end PropertyHarvest
