/-
# Modules as a log

What a run comes to is decided by the log of what was added and by nothing else:
the modules are those of the log in order of first mention, and each has the
properties that the log holds under it, every one where it was first mentioned.

There are two logs.  In the one an entry is a module with any number of
properties, none included, and what it comes to is a merge with nothing
(`merge_nil_eq`).  In the other properties come in one by one (`ofLog_eq`); that
is a log of the first kind (`ofLog_eq_merge`).  Two logs one after the other come
to the merge of what each comes to (`ofLog_append`).

Both kinds of entry occur: a method hands out modules with all their properties, and
the scope of a method is told of one property at a time.  The laws are equations of
lists.  Nothing is said of where an entry comes from, so they hold of any log, also
of one that no run leaves behind.
-/
import PropertyHarvest.Proofs.Accumulation.Merge

namespace PropertyHarvest

/-- Without repetitions, a list with one more entry at its end is longer only if
the entry is new. -/
theorem eraseDups_concat {α : Type} [DecidableEq α] (xs : List α) (x : α) :
    (xs ++ [x]).eraseDups = if x ∈ xs then xs.eraseDups else xs.eraseDups ++ [x] := by
  rw [List.eraseDups_append]
  by_cases hx : x ∈ xs
  · simp [hx, List.removeAll]
  · simp [hx, List.removeAll, List.eraseDups_cons]

theorem nodup_eraseDups {α : Type} [DecidableEq α] (xs : List α) : xs.eraseDups.Nodup := by
  induction xs using List.reverseRecOn with
  | nil => exact List.nodup_nil
  | append_singleton xs x ih =>
      rw [eraseDups_concat]
      split
      · exact ih
      · rename_i hx
        exact List.nodup_append.mpr ⟨ih, List.nodup_singleton x, by
          intro y hy z hz he
          exact hx (List.mem_eraseDups.mp (List.mem_singleton.mp hz ▸ he ▸ hy))⟩

theorem unionProperties_eraseDups (ps qs : List Property) :
    unionProperties ps.eraseDups qs = (ps ++ qs).eraseDups := by
  induction qs using List.reverseRecOn with
  | nil => rw [List.append_nil]; rfl
  | append_singleton qs q ih =>
      rw [unionProperties_append, unionProperties_singleton, ih, ← List.append_assoc,
        eraseDups_concat, insertProperty]
      simp only [List.mem_eraseDups]

namespace Modules

/-! ## Entries of many properties -/

/-- The properties of all entries under one module. -/
def propertiesIn (log : Modules) (module : String) : List Property :=
  (log.filter (·.1 = module)).flatMap Prod.snd

theorem merge_append (acc log more : Modules) :
    acc.merge (log ++ more) = (acc.merge log).merge more :=
  List.foldl_append

theorem names_merge_nil (log : Modules) : (merge [] log).names = log.names.eraseDups := by
  induction log using List.reverseRecOn with
  | nil => rfl
  | append_singleton log e ih =>
      obtain ⟨m, ps⟩ := e
      rw [merge_append, merge_cons, merge, List.foldl_nil, names_extend, ih]
      simp only [names, List.map_append, List.map_singleton, eraseDups_concat, List.mem_eraseDups]

theorem propertiesOf_merge_nil (log : Modules) (m : String) :
    (merge [] log).propertiesOf m = (log.propertiesIn m).eraseDups := by
  induction log using List.reverseRecOn with
  | nil => rfl
  | append_singleton log e ih =>
      obtain ⟨n, ps⟩ := e
      rw [merge_append, merge_cons, propertiesIn, List.filter_append, List.flatMap_append]
      show propertiesOf ((merge [] log).extend n ps) m = _
      rw [propertiesOf, lookup_extend]
      by_cases hn : m = n
      · subst hn
        rw [if_pos rfl, ih, unionProperties_eraseDups]
        simp [propertiesIn]
      · have hother : ¬ n = m := fun h => hn h.symm
        rw [if_neg hn, ← propertiesOf, ih]
        simp [hother, propertiesIn]

theorem map_propertiesOf_names {ms : Modules} (h : ms.names.Nodup) :
    ms.names.map (fun m => (m, ms.propertiesOf m)) = ms := by
  induction ms with
  | nil => rfl
  | cons e ms ih =>
      obtain ⟨m, ps⟩ := e
      obtain ⟨hm, hms⟩ := List.nodup_cons.mp h
      have hrest : (names ms).map (fun n => (n, propertiesOf ((m, ps) :: ms) n)) =
          (names ms).map fun n => (n, propertiesOf ms n) := by
        refine List.map_congr_left fun n hn => ?_
        have hne : ¬ n = m := fun he => hm (he ▸ hn)
        rw [propertiesOf, propertiesOf, lookup_cons, if_neg hne]
      show (m, propertiesOf ((m, ps) :: ms) m) :: (names ms).map _ = _
      rw [hrest, ih hms, propertiesOf, lookup_cons, if_pos rfl, Option.getD_some]

theorem nodup_names_merge_nil (log : Modules) : (merge [] log).names.Nodup :=
  names_merge_nil log ▸ nodup_eraseDups log.names

/-- What a log comes to, told without going through it in order. -/
theorem merge_nil_eq (log : Modules) :
    merge [] log = log.names.eraseDups.map fun m => (m, (log.propertiesIn m).eraseDups) := by
  rw [← map_propertiesOf_names (nodup_names_merge_nil log), names_merge_nil]
  simp only [propertiesOf_merge_nil]

theorem merge_merge_nil (acc log : Modules) : acc.merge (merge [] log) = acc.merge log :=
  @merge_merge [] List.nodup_nil acc log

/-! ## Entries of one property -/

def ofLog (log : List (String × Property)) : Modules :=
  log.foldl (fun ms e => ms.insert e.1 e.2) []

/-- The entries of a log under one module. -/
def entriesOf (log : List (String × Property)) (module : String) : List Property :=
  (log.filter (·.1 = module)).map Prod.snd

theorem ofLog_eq_merge (log : List (String × Property)) :
    ofLog log = merge [] (log.map fun e => (e.1, [e.2])) := by
  rw [merge, List.foldl_map]
  rfl

theorem ofLog_concat (log : List (String × Property)) (m : String) (p : Property) :
    ofLog (log ++ [(m, p)]) = (ofLog log).insert m p :=
  List.foldl_append

theorem ofLog_eq (log : List (String × Property)) :
    ofLog log =
      (log.map Prod.fst).eraseDups.map fun m => (m, (entriesOf log m).eraseDups) := by
  rw [ofLog_eq_merge, merge_nil_eq, names, List.map_map]
  refine List.map_congr_left fun m _ => ?_
  rw [propertiesIn, List.filter_map, List.flatMap_map, entriesOf, List.map_eq_flatMap]
  rfl

theorem ofLog_append (log more : List (String × Property)) :
    ofLog (log ++ more) = (ofLog log).merge (ofLog more) := by
  rw [ofLog_eq_merge, ofLog_eq_merge, ofLog_eq_merge, List.map_append, merge_append,
    merge_merge_nil]

theorem foldl_merge_ofLog (log : List (String × Property))
    (logs : List (List (String × Property))) :
    (logs.map ofLog).foldl merge (ofLog log) = ofLog (log ++ logs.flatten) := by
  induction logs generalizing log with
  | nil => rw [List.flatten_nil, List.append_nil]; rfl
  | cons next logs ih =>
      rw [List.map_cons, List.foldl_cons, ← ofLog_append, ih, List.flatten_cons,
        List.append_assoc]

end Modules

end PropertyHarvest
