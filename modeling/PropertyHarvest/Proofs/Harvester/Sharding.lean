/-
# Runs over many trees

A run walks trees one after the other with one harvester and hands out what it
found.  Since every walk depends on its tree alone, a run is the merge of what
its trees add; so it can be cut in two, and the order of the trees decides
nothing but orders.

The two runs have one base path.  They may be over trees of any source, finished each
by itself.  Nothing is said of reports, which a run does not hand out; they follow each
other as the trees do (`Proofs.Harvester.Diagnostics`).

That a tree which was walked before adds nothing is a consequence and is stated because
it is what a scan of the same file under two names relies on: the modules are those of
one reading, and only the count of files tells.
-/
import PropertyHarvest.Proofs.Accumulation.Merge
import PropertyHarvest.Proofs.Harvester.Isolation

namespace PropertyHarvest

namespace Harvester

def harvestAll (h : Harvester) (trees : List Arena) : Harvester :=
  trees.foldl (fun h a => (h.harvest a).2) h

/-- What a new harvester hands out after a series of trees. -/
def run (basePath : String) (trees : List Arena) : Modules :=
  ((ofBasePath basePath).harvestAll trees).drain.1

theorem basePath_harvest (h : Harvester) {a : Arena} (ha : a.WellFormed) :
    (h.harvest a).2.basePath = h.basePath := by
  obtain ⟨h', hrun, hread⟩ := harvest_wellFormed h ha
  rw [hrun]
  exact hread.basePath

theorem found_harvest (h : Harvester) {a : Arena} (ha : a.WellFormed) :
    (h.harvest a).2.found = (treeFindings h.basePath a).foldl Accumulation.merge h.found := by
  obtain ⟨h', hrun, hread⟩ := harvest_wellFormed h ha
  rw [hrun]
  exact hread.found

theorem found_harvestAll (h : Harvester) {trees : List Arena}
    (ht : ∀ a ∈ trees, a.WellFormed) :
    (h.harvestAll trees).basePath = h.basePath ∧
      (h.harvestAll trees).found =
        (trees.flatMap (treeFindings h.basePath)).foldl Accumulation.merge h.found := by
  induction trees generalizing h with
  | nil => exact ⟨rfl, rfl⟩
  | cons a trees ih =>
      have ha : a.WellFormed := ht a List.mem_cons_self
      obtain ⟨hbase, hrest⟩ := ih (h.harvest a).2 fun x hx => ht x (List.mem_cons_of_mem _ hx)
      rw [basePath_harvest h ha] at hbase hrest
      refine ⟨hbase, ?_⟩
      show ((h.harvest a).2.harvestAll trees).found = _
      rw [hrest, found_harvest h ha, List.flatMap_cons, List.foldl_append]

theorem run_eq (basePath : String) {trees : List Arena} (ht : ∀ a ∈ trees, a.WellFormed) :
    run basePath trees = (trees.flatMap (treeFindings basePath)).foldl Modules.merge [] := by
  show ((ofBasePath basePath).harvestAll trees).found.modules = _
  rw [(found_harvestAll _ ht).2, Accumulation.modules_foldl_merge]
  rfl

/-- Walking a tree once more, after any others, finds nothing new. -/
theorem found_harvest_again (h : Harvester) {trees : List Arena}
    (ht : ∀ a ∈ trees, a.WellFormed) {a : Arena} (ha : a ∈ trees) :
    ((h.harvestAll trees).harvest a).2.found = (h.harvestAll trees).found := by
  obtain ⟨hbase, hfound⟩ := found_harvestAll h ht
  have hcovered : ∀ x ∈ treeFindings h.basePath a,
      Modules.Covers (h.harvestAll trees).found.modules x := by
    intro x hx
    rw [hfound, Accumulation.modules_foldl_merge]
    exact Modules.covers_foldl_merge (List.mem_flatMap.mpr ⟨a, ha, hx⟩)
  rw [found_harvest _ (ht a ha), hbase]
  exact Accumulation.foldl_merge_of_covers hcovered

/-! ## No module is named twice -/

theorem nodup_names_of_reads {s s' : MethodScope} (h : s.Reads s')
    (hs : s.properties.names.Nodup) : s'.properties.names.Nodup := by
  cases h with
  | property module p => exact Modules.nodup_names_extend hs module [p]
  | same => exact hs
  | bind handle module => exact hs
  | fileHandle handle => exact hs
  | verified => exact hs

theorem nodup_names_testScope {a : Arena} (b : String) (test : Node a) :
    (test.testScope b).properties.names.Nodup := by
  have keep : ∀ (ns : List (Node a)) (s : MethodScope), s.properties.names.Nodup →
      (ns.foldl (fun s n => s.read b n.packagePath n) s).properties.names.Nodup := by
    intro ns
    induction ns with
    | nil => exact fun _ h => h
    | cons n ns ih => exact fun s h => ih _ (nodup_names_of_reads (s.reads_read b _ n) h)
  exact keep test.inside .empty List.nodup_nil

theorem nodup_names_of_mem_treeFindings {a : Arena} {b : String} {x : Modules}
    (hx : x ∈ treeFindings b a) : x.names.Nodup := by
  simp only [treeFindings, Node.findings, List.mem_map, List.mem_filter] at hx
  obtain ⟨s, ⟨⟨test, -, rfl⟩, -⟩, rfl⟩ := hx
  exact nodup_names_testScope b test

/-- Sharding.  A run over `xs` and `ys` is the run over `xs` with the run over
`ys` merged into it; the order of the trees decides the orders only; a tree that
was walked before adds nothing. -/
theorem run_append_eq_merge (basePath : String) {xs ys : List Arena}
    (hx : ∀ a ∈ xs, a.WellFormed) (hy : ∀ a ∈ ys, a.WellFormed) :
    (Accumulation.empty.merge (run basePath xs)).drain.1 = run basePath xs ∧
      run basePath (xs ++ ys) =
        ((Accumulation.empty.merge (run basePath xs)).merge (run basePath ys)).drain.1 ∧
      (∀ zs, xs.Perm zs → Modules.SameSets (run basePath xs) (run basePath zs)) ∧
      ∀ a ∈ xs, (((ofBasePath basePath).harvestAll xs).harvest a).2.found =
        ((ofBasePath basePath).harvestAll xs).found := by
  have hxy : ∀ a ∈ xs ++ ys, a.WellFormed := fun a ha =>
    (List.mem_append.mp ha).elim (hx a) (hy a)
  refine ⟨?_, ?_, ?_, fun a ha => found_harvest_again _ hx ha⟩
  · show Modules.merge [] (run basePath xs) = _
    rw [run_eq basePath hx, Modules.merge_foldl_merge]
  · show _ = (Modules.merge [] (run basePath xs)).merge (run basePath ys)
    rw [run_eq basePath hxy, run_eq basePath hx, run_eq basePath hy, List.flatMap_append,
      List.foldl_append, Modules.merge_foldl_merge, Modules.merge_foldl_merge]
  · intro zs hperm
    have hz : ∀ a ∈ zs, a.WellFormed := fun a ha => hx a (hperm.mem_iff.mpr ha)
    rw [run_eq basePath hx, run_eq basePath hz]
    refine Modules.sameSets_foldl_merge ?_ ?_
    · intro x hxs
      obtain ⟨a, -, ha⟩ := List.mem_flatMap.mp hxs
      exact nodup_names_of_mem_treeFindings ha
    · intro x
      simp only [List.mem_flatMap, hperm.mem_iff]

theorem run_append_eq_merge_two :
    run "" [.ofTree (oneTest "FooCheck" "\"format\"" "\"x\""),
        .ofTree (oneTest "FooCheck" "\"max\"" "\"3\"")] =
      [("FooCheck", [⟨"format", "x"⟩, ⟨"max", "3"⟩])] := by
  have hx : ∀ a ∈ [Arena.ofTree (oneTest "FooCheck" "\"format\"" "\"x\"")], a.WellFormed :=
    List.forall_mem_singleton.mpr (Arena.wellFormed_ofTree _)
  have hy : ∀ a ∈ [Arena.ofTree (oneTest "FooCheck" "\"max\"" "\"3\"")], a.WellFormed :=
    List.forall_mem_singleton.mpr (Arena.wellFormed_ofTree _)
  obtain ⟨-, happend, -, -⟩ := run_append_eq_merge "" hx hy
  refine happend.trans ?_
  decide +kernel

end Harvester

end PropertyHarvest
