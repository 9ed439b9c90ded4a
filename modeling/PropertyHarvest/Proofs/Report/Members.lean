/-
# What the JSON report tells

The text of a report is read back as the modules in their order, each with its
properties in ascending order (`ScanReport.read?_json`).  Nothing else of a
report is in the text, and nothing of that is lost: two reports have the same
text just when they name the same modules in the same order with the same
properties, in whatever order these were found.

The modules keep their order and are not sorted.  That no module is named twice is not
assumed: a member may be repeated in a JSON object, and it is then read back twice.
Numbers of files and failures are not in this text.

What a reader of the text learns is exactly what decides it: the modules in order, and
of each the set of its properties.  The order in which the properties were found is
lost on purpose, and so is everything else that a scan knows.
-/
import Mathlib.Data.List.Forall2
import PropertyHarvest.Proofs.Discovery.Order
import PropertyHarvest.Proofs.Json.RoundTrip
import PropertyHarvest.Report

namespace PropertyHarvest

/-! ## The order of properties -/

namespace Property

/-- The strict order by name, then by value, both by their bytes. -/
def Precedes (p q : Property) : Prop :=
  bytes p.name < bytes q.name ∨ p.name = q.name ∧ bytes p.value < bytes q.value

theorem le_iff {p q : Property} :
    le p q = true ↔ p.name < q.name ∨ p.name = q.name ∧ p.value ≤ q.value := by
  rw [le]
  split
  · rename_i he
    rw [decide_eq_true_iff, he]
    exact ⟨fun h => .inr ⟨rfl, h⟩, fun h => h.elim (fun hlt => absurd hlt (lt_irrefl _)) (·.2)⟩
  · rename_i hne
    rw [decide_eq_true_iff]
    exact ⟨fun h => .inl (lt_of_le_of_ne h hne), fun h => h.elim le_of_lt fun he => absurd he.1 hne⟩

theorem le_trans (p q r : Property) (hpq : le p q = true) (hqr : le q r = true) :
    le p r = true := by
  rw [le_iff] at hpq hqr ⊢
  rcases hpq with hpq | ⟨hpq, hv⟩ <;> rcases hqr with hqr | ⟨hqr, hw⟩
  · exact .inl (lt_trans hpq hqr)
  · exact .inl (hqr ▸ hpq)
  · exact .inl (hpq ▸ hqr)
  · exact .inr ⟨hpq.trans hqr, hv.trans hw⟩

theorem le_total (p q : Property) : (le p q || le q p) = true := by
  rw [Bool.or_eq_true, le_iff, le_iff]
  rcases lt_trichotomy p.name q.name with h | h | h
  · exact .inl (.inl h)
  · exact (Std.le_total (a := p.value) (b := q.value)).imp (fun hv => .inr ⟨h, hv⟩)
      fun hv => .inr ⟨h.symm, hv⟩
  · exact .inr (.inl h)

theorem precedes_of_le {p q : Property} (h : le p q = true) (hne : p ≠ q) : p.Precedes q := by
  rcases le_iff.mp h with hlt | ⟨hname, hvalue⟩
  · exact .inl (bytes_lt hlt)
  · refine .inr ⟨hname, bytes_lt (lt_of_le_of_ne hvalue fun hv => hne ?_)⟩
    cases p
    cases q
    cases hname
    cases hv
    rfl

theorem le_antisymm {p q : Property} (hpq : le p q = true) (hqp : le q p = true) : p = q := by
  rw [le_iff] at hpq hqp
  rcases hpq with hlt | ⟨hname, hvalue⟩ <;> rcases hqp with hlt' | ⟨hname', hvalue'⟩
  · exact absurd hlt' (lt_asymm hlt)
  · exact absurd hlt (hname' ▸ lt_irrefl _)
  · exact absurd hlt' (hname ▸ lt_irrefl _)
  · cases p
    cases q
    cases hname
    cases Std.le_antisymm hvalue hvalue'
    rfl

theorem sort_perm (ps : List Property) : (sort ps).Perm ps :=
  List.mergeSort_perm ps le

theorem pairwise_le_sort (ps : List Property) : (sort ps).Pairwise fun p q => le p q = true :=
  List.pairwise_mergeSort le_trans le_total ps

theorem pairwise_precedes_sort {ps : List Property} (h : ps.Nodup) :
    (sort ps).Pairwise Precedes := by
  have hnodup : (sort ps).Nodup := (sort_perm ps).nodup_iff.mpr h
  exact ((pairwise_le_sort ps).and hnodup).imp fun h => precedes_of_le h.1 h.2

theorem sort_eq_sort_iff {ps qs : List Property} : sort ps = sort qs ↔ ps.Perm qs := by
  constructor
  · intro h
    exact (sort_perm ps).symm.trans (h ▸ sort_perm qs)
  · intro h
    refine List.Perm.eq_of_pairwise (fun _ _ _ _ => le_antisymm) (pairwise_le_sort ps)
      (pairwise_le_sort qs) ?_
    exact (sort_perm ps).trans (h.trans (sort_perm qs).symm)

/-! ## Reading the members back -/

def ofJson? : Json → Option Property
  | .obj [(some "name", .str (some name)), (some "value", .str (some value))] => some ⟨name, value⟩
  | _ => none

theorem ofJson?_toJson (p : Property) : ofJson? p.toJson = some p := rfl

theorem textual_toJson (p : Property) : p.toJson.Textual := by
  refine .obj fun m hm => ?_
  rcases List.mem_pair.mp hm with rfl | rfl
  · exact .text p.name
  · exact .text p.value

end Property

namespace Modules

/-- The module that a member tells, with its properties in the order of the
member. -/
def entryOfJson? : Option String × Json → Option (String × List Property)
  | (some module, .arr items) => (items.mapM Property.ofJson?).map (module, ·)
  | _ => none

def ofJson? : Json → Option Modules
  | .obj members => members.mapM entryOfJson?
  | _ => none

def sorted (ms : Modules) : Modules :=
  ms.map fun (module, ps) => (module, Property.sort ps)

theorem entryOfJson?_toJson (module : String) (ps : List Property) :
    entryOfJson? (some module, .arr (ps.map Property.toJson)) = some (module, ps) := by
  have hread : (Property.ofJson? ∘ Property.toJson) = fun p => pure (id p) :=
    funext Property.ofJson?_toJson
  rw [entryOfJson?, List.mapM_map, hread, List.mapM_pure, List.map_id]
  rfl

theorem ofJson?_toJson (ms : Modules) : ofJson? ms.toJson = some ms.sorted := by
  have hread : (fun e : String × List Property => entryOfJson?
      (some e.1, .arr ((Property.sort e.2).map Property.toJson))) =
        fun e => pure (e.1, Property.sort e.2) :=
    funext fun e => entryOfJson?_toJson e.1 (Property.sort e.2)
  show List.mapM entryOfJson? (List.map _ (List.map _ ms)) = some (List.map _ ms)
  rw [List.map_map, List.mapM_map]
  show List.mapM (fun e : String × List Property => entryOfJson?
    (some e.1, .arr ((Property.sort e.2).map Property.toJson))) ms = _
  rw [hread, List.mapM_pure]
  rfl

theorem textual_toJson (ms : Modules) : ms.toJson.Textual := by
  refine .obj fun m hm => ?_
  obtain ⟨e, -, rfl⟩ := List.mem_map.mp hm
  refine .arr fun v hv => ?_
  obtain ⟨p, -, rfl⟩ := List.mem_map.mp hv
  exact p.textual_toJson

theorem sorted_eq_sorted_iff {ms ns : Modules} :
    ms.sorted = ns.sorted ↔ List.Forall₂ (fun e f => e.1 = f.1 ∧ e.2.Perm f.2) ms ns := by
  have hentry : (fun e f : String × List Property =>
      (e.1, Property.sort e.2) = (f.1, Property.sort f.2)) =
        fun e f => e.1 = f.1 ∧ e.2.Perm f.2 := by
    funext e f
    rw [Prod.mk.injEq, Property.sort_eq_sort_iff]
  rw [← List.forall₂_eq_eq_eq, sorted, sorted, List.forall₂_map_left_iff,
    List.forall₂_map_right_iff, ← hentry]

theorem toJson_eq (ms : Modules) :
    ms.toJson = .ofMembers
      (ms.sorted.map fun (module, ps) => (module, .arr (ps.map Property.toJson))) := by
  rw [sorted, List.map_map]
  rfl

end Modules

/-! ## The text -/

namespace ScanReport

theorem isText_json (r : ScanReport) : Json.IsText r.modules.toJson r.json :=
  Json.isText_pretty r.modules.textual_toJson

theorem read?_json (r : ScanReport) : Json.read? r.json = some r.modules.toJson :=
  Json.read?_pretty r.modules.textual_toJson

theorem json_eq_json_iff {r s : ScanReport} :
    r.json = s.json ↔ r.modules.sorted = s.modules.sorted := by
  constructor
  · intro h
    have hread : Json.read? r.json = Json.read? s.json := congrArg Json.read? h
    rw [read?_json, read?_json] at hread
    have htold := congrArg Modules.ofJson? (Option.some.inj hread)
    rw [Modules.ofJson?_toJson, Modules.ofJson?_toJson] at htold
    exact Option.some.inj htold
  · intro h
    rw [json, json, Modules.toJson_eq, Modules.toJson_eq, h]

/-- The text of a report whose modules have each property once is one of JSON, and
is read back as the modules in their order, each with just its properties in strictly
increasing order.  Another report has the same text just when it has the same
modules in the same order with the same properties. -/
theorem json_faithful (r : ScanReport) (h : ∀ e ∈ r.modules, e.2.Nodup) :
    (∃ v told, Json.IsText v r.json ∧ Json.read? r.json = some v ∧ Modules.ofJson? v = some told ∧
      List.Forall₂ (fun e t => t.1 = e.1 ∧ t.2.Perm e.2 ∧ t.2.Pairwise Property.Precedes)
        r.modules told) ∧
    ∀ s : ScanReport, s.json = r.json ↔
      List.Forall₂ (fun e f => e.1 = f.1 ∧ e.2.Perm f.2) s.modules r.modules := by
  refine ⟨⟨_, _, r.isText_json, r.read?_json, Modules.ofJson?_toJson r.modules, ?_⟩, fun s => ?_⟩
  · refine List.forall₂_map_right_iff.mpr (List.forall₂_same.mpr fun e he => ?_)
    exact ⟨rfl, Property.sort_perm e.2, Property.pairwise_precedes_sort (h e he)⟩
  · rw [json_eq_json_iff, Modules.sorted_eq_sorted_iff]

/-- A report with characters that a text of JSON cannot have as they are. -/
def unusualReport : ScanReport where
  modules := [("\"\\", [⟨"\n", "ü"⟩, ⟨"\x01", "𝄞"⟩, ⟨"\n", "\x7f"⟩]), ("", [])]

theorem json_faithful_unusualReport :
    (∀ e ∈ unusualReport.modules, e.2.Nodup) ∧
    (∃ v told, Json.IsText v unusualReport.json ∧ Json.read? unusualReport.json = some v ∧
      Modules.ofJson? v = some told ∧
      List.Forall₂ (fun e t => t.1 = e.1 ∧ t.2.Perm e.2 ∧ t.2.Pairwise Property.Precedes)
        unusualReport.modules told) ∧
    ∀ s : ScanReport, s.json = unusualReport.json ↔
      List.Forall₂ (fun e f => e.1 = f.1 ∧ e.2.Perm f.2) s.modules unusualReport.modules := by
  have h : ∀ e ∈ unusualReport.modules, e.2.Nodup := by decide
  exact ⟨h, json_faithful unusualReport h⟩

end ScanReport

end PropertyHarvest
