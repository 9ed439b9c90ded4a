/-
# The algebra of merging

Merging is a union on two levels, modules and their properties, and on both
levels the order of first mention is kept.  Three laws say what that comes to:

    acc.merge (x.merge y) = (acc.merge x).merge y    if x names no module twice
    acc.merge x = acc                                if acc covers x
    p ∈ (acc.merge x).propertiesOf m  ↔  p is in acc or in x

The first two are equations of lists, so the order is part of them.

The condition in the first law is needed: where `x` names a module twice, a merge of
`y` into `x` fills the first of the two, and the order of what comes to `acc` is
another one.  Lists that come from merges and additions alone name no module twice
(`nodup_names_merge`), and then each module has its properties once (`Proper`).

That the order of a series of merges decides nothing but orders is said with
`SameSets`, which forgets them.  It is weaker than the equations and follows from the
third law.
-/
import Mathlib.Data.List.Induction
import Mathlib.Data.List.Nodup
import PropertyHarvest.Accumulation

namespace PropertyHarvest

/-! ## Properties of one module -/

theorem mem_insertProperty {ps : List Property} {p q : Property} :
    q ∈ insertProperty ps p ↔ q ∈ ps ∨ q = p := by
  rw [insertProperty]
  split
  · rename_i hp
    constructor
    · exact .inl
    · rintro (h | rfl)
      · exact h
      · exact hp
  · simp

theorem mem_unionProperties {ps qs : List Property} {p : Property} :
    p ∈ unionProperties ps qs ↔ p ∈ ps ∨ p ∈ qs := by
  induction qs generalizing ps with
  | nil => simp [unionProperties]
  | cons q qs ih =>
      show p ∈ unionProperties (insertProperty ps q) qs ↔ _
      rw [ih, mem_insertProperty, List.mem_cons, or_assoc]

theorem unionProperties_append (ps qs rs : List Property) :
    unionProperties ps (qs ++ rs) = unionProperties (unionProperties ps qs) rs :=
  List.foldl_append

theorem unionProperties_singleton (ps : List Property) (p : Property) :
    unionProperties ps [p] = insertProperty ps p := rfl

theorem insertProperty_of_mem {ps : List Property} {p : Property} (h : p ∈ ps) :
    insertProperty ps p = ps :=
  if_pos h

theorem unionProperties_of_subset {ps qs : List Property} (h : ∀ q ∈ qs, q ∈ ps) :
    unionProperties ps qs = ps := by
  induction qs with
  | nil => rfl
  | cons q qs ih =>
      show unionProperties (insertProperty ps q) qs = ps
      rw [insertProperty_of_mem (h q List.mem_cons_self)]
      exact ih fun r hr => h r (List.mem_cons_of_mem _ hr)

theorem unionProperties_insertProperty (ps qs : List Property) (p : Property) :
    unionProperties ps (insertProperty qs p) = insertProperty (unionProperties ps qs) p := by
  by_cases hp : p ∈ qs
  · rw [insertProperty_of_mem hp, insertProperty_of_mem (mem_unionProperties.mpr (.inr hp))]
  · rw [insertProperty, if_neg hp, unionProperties_append, unionProperties_singleton]

theorem unionProperties_union (ps qs rs : List Property) :
    unionProperties ps (unionProperties qs rs) =
      unionProperties (unionProperties ps qs) rs := by
  induction rs generalizing qs with
  | nil => rfl
  | cons r rs ih =>
      show unionProperties ps (unionProperties (insertProperty qs r) rs) =
        unionProperties (insertProperty (unionProperties ps qs) r) rs
      rw [ih, unionProperties_insertProperty]

namespace Modules

def names (ms : Modules) : List String :=
  ms.map Prod.fst

def propertiesOf (ms : Modules) (module : String) : List Property :=
  (ms.lookup module).getD []

/-! ## Adding to one module -/

theorem lookup_cons (m n : String) (qs : List Property) (ms : Modules) :
    List.lookup n ((m, qs) :: ms) = if n = m then some qs else ms.lookup n := by
  by_cases h : n = m
  · subst h
    simp
  · rw [if_neg h, List.lookup_cons, beq_false_of_ne h]

theorem lookup_extend (ms : Modules) (m n : String) (ps : List Property) :
    (ms.extend m ps).lookup n =
      if n = m then some (unionProperties (ms.propertiesOf m) ps) else ms.lookup n := by
  rw [propertiesOf]
  fun_induction extend ms m ps with
  | case1 => simp only [lookup_cons, List.lookup_nil, Option.getD_none]
  | case2 qs rest =>
      simp only [lookup_cons, if_true, Option.getD_some]
      split <;> rfl
  | case3 k qs rest hk ih =>
      have hm : ¬ m = k := fun h => hk h.symm
      rw [lookup_cons, lookup_cons, lookup_cons, ih, if_neg hm]
      by_cases hn : n = k
      · subst hn
        rw [if_pos rfl, if_pos rfl, if_neg hk]
      · rw [if_neg hn, if_neg hn]

theorem mem_propertiesOf_extend {ms : Modules} {m n : String} {ps : List Property} {p : Property} :
    p ∈ (ms.extend m ps).propertiesOf n ↔ p ∈ ms.propertiesOf n ∨ n = m ∧ p ∈ ps := by
  unfold propertiesOf
  rw [lookup_extend]
  by_cases hn : n = m
  · subst hn
    simp [mem_unionProperties, propertiesOf]
  · simp [hn]

theorem names_extend (ms : Modules) (m : String) (ps : List Property) :
    (ms.extend m ps).names = if m ∈ ms.names then ms.names else ms.names ++ [m] := by
  fun_induction extend ms m ps with
  | case1 => rfl
  | case2 qs rest => simp [names]
  | case3 k qs rest hk ih =>
      have hm : ¬ m = k := fun h => hk h.symm
      show k :: names (extend rest m ps) = if m ∈ k :: names rest then _ else _
      rw [ih]
      simp only [List.mem_cons, hm, false_or]
      by_cases hr : m ∈ names rest
      · rw [if_pos hr, if_pos hr]
        rfl
      · rw [if_neg hr, if_neg hr]
        rfl

theorem mem_names_extend {ms : Modules} {m n : String} {ps : List Property} :
    n ∈ (ms.extend m ps).names ↔ n ∈ ms.names ∨ n = m := by
  rw [names_extend]
  split
  · rename_i hm
    constructor
    · exact .inl
    · rintro (h | rfl)
      · exact h
      · exact hm
  · simp

theorem nodup_names_extend {ms : Modules} (h : ms.names.Nodup) (m : String)
    (ps : List Property) : (ms.extend m ps).names.Nodup := by
  rw [names_extend]
  split
  · exact h
  · rename_i hm
    exact List.nodup_append.mpr ⟨h, List.nodup_singleton m, by
      intro x hx y hy he
      exact hm (List.mem_singleton.mp hy ▸ he ▸ hx)⟩

theorem extend_extend (ms : Modules) (m : String) (ps qs : List Property) :
    (ms.extend m ps).extend m qs = ms.extend m (unionProperties ps qs) := by
  fun_induction extend ms m ps with
  | case1 => simp only [extend, if_true, unionProperties_union]
  | case2 rs rest => simp only [extend, if_true, unionProperties_union]
  | case3 k rs rest hk ih => simp only [extend, if_neg hk, ih]

theorem extend_unionProperties_nil (ms : Modules) (m : String) (ps : List Property) :
    ms.extend m (unionProperties [] ps) = ms.extend m ps := by
  induction ms with
  | nil =>
      show [(m, unionProperties [] (unionProperties [] ps))] = _
      rw [unionProperties_union]
      rfl
  | cons e rest ih =>
      obtain ⟨k, qs⟩ := e
      by_cases hk : k = m
      · rw [extend, if_pos hk, extend, if_pos hk, unionProperties_union]
        rfl
      · rw [extend, if_neg hk, extend, if_neg hk, ih]

/-- Additions to different modules commute if one of them names nothing new. -/
theorem extend_comm {ms : Modules} {m n : String} (hne : m ≠ n) (hm : m ∈ ms.names)
    (ps qs : List Property) :
    (ms.extend n qs).extend m ps = (ms.extend m ps).extend n qs := by
  induction ms with
  | nil => cases hm
  | cons e rest ih =>
      obtain ⟨k, rs⟩ := e
      by_cases hkm : k = m
      · subst hkm
        rw [extend, if_neg hne, extend, if_pos rfl, extend, if_pos rfl, extend, if_neg hne]
      · have hrest : m ∈ Modules.names rest := by
          rcases List.mem_cons.mp hm with h | h
          · exact absurd h.symm hkm
          · exact h
        by_cases hkn : k = n
        · subst hkn
          rw [extend, if_pos rfl, extend, if_neg hkm, extend, if_neg hkm, extend, if_pos rfl]
        · rw [extend, if_neg hkn, extend, if_neg hkm, ih hrest, extend, if_neg hkm, extend,
            if_neg hkn]

/-! ## Merging -/

theorem merge_cons (acc : Modules) (m : String) (ps : List Property) (new : Modules) :
    acc.merge ((m, ps) :: new) = (acc.extend m ps).merge new := rfl

theorem mem_names_merge {acc new : Modules} {n : String} :
    n ∈ (acc.merge new).names ↔ n ∈ acc.names ∨ n ∈ new.names := by
  induction new generalizing acc with
  | nil => simp [merge, names]
  | cons e new ih =>
      obtain ⟨m, ps⟩ := e
      rw [merge_cons, ih, mem_names_extend, or_assoc]
      simp [names]

theorem nodup_names_merge {acc : Modules} (h : acc.names.Nodup) (new : Modules) :
    (acc.merge new).names.Nodup := by
  induction new generalizing acc with
  | nil => exact h
  | cons e new ih => exact ih (nodup_names_extend h e.1 e.2)

theorem propertiesOf_cons (m n : String) (ps : List Property) (ms : Modules) :
    propertiesOf ((m, ps) :: ms) n = if n = m then ps else ms.propertiesOf n := by
  rw [propertiesOf]
  rw [lookup_cons]
  split <;> rfl

theorem propertiesOf_of_not_mem {ms : Modules} {m : String} (h : m ∉ ms.names) :
    ms.propertiesOf m = [] := by
  induction ms with
  | nil => rfl
  | cons e ms ih =>
      obtain ⟨k, ps⟩ := e
      obtain ⟨hk, hms⟩ := not_or.mp fun hm => h (List.mem_cons.mpr hm)
      rw [propertiesOf_cons, if_neg hk, ih hms]

theorem mem_propertiesOf_merge {acc new : Modules} (hn : new.names.Nodup) {m : String}
    {p : Property} :
    p ∈ (acc.merge new).propertiesOf m ↔ p ∈ acc.propertiesOf m ∨ p ∈ new.propertiesOf m := by
  induction new generalizing acc with
  | nil => simp [merge, propertiesOf]
  | cons e new ih =>
      obtain ⟨k, ps⟩ := e
      obtain ⟨hk, hnew⟩ := List.nodup_cons.mp hn
      rw [merge_cons, ih hnew, mem_propertiesOf_extend, propertiesOf_cons, or_assoc]
      by_cases hm : m = k
      · subst hm
        simp [propertiesOf_of_not_mem hk]
      · simp [hm]

/-- What is added to a module that stands already can be added before or after
others. -/
theorem merge_extend_of_not_mem {acc new : Modules} {m : String} (hm : m ∈ acc.names)
    (hnew : m ∉ new.names) (ps : List Property) :
    (acc.merge new).extend m ps = (acc.extend m ps).merge new := by
  induction new generalizing acc with
  | nil => rfl
  | cons e new ih =>
      obtain ⟨k, qs⟩ := e
      obtain ⟨hk, hrest⟩ := not_or.mp fun h => hnew (List.mem_cons.mpr h)
      rw [merge_cons, merge_cons, ih (mem_names_extend.mpr (.inl hm)) hrest, extend_comm hk hm]

theorem merge_extend {new : Modules} (hn : new.names.Nodup) (acc : Modules) (m : String)
    (ps : List Property) : acc.merge (new.extend m ps) = (acc.merge new).extend m ps := by
  induction new generalizing acc with
  | nil => exact extend_unionProperties_nil acc m ps
  | cons e new ih =>
      obtain ⟨k, qs⟩ := e
      obtain ⟨hk, hnew⟩ := List.nodup_cons.mp hn
      by_cases hm : k = m
      · subst hm
        rw [extend, if_pos rfl, merge_cons, merge_cons,
          merge_extend_of_not_mem (mem_names_extend.mpr (.inr rfl)) hk, extend_extend]
      · rw [extend, if_neg hm, merge_cons, merge_cons, ih hnew]

theorem merge_merge {new : Modules} (hn : new.names.Nodup) (acc more : Modules) :
    acc.merge (new.merge more) = (acc.merge new).merge more := by
  induction more generalizing new with
  | nil => rfl
  | cons e more ih =>
      obtain ⟨m, ps⟩ := e
      rw [merge_cons, merge_cons, ih (nodup_names_extend hn m ps), merge_extend hn]

/-! ## Merging again -/

/-- Everything that `new` holds is in `acc` already. -/
def Covers (acc new : Modules) : Prop :=
  ∀ m ps, (m, ps) ∈ new → m ∈ acc.names ∧ ∀ p ∈ ps, p ∈ acc.propertiesOf m

theorem extend_of_covers {acc : Modules} {m : String} {ps : List Property} (hm : m ∈ acc.names)
    (hp : ∀ p ∈ ps, p ∈ acc.propertiesOf m) : acc.extend m ps = acc := by
  induction acc with
  | nil => cases hm
  | cons e rest ih =>
      obtain ⟨k, qs⟩ := e
      simp only [propertiesOf_cons] at hp
      by_cases hk : k = m
      · subst hk
        rw [if_pos rfl] at hp
        rw [extend, if_pos rfl, unionProperties_of_subset hp]
      · have hmk : ¬ m = k := fun h => hk h.symm
        rw [if_neg hmk] at hp
        have hrest : m ∈ names rest := by
          rcases List.mem_cons.mp hm with h | h
          · exact absurd h hmk
          · exact h
        rw [extend, if_neg hk, ih hrest hp]

theorem merge_of_covers {acc new : Modules} (h : Covers acc new) : acc.merge new = acc := by
  induction new with
  | nil => rfl
  | cons e new ih =>
      obtain ⟨m, ps⟩ := e
      obtain ⟨hm, hp⟩ := h m ps List.mem_cons_self
      rw [merge_cons, extend_of_covers hm hp]
      exact ih fun n qs hn => h n qs (List.mem_cons_of_mem _ hn)

theorem Covers.extend {acc new : Modules} (h : Covers acc new) (m : String)
    (ps : List Property) : Covers (acc.extend m ps) new := by
  intro n qs hn
  obtain ⟨hnames, hps⟩ := h n qs hn
  exact ⟨mem_names_extend.mpr (.inl hnames),
    fun p hp => mem_propertiesOf_extend.mpr (.inl (hps p hp))⟩

theorem Covers.merge {acc new : Modules} (h : Covers acc new) (more : Modules) :
    Covers (acc.merge more) new := by
  induction more generalizing acc with
  | nil => exact h
  | cons e more ih => exact ih (h.extend e.1 e.2)

theorem covers_merge_self (acc new : Modules) : Covers (acc.merge new) new := by
  induction new generalizing acc with
  | nil => exact fun _ _ h => absurd h List.not_mem_nil
  | cons e new ih =>
      obtain ⟨m, ps⟩ := e
      rw [merge_cons]
      intro n qs hn
      rcases List.mem_cons.mp hn with he | hn
      · obtain ⟨rfl, rfl⟩ := Prod.mk.inj he
        have h : Covers (acc.extend n qs) [(n, qs)] := by
          intro k rs hk
          obtain ⟨rfl, rfl⟩ := Prod.mk.inj (List.mem_singleton.mp hk)
          exact ⟨mem_names_extend.mpr (.inr rfl),
            fun p hp => mem_propertiesOf_extend.mpr (.inr ⟨rfl, hp⟩)⟩
        exact h.merge new n qs List.mem_cons_self
      · exact ih _ n qs hn

/-! ## No module is empty

A module is named because it has a property, so every module has one.  -/

theorem nodup_insertProperty {ps : List Property} (h : ps.Nodup) (p : Property) :
    (insertProperty ps p).Nodup := by
  rw [insertProperty]
  split
  · exact h
  · rename_i hp
    exact List.nodup_append.mpr ⟨h, List.nodup_singleton p, by
      intro x hx y hy he
      exact hp (List.mem_singleton.mp hy ▸ he ▸ hx)⟩

theorem nodup_unionProperties {ps : List Property} (h : ps.Nodup) (qs : List Property) :
    (unionProperties ps qs).Nodup := by
  induction qs generalizing ps with
  | nil => exact h
  | cons q qs ih => exact ih (nodup_insertProperty h q)

/-- No module is named twice, and each has properties, each of them once. -/
structure Proper (ms : Modules) : Prop where
  nodup_names : ms.names.Nodup
  ne_nil : ∀ m ps, (m, ps) ∈ ms → ps ≠ []
  nodup : ∀ m ps, (m, ps) ∈ ms → ps.Nodup

theorem Proper.nil : Proper [] where
  nodup_names := List.nodup_nil
  ne_nil := fun _ _ h => absurd h List.not_mem_nil
  nodup := fun _ _ h => absurd h List.not_mem_nil

theorem of_mem_extend {ms : Modules} {m n : String} {ps qs : List Property}
    (h : (n, qs) ∈ ms.extend m ps) :
    (n, qs) ∈ ms ∨ n = m ∧ ∃ rs, (rs = [] ∨ (m, rs) ∈ ms) ∧ qs = unionProperties rs ps := by
  fun_induction extend ms m ps with
  | case1 =>
      cases List.mem_singleton.mp h
      exact .inr ⟨rfl, [], .inl rfl, rfl⟩
  | case2 rs rest =>
      rcases List.mem_cons.mp h with he | h
      · cases he
        exact .inr ⟨rfl, rs, .inr List.mem_cons_self, rfl⟩
      · exact .inl (List.mem_cons_of_mem _ h)
  | case3 k rs rest hk ih =>
      rcases List.mem_cons.mp h with he | h
      · cases he
        exact .inl List.mem_cons_self
      · rcases ih h with h | ⟨rfl, ts, hts, he⟩
        · exact .inl (List.mem_cons_of_mem _ h)
        · exact .inr ⟨rfl, ts, hts.imp id (List.mem_cons_of_mem _), he⟩

theorem Proper.extend {ms : Modules} (h : ms.Proper) (m : String) {ps : List Property}
    (hps : ps ≠ []) : (ms.extend m ps).Proper where
  nodup_names := nodup_names_extend h.nodup_names m ps
  ne_nil := by
    intro n qs hn
    rcases of_mem_extend hn with hn | ⟨-, rs, -, rfl⟩
    · exact h.ne_nil n qs hn
    · obtain ⟨p, hp⟩ := List.exists_mem_of_ne_nil ps hps
      exact List.ne_nil_of_mem (mem_unionProperties.mpr (.inr hp))
  nodup := by
    intro n qs hn
    rcases of_mem_extend hn with hn | ⟨-, rs, hrs, rfl⟩
    · exact h.nodup n qs hn
    · refine nodup_unionProperties ?_ ps
      rcases hrs with rfl | hrs
      · exact List.nodup_nil
      · exact h.nodup m rs hrs

theorem Proper.merge {acc new : Modules} (h : acc.Proper) (hn : new.Proper) :
    (acc.merge new).Proper := by
  have each : ∀ m ps, (m, ps) ∈ new → ps ≠ [] := hn.ne_nil
  clear hn
  induction new generalizing acc with
  | nil => exact h
  | cons e new ih =>
      obtain ⟨m, ps⟩ := e
      rw [merge_cons]
      refine ih (h.extend m (each m ps List.mem_cons_self)) fun n qs hmem => ?_
      exact each n qs (List.mem_cons_of_mem _ hmem)

/-! ## Merging a series

`L.foldl merge acc` merges the findings of a series of methods. -/

theorem nodup_names_foldl_merge {acc : Modules} (h : acc.names.Nodup) (L : List Modules) :
    (L.foldl merge acc).names.Nodup := by
  induction L generalizing acc with
  | nil => exact h
  | cons x L ih => exact ih (nodup_names_merge h x)

theorem mem_names_foldl_merge {acc : Modules} {L : List Modules} {n : String} :
    n ∈ (L.foldl merge acc).names ↔ n ∈ acc.names ∨ ∃ x ∈ L, n ∈ x.names := by
  induction L generalizing acc with
  | nil => simp
  | cons x L ih =>
      rw [List.foldl_cons, ih, mem_names_merge, or_assoc]
      simp

theorem mem_propertiesOf_foldl_merge {acc : Modules} {L : List Modules}
    (hL : ∀ x ∈ L, x.names.Nodup) {m : String} {p : Property} :
    p ∈ (L.foldl merge acc).propertiesOf m ↔
      p ∈ acc.propertiesOf m ∨ ∃ x ∈ L, p ∈ x.propertiesOf m := by
  induction L generalizing acc with
  | nil => simp
  | cons x L ih =>
      rw [List.foldl_cons, ih fun y hy => hL y (List.mem_cons_of_mem _ hy),
        mem_propertiesOf_merge (hL x List.mem_cons_self), or_assoc]
      simp

theorem merge_foldl_merge (acc : Modules) {L : List Modules} :
    acc.merge (L.foldl merge []) = L.foldl merge acc := by
  induction L using List.reverseRecOn with
  | nil => rfl
  | append_singleton L x ih =>
      have hempty : (names []).Nodup := List.nodup_nil
      have hn : (L.foldl merge []).names.Nodup := nodup_names_foldl_merge hempty L
      rw [List.foldl_append, List.foldl_append, List.foldl_cons, List.foldl_nil, List.foldl_cons,
        List.foldl_nil, merge_merge hn, ih]

theorem covers_foldl_merge {acc x : Modules} {L : List Modules} (hx : x ∈ L) :
    Covers (L.foldl merge acc) x := by
  induction L generalizing acc with
  | nil => cases hx
  | cons y L ih =>
      rcases List.mem_cons.mp hx with rfl | hx
      · have keep : ∀ (L : List Modules) (acc : Modules), Covers acc x →
            Covers (L.foldl merge acc) x := by
          intro L
          induction L with
          | nil => exact fun _ h => h
          | cons z L ih => exact fun acc h => ih _ (h.merge z)
        exact keep L _ (covers_merge_self acc x)
      · exact ih hx

theorem foldl_merge_of_covers {acc : Modules} {L : List Modules} (h : ∀ x ∈ L, Covers acc x) :
    L.foldl merge acc = acc := by
  induction L with
  | nil => rfl
  | cons x L ih =>
      rw [List.foldl_cons, merge_of_covers (h x List.mem_cons_self)]
      exact ih fun y hy => h y (List.mem_cons_of_mem _ hy)

/-- The same map from modules to sets of properties, whatever the orders. -/
def SameSets (ms ns : Modules) : Prop :=
  (∀ m, m ∈ ms.names ↔ m ∈ ns.names) ∧ ∀ m p, p ∈ ms.propertiesOf m ↔ p ∈ ns.propertiesOf m

/-- The order in which a series is merged decides the orders only. -/
theorem sameSets_foldl_merge {L K : List Modules} (hL : ∀ x ∈ L, x.names.Nodup)
    (h : ∀ x, x ∈ L ↔ x ∈ K) : SameSets (L.foldl merge []) (K.foldl merge []) := by
  have hK : ∀ x ∈ K, x.names.Nodup := fun x hx => hL x ((h x).mpr hx)
  constructor
  · intro m
    simp only [mem_names_foldl_merge, h]
  · intro m p
    simp only [mem_propertiesOf_foldl_merge hL, mem_propertiesOf_foldl_merge hK, h]

end Modules

namespace Accumulation

theorem modules_foldl_merge (acc : Accumulation) (L : List Modules) :
    (L.foldl merge acc).modules = L.foldl Modules.merge acc.modules := by
  induction L generalizing acc with
  | nil => rfl
  | cons x L ih => exact ih (acc.merge x)

theorem foldl_merge_of_covers {acc : Accumulation} {L : List Modules}
    (h : ∀ x ∈ L, Modules.Covers acc.modules x) : L.foldl merge acc = acc := by
  have hm : (L.foldl merge acc).modules = acc.modules := by
    rw [modules_foldl_merge, Modules.foldl_merge_of_covers h]
  exact congrArg Accumulation.mk hm

end Accumulation

end PropertyHarvest
