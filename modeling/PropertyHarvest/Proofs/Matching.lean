/-
# Lists whose members match

Two lists of which the members match one by one (`List.Forall₂`).  What is
chosen from the one is chosen from the other if the choice makes no difference
between members that match.

The last part is about computations in steps that can be refused, of which the same is
true: a series of steps has results that match its members, or the refusal of the
first that has none.

Each of these facts is about two lists at once, and that is how two trees are compared
in this project: a file and the file with comments, a tree and the same tree on other
lines, the modules of a report and what is told of them.
-/
import Mathlib.Data.List.Forall2

namespace PropertyHarvest

variable {α β γ : Type} {R : α → β → Prop} {xs : List α} {ys : List β}

/-! ## Choosing members -/

/-- A choice of members that is made alike in both lists. -/
theorem forall₂_filter {p : α → Bool} {q : β → Bool} (h : List.Forall₂ R xs ys)
    (hp : ∀ x y, R x y → q y = p x) : List.Forall₂ R (xs.filter p) (ys.filter q) := by
  induction h with
  | nil => exact .nil
  | @cons x y xs ys head _ ih =>
      rw [List.filter_cons, List.filter_cons, hp x y head]
      split
      · exact .cons head ih
      · exact ih

theorem forall₂_find? {p : α → Bool} {q : β → Bool} (h : List.Forall₂ R xs ys)
    (hp : ∀ x y, R x y → q y = p x) : Option.Rel R (xs.find? p) (ys.find? q) := by
  induction h with
  | nil => exact .none
  | @cons x y xs ys head _ ih =>
      rw [List.find?_cons, List.find?_cons, hp x y head]
      split
      · exact .some head
      · exact ih

theorem forall₂_getElem? (h : List.Forall₂ R xs ys) (i : Nat) : Option.Rel R xs[i]? ys[i]? := by
  induction h generalizing i with
  | nil => exact .none
  | cons head _ ih =>
      cases i with
      | zero => exact .some head
      | succ i => exact ih i

theorem forall₂_head? (h : List.Forall₂ R xs ys) : Option.Rel R xs.head? ys.head? := by
  cases h with
  | nil => exact .none
  | cons head _ => exact .some head

theorem forall₂_getLast (h : List.Forall₂ R xs ys) (hx : xs ≠ []) (hy : ys ≠ []) :
    R (xs.getLast hx) (ys.getLast hy) := by
  induction h with
  | nil => exact absurd rfl hx
  | cons head tail ih =>
      cases tail with
      | nil => exact head
      | cons => exact ih (List.cons_ne_nil _ _) (List.cons_ne_nil _ _)

theorem forall₂_getLast? (h : List.Forall₂ R xs ys) : Option.Rel R xs.getLast? ys.getLast? := by
  rw [← List.head?_reverse, ← List.head?_reverse]
  exact forall₂_head? (List.forall₂_reverse_iff.mpr h)

theorem isEmpty_of_forall₂ (h : List.Forall₂ R xs ys) : ys.isEmpty = xs.isEmpty := by
  cases h with
  | nil => rfl
  | cons => rfl

/-! ## Reading members -/

theorem flatMap_eq_of_forall₂ {f : α → List γ} {g : β → List γ} (h : List.Forall₂ R xs ys)
    (hf : ∀ x ∈ xs, ∀ y, R x y → g y = f x) : ys.flatMap g = xs.flatMap f := by
  induction h with
  | nil => rfl
  | @cons x y xs ys head _ ih =>
      have htail := ih fun z hz => hf z (List.mem_cons_of_mem _ hz)
      rw [List.flatMap_cons, List.flatMap_cons, hf x List.mem_cons_self y head, htail]

theorem map_eq_of_forall₂ {f : α → γ} {g : β → γ} (h : List.Forall₂ R xs ys)
    (hf : ∀ x ∈ xs, ∀ y, R x y → g y = f x) : ys.map g = xs.map f := by
  rw [List.map_eq_flatMap, List.map_eq_flatMap]
  exact flatMap_eq_of_forall₂ h fun x hx y hxy => by rw [hf x hx y hxy]

/-- What is made of members that match, which are all the first list has. -/
theorem forall₂_map {δ : Type} {S : γ → δ → Prop} {f : α → γ} {g : β → δ} (h : List.Forall₂ R xs ys)
    (hf : ∀ x ∈ xs, ∀ y, R x y → S (f x) (g y)) : List.Forall₂ S (xs.map f) (ys.map g) := by
  induction h with
  | nil => exact .nil
  | @cons x y xs ys head _ ih =>
      exact .cons (hf x List.mem_cons_self y head) (ih fun z hz => hf z (List.mem_cons_of_mem _ hz))

theorem forall₂_imp_of_mem {S : α → β → Prop} (h : List.Forall₂ R xs ys)
    (hf : ∀ x ∈ xs, ∀ y ∈ ys, R x y → S x y) : List.Forall₂ S xs ys := by
  induction h with
  | nil => exact .nil
  | @cons x y xs ys head _ ih =>
      refine .cons (hf x List.mem_cons_self y List.mem_cons_self head) (ih ?_)
      exact fun z hz w hw => hf z (List.mem_cons_of_mem _ hz) w (List.mem_cons_of_mem _ hw)

theorem forall₂_flatMap {δ : Type} {S : γ → δ → Prop} {f : α → List γ} {g : β → List δ}
    (h : List.Forall₂ R xs ys) (hf : ∀ x ∈ xs, ∀ y, R x y → List.Forall₂ S (f x) (g y)) :
    List.Forall₂ S (xs.flatMap f) (ys.flatMap g) := by
  induction h with
  | nil => exact .nil
  | @cons x y xs ys head _ ih =>
      rw [List.flatMap_cons, List.flatMap_cons]
      exact List.rel_append (hf x List.mem_cons_self y head)
        (ih fun z hz => hf z (List.mem_cons_of_mem _ hz))

theorem any_eq_of_forall₂ {p : α → Bool} {q : β → Bool} (h : List.Forall₂ R xs ys)
    (hp : ∀ x y, R x y → q y = p x) : ys.any q = xs.any p := by
  induction h with
  | nil => rfl
  | @cons x y xs ys head _ ih => rw [List.any_cons, List.any_cons, hp x y head, ih]

theorem exists_mem_of_forall₂ (h : List.Forall₂ R xs ys) {y : β} (hy : y ∈ ys) :
    ∃ x ∈ xs, R x y := by
  induction h with
  | nil => exact absurd hy List.not_mem_nil
  | cons head _ ih =>
      rcases List.mem_cons.mp hy with rfl | hy
      · exact ⟨_, List.mem_cons_self, head⟩
      · obtain ⟨x, hx, hxy⟩ := ih hy
        exact ⟨x, List.mem_cons_of_mem _ hx, hxy⟩

/-! ## Making members -/

theorem exists_ok_of_bind {ε α β : Type} {x : Except ε α} {f : α → Except ε β} {v : β}
    (h : x >>= f = .ok v) : ∃ u, x = .ok u ∧ f u = .ok v := by
  cases x with
  | error e => cases h
  | ok u => exact ⟨u, rfl, h⟩

/-- A computation in steps is refused by its first step or by what follows. -/
theorem error_cases_of_bind {ε α β : Type} {x : Except ε α} {f : α → Except ε β} {e : ε}
    (h : x >>= f = .error e) : x = .error e ∨ ∃ u, x = .ok u ∧ f u = .error e := by
  cases x with
  | error e' =>
      cases h
      exact .inl rfl
  | ok u => exact .inr ⟨u, rfl, h⟩

theorem forall₂_of_mapM {ε : Type} {f : α → Except ε β} (h : xs.mapM f = .ok ys) :
    List.Forall₂ (fun x y => f x = .ok y) xs ys := by
  induction xs generalizing ys with
  | nil =>
      cases h
      exact .nil
  | cons x xs ih =>
      rw [List.mapM_cons] at h
      obtain ⟨y, hy, h⟩ := exists_ok_of_bind h
      obtain ⟨zs, hzs, h⟩ := exists_ok_of_bind h
      cases h
      exact .cons hy (ih hzs)

theorem mapM_of_forall₂ {ε : Type} {f : α → Except ε β}
    (h : List.Forall₂ (fun x y => f x = .ok y) xs ys) : xs.mapM f = .ok ys := by
  induction h with
  | nil => rfl
  | cons head _ ih =>
      rw [List.mapM_cons, head, ih]
      rfl

/-- The first member of which nothing can be made ends the making. -/
theorem mapM_of_first_error {ε : Type} {f : α → Except ε β} {before after : List α} {x : α} {e : ε}
    (made : ∀ y ∈ before, ∃ v, f y = .ok v) (hx : f x = .error e) :
    (before ++ x :: after).mapM f = .error e := by
  induction before with
  | nil =>
      rw [List.nil_append, List.mapM_cons, hx]
      rfl
  | cons y before ih =>
      obtain ⟨⟨v, hv⟩, hbefore⟩ := List.forall_mem_cons.mp made
      rw [List.cons_append, List.mapM_cons, hv, ih hbefore]
      rfl

/-! ## At most one member -/

variable {o : Option α} {o' : Option β}

theorem cases_of_rel (h : Option.Rel R o o') :
    o = none ∧ o' = none ∨ ∃ x y, o = some x ∧ o' = some y ∧ R x y := by
  cases h with
  | none => exact .inl ⟨rfl, rfl⟩
  | some hr => exact .inr ⟨_, _, rfl, rfl, hr⟩

theorem forall₂_toList (h : Option.Rel R o o') : List.Forall₂ R o.toList o'.toList := by
  cases h with
  | none => exact .nil
  | some hr => exact .cons hr .nil

theorem bind_eq_of_rel {f : α → Option γ} {g : β → Option γ} (h : Option.Rel R o o')
    (hf : ∀ x y, R x y → g y = f x) : o'.bind g = o.bind f := by
  cases h with
  | none => rfl
  | some hr => exact hf _ _ hr

end PropertyHarvest
