/-
# Runs of a walk

The steps of a walk are taken one after the other, so what a list of steps does
is what its parts do in turn (`run_append`).  With it the walk below one node
follows the tree: visit the node, walk below its children, leave the node
(`run_enter`).

What one step does with a state is done by a whole run as well: if no visit
refuses, no run does (`run_fst`); if every step leaves a part of the state
unread, so does a run (`Uniform.run`); if two checks go in step with each other
over nodes that correspond, so do their runs (`Simulates.run`).

An induction on the steps does not do for these, because a visit puts the children in
front of what is left.  It is on the weight of the steps, or along the recursion of
`run` itself.
-/
import Mathlib.Data.List.Forall2
import PropertyHarvest.Walk

namespace PropertyHarvest.Check

variable {σ : Type} {a : Arena}

/-- Goes on unless something was refused. -/
def andThen (r : Except ProcessError Unit × σ) (next : σ → Except ProcessError Unit × σ) :
    Except ProcessError Unit × σ :=
  match r with
  | (.ok (), s) => next s
  | (.error e, s) => (.error e, s)

@[simp] theorem andThen_ok (s : σ) (next : σ → Except ProcessError Unit × σ) :
    andThen (.ok (), s) next = next s := rfl

@[simp] theorem andThen_error (e : ProcessError) (s : σ)
    (next : σ → Except ProcessError Unit × σ) : andThen (.error e, s) next = (.error e, s) := rfl

theorem run_nil (c : Check σ) (s : σ) : c.run ([] : List (Step a)) s = (.ok (), s) := by
  rw [run]

theorem run_append (c : Check σ) (xs ys : List (Step a)) (s : σ) :
    c.run (xs ++ ys) s = andThen (c.run xs s) (c.run ys) := by
  fun_induction c.run xs s with
  | case1 s => rfl
  | case2 n rest s ih => rw [List.cons_append, run, ih]
  | case3 n rest s hk s' hv ih =>
      rw [List.cons_append, run, if_pos hk, hv]
      show c.run (n.children.map .enter ++ .leave n :: (rest ++ ys)) s' = _
      rw [← ih, List.append_assoc, List.cons_append]
  | case4 n rest s hk e s' hv => rw [List.cons_append, run, if_pos hk, hv, andThen_error]
  | case5 n rest s hk ih =>
      rw [List.cons_append, run, if_neg hk, ← List.append_assoc, ih]

theorem run_leave (c : Check σ) (n : Node a) (s : σ) :
    c.run [.leave n] s = (.ok (), c.leave n s) := by
  rw [run, run]

theorem run_enter (c : Check σ) {n : Node a} (hk : c.kinds.contains n.kind = true) (s : σ) :
    c.run [.enter n] s = andThen (c.visit n s) fun s =>
      andThen (c.run (n.children.map .enter) s) fun s => (.ok (), c.leave n s) := by
  rw [run, if_pos hk]
  rcases c.visit n s with ⟨e | u, s'⟩
  · rfl
  · show c.run (n.children.map .enter ++ [.leave n]) s' = _
    rw [run_append]
    exact congrArg _ (funext fun s => run_leave c n s)

theorem run_enter_hidden (c : Check σ) {n : Node a} (hk : c.kinds.contains n.kind = false)
    (s : σ) : c.run [.enter n] s = c.run (n.children.map .enter) s := by
  rw [run, if_neg (by rw [hk]; exact Bool.false_ne_true), List.append_nil]

theorem run_enter_cons (c : Check σ) (n : Node a) (ns : List (Node a)) (s : σ) :
    c.run ((n :: ns).map .enter) s = andThen (c.run [.enter n] s) (c.run (ns.map .enter)) := by
  rw [List.map_cons, ← List.singleton_append, run_append]

/-! ## From a step to a run -/

/-- A check that refuses nothing it is shown ends no run early. -/
theorem run_fst {c : Check σ}
    (hc : ∀ (n : Node a) (s : σ), c.kinds.contains n.kind = true → (c.visit n s).1 = .ok ())
    (steps : List (Step a)) (s : σ) : (c.run steps s).1 = .ok () := by
  fun_induction c.run steps s with
  | case1 s => rfl
  | case2 n rest s ih => exact ih
  | case3 n rest s hk s' hv ih => exact ih
  | case4 n rest s hk e s' hv =>
      have hok := hc n s hk
      rw [hv] at hok
      cases hok
  | case5 n rest s hk ih => exact ih

/-- A family of states that a check does not tell apart: each step takes all
`state t b` to `state t' b` with one `t'`, and answers all of them alike.  So
`t` is what the check reads, and `b` what it only carries along. -/
structure Uniform {τ β : Type} (c : Check σ) (state : τ → β → σ) : Prop where
  visit : ∀ {a : Arena} (n : Node a) (t : τ),
    ∃ answer t', ∀ b, c.visit n (state t b) = (answer, state t' b)
  leave : ∀ {a : Arena} (n : Node a) (t : τ), ∃ t', ∀ b, c.leave n (state t b) = state t' b

theorem Uniform.run {τ β : Type} {c : Check σ} {state : τ → β → σ} (hc : c.Uniform state)
    (steps : List (Step a)) (t : τ) :
    ∃ answer t', ∀ b, c.run steps (state t b) = (answer, state t' b) := by
  -- Not on the steps: a visit puts the children in front of what is left.
  induction hw : Step.weights steps using Nat.strongRecOn generalizing steps t with
  | ind w ih =>
  subst hw
  match steps with
  | [] => exact ⟨.ok (), t, fun b => run_nil c _⟩
  | .leave n :: rest =>
      obtain ⟨t₁, hleave⟩ := hc.leave n t
      have hsmaller : Step.weights rest < Step.weights (.leave n :: rest) := by
        simp only [Step.weights, Step.weight]
        omega
      obtain ⟨answer, t₂, hrest⟩ := ih _ hsmaller rest t₁ rfl
      refine ⟨answer, t₂, fun b => ?_⟩
      rw [Check.run, hleave, hrest]
  | .enter n :: rest =>
      by_cases hk : c.kinds.contains n.kind = true
      · obtain ⟨answer, t₁, hvisit⟩ := hc.visit n t
        cases answer with
        | error e =>
            refine ⟨.error e, t₁, fun b => ?_⟩
            rw [Check.run, if_pos hk, hvisit]
        | ok u =>
            obtain ⟨answer, t₂, hrest⟩ := ih _ (Step.weights_children n rest) _ t₁ rfl
            refine ⟨answer, t₂, fun b => ?_⟩
            rw [Check.run, if_pos hk, hvisit]
            exact hrest b
      · have hsmaller : Step.weights (n.children.map .enter ++ rest) <
            Step.weights (.enter n :: rest) := by
          refine Nat.lt_trans ?_ (Step.weights_children n rest)
          rw [Step.weights_append, Step.weights_append]
          simp only [Step.weights, Step.weight]
          omega
        obtain ⟨answer, t₁, hrest⟩ := ih _ hsmaller _ t rfl
        refine ⟨answer, t₁, fun b => ?_⟩
        rw [Check.run, if_neg hk]
        exact hrest b

/-! ## Two runs in step -/

/-- The same step on two nodes that correspond. -/
inductive Step.Matches {a a' : Arena} (nodes : Node a → Node a' → Prop) : Step a → Step a' → Prop
  | enter {n : Node a} {n' : Node a'} (here : nodes n n') : Matches nodes (.enter n) (.enter n')
  | leave {n : Node a} {n' : Node a'} (here : nodes n n') : Matches nodes (.leave n) (.leave n')

/-- Two checks on two arenas.  On nodes that correspond, from states that
correspond, they answer alike and come to states that correspond. -/
structure Simulates {σ' : Type} {a a' : Arena} (c : Check σ) (c' : Check σ')
    (nodes : Node a → Node a' → Prop) (states : σ → σ' → Prop) : Prop where
  shown : ∀ {n n'}, nodes n n' → c'.kinds.contains n'.kind = c.kinds.contains n.kind
  children : ∀ {n n'}, nodes n n' → List.Forall₂ nodes n.children n'.children
  answer : ∀ {n n' s s'}, nodes n n' → states s s' → (c'.visit n' s').1 = (c.visit n s).1
  visit : ∀ {n n' s s'}, nodes n n' → states s s' → states (c.visit n s).2 (c'.visit n' s').2
  leave : ∀ {n n' s s'}, nodes n n' → states s s' → states (c.leave n s) (c'.leave n' s')

section Simulates

variable {σ' : Type} {a' : Arena} {c : Check σ} {c' : Check σ'} {nodes : Node a → Node a' → Prop}
  {states : σ → σ' → Prop}

theorem Simulates.enter_children (h : c.Simulates c' nodes states) {n : Node a} {n' : Node a'}
    (hn : nodes n n') {rest : List (Step a)} {rest' : List (Step a')}
    (hrest : List.Forall₂ (Step.Matches nodes) rest rest') :
    List.Forall₂ (Step.Matches nodes) (n.children.map .enter ++ rest)
      (n'.children.map .enter ++ rest') := by
  refine List.rel_append ?_ hrest
  exact List.rel_map (fun _ _ hc => .enter hc) (h.children hn)

/-- Runs over steps that match answer alike and end in states that correspond. -/
theorem Simulates.run (h : c.Simulates c' nodes states) {steps : List (Step a)}
    {steps' : List (Step a')} (hsteps : List.Forall₂ (Step.Matches nodes) steps steps') {s : σ}
    {s' : σ'} (hs : states s s') :
    (c'.run steps' s').1 = (c.run steps s).1 ∧
      states (c.run steps s).2 (c'.run steps' s').2 := by
  fun_induction c.run steps s generalizing steps' s' with
  | case1 s =>
      cases hsteps
      rw [run_nil]
      exact ⟨rfl, hs⟩
  | case2 n rest s ih =>
      cases hsteps with
      | cons hstep hrest =>
          cases hstep with
          | leave hn =>
              rw [Check.run]
              exact ih hrest (h.leave hn hs)
  | case3 n rest s hk s₁ hv ih =>
      cases hsteps with
      | cons hstep hrest =>
          cases hstep with
          | @enter _ n' hn =>
              have hanswer := h.answer hn hs
              have hstates := h.visit hn hs
              rw [hv] at hanswer hstates
              have hvisit : c'.visit n' s' = (.ok (), (c'.visit n' s').2) := Prod.ext hanswer rfl
              rw [Check.run, h.shown hn, if_pos hk, hvisit]
              exact ih (h.enter_children hn (.cons (.leave hn) hrest)) hstates
  | case4 n rest s hk e s₁ hv =>
      cases hsteps with
      | cons hstep hrest =>
          cases hstep with
          | @enter _ n' hn =>
              have hanswer := h.answer hn hs
              have hstates := h.visit hn hs
              rw [hv] at hanswer hstates
              have hvisit : c'.visit n' s' = (.error e, (c'.visit n' s').2) := Prod.ext hanswer rfl
              rw [Check.run, h.shown hn, if_pos hk, hvisit]
              exact ⟨rfl, hstates⟩
  | case5 n rest s hk ih =>
      cases hsteps with
      | cons hstep hrest =>
          cases hstep with
          | @enter _ n' hn =>
              rw [Check.run, h.shown hn, if_neg hk]
              exact ih (h.enter_children hn hrest) hs

end Simulates

end PropertyHarvest.Check
