/-
# The walk by recursion

A walk keeps a stack of steps on which the children of one node stand before
the leaving of another.  What it does is told without a stack: visit a node if
it is shown, walk its children in order, and leave it if it was visited
(`Check.walkNode`).  A walk is this recursion for every check, whatever its
state and wherever it refuses (`run_enter_eq_walkNode`).

Which calls a walk makes is seen by a check that writes them down
(`Check.recorded`).  Without a refusal they are `Check.allCalls`, a sequence
that depends on the tree and the kinds alone: each shown node is visited once
and left once, with the calls of the nodes below it in between.  A refusal ends
the calls right there.

Two things are not said.  A check may do anything with its state, so nothing follows
about what it has seen but through its calls.  And the kinds are those of the check at
its beginning; a check that changes them on the way is not a `Check`.
-/
import PropertyHarvest.Proofs.Arena.Lineage
import PropertyHarvest.Proofs.Walk.Run

namespace PropertyHarvest

/-- A call of a check. -/
inductive Call where
  | start
  | visit {a : Arena} (n : Node a)
  | leave {a : Arena} (n : Node a)

namespace Check

variable {σ : Type} {a : Arena}

/-! ## The recursion -/

mutual

/-- Walks the tree below a node: the visit, the children in order, and the
leaving if there was a visit. -/
def walkNode (c : Check σ) (n : Node a) (s : σ) : Except ProcessError Unit × σ :=
  if c.kinds.contains n.kind then
    andThen (c.visit n s) fun s =>
      andThen (c.walkNodes n.children s) fun s => (.ok (), c.leave n s)
  else c.walkNodes n.children s
termination_by (n.tree.size, 0)
decreasing_by all_goals
  rw [n.map_tree_children, n.tree.size_eq]
  exact Prod.Lex.left _ _ (Nat.lt_succ_self _)

def walkNodes (c : Check σ) (ns : List (Node a)) (s : σ) : Except ProcessError Unit × σ :=
  match ns with
  | [] => (.ok (), s)
  | n :: ns => andThen (c.walkNode n s) fun s => c.walkNodes ns s
termination_by (Tree.sizes (ns.map Node.tree), 1)
decreasing_by
  · rw [List.map_cons, Tree.sizes]
    rcases Nat.eq_zero_or_pos (Tree.sizes (ns.map Node.tree)) with hzero | hpos
    · rw [hzero, Nat.add_zero]
      exact Prod.Lex.right _ Nat.zero_lt_one
    · exact Prod.Lex.left _ _ (Nat.lt_add_of_pos_right hpos)
  · rw [List.map_cons, Tree.sizes, n.tree.size_eq]
    exact Prod.Lex.left _ _ (by omega)

end

def walkRecursively (c : Check σ) (a : Arena) (s : σ) : Except ProcessError Unit × σ :=
  match a.root? with
  | none => (.ok (), c.start s)
  | some root => c.walkNode root (c.start s)

theorem run_enter_eq_walkNode (c : Check σ) (n : Node a) (s : σ) :
    c.run [.enter n] s = c.walkNode n s := by
  induction n using Node.induction_children generalizing s with
  | step n ih =>
      have each : ∀ ns : List (Node a), (∀ m ∈ ns, ∀ s, c.run [.enter m] s = c.walkNode m s) →
          ∀ s, c.run (ns.map .enter) s = c.walkNodes ns s := by
        intro ns hns
        induction ns with
        | nil =>
            intro s
            rw [walkNodes]
            exact run_nil c s
        | cons m ns ihns =>
            intro s
            rw [run_enter_cons, walkNodes, hns m List.mem_cons_self]
            exact congrArg _ (funext (ihns fun k hk => hns k (List.mem_cons_of_mem m hk)))
      rw [walkNode]
      by_cases hk : c.kinds.contains n.kind = true
      · rw [if_pos hk, run_enter c hk]
        simp only [each n.children ih]
      · rw [if_neg hk, run_enter_hidden c (by simpa using hk), each n.children ih]

theorem walk_eq_walkRecursively (c : Check σ) (a : Arena) (s : σ) :
    c.walk a s = c.walkRecursively a s := by
  rw [walk, walkRecursively]
  cases a.root? with
  | none => rfl
  | some root => exact run_enter_eq_walkNode c root (c.start s)

/-! ## The calls of a walk -/

/-- The calls of the walk of a node, if nothing is refused. -/
def calls (c : Check σ) (n : Node a) : List Call :=
  let below := n.children.attach.flatMap fun ⟨m, _⟩ => c.calls m
  if c.kinds.contains n.kind then .visit n :: (below ++ [.leave n]) else below
termination_by n.tree.size
decreasing_by exact Node.size_lt_of_mem_children ‹_›

/-- The calls of a whole walk, if nothing is refused. -/
def allCalls (c : Check σ) (a : Arena) : List Call :=
  .start :: a.root?.elim [] c.calls

theorem calls_eq (c : Check σ) (n : Node a) :
    c.calls n =
      if c.kinds.contains n.kind then .visit n :: (n.children.flatMap c.calls ++ [.leave n])
      else n.children.flatMap c.calls := by
  rw [calls, List.flatMap_subtype fun _ _ => rfl, List.unattach_attach]

def call (c : Check σ) : Call → σ → Except ProcessError Unit × σ
  | .start, s => (.ok (), c.start s)
  | .visit n, s => c.visit n s
  | .leave n, s => (.ok (), c.leave n s)

/-- Makes some calls until one is refused. -/
def perform (c : Check σ) : List Call → σ → Except ProcessError Unit × σ
  | [], s => (.ok (), s)
  | x :: xs, s => andThen (c.call x s) (c.perform xs)

theorem perform_append (c : Check σ) (xs ys : List Call) (s : σ) :
    c.perform (xs ++ ys) s = andThen (c.perform xs s) (c.perform ys) := by
  induction xs generalizing s with
  | nil => rfl
  | cons x xs ih =>
      rw [List.cons_append, perform, perform]
      rcases c.call x s with ⟨e | u, t⟩
      · rfl
      · exact ih t

theorem perform_flatMap (c : Check σ) {ns : List (Node a)}
    (h : ∀ m ∈ ns, ∀ s, c.perform (c.calls m) s = c.walkNode m s) (s : σ) :
    c.perform (ns.flatMap c.calls) s = c.walkNodes ns s := by
  induction ns generalizing s with
  | nil =>
      rw [walkNodes]
      rfl
  | cons m ns ih =>
      rw [List.flatMap_cons, perform_append, walkNodes, h m List.mem_cons_self]
      exact congrArg _ (funext (ih fun k hk => h k (List.mem_cons_of_mem m hk)))

theorem perform_calls (c : Check σ) (n : Node a) (s : σ) :
    c.perform (c.calls n) s = c.walkNode n s := by
  induction n using Node.induction_children generalizing s with
  | step n ih =>
      rw [calls_eq, walkNode]
      by_cases hk : c.kinds.contains n.kind = true
      · rw [if_pos hk, if_pos hk, perform]
        refine congrArg _ (funext fun t => ?_)
        rw [perform_append, perform_flatMap c ih]
        rfl
      · rw [if_neg hk, if_neg hk, perform_flatMap c ih]

/-- A walk makes its calls until one is refused. -/
theorem walk_eq_perform (c : Check σ) (a : Arena) (s : σ) :
    c.walk a s = c.perform (c.allCalls a) s := by
  rw [walk_eq_walkRecursively, walkRecursively, allCalls, perform]
  cases a.root? with
  | none => rfl
  | some root => exact (perform_calls c root (c.start s)).symm

/-! ## Writing the calls down -/

/-- The check with a list of the calls that were made to it. -/
def recorded (c : Check σ) : Check (σ × List Call) where
  kinds := c.kinds
  start s := (c.start s.1, s.2 ++ [.start])
  visit n s := ((c.visit n s.1).1, (c.visit n s.1).2, s.2 ++ [.visit n])
  leave n s := (c.leave n s.1, s.2 ++ [.leave n])

theorem call_recorded (c : Check σ) (x : Call) (s : σ) (made : List Call) :
    c.recorded.call x (s, made) = ((c.call x s).1, (c.call x s).2, made ++ [x]) := by
  cases x <;> rfl

theorem calls_recorded (c : Check σ) (n : Node a) : c.recorded.calls n = c.calls n := by
  induction n using Node.induction_children with
  | step n ih =>
      rw [calls_eq, calls_eq, List.flatMap_congr ih]
      rfl

theorem allCalls_recorded (c : Check σ) (a : Arena) : c.recorded.allCalls a = c.allCalls a := by
  rw [allCalls, allCalls]
  cases a.root? with
  | none => rfl
  | some root => exact congrArg (.start :: ·) (calls_recorded c root)

/-- The calls `made` of the calls `xs` that are planned: all of them, or those
before a visit that is refused, and that visit. -/
inductive Makes (c : Check σ) (xs : List Call) (s : σ) : List Call → Prop
  | all (hok : (c.perform xs s).1 = .ok ()) : Makes c xs s xs
  | upTo (before rest : List Call) {b : Arena} (n : Node b) (e : ProcessError) (t : σ)
      (planned : xs = before ++ .visit n :: rest) (passed : c.perform before s = (.ok (), t))
      (refused : c.visit n t = (.error e, (c.perform xs s).2))
      (stopped : (c.perform xs s).1 = .error e) : Makes c xs s (before ++ [.visit n])

/-- Writing the calls down changes nothing else, and what is written down are
the calls that were made. -/
theorem perform_recorded (c : Check σ) (xs : List Call) (s : σ) (old : List Call) :
    ∃ made, c.recorded.perform xs (s, old) =
      ((c.perform xs s).1, (c.perform xs s).2, old ++ made) ∧ c.Makes xs s made := by
  induction xs generalizing s old with
  | nil => exact ⟨[], by simp [perform], .all rfl⟩
  | cons x xs ih =>
      rcases hx : c.call x s with ⟨e | u, t⟩
      · -- Only a visit can be refused.
        have hperform : c.perform (x :: xs) s = (.error e, t) := by
          rw [perform, hx, andThen_error]
        have hrecorded : c.recorded.perform (x :: xs) (s, old) = (.error e, t, old ++ [x]) := by
          rw [perform, call_recorded, hx, andThen_error]
        rw [hrecorded, hperform]
        refine ⟨[x], rfl, ?_⟩
        cases x with
        | start => simp [call] at hx
        | leave n => simp [call] at hx
        | visit n =>
            exact .upTo [] xs n e s rfl rfl (by rw [hperform]; exact hx) (by rw [hperform])
      · have hperform : c.perform (x :: xs) s = c.perform xs t := by
          rw [perform, hx, andThen_ok]
        have hrecorded : c.recorded.perform (x :: xs) (s, old) =
            c.recorded.perform xs (t, old ++ [x]) := by
          rw [perform, call_recorded, hx, andThen_ok]
        obtain ⟨made, hmade, hmakes⟩ := ih t (old ++ [x])
        rw [hrecorded, hperform]
        refine ⟨x :: made, by rw [hmade, List.append_assoc, List.singleton_append], ?_⟩
        cases hmakes with
        | all hok => exact .all (by rw [hperform]; exact hok)
        | upTo before rest n e t' planned passed refused stopped =>
            rw [← List.cons_append]
            refine .upTo (x :: before) rest n e t' ?_ ?_ ?_ ?_
            · rw [planned, List.cons_append]
            · rw [perform, hx, andThen_ok, passed]
            · rw [hperform, refused]
            · rw [hperform, stopped]

/-! ## Each node once, and nested -/

/-- Each node is left after it was visited, with nested calls in between. -/
inductive Nested : List Call → Prop
  | nil : Nested []
  | append {xs ys : List Call} (left : Nested xs) (right : Nested ys) : Nested (xs ++ ys)
  | around {a : Arena} (n : Node a) {xs : List Call} (inner : Nested xs) :
      Nested (.visit n :: (xs ++ [.leave n]))

theorem nested_flatMap {ns : List (Node a)} {f : Node a → List Call}
    (h : ∀ n ∈ ns, Nested (f n)) : Nested (ns.flatMap f) := by
  induction ns with
  | nil => exact .nil
  | cons n ns ih =>
      rw [List.flatMap_cons]
      exact .append (h n List.mem_cons_self) (ih fun m hm => h m (List.mem_cons_of_mem n hm))

theorem nested_calls (c : Check σ) (n : Node a) : Nested (c.calls n) := by
  induction n using Node.induction_children with
  | step n ih =>
      rw [calls_eq]
      split
      · exact .around n (nested_flatMap ih)
      · exact nested_flatMap ih

theorem mem_calls_iff {c : Check σ} {n : Node a} {x : Call} :
    x ∈ c.calls n ↔
      ∃ m ∈ n.descendants, c.kinds.contains m.kind = true ∧ (x = .visit m ∨ x = .leave m) := by
  induction n using Node.induction_children with
  | step n ih =>
      have hbelow : x ∈ n.children.flatMap c.calls ↔
          ∃ m ∈ n.inside, c.kinds.contains m.kind = true ∧ (x = .visit m ∨ x = .leave m) := by
        rw [List.mem_flatMap]
        constructor
        · rintro ⟨d, hd, hx⟩
          obtain ⟨m, hm, hcall⟩ := (ih d hd).mp hx
          exact ⟨m, Node.mem_inside_iff.mpr ⟨d, hd, hm⟩, hcall⟩
        · rintro ⟨m, hm, hcall⟩
          obtain ⟨d, hd, hmd⟩ := Node.mem_inside_iff.mp hm
          exact ⟨d, hd, (ih d hd).mpr ⟨m, hmd, hcall⟩⟩
      rw [calls_eq, Node.descendants_eq]
      by_cases hk : c.kinds.contains n.kind = true
      · rw [if_pos hk, List.mem_cons, List.mem_append, List.mem_singleton, hbelow,
          List.exists_mem_cons_iff]
        simp only [hk, true_and]
        rw [or_comm (b := x = .leave n), ← or_assoc]
      · rw [if_neg hk, hbelow, List.exists_mem_cons_iff]
        simp only [hk, Bool.false_eq_true, false_and, false_or]

theorem nodup_calls (c : Check σ) (h : a.Linked) (n : Node a) : (c.calls n).Nodup := by
  induction n using Node.induction_children with
  | step n ih =>
      have hbelow : (n.children.flatMap c.calls).Nodup := by
        rw [List.nodup_flatMap]
        refine ⟨ih, (Node.nodup_children h n).imp_of_mem ?_⟩
        -- A call that two children share would name a node below both.
        intro d e hd he hne x hxd hxe
        obtain ⟨m, hm, -, hcall⟩ := mem_calls_iff.mp hxd
        obtain ⟨k, hk, -, hcall'⟩ := mem_calls_iff.mp hxe
        have hmk : m = k := by
          rcases hcall with rfl | rfl <;> rcases hcall' with heq | heq <;> cases heq <;> rfl
        subst hmk
        exact Node.disjoint_of_siblings h hd he hne hm hk
      have hself : ∀ x ∈ n.children.flatMap c.calls, x ≠ .visit n ∧ x ≠ .leave n := by
        intro x hx
        obtain ⟨d, hd, hx⟩ := List.mem_flatMap.mp hx
        obtain ⟨m, hm, -, hcall⟩ := mem_calls_iff.mp hx
        have hmn : m ≠ n := by
          rintro rfl
          exact m.not_mem_inside_self (Node.mem_inside_iff.mpr ⟨d, hd, hm⟩)
        rcases hcall with rfl | rfl <;> simp [hmn]
      rw [calls_eq]
      split
      · rw [List.nodup_cons, List.nodup_append]
        refine ⟨?_, hbelow, List.nodup_singleton _, ?_⟩
        · intro hx
          rcases List.mem_append.mp hx with hx | hx
          · exact (hself _ hx).1 rfl
          · simp at hx
        · intro x hx y hy
          rw [List.mem_singleton.mp hy]
          exact (hself x hx).2
      · exact hbelow

theorem calls_within (c : Check σ) {d n : Node a} (hd : d ∈ n.descendants) :
    c.calls d <:+: c.calls n := by
  induction n using Node.induction_children with
  | step n ih =>
      rcases Node.mem_descendants_iff.mp hd with rfl | hd
      · exact List.infix_rfl
      · obtain ⟨e, he, hde⟩ := Node.mem_inside_iff.mp hd
        have hbelow : c.calls e <:+: n.children.flatMap c.calls := by
          rw [List.flatMap_def]
          exact List.infix_of_mem_flatten (List.mem_map_of_mem he)
        rw [calls_eq c n]
        split
        · exact ((ih e he hde).trans hbelow).trans ⟨[.visit n], [.leave n], by simp⟩
        · exact (ih e he hde).trans hbelow

theorem mem_allCalls_iff {c : Check σ} {x : Call} :
    x ∈ c.allCalls a ↔ x = .start ∨
      ∃ m ∈ a.preorder, c.kinds.contains m.kind = true ∧ (x = .visit m ∨ x = .leave m) := by
  rw [allCalls, Arena.preorder, List.mem_cons]
  refine or_congr_right ?_
  cases a.root? with
  | none => simp
  | some root => exact mem_calls_iff

theorem nodup_allCalls (c : Check σ) (h : a.Linked) : (c.allCalls a).Nodup := by
  have hstart : ∀ n : Node a, .start ∉ c.calls n := by
    intro n hn
    obtain ⟨m, -, -, hm | hm⟩ := mem_calls_iff.mp hn <;> cases hm
  rw [allCalls]
  cases a.root? with
  | none => exact List.nodup_singleton _
  | some root => exact List.nodup_cons.mpr ⟨hstart root, nodup_calls c h root⟩

theorem nested_allCalls (c : Check σ) (a : Arena) :
    ∃ xs, c.allCalls a = .start :: xs ∧ Nested xs := by
  rw [allCalls]
  cases a.root? with
  | none => exact ⟨[], rfl, .nil⟩
  | some root => exact ⟨c.calls root, rfl, nested_calls c root⟩

theorem calls_within_allCalls (c : Check σ) {n : Node a} (hn : n ∈ a.preorder) :
    c.calls n <:+: c.allCalls a := by
  rw [allCalls]
  rw [Arena.preorder] at hn
  cases hr : a.root? with
  | none => simp [hr] at hn
  | some root =>
      rw [hr] at hn
      exact (calls_within c hn).trans (List.infix_cons List.infix_rfl)

/-- A walk is the recursive walk, call for call, for every check and from every
state.  After a visit that is refused no call is made.  If none is refused, each
shown node is visited once and left once, and in between are made the calls of
the nodes below it. -/
theorem walk_recursive (c : Check σ) {a : Arena} (h : a.Built) (s : σ) :
    c.walk a s = c.walkRecursively a s ∧
    c.recorded.walk a (s, []) = c.recorded.walkRecursively a (s, []) ∧
    ∃ made, c.recorded.walk a (s, []) = ((c.walk a s).1, (c.walk a s).2, made) ∧
      (∀ e, (c.walk a s).1 = .error e → ∃ (before rest : List Call) (n : Node a) (t : σ),
        c.allCalls a = before ++ .visit n :: rest ∧ made = before ++ [.visit n] ∧
        c.perform before s = (.ok (), t) ∧ c.visit n t = (.error e, (c.walk a s).2)) ∧
      ((c.walk a s).1 = .ok () → made = c.allCalls a ∧ made.Nodup ∧
        (∃ xs, made = .start :: xs ∧ Nested xs) ∧
        ∀ n : Node a,
          (.visit n ∈ made ↔ n ∈ a.preorder ∧ c.kinds.contains n.kind = true) ∧
          (.leave n ∈ made ↔ n ∈ a.preorder ∧ c.kinds.contains n.kind = true) ∧
          (n ∈ a.preorder → c.kinds.contains n.kind = true →
            .visit n :: (n.children.flatMap c.calls ++ [.leave n]) <:+: made)) := by
  refine ⟨walk_eq_walkRecursively c a s, walk_eq_walkRecursively c.recorded a (s, []), ?_⟩
  obtain ⟨made, hmade, hmakes⟩ := perform_recorded c (c.allCalls a) s []
  rw [walk_eq_perform, allCalls_recorded, walk_eq_perform]
  refine ⟨made, hmade, fun e he => ?_, fun hok => ?_⟩
  · cases hmakes with
    | all hok => simp [hok] at he
    | upTo before rest n e' t planned passed refused stopped =>
        rw [stopped, Except.error.injEq] at he
        subst he
        have hmem : Call.visit n ∈ c.allCalls a := by simp [planned]
        obtain hm | ⟨m, -, -, hm | hm⟩ := mem_allCalls_iff.mp hmem
        · cases hm
        · cases hm
          exact ⟨before, rest, m, t, planned, rfl, passed, refused⟩
        · cases hm
  · cases hmakes with
    | upTo before rest n e t planned passed refused stopped => simp [stopped] at hok
    | all _ =>
        refine ⟨rfl, nodup_allCalls c h.linked, nested_allCalls c a, fun n => ⟨?_, ?_, ?_⟩⟩
        · rw [mem_allCalls_iff]
          simp
        · rw [mem_allCalls_iff]
          simp
        · intro hn hk
          have hinfix := calls_within_allCalls c hn
          rwa [calls_eq, if_pos hk] at hinfix

/-- A check that counts its visits and refuses the third. -/
def impatient : Check Nat where
  kinds := [.tryBlock, .expression, .identifier]
  start _ := 0
  visit n s := (if s = 2 then .error (.unacceptableNode n.kind n.line) else .ok (), s + 1)
  leave _ s := s

/-- The name after the block is refused, and the statement is not left. -/
theorem walk_recursive_impatient :
    (Arena.ofTree Node.guardedTree).Built ∧
    impatient.walk (Arena.ofTree Node.guardedTree) 0 =
      (.error (.unacceptableNode .identifier 4), 3) ∧
    ∃ (before rest : List Call) (n : Node (Arena.ofTree Node.guardedTree)) (t : Nat),
      impatient.recorded.walk (Arena.ofTree Node.guardedTree) (0, []) =
        (.error (.unacceptableNode .identifier 4), 3, before ++ [.visit n]) ∧
      impatient.allCalls (Arena.ofTree Node.guardedTree) = before ++ .visit n :: rest ∧
      impatient.perform before 0 = (.ok (), t) ∧
      impatient.visit n t = (.error (.unacceptableNode .identifier 4), 3) := by
  have hbuilt : (Arena.ofTree Node.guardedTree).Built :=
    (Arena.wellFormed_ofTree Node.guardedTree).built
  have hwalk : impatient.walk (Arena.ofTree Node.guardedTree) 0 =
      (.error (.unacceptableNode .identifier 4), 3) := by decide +kernel
  obtain ⟨-, -, made, hmade, hrefused, -⟩ := walk_recursive impatient hbuilt 0
  rw [hwalk] at hmade hrefused
  obtain ⟨before, rest, n, t, hplanned, rfl, hpassed, hvisit⟩ := hrefused _ rfl
  exact ⟨hbuilt, hwalk, before, rest, n, t, hmade, hplanned, hpassed, hvisit⟩

end Check

end PropertyHarvest
