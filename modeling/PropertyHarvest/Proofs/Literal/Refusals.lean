/-
# Where a refusal points

An expression without a value is refused on some line and for some node, and
this node is the expression or lies inside it (`pointsInto_of_literal`):

    a string literal without quotes           itself
    a concatenation without operands          itself
    a handle that is asked for its path       the call
    a path builder over an empty wrapper      the wrapper
    a path builder over `null`                the call
    any other call                            itself
    any kind that never has a value           itself

What is evaluated on the way hands its refusal on as it is, so every step of
the evaluation puts the node one step deeper and changes nothing else
(`PointsInto.of_child`).

It is also said of the kinds that never have a value that this is so wherever such a
node stands.  That the node is refused for the same reason by itself is part of the
statement, so a refusal can be understood without what stands around.
-/
import PropertyHarvest.Proofs.Arena.Descent
import PropertyHarvest.Proofs.Literal.Constants
import PropertyHarvest.Proofs.Literal.Handles

namespace PropertyHarvest

/-! ## A node by itself -/

/-- The value of a node by itself; a wrapper has the value of what it holds. -/
def Tree.ownValue (s : Surroundings) (t : Tree) : Except LiteralError (Option String) :=
  if t.kind = .expression then t.literalContent s else t.literal s

/-- No node of this kind has a value, wherever it stands. -/
def Kind.NeverValued (k : Kind) : Prop :=
  ∀ (s : Surroundings) (t : Tree), t.kind = k → ∀ v, t.literal s ≠ .ok v

open PropertyHarvest.Tree in
theorem Tree.exists_value_of_hasValueKind {k : Kind} (h : hasValueKind k = true) :
    ∃ (t : Tree) (v : Option String), t.kind = k ∧ t.literal ⟨"", "", []⟩ = .ok v := by
  simp only [hasValueKind, Bool.or_eq_true, beq_iff_eq] at h
  rcases h with ((rfl | rfl) | rfl) | rfl
  · exact ⟨token .stringLiteral "\"a\"" 1, some "a", rfl, literal_string rfl rfl⟩
  · exact ⟨token .nullLiteral "null" 1, none, rfl, literal_null rfl⟩
  · have hjoined (operand : Tree) : (interior .concatenation 1 [operand]).literal ⟨"", "", []⟩ = (do
        let l ← operand.literal ⟨"", "", []⟩
        let r ← operand.literal ⟨"", "", []⟩
        .ok (some (Literal.join l r))) := literal_concatenation rfl rfl rfl
    refine ⟨interior .concatenation 1 [token .nullLiteral "null" 1], some (Literal.join none none),
      rfl, ?_⟩
    rw [hjoined, literal_null rfl]
    rfl
  · exact ⟨askedName .identifier "A", some "A", rfl, literal_askedName _ _ _⟩

theorem Kind.neverValued_iff {k : Kind} : k.NeverValued ↔ Tree.hasValueKind k = false := by
  constructor
  · intro h
    refine Bool.eq_false_iff.mpr fun hk => ?_
    obtain ⟨t, v, ht, hv⟩ := Tree.exists_value_of_hasValueKind hk
    exact h _ t ht v hv
  · rintro h s t rfl v hv
    cases (Tree.literal_of_not_hasValueKind h).symm.trans hv

/-! ## The node of a refusal -/

namespace LiteralError

variable {s : Surroundings} {t c : Tree} {e : LiteralError}

/-- The refusal `e` is about the node `d`. -/
structure PointsAt (s : Surroundings) (e : LiteralError) (d : Tree) : Prop where
  /-- `d` is a construct without a value, or asks a file handle for its path. -/
  reason : e = .unsupportedConstruct d.kind d.line ∨
    ∃ handle ∈ s.fileHandles, d.AsksPath handle ∧ e = .unsupportedFileVariable handle d.line
  /-- By itself `d` is refused in the same way; the second case is that of a
  wrapper that is taken for an expression. -/
  refused : d.ownValue s = .error e ∨ d.literal s = .error e ∧ d.kind.NeverValued

theorem PointsAt.line_eq {d : Tree} (h : e.PointsAt s d) : e.line = d.line := by
  rcases h.reason with rfl | ⟨handle, -, -, rfl⟩
  · rfl
  · rfl

/-- The line is what a message ends with. -/
theorem exists_message_eq (e : LiteralError) :
    ∃ front, e.message = front ++ " (line " ++ toString e.line ++ ")" := by
  cases e with
  | unsupportedCreationArgument reason line => exact ⟨_, rfl⟩
  | unsupportedFileVariable name line => exact ⟨_, rfl⟩
  | unsupportedConstruct kind line => exact ⟨_, rfl⟩

theorem PointsAt.of_unsupported (h : t.literal s = .error t.unsupported) :
    t.unsupported.PointsAt s t where
  reason := .inl rfl
  refused := by
    by_cases hk : t.kind = .expression
    · have hnever : Tree.hasValueKind t.kind = false := by rw [hk]; rfl
      exact .inr ⟨h, Kind.neverValued_iff.mpr hnever⟩
    · exact .inl (by rw [Tree.ownValue, if_neg hk, h])

theorem PointsAt.of_wrapper (hk : t.kind = .expression) (hf : t.firstChild? = none) :
    t.unsupported.PointsAt s t where
  reason := .inl rfl
  refused := .inl (by rw [Tree.ownValue, if_pos hk, Tree.literalContent, hf])

theorem PointsAt.of_asksPath {handle : String} (h : t.AsksPath handle)
    (known : handle ∈ s.fileHandles) : (unsupportedFileVariable handle t.line).PointsAt s t where
  reason := .inr ⟨handle, known, h, rfl⟩
  refused := by
    have hk : t.kind ≠ .expression := by
      rw [h.kind_eq]
      exact Kind.noConfusion
    left
    rw [Tree.ownValue, if_neg hk, Tree.literal_of_asksPath h, if_pos known]

/-- The refusal `e` is about the tree or a node inside it. -/
def PointsInto (s : Surroundings) (e : LiteralError) (t : Tree) : Prop :=
  ∃ d, t.Holds d ∧ e.PointsAt s d

theorem PointsAt.pointsInto (h : e.PointsAt s t) : e.PointsInto s t :=
  ⟨t, .root, h⟩

theorem PointsInto.of_child (hc : c ∈ t.children) (h : e.PointsInto s c) : e.PointsInto s t := by
  obtain ⟨d, hd, hpoints⟩ := h
  exact ⟨d, .inside hc hd, hpoints⟩

end LiteralError

/-! ## Expressions -/

namespace Tree

open Literal LiteralError

variable {s : Surroundings} {t : Tree} {e : LiteralError}

/-- A refusal points into the expression. -/
theorem pointsInto_of_literal (h : t.literal s = .error e) : e.PointsInto s t := by
  fun_induction literal s t with
  | case1 => cases h
  | case2 t hk ht =>
      cases h
      exact (PointsAt.of_unsupported (literal_string_of_none hk ht)).pointsInto
  | case3 => cases h
  | case4 t hk left right hl hr _ _ ihl ihr =>
      rcases error_cases_of_bind h with h | ⟨l, -, h⟩
      · exact (ihl h).of_child (mem_of_firstChild? hl)
      rcases error_cases_of_bind h with h | ⟨r, -, h⟩
      · exact (ihr h).of_child (mem_of_lastChild? hr)
      · cases h
  | case5 t hk hno =>
      cases h
      exact (PointsAt.of_unsupported (literal_concatenation_of_none hk hno)).pointsInto
  | case6 => cases h
  | case7 t hk handle hc =>
      cases h
      obtain ⟨hasks, hknown⟩ := asksPath_of_callShape hk hc
      exact (PointsAt.of_asksPath hasks hknown).pointsInto
  | case8 t hk builder argument hc ha =>
      cases h
      obtain ⟨arguments, harguments, hargument, hkind⟩ := exists_of_callShape_eq_path hc
      exact ((PointsAt.of_wrapper hkind ha).pointsInto.of_child hargument).of_child harguments
  | case9 t hk builder argument hc content ha _ ih =>
      obtain ⟨arguments, harguments, hargument, -⟩ := exists_of_callShape_eq_path hc
      rcases error_cases_of_bind h with h | ⟨name?, hname, h⟩
      · have hinside := (ih h).of_child (mem_of_firstChild? ha)
        exact (hinside.of_child hargument).of_child harguments
      · cases name? with
        | some name => cases h
        | none =>
            cases h
            have hrefused : t.literal s = .error t.unsupported := by
              rw [literal_path hk hc ha, hname]
              rfl
            exact (PointsAt.of_unsupported hrefused).pointsInto
  | case10 t hk hc =>
      cases h
      exact (PointsAt.of_unsupported (literal_unknown hk hc)).pointsInto
  | case11 t hs hn hc hm =>
      cases h
      have hvalue : hasValueKind t.kind = false := hasValueKind_eq_false_iff.mpr ⟨hs, hn, hc, hm⟩
      exact (PointsAt.of_unsupported (literal_of_not_hasValueKind hvalue)).pointsInto

theorem pointsInto_of_literalContent (hk : t.kind = .expression)
    (h : t.literalContent s = .error e) : e.PointsInto s t := by
  rw [literalContent] at h
  cases hf : t.firstChild? with
  | none =>
      rw [hf] at h
      cases h
      exact (PointsAt.of_wrapper hk hf).pointsInto
  | some content =>
      rw [hf] at h
      exact (pointsInto_of_literal h).of_child (mem_of_firstChild? hf)

end Tree

/-! ## Nodes -/

namespace Node

variable {a : Arena} {s : Surroundings} {n : Node a} {e : LiteralError}

theorem exists_child_of_mem {c : Tree} (h : c ∈ n.tree.children) :
    ∃ m ∈ n.children, m.tree = c := by
  rw [← map_tree_children] at h
  exact List.mem_map.mp h

/-- What the tree of a node holds stands at one of its descendants. -/
theorem exists_descendant_of_holds {d : Tree} (h : n.tree.Holds d) :
    ∃ m ∈ n.descendants, m.tree = d := by
  generalize ht : n.tree = t at h
  induction h generalizing n with
  | root => exact ⟨n, n.self_mem_descendants, ht⟩
  | inside child _ ih =>
      subst ht
      obtain ⟨c, hc, hct⟩ := exists_child_of_mem child
      obtain ⟨m, hm, hmt⟩ := ih hct
      exact ⟨m, mem_descendants_iff.mpr (.inr (mem_inside_iff.mpr ⟨c, hc, hm⟩)), hmt⟩

theorem exists_pointsAt_of_pointsInto (h : e.PointsInto s n.tree) :
    ∃ d ∈ n.descendants, e.PointsAt s d.tree := by
  obtain ⟨t, ht, hpoints⟩ := h
  obtain ⟨d, hd, rfl⟩ := exists_descendant_of_holds ht
  exact ⟨d, hd, hpoints⟩

end Node

end PropertyHarvest
