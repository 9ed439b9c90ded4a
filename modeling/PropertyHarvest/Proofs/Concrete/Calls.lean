/-
# Calls in a concrete tree

What makes a call a verification, said of the grammar's own tree: it has no
receiver, a name that verifies, no `try` around it, and it is neither an
argument nor the receiver of another call.  Parentheses around an argument make
no difference, parentheses around a receiver do.

Here are the words and their first consequences only.  What above a call decides that
it is an argument is said by a relation on the list of nodes above it
(`InArguments`), which steps over parentheses and nothing else.  That this is what
the lowered tree tells is proved in `Nesting`, for trees in which calls and
declarators have the shape that the grammar gives them (`Regular`).

`try` statements with and without resources count alike.  The guard is about the whole
way up and not only about the method in which the call stands.
-/
import PropertyHarvest.Proofs.Concrete.Places

namespace PropertyHarvest

/-! ## Words of the grammar -/

namespace Form

/-- What its form tells of the word `k`. -/
def Tells (k : String) : Form → Prop
  | .parentheses => k = "parenthesized_expression"
  | .arguments => k = "argument_list"
  | .call => k = "method_invocation"
  | .access => k = "field_access"
  | .classLiteral => k = "class_literal"
  | .operation => k = "binary_expression"
  | .comment => k = "line_comment" ∨ k = "block_comment"
  | .declaration => k = "local_variable_declaration" ∨ k = "field_declaration" ∨
      k = "constant_declaration"
  | .branch kind => kind ≠ .argumentList ∧ kind ≠ .methodCall ∧
      (kind = .tryBlock → k = "try_statement" ∨ k = "try_with_resources_statement")
  | .leaf kind => kind ≠ .methodCall
  | _ => True

theorem tells_ofKind (k : String) : Tells k (ofKind k) := by
  unfold ofKind
  split <;> simp [Tells]

theorem tells_of_eq {k : String} {f : Form} (h : ofKind k = f) : Tells k f :=
  h ▸ tells_ofKind k

theorem ofKind_eq_parentheses_iff {k : String} :
    ofKind k = .parentheses ↔ k = "parenthesized_expression" := by
  constructor
  · intro h
    exact tells_of_eq h
  · rintro rfl
    rfl

theorem ofKind_eq_arguments_iff {k : String} : ofKind k = .arguments ↔ k = "argument_list" := by
  constructor
  · intro h
    exact tells_of_eq h
  · rintro rfl
    rfl

theorem ofKind_eq_call_iff {k : String} : ofKind k = .call ↔ k = "method_invocation" := by
  constructor
  · intro h
    exact tells_of_eq h
  · rintro rfl
    rfl

theorem ofKind_eq_tryBlock_iff {k : String} :
    ofKind k = .branch .tryBlock ↔ k = "try_statement" ∨ k = "try_with_resources_statement" := by
  constructor
  · intro h
    exact (tells_of_eq h).2.2 rfl
  · rintro (rfl | rfl)
    · rfl
    · rfl

theorem ofKind_eq_branch {k : String} {kind : Kind} (h : ofKind k = .branch kind) :
    kind ≠ .argumentList ∧ kind ≠ .methodCall :=
  have ht := tells_of_eq h
  ⟨ht.1, ht.2.1⟩

theorem ofKind_eq_leaf {k : String} {kind : Kind} (h : ofKind k = .leaf kind) :
    kind ≠ .methodCall :=
  tells_of_eq h

end Form

namespace Concrete

def isTry (c : Concrete) : Prop :=
  c.kind = "try_statement" ∨ c.kind = "try_with_resources_statement"

theorem isTry_iff {c : Concrete} : c.isTry ↔ Form.ofKind c.kind = .branch .tryBlock :=
  Form.ofKind_eq_tryBlock_iff.symm

/-- What lies below these nodes, the nearest first, is an argument of a call,
possibly in parentheses. -/
inductive InArguments : List Concrete → Prop
  | direct {c : Concrete} {above : List Concrete} :
      c.kind = "argument_list" → InArguments (c :: above)
  | parentheses {c : Concrete} {above : List Concrete} :
      c.kind = "parenthesized_expression" → InArguments above → InArguments (c :: above)

end Concrete

namespace Place

open Concrete

/-! ## Where a call stands -/

/-- A `try` lies above the place: body, resources, handlers and all. -/
def InTry (p : Place) : Prop :=
  ∃ c ∈ p.above, c.isTry

def IsArgument (p : Place) : Prop :=
  InArguments p.above

/-- The node is the receiver of the call right above it. -/
def IsReceiver (p : Place) : Prop :=
  p.node.label.field? = some "object" ∧ ∃ c ∈ p.above.head?, c.kind = "method_invocation"

/-- The call at this place verifies. -/
structure Verifies (slice : Slice) (p : Place) : Prop where
  no_receiver : p.node.child? "object" = none
  name : ∃ name, p.node.child? "name" = some name ∧ name.text slice ∈ Idiom.verifyMethods
  not_inTry : ¬ p.InTry
  not_argument : ¬ p.IsArgument
  not_receiver : ¬ p.IsReceiver

/-- A call has a name and a list of arguments, and a declarator declares a
variable. -/
structure Regular (p : Place) : Prop where
  call : p.node.kind = "method_invocation" →
    (∃ name, p.node.child? "name" = some name) ∧
      ∃ x, p.node.child? "arguments" = some x ∧ x.kind = "argument_list"
  declarator : p.node.label.field? = some "declarator" → p.node.kind = "variable_declarator"

variable {p : Place} {x : Concrete}

theorem inTry_child : (p.child x).InTry ↔ p.node.isTry ∨ p.InTry := by
  simp [InTry, child]

theorem isArgument_child : (p.child x).IsArgument ↔
    p.node.kind = "argument_list" ∨
      p.node.kind = "parenthesized_expression" ∧ p.IsArgument := by
  constructor
  · intro h
    cases h with
    | direct hk => exact .inl hk
    | parentheses hk h => exact .inr ⟨hk, h⟩
  · rintro (hk | ⟨hk, h⟩)
    · exact .direct hk
    · exact .parentheses hk h

theorem isReceiver_child : (p.child x).IsReceiver ↔
    x.label.field? = some "object" ∧ p.node.kind = "method_invocation" := by
  simp [IsReceiver, child]

/-! ## Rows do not matter -/

section Rows

variable (g : Nat → Nat)

theorem inTry_mapRow : (p.mapRow g).InTry ↔ p.InTry := by
  simp [InTry, mapRow, isTry, kind_mapRow]

theorem inArguments_mapRow {above : List Concrete} :
    InArguments (above.map (Concrete.mapRow g)) ↔ InArguments above := by
  constructor
  · intro h
    induction above with
    | nil => cases h
    | cons c above ih =>
        cases h with
        | direct hk => exact .direct (by rw [← kind_mapRow g c, hk])
        | parentheses hk h => exact .parentheses (by rw [← kind_mapRow g c, hk]) (ih h)
  · intro h
    induction h with
    | direct hk => exact .direct (by rw [kind_mapRow, hk])
    | parentheses hk _ ih => exact .parentheses (by rw [kind_mapRow, hk]) ih

theorem isReceiver_mapRow : (p.mapRow g).IsReceiver ↔ p.IsReceiver := by
  unfold IsReceiver mapRow
  rw [field?_mapRow]
  cases p.above with
  | nil => simp
  | cons c above => simp [kind_mapRow]

theorem verifies_mapRow {slice : Slice} : (p.mapRow g).Verifies slice ↔ p.Verifies slice := by
  have hobject : (p.mapRow g).node.child? "object" = none ↔ p.node.child? "object" = none := by
    show (p.node.mapRow g).child? "object" = none ↔ _
    rw [child?_mapRow, Option.map_eq_none_iff]
  have hname : (∃ name, (p.mapRow g).node.child? "name" = some name ∧
        name.text slice ∈ Idiom.verifyMethods) ↔
      ∃ name, p.node.child? "name" = some name ∧ name.text slice ∈ Idiom.verifyMethods := by
    show (∃ name, (p.node.mapRow g).child? "name" = some name ∧ _) ↔ _
    rw [child?_mapRow]
    cases p.node.child? "name" with
    | none => simp
    | some name => simp [text_mapRow]
  have htry := inTry_mapRow g (p := p)
  have hargument : (p.mapRow g).IsArgument ↔ p.IsArgument := inArguments_mapRow g
  have hreceiver := isReceiver_mapRow g (p := p)
  constructor
  · rintro ⟨ho, hn, ht, ha, hr⟩
    exact ⟨hobject.mp ho, hname.mp hn, mt htry.mpr ht, mt hargument.mpr ha, mt hreceiver.mpr hr⟩
  · rintro ⟨ho, hn, ht, ha, hr⟩
    exact ⟨hobject.mpr ho, hname.mpr hn, mt htry.mp ht, mt hargument.mp ha, mt hreceiver.mp hr⟩

theorem regular_mapRow : (p.mapRow g).Regular ↔ p.Regular := by
  have hkind : (p.mapRow g).node.kind = p.node.kind := kind_mapRow g p.node
  have hfield : (p.mapRow g).node.label.field? = p.node.label.field? := field?_mapRow g p.node
  have hchild (field : String) :
      (p.mapRow g).node.child? field = (p.node.child? field).map (Concrete.mapRow g) :=
    child?_mapRow g p.node field
  have hname : (∃ name, (p.mapRow g).node.child? "name" = some name) ↔
      ∃ name, p.node.child? "name" = some name := by
    rw [hchild]
    cases p.node.child? "name" <;> simp
  have harguments : (∃ x, (p.mapRow g).node.child? "arguments" = some x ∧
        x.kind = "argument_list") ↔
      ∃ x, p.node.child? "arguments" = some x ∧ x.kind = "argument_list" := by
    rw [hchild]
    cases p.node.child? "arguments" with
    | none => simp
    | some x => simp [kind_mapRow]
  constructor
  · rintro ⟨hc, hd⟩
    rw [hkind, hname, harguments] at hc
    rw [hkind, hfield] at hd
    exact ⟨hc, hd⟩
  · rintro ⟨hc, hd⟩
    rw [← hname, ← harguments, ← hkind] at hc
    rw [← hkind, ← hfield] at hd
    exact ⟨hc, hd⟩

end Rows

end Place

namespace Concrete

/-- The grammar's shape of calls and declarators, everywhere in the tree. -/
def Regular (c : Concrete) : Prop :=
  ∀ p ∈ c.places, p.Regular

theorem regular_mapRow {g : Nat → Nat} {c : Concrete} : (c.mapRow g).Regular ↔ c.Regular := by
  rw [Regular]
  rw [places_mapRow, List.forall_mem_map]
  exact forall₂_congr fun p _ => Place.regular_mapRow g

theorem regular_numbered {c : Concrete} : c.numbered.Regular ↔ c.Regular := by
  rw [← regular_mapRow (g := c.rowAt), mapRow_rowAt_numbered]

end Concrete

end PropertyHarvest
