/-
# Lowering keeps nestings and guards

Every call of a lowered tree was lowered from a call of the grammar's tree, and
what the kinds above it tell of it is what the nodes above that call tell.

Lowering regroups nodes, so the two lists above do not match node by node.
Three facts about them are enough, and lowering keeps these from a node to
whatever is put below it (`Sits`):

    a `tryBlock` is above    ↔  a `try` is above
    the kinds tell a nesting ↔  an argument, or a receiver
    the nearest kind is neither a list of arguments nor a call

The induction is on the concrete tree, with one lemma for each form.

Only the two questions that a verification asks are compared, and only for calls.  For
other nodes the kinds above may tell of less than there is: parentheses and comments
are gone, and of a word that is kept the kind is none of those that are asked for.
-/
import PropertyHarvest.Proofs.CallSite.Roles
import PropertyHarvest.Proofs.Concrete.Calls

namespace PropertyHarvest

namespace Tree

/-! ## What holds of every call of a tree -/

/-- `P` holds of every call in the trees `ts`, which stand below the kinds
`above`. -/
def EveryCall (P : List Kind → Tree → Prop) (above : List Kind) (ts : List Tree) : Prop :=
  ∀ e ∈ locatedIn above ts, e.2.kind = .methodCall → P e.1 e.2

namespace EveryCall

variable {P : List Kind → Tree → Prop} {above : List Kind}

theorem nil : EveryCall P above [] :=
  fun _ h => nomatch h

theorem append {ts us : List Tree} (ht : EveryCall P above ts) (hu : EveryCall P above us) :
    EveryCall P above (ts ++ us) := by
  intro e he
  rw [locatedIn_append] at he
  rcases List.mem_append.mp he with he | he
  · exact ht e he
  · exact hu e he

theorem cons {t : Tree} {ts : List Tree} (ht : EveryCall P above [t])
    (hts : EveryCall P above ts) : EveryCall P above (t :: ts) :=
  append ht hts

theorem flatMap {α : Type} {f : α → List Tree} {xs : List α}
    (h : ∀ x ∈ xs, EveryCall P above (f x)) : EveryCall P above (xs.flatMap f) := by
  induction xs with
  | nil => exact nil
  | cons x xs ih =>
      rw [List.flatMap_cons]
      exact append (h x List.mem_cons_self) (ih fun y hy => h y (List.mem_cons_of_mem _ hy))

theorem map {α : Type} {f : α → Tree} {xs : List α} (h : ∀ x ∈ xs, EveryCall P above [f x]) :
    EveryCall P above (xs.map f) := by
  rw [List.map_eq_flatMap]
  exact flatMap h

theorem interior {k : Kind} {line : Nat} {cs : List Tree}
    (hk : k = .methodCall → P above (.interior k line cs))
    (hcs : EveryCall P (k :: above) cs) : EveryCall P above [.interior k line cs] := by
  intro e he hcall
  change e ∈ ((above, Tree.interior k line cs) :: locatedIn (k :: above) cs) ++ [] at he
  rw [List.append_nil] at he
  rcases List.mem_cons.mp he with rfl | he
  · exact hk hcall
  · exact hcs e he hcall

theorem interior_of_ne {k : Kind} {line : Nat} {cs : List Tree} (hk : k ≠ .methodCall)
    (hcs : EveryCall P (k :: above) cs) : EveryCall P above [.interior k line cs] :=
  interior (fun h => absurd h hk) hcs

theorem token {k : Kind} {text : String} {line : Nat} (hk : k ≠ .methodCall) :
    EveryCall P above [.token k text line] := by
  intro e he hcall
  rw [List.mem_singleton.mp he] at hcall
  exact absurd hcall hk

end EveryCall

end Tree

namespace Concrete

open PropertyHarvest.Tree (EveryCall)

variable {slice : Slice} {P : List Kind → Tree → Prop}

/-! ## Names and types hold no calls -/

theorem everyCall_leaf (c : Concrete) {k : Kind} (hk : k ≠ .methodCall) {above : List Kind} :
    EveryCall P above [c.leaf slice k] :=
  .token hk

theorem everyCall_nameTree (c : Concrete) (above : List Kind) :
    EveryCall P above [c.nameTree slice] := by
  induction c using induction_size generalizing above with
  | step c ih =>
      have hscoped : EveryCall P above [c.scopedTree slice] := by
        rw [scopedTree]
        split
        · rename_i scope next rest hn
          refine .interior_of_ne Kind.noConfusion (.cons ?_ (everyCall_leaf _ Kind.noConfusion))
          exact ih scope (size_lt_of_named (hn ▸ List.mem_cons_self)) _
        · exact everyCall_leaf c Kind.noConfusion
      have hgeneric : EveryCall P above [c.genericTree slice] := by
        rw [genericTree]
        split
        · rename_i base rest hn
          exact ih base (size_lt_of_named (hn ▸ List.mem_cons_self)) above
        · exact everyCall_leaf c Kind.noConfusion
      rw [nameTree_eq]
      unfold nameTreeOf
      split
      · exact everyCall_leaf c Kind.noConfusion
      · exact everyCall_leaf c Kind.noConfusion
      · exact hscoped
      · exact hscoped
      · exact hgeneric
      · exact everyCall_leaf c Kind.noConfusion

theorem everyCall_typeTree (c : Concrete) (above : List Kind) :
    EveryCall P above [c.typeTree slice] := by
  refine .interior_of_ne Kind.noConfusion ?_
  split
  · exact everyCall_nameTree c _
  · exact everyCall_nameTree c _
  · exact everyCall_nameTree c _
  · exact .nil

theorem everyCall_packageTree (c : Concrete) (above : List Kind) :
    EveryCall P above [c.packageTree slice] :=
  .interior_of_ne Kind.noConfusion (.map fun x _ => everyCall_nameTree x _)

theorem everyCall_classLiteralTree (c : Concrete) (above : List Kind) :
    EveryCall P above [c.classLiteralTree slice] := by
  refine .interior_of_ne Kind.noConfusion (.append (.map fun x _ => ?_) (.token Kind.noConfusion))
  exact everyCall_nameTree x _

theorem everyCall_stringTree (c : Concrete) (above : List Kind) :
    EveryCall P above [c.stringTree slice] := by
  rw [stringTree]
  split
  · exact everyCall_leaf c Kind.noConfusion
  · exact everyCall_leaf c Kind.noConfusion

end Concrete

/-! ## A place and the kinds above it -/

/-- Whether what lies below such a node is no part of a call above it. -/
def Form.separates : Form → Bool
  | .arguments | .parentheses | .call => false
  | _ => true

theorem Concrete.tryBlock_iff {c : Concrete} {f : Form} (hf : Form.ofKind c.kind = f) {k : Kind}
    (hk : k = .tryBlock ↔ f = .branch .tryBlock) : k = .tryBlock ↔ c.isTry := by
  rw [isTry_iff, hf, hk]

namespace Place

open CallSite

/-- The kinds `above` tell of a `try` exactly if there is one. -/
def Guarded (p : Place) (above : List Kind) : Prop :=
  Kind.tryBlock ∈ above ↔ p.InTry

/-- The kinds `above` tell the truth of a place. -/
structure Sits (p : Place) (above : List Kind) : Prop where
  guarded : p.Guarded above
  nested : isNested above = true ↔ p.IsArgument ∨ p.IsReceiver
  not_arguments : above.head? ≠ some .argumentList
  not_call : above.head? ≠ some .methodCall

/-- The node is no part of the call that it may lie in. -/
def Free (p : Place) : Prop :=
  ¬ p.IsArgument ∧ ¬ p.IsReceiver

variable {p : Place} {above : List Kind} {x : Concrete}

theorem free_child (h : (Form.ofKind p.node.kind).separates = true) : (p.child x).Free := by
  constructor
  · rw [isArgument_child]
    rintro (hk | ⟨hk, -⟩)
    · rw [Form.ofKind_eq_arguments_iff.mpr hk] at h
      cases h
    · rw [Form.ofKind_eq_parentheses_iff.mpr hk] at h
      cases h
  · rw [isReceiver_child]
    rintro ⟨-, hk⟩
    rw [Form.ofKind_eq_call_iff.mpr hk] at h
    cases h

theorem Guarded.child (h : p.Guarded above) {k : Kind} (hk : k = .tryBlock ↔ p.node.isTry) :
    (p.child x).Guarded (k :: above) := by
  rw [Guarded]
  rw [List.mem_cons, inTry_child, ← hk, eq_comm (a := k)]
  exact or_congr_right h

theorem Guarded.child_of_ne (h : p.Guarded above) {f : Form} (hf : Form.ofKind p.node.kind = f)
    (hne : f ≠ .branch .tryBlock) {k : Kind} (hk : k ≠ .tryBlock) :
    (p.child x).Guarded (k :: above) :=
  h.child (Concrete.tryBlock_iff hf ⟨fun he => absurd he hk, fun he => absurd he hne⟩)

theorem Guarded.cons (h : p.Guarded above) {k : Kind} (hk : k ≠ .tryBlock) :
    p.Guarded (k :: above) := by
  rw [Guarded]
  rw [List.mem_cons, or_iff_right fun he => hk he.symm]
  exact h

theorem Guarded.sits (h : p.Guarded above) (hf : p.Free) (hn : isNested above = false)
    (ha : above.head? ≠ some .argumentList) (hc : above.head? ≠ some .methodCall) :
    p.Sits above where
  guarded := h
  nested := by
    rw [hn]
    constructor
    · intro he
      cases he
    · rintro (hp | hp)
      · exact absurd hp hf.1
      · exact absurd hp hf.2
  not_arguments := ha
  not_call := hc

/-- Right below such kinds nothing is nested. -/
theorem Sits.isNested_cons (h : p.Sits above) (k : Kind) : isNested (k :: above) = false := by
  unfold isNested
  split
  · rename_i he
    obtain ⟨-, rfl⟩ := List.cons.inj he
    exact absurd rfl h.not_arguments
  · rename_i he
    obtain ⟨-, rfl⟩ := List.cons.inj he
    exact absurd rfl h.not_call
  · rfl

theorem Sits.child (h : p.Sits above) (hf : (p.child x).Free) {k : Kind}
    (hk : k ≠ .argumentList ∧ k ≠ .methodCall) (ht : k = .tryBlock ↔ p.node.isTry) :
    (p.child x).Sits (k :: above) :=
  (h.guarded.child ht).sits hf (h.isNested_cons k) (fun he => hk.1 (Option.some.inj he))
    fun he => hk.2 (Option.some.inj he)

theorem head?_ne {k j : Kind} (h : k ≠ j) :
    (k :: above).head? ≠ some j :=
  fun he => h (Option.some.inj he)

/-- A place tells of itself whether it stands alone. -/
theorem Sits.standsAlone_iff (h : p.Sits above) :
    StandsAlone above ↔ ¬ p.InTry ∧ ¬ p.IsArgument ∧ ¬ p.IsReceiver := by
  have hg : Kind.tryBlock ∈ above ↔ p.InTry := h.guarded
  rw [StandsAlone]
  rw [← Bool.not_eq_true, h.nested, hg, not_or, and_comm]

end Place

namespace Concrete

open PropertyHarvest.Tree (EveryCall)

variable (slice : Slice) (root : Concrete)

/-- The call `t` below the kinds `above` was lowered from a call of the tree
`root`, and verifies exactly if that one does. -/
def Mirrors (above : List Kind) (t : Tree) : Prop :=
  ∃ p ∈ root.places, t.line = p.node.line ∧ p.node.kind = "method_invocation" ∧
    ∀ isBound, CallSite.classify isBound above t = .verification ↔ p.Verifies slice

/-- Wherever in `root` the node `c` lies, all that is lowered from it mirrors
the calls there. -/
structure Faithful (c : Concrete) : Prop where
  tree : ∀ {p above}, p ∈ root.places → p.node = c → p.Sits above →
    (Form.ofKind c.kind = .parentheses → ¬ p.IsArgument) →
    EveryCall (Mirrors slice root) above [c.tree slice]
  contribution : ∀ {p above}, p ∈ root.places → p.node = c → p.Sits above → ¬ p.IsReceiver →
    EveryCall (Mirrors slice root) above (c.contribution slice)
  annotationUse : ∀ {p above}, p ∈ root.places → p.node = c → p.Guarded above →
    Form.ofKind c.kind = .annotationUse →
    EveryCall (Mirrors slice root) above [c.annotationTree slice]
  modifiers : ∀ {p above}, p ∈ root.places → p.node = c → p.Guarded above →
    Form.ofKind c.kind = .modifiers →
    EveryCall (Mirrors slice root) above [c.modifiersTree slice]
  arguments : ∀ {p above}, p ∈ root.places → p.node = c → p.Guarded above →
    Form.ofKind c.kind = .arguments →
    EveryCall (Mirrors slice root) above [c.argumentsTree slice]

section Step

variable {slice root} {p : Place} (hp : p ∈ root.places)
  (ih : ∀ x : Concrete, x.size < p.node.size → Faithful slice root x)
  {above : List Kind}

include hp ih

theorem everyCall_content
    (h : ∀ x ∈ p.node.namedChildren, (p.child x).Sits above ∧ ¬ (p.child x).IsReceiver) :
    EveryCall (Mirrors slice root) above (p.node.content slice) := by
  rw [content_eq]
  refine .flatMap fun x hx => ?_
  have hmem : p.child x ∈ root.places := child_mem_places hp (List.mem_filter.mp hx).1
  exact (ih x (size_lt_of_named hx)).contribution hmem rfl (h x hx).1 (h x hx).2

theorem everyCall_treeIn {field : String}
    (h : ∀ x, p.node.child? field = some x →
      (p.child x).Sits above ∧ ¬ (p.child x).IsArgument) :
    EveryCall (Mirrors slice root) above (p.node.treeIn slice field) := by
  rw [treeIn_eq]
  refine .map fun x hx => ?_
  have hx : p.node.child? field = some x := Option.mem_toList.mp hx
  have hmem : p.child x ∈ root.places :=
    child_mem_places hp (List.mem_of_find?_eq_some hx)
  exact (ih x (size_lt_of_child? hx)).tree hmem rfl (h x hx).1 fun _ => (h x hx).2

theorem everyCall_contributionIn {field : String}
    (h : ∀ x, p.node.child? field = some x →
      (p.child x).Sits above ∧ ¬ (p.child x).IsReceiver) :
    EveryCall (Mirrors slice root) above (p.node.contributionIn slice field) := by
  rw [contributionIn_eq]
  refine .flatMap fun x hx => ?_
  have hx : p.node.child? field = some x := Option.mem_toList.mp hx
  have hmem : p.child x ∈ root.places :=
    child_mem_places hp (List.mem_of_find?_eq_some hx)
  exact (ih x (size_lt_of_child? hx)).contribution hmem rfl (h x hx).1 (h x hx).2

theorem everyCall_annotationTree (hg : p.Guarded above)
    (hf : Form.ofKind p.node.kind = .annotationUse) :
    EveryCall (Mirrors slice root) above [p.node.annotationTree slice] := by
  rw [annotationTree]
  refine .interior_of_ne Kind.noConfusion (.append (.map fun x _ => everyCall_nameTree x _) ?_)
  refine everyCall_treeIn hp ih fun x _ => ?_
  have hfree : (p.child x).Free := Place.free_child (by rw [hf]; rfl)
  have hgx : (p.child x).Guarded (.annotationUse :: above) :=
    hg.child_of_ne hf Form.noConfusion Kind.noConfusion
  exact ⟨hgx.sits hfree rfl (Place.head?_ne Kind.noConfusion)
    (Place.head?_ne Kind.noConfusion), hfree.1⟩

theorem everyCall_modifiersTree (hg : p.Guarded above)
    (hf : Form.ofKind p.node.kind = .modifiers) :
    EveryCall (Mirrors slice root) above [p.node.modifiersTree slice] := by
  rw [modifiersTree_eq]
  refine .interior_of_ne Kind.noConfusion (.flatMap fun x hx => ?_)
  have hmem : p.child x ∈ root.places := child_mem_places hp hx
  have hgx : (p.child x).Guarded (.modifiers :: above) :=
    hg.child_of_ne hf Form.noConfusion Kind.noConfusion
  have huse := (ih x (size_lt_of_mem hx)).annotationUse hmem rfl hgx
  rw [modifierTrees]
  split
  · exact everyCall_leaf x Kind.noConfusion
  · rename_i hk
    exact huse (by rw [hk]; rfl)
  · rename_i hk
    exact huse (by rw [hk]; rfl)
  · exact .nil

theorem everyCall_argumentsTree (hg : p.Guarded above)
    (hf : Form.ofKind p.node.kind = .arguments) :
    EveryCall (Mirrors slice root) above [p.node.argumentsTree slice] := by
  rw [argumentsTree_eq]
  refine .interior_of_ne Kind.noConfusion (.flatMap fun x hx => ?_)
  have hmem : p.child x ∈ root.places := child_mem_places hp (List.mem_filter.mp hx).1
  have hgx : (p.child x).Guarded (.expression :: .argumentList :: above) :=
    (hg.child_of_ne hf Form.noConfusion Kind.noConfusion).cons Kind.noConfusion
  have hargument : (p.child x).IsArgument :=
    Place.isArgument_child.mpr (.inl (Form.ofKind_eq_arguments_iff.mp hf))
  have hreceiver : ¬ (p.child x).IsReceiver := by
    rw [Place.isReceiver_child, ← Form.ofKind_eq_call_iff, hf]
    rintro ⟨-, he⟩
    cases he
  have hsits : (p.child x).Sits (.expression :: .argumentList :: above) :=
    ⟨hgx, ⟨fun _ => .inl hargument, fun _ => rfl⟩, Place.head?_ne Kind.noConfusion,
      Place.head?_ne Kind.noConfusion⟩
  have hx := (ih x (size_lt_of_named hx)).contribution hmem rfl hsits hreceiver
  rw [argumentTrees]
  split
  · exact .nil
  · exact .interior_of_ne Kind.noConfusion hx

theorem everyCall_declaredModifiers (hg : p.Guarded above)
    (hf : Form.ofKind p.node.kind = .declaration) :
    EveryCall (Mirrors slice root) (.variableDecl :: above) [p.node.declaredModifiers slice] := by
  rw [declaredModifiers]
  cases hm : p.node.modifiers? with
  | none => exact .interior_of_ne Kind.noConfusion .nil
  | some m =>
      have hkind : (m.kind == "modifiers") = true :=
        List.find?_some (p := fun x : Concrete => x.kind == "modifiers") hm
      have hmem : p.child m ∈ root.places :=
        child_mem_places hp (List.mem_filter.mp (List.mem_of_find?_eq_some hm)).1
      have hgm : (p.child m).Guarded (.variableDecl :: above) :=
        hg.child_of_ne hf Form.noConfusion Kind.noConfusion
      refine (ih m (size_lt_of_modifiers? hm)).modifiers hmem rfl hgm ?_
      rw [beq_iff_eq.mp hkind]
      rfl

theorem everyCall_variableTree (hreg : root.Regular) (hg : p.Guarded above)
    (hf : Form.ofKind p.node.kind = .declaration) {d : Concrete}
    (hd : d ∈ p.node.childrenIn "declarator") :
    EveryCall (Mirrors slice root) above [p.node.variableTree slice d] := by
  obtain ⟨hmem, hfield⟩ := List.mem_filter.mp hd
  have hplace : p.child d ∈ root.places := child_mem_places hp hmem
  have hform : Form.ofKind (p.child d).node.kind = .other := by
    rw [(hreg _ hplace).declarator (beq_iff_eq.mp hfield)]
    rfl
  have hgd : (p.child d).Guarded (.variableDecl :: above) :=
    hg.child_of_ne hf Form.noConfusion Kind.noConfusion
  have hvalue : EveryCall (Mirrors slice root) (.expression :: .variableDecl :: above)
      (d.contributionIn slice "value") := by
    refine everyCall_contributionIn hplace
      (fun x hx => ih x (Nat.lt_trans hx (size_lt_of_mem hmem))) fun v _ => ?_
    have hfree : ((p.child d).child v).Free := Place.free_child (by rw [hform]; rfl)
    have hgv : ((p.child d).child v).Guarded (.expression :: .variableDecl :: above) :=
      hgd.child_of_ne hform Form.noConfusion Kind.noConfusion
    exact ⟨hgv.sits hfree rfl (Place.head?_ne Kind.noConfusion) (Place.head?_ne Kind.noConfusion),
      hfree.2⟩
  refine .interior_of_ne Kind.noConfusion (.cons (everyCall_declaredModifiers hp ih hg hf) ?_)
  refine .append (.append (.map fun x _ => everyCall_typeTree x _) (.map fun x _ => ?_))
    (.map fun v _ => .interior_of_ne Kind.noConfusion hvalue)
  exact everyCall_leaf x Kind.noConfusion

/-! ## A call -/

omit hp ih in
/-- The callee of a call is a plain name that verifies if the call has no
receiver and such a name. -/
theorem callee_iff {c name : Concrete} (hn : c.child? "name" = some name) :
    (∃ callee text, (c.callTree slice).firstChild? = some callee ∧ callee.kind = .identifier ∧
        callee.text? = some text ∧ text ∈ Idiom.verifyMethods) ↔
      c.child? "object" = none ∧
        ∃ name, c.child? "name" = some name ∧ name.text slice ∈ Idiom.verifyMethods := by
  have hfirst : (c.callTree slice).firstChild? = some ((c.child? "object").elim
      (name.leaf slice .identifier) fun object =>
        .interior .memberAccess c.line [object.tree slice, name.leaf slice .identifier]) := by
    rw [callTree_eq, calleeTrees, hn]
    cases c.child? "object" <;> rfl
  rw [hfirst, hn]
  cases c.child? "object" with
  | none =>
      constructor
      · rintro ⟨callee, text, hc, -, ht, hv⟩
        cases hc
        cases ht
        exact ⟨rfl, name, rfl, hv⟩
      · rintro ⟨-, name', he, hv⟩
        cases he
        exact ⟨_, _, rfl, rfl, rfl, hv⟩
  | some object =>
      constructor
      · rintro ⟨callee, text, hc, hk, -⟩
        cases hc
        cases hk
      · rintro ⟨he, -⟩
        cases he

omit ih in
theorem mirrors_callTree (hreg : root.Regular) (hs : p.Sits above)
    (hf : Form.ofKind p.node.kind = .call) :
    Mirrors slice root above (p.node.callTree slice) := by
  have hkind : p.node.kind = "method_invocation" := Form.ofKind_eq_call_iff.mp hf
  obtain ⟨⟨name, hname⟩, -⟩ := (hreg p hp).call hkind
  have hline : (p.node.callTree slice).line = p.node.line := by rw [callTree_eq]; rfl
  refine ⟨p, hp, hline, hkind, fun isBound => ?_⟩
  rw [CallSite.classify_eq_verification_iff, callee_iff hname, hs.standsAlone_iff]
  constructor
  · rintro ⟨⟨ho, hn⟩, ht, ha, hr⟩
    exact ⟨ho, hn, ht, ha, hr⟩
  · rintro ⟨ho, hn, ht, ha, hr⟩
    exact ⟨⟨ho, hn⟩, ht, ha, hr⟩

theorem everyCall_calleeTrees (hreg : root.Regular) (hg : p.Guarded above)
    (hf : Form.ofKind p.node.kind = .call) :
    EveryCall (Mirrors slice root) (.methodCall :: above) (p.node.calleeTrees slice) := by
  have hkind : p.node.kind = "method_invocation" := Form.ofKind_eq_call_iff.mp hf
  obtain ⟨⟨name, hname⟩, -⟩ := (hreg p hp).call hkind
  rw [calleeTrees]
  rw [hname]
  cases ho : p.node.child? "object" with
  | none => exact everyCall_leaf name Kind.noConfusion
  | some object =>
      have hmem : p.child object ∈ root.places :=
        child_mem_places hp (List.mem_of_find?_eq_some ho)
      have hfield : (object.label.field? == some "object") = true :=
        List.find?_some (p := fun x : Concrete => x.label.field? == some "object") ho
      -- The receiver comes to lie two levels down, in the access that is inside the call.
      have hgo : (p.child object).Guarded (.memberAccess :: .methodCall :: above) :=
        (hg.child_of_ne hf Form.noConfusion Kind.noConfusion).cons Kind.noConfusion
      have hreceiver : (p.child object).IsReceiver :=
        Place.isReceiver_child.mpr ⟨beq_iff_eq.mp hfield, hkind⟩
      have hsits : (p.child object).Sits (.memberAccess :: .methodCall :: above) :=
        ⟨hgo, ⟨fun _ => .inr hreceiver, fun _ => rfl⟩, Place.head?_ne Kind.noConfusion,
          Place.head?_ne Kind.noConfusion⟩
      have hobject : EveryCall (Mirrors slice root) (.memberAccess :: .methodCall :: above)
          [object.tree slice] := by
        refine (ih object (size_lt_of_child? ho)).tree hmem rfl hsits fun _ => ?_
        rw [Place.isArgument_child, hkind]
        rintro (hk | ⟨hk, -⟩)
        · exact absurd hk (by decide)
        · exact absurd hk (by decide)
      exact .interior_of_ne Kind.noConfusion
        (.cons hobject (everyCall_leaf name Kind.noConfusion))

theorem everyCall_callTree (hreg : root.Regular) (hs : p.Sits above)
    (hf : Form.ofKind p.node.kind = .call) :
    EveryCall (Mirrors slice root) above [p.node.callTree slice] := by
  have hmirrors : Mirrors slice root above (p.node.callTree slice) :=
    mirrors_callTree hp hreg hs hf
  obtain ⟨-, x, hx, hxkind⟩ := (hreg p hp).call (Form.ofKind_eq_call_iff.mp hf)
  have hmem : p.child x ∈ root.places := child_mem_places hp (List.mem_of_find?_eq_some hx)
  have hgx : (p.child x).Guarded (.methodCall :: above) :=
    hs.guarded.child_of_ne hf Form.noConfusion Kind.noConfusion
  have harguments : EveryCall (Mirrors slice root) (.methodCall :: above)
      [x.argumentsTree slice] := by
    refine (ih x (size_lt_of_child? hx)).arguments hmem rfl hgx ?_
    exact Form.ofKind_eq_arguments_iff.mpr hxkind
  rw [callTree_eq] at hmirrors ⊢
  refine .interior (fun _ => hmirrors) (.append (everyCall_calleeTrees hp ih hreg hs.guarded hf) ?_)
  rw [hx]
  exact harguments

/-! ## All forms together -/

omit hp ih in
/-- Below a node that separates, one kind for the node keeps the truth. -/
theorem sits_child (hs : p.Sits above) {f : Form} (hf : Form.ofKind p.node.kind = f)
    (hsep : f.separates = true) {k : Kind} (hk : k ≠ .argumentList ∧ k ≠ .methodCall)
    (ht : k = .tryBlock ↔ f = .branch .tryBlock) (x : Concrete) :
    (p.child x).Sits (k :: above) ∧ (p.child x).Free := by
  have hfree : (p.child x).Free := Place.free_child (by rw [hf, hsep])
  exact ⟨hs.child hfree hk (tryBlock_iff hf ht), hfree⟩

theorem everyCall_branch (hs : p.Sits above) {k : Kind}
    (hf : Form.ofKind p.node.kind = .branch k) :
    EveryCall (Mirrors slice root) above [.interior k p.node.line (p.node.content slice)] := by
  have hk : k ≠ .argumentList ∧ k ≠ .methodCall := Form.ofKind_eq_branch hf
  have ht : k = .tryBlock ↔ Form.branch k = .branch .tryBlock := by
    rw [Form.branch.injEq]
  refine .interior_of_ne hk.2 (everyCall_content hp ih fun x _ => ?_)
  obtain ⟨hsits, hfree⟩ := sits_child hs hf rfl hk ht x
  exact ⟨hsits, hfree.2⟩

theorem everyCall_access (hs : p.Sits above) (hf : Form.ofKind p.node.kind = .access) :
    EveryCall (Mirrors slice root) above [.interior .memberAccess p.node.line
      (p.node.treeIn slice "object" ++ p.node.treeIn slice "field")] := by
  have hchild (x : Concrete) : (p.child x).Sits (.memberAccess :: above) ∧
      ¬ (p.child x).IsArgument := by
    obtain ⟨hsits, hfree⟩ := sits_child (k := .memberAccess) hs hf rfl
      ⟨Kind.noConfusion, Kind.noConfusion⟩ ⟨Kind.noConfusion, Form.noConfusion⟩ x
    exact ⟨hsits, hfree.1⟩
  exact .interior_of_ne Kind.noConfusion
    (.append (everyCall_treeIn hp ih fun x _ => hchild x)
      (everyCall_treeIn hp ih fun x _ => hchild x))

theorem everyCall_operation (hs : p.Sits above) (hf : Form.ofKind p.node.kind = .operation) :
    EveryCall (Mirrors slice root) above [.interior p.node.operationKind p.node.line
      (p.node.contributionIn slice "left" ++ p.node.contributionIn slice "right")] := by
  have hk : p.node.operationKind ≠ .tryBlock ∧ p.node.operationKind ≠ .argumentList ∧
      p.node.operationKind ≠ .methodCall := by
    rw [operationKind]
    split
    · exact ⟨Kind.noConfusion, Kind.noConfusion, Kind.noConfusion⟩
    · exact ⟨Kind.noConfusion, Kind.noConfusion, Kind.noConfusion⟩
  have hchild (x : Concrete) : (p.child x).Sits (p.node.operationKind :: above) ∧
      ¬ (p.child x).IsReceiver := by
    obtain ⟨hsits, hfree⟩ := sits_child hs hf rfl hk.2
      ⟨fun he => absurd he hk.1, Form.noConfusion⟩ x
    exact ⟨hsits, hfree.2⟩
  exact .interior_of_ne hk.2.2
    (.append (everyCall_contributionIn hp ih fun x _ => hchild x)
      (everyCall_contributionIn hp ih fun x _ => hchild x))

theorem everyCall_other (hs : p.Sits above) (hf : ∀ x, (p.child x).Free)
    (ht : ¬ p.node.isTry) :
    EveryCall (Mirrors slice root) above
      [if p.node.namedChildren.isEmpty then p.node.leaf slice (.other p.node.kind)
        else .interior (.other p.node.kind) p.node.line (p.node.content slice)] := by
  split
  · exact everyCall_leaf p.node Kind.noConfusion
  · refine .interior_of_ne Kind.noConfusion (everyCall_content hp ih fun x _ => ?_)
    exact ⟨hs.child (hf x) ⟨Kind.noConfusion, Kind.noConfusion⟩
      ⟨Kind.noConfusion, fun h => absurd h ht⟩, (hf x).2⟩

theorem faithful_tree (hreg : root.Regular) (hs : p.Sits above)
    (hparen : Form.ofKind p.node.kind = .parentheses → ¬ p.IsArgument) :
    EveryCall (Mirrors slice root) above [p.node.tree slice] := by
  have hother {f : Form} (hf : Form.ofKind p.node.kind = f) (hsep : f.separates = true)
      (hne : f ≠ .branch .tryBlock) :=
    everyCall_other hp ih hs (fun x => Place.free_child (by rw [hf, hsep]))
      (by rw [isTry_iff, hf]; exact hne)
  rw [tree]
  split
  · exact everyCall_packageTree _ _
  · rename_i hf
    exact everyCall_branch hp ih hs hf
  · rename_i hf
    exact everyCall_leaf _ (Form.ofKind_eq_leaf hf)
  · rename_i hf
    exact everyCall_modifiersTree hp ih hs.guarded hf
  · rename_i hf
    exact everyCall_annotationTree hp ih hs.guarded hf
  · rename_i hf
    exact everyCall_callTree hp ih hreg hs hf
  · rename_i hf
    exact everyCall_argumentsTree hp ih hs.guarded hf
  · rename_i hf
    exact everyCall_access hp ih hs hf
  · exact everyCall_nameTree _ _
  · exact everyCall_classLiteralTree _ _
  · rename_i hf
    exact everyCall_operation hp ih hs hf
  · exact everyCall_stringTree _ _
  · exact everyCall_typeTree _ _
  · rename_i hf
    exact hother hf rfl Form.noConfusion
  · rename_i hf
    -- Parentheses that stay are no argument, so nothing inside them is one.
    have hkind := Form.ofKind_eq_parentheses_iff.mp hf
    refine everyCall_other hp ih hs (fun x => ?_) (by rw [isTry_iff, hf]; exact Form.noConfusion)
    constructor
    · rw [Place.isArgument_child, hkind]
      rintro (hk | ⟨-, ha⟩)
      · exact absurd hk (by decide)
      · exact hparen hf ha
    · rw [Place.isReceiver_child, hkind]
      rintro ⟨-, hk⟩
      exact absurd hk (by decide)
  · rename_i hf
    exact hother hf rfl Form.noConfusion
  · rename_i hf
    exact hother hf rfl Form.noConfusion

theorem faithful_contribution (hreg : root.Regular) (hs : p.Sits above) (hr : ¬ p.IsReceiver) :
    EveryCall (Mirrors slice root) above (p.node.contribution slice) := by
  rw [contribution]
  split
  · exact .nil
  · rename_i hf
    -- Parentheses vanish, and what they enclose stands where they stood.
    have hkind := Form.ofKind_eq_parentheses_iff.mp hf
    have htry : ¬ p.node.isTry := by rw [isTry_iff, hf]; exact Form.noConfusion
    refine everyCall_content hp ih fun x _ => ?_
    have hargument : (p.child x).IsArgument ↔ p.IsArgument := by
      rw [Place.isArgument_child, hkind]
      simp
    have hreceiver : ¬ (p.child x).IsReceiver := by
      rw [Place.isReceiver_child, hkind]
      simp
    refine ⟨⟨?_, ?_, hs.not_arguments, hs.not_call⟩, hreceiver⟩
    · show Kind.tryBlock ∈ above ↔ _
      rw [Place.inTry_child, or_iff_right htry]
      exact hs.guarded
    · rw [hs.nested, hargument, or_iff_left hr, or_iff_left hreceiver]
  · rename_i hf
    rw [variableTrees_eq]
    exact .map fun d hd => everyCall_variableTree hp ih hreg hs.guarded hf hd
  · rename_i hno _
    exact faithful_tree hp ih hreg hs fun hf => absurd hf hno

end Step

theorem faithful {root : Concrete} (hreg : root.Regular) (c : Concrete) :
    Faithful slice root c := by
  induction c using induction_size with
  | step c ih =>
      exact {
        tree := by
          rintro p above hp rfl hs hparen
          exact faithful_tree hp ih hreg hs hparen
        contribution := by
          rintro p above hp rfl hs hr
          exact faithful_contribution hp ih hreg hs hr
        annotationUse := by
          rintro p above hp rfl hg hf
          exact everyCall_annotationTree hp ih hg hf
        modifiers := by
          rintro p above hp rfl hg hf
          exact everyCall_modifiersTree hp ih hg hf
        arguments := by
          rintro p above hp rfl hg hf
          exact everyCall_argumentsTree hp ih hg hf }

theorem root_mem_places (root : Concrete) : ⟨root, []⟩ ∈ root.places := by
  obtain ⟨l, cs⟩ := root
  exact List.mem_cons_self

theorem sits_root (root : Concrete) : Place.Sits ⟨root, []⟩ [] := by
  have hg : Place.Guarded ⟨root, []⟩ [] := by
    constructor
    · intro h
      cases h
    · rintro ⟨c, hc, -⟩
      cases hc
  refine hg.sits ⟨?_, ?_⟩ rfl (fun h => by cases h) fun h => by cases h
  · intro h
    cases h
  · rintro ⟨-, c, hc, -⟩
    cases hc

/-- Every call of a lowered file mirrors a call of the file. -/
theorem everyCall_file {root : Concrete} (hreg : root.Regular) (hroot : root.kind = "program") :
    EveryCall (Mirrors slice root) []
      [.interior .compilationUnit root.line (root.content slice)] := by
  have hf : Form.ofKind (Place.mk root []).node.kind = .other := by
    show Form.ofKind root.kind = .other
    rw [hroot]
    rfl
  refine .interior_of_ne Kind.noConfusion
    (everyCall_content (root_mem_places root) (fun x _ => faithful slice hreg x) fun x _ => ?_)
  obtain ⟨hsits, hfree⟩ := sits_child (k := .compilationUnit) (sits_root root) hf rfl
    ⟨Kind.noConfusion, Kind.noConfusion⟩ ⟨Kind.noConfusion, Form.noConfusion⟩ x
  exact ⟨hsits, hfree.2⟩

end Concrete

end PropertyHarvest
