/-
# What is built is the lowered tree

`Concrete.fileArena` reads a file once and adds node after node;
`Concrete.fileTree` says what tree the file stands for.  The arena holds that
tree and nothing else (`holds_of_fileArena`).

What has to be seen is that the numbers are handled well, whatever the order of
the additions.  Each builder, started on an arena that was built bottom-up,
leaves one that was built bottom-up; so each node was given numbers of nodes
that are there, all different and taken by nobody (`Arena.Built`).  Each answers
with the roots of its own trees and has added no other node (`Arena.Laid`).
Together: no node is taken twice, and none is left behind.

The receiver of a call is the one place where the order of the additions is not
that of the children (`lays_buildCall`).

Nothing is said of the numbers of the nodes, and nothing of a file that is refused
but that it is refused by both for one reason (`fileArena_eq_error_iff`).  Which
shapes the tree has is another question (`Proofs.Concrete.Shapes`); the layout is
right whatever they are.
-/
import PropertyHarvest.Concrete.Building
import PropertyHarvest.Proofs.Arena.Layout
import PropertyHarvest.Proofs.Concrete.Equations

namespace PropertyHarvest

/-! ## Builders -/

namespace Build

open Arena (Laid)

/-- Started on any arena that was built bottom-up, the builder lays out the tree
and answers with its root. -/
def Lays (b : Build Nat) (t : Tree) : Prop :=
  ∀ a : Arena, a.Built → Laid a [(b.run a).1] [t] (b.run a).2

/-- The same of a builder of several trees. -/
def LaysAll (b : Build (List Nat)) (ts : List Tree) : Prop :=
  ∀ a : Arena, a.Built → Laid a (b.run a).1 ts (b.run a).2

theorem lays_token (kind : Kind) (text : String) (line : Nat) :
    (token kind text line).Lays (.token kind text line) :=
  fun _ ha => (Laid.nil ha).push kind (some text) line

variable {α : Type} {b : Build (List Nat)} {b₁ : Build Nat} {t : Tree} {ts : List Tree}

theorem laysAll_nil : LaysAll (return []) [] :=
  fun _ ha => .nil ha

theorem Lays.single (h : b₁.Lays t) : LaysAll (do return [← b₁]) [t] :=
  h

theorem LaysAll.node (h : b.LaysAll ts) (kind : Kind) (line : Nat) :
    Lays (do node kind line (← b)) (.interior kind line ts) :=
  fun a ha => (h a ha).push kind none line

theorem laysAll_each {f : α → Build (List Nat)} {g : α → List Tree} {xs : List α}
    (h : ∀ x ∈ xs, (f x).LaysAll (g x)) : (each f xs).LaysAll (xs.flatMap g) := by
  induction xs with
  | nil => exact laysAll_nil
  | cons x xs ih =>
      obtain ⟨hx, hxs⟩ := List.forall_mem_cons.mp h
      intro a ha
      have hfirst := hx a ha
      exact hfirst.append (ih hxs _ hfirst.built)

theorem laysAll_maybe {f : α → Build Nat} {g : α → Tree} (h : ∀ x, (f x).Lays (g x))
    (x? : Option α) : (maybe f x?).LaysAll (x?.toList.map g) := by
  cases x? with
  | none => exact laysAll_nil
  | some x => exact (h x).single

theorem laysAll_maybe_attach (x? : Option α) {f : { x // x? = some x } → Build Nat}
    {g : α → Tree} (h : ∀ x, (f x).Lays (g x.1)) :
    (maybe f x?.attach).LaysAll (x?.toList.map g) := by
  cases x? with
  | none => exact laysAll_nil
  | some x => exact (h ⟨x, rfl⟩).single

theorem laysAll_each_attach {xs : List α} {f : { x // x ∈ xs } → Build (List Nat)}
    {g : α → List Tree} (h : ∀ x, (f x).LaysAll (g x.1)) :
    (each f xs.attach).LaysAll (xs.flatMap g) := by
  have hall : LaysAll (each f xs.attach) (xs.attach.flatMap fun x => g x.1) :=
    laysAll_each fun x _ => h x
  rwa [List.flatMap_subtype (g := g) fun _ _ => rfl, List.unattach_attach] at hall

/-- Trees in the order in which they are built, and a node over them. -/
theorem LaysAll.node_append {b b' : Build (List Nat)} {ts ts' : List Tree} (h : b.LaysAll ts)
    (h' : b'.LaysAll ts') (kind : Kind) (line : Nat) :
    Lays (do
      let ids ← b
      let ids' ← b'
      Build.node kind line (ids ++ ids')) (.interior kind line (ts ++ ts')) := by
  intro a ha
  have hfirst := h a ha
  exact (hfirst.append (h' _ hfirst.built)).push kind none line

theorem LaysAll.wrapped {b : Build (List Nat)} {ts : List Tree} (kind : Kind) (line : Nat) :
    b.LaysAll ts → LaysAll (do
      let ids ← b
      if ids.isEmpty then return [] else return [← Build.node kind line ids])
      (match ts with
        | [] => []
        | wrapped => [.interior kind line wrapped]) := by
  intro h a ha
  have hb := h a ha
  show Laid a
    ((if (b.run a).1.isEmpty then pure [] else do return [← Build.node kind line (b.run a).1] :
      Build (List Nat)).run (b.run a).2).1 _
    ((if (b.run a).1.isEmpty then pure [] else do return [← Build.node kind line (b.run a).1] :
      Build (List Nat)).run (b.run a).2).2
  generalize b.run a = r at hb ⊢
  obtain ⟨ids, a₁⟩ := r
  cases ids with
  | nil =>
      cases ts with
      | nil => exact hb
      | cons t ts => cases hb.length_eq
  | cons i ids =>
      cases ts with
      | nil => cases hb.length_eq
      | cons t ts => exact hb.push kind none line

theorem holds_finish (h : b₁.Lays t) : b₁.finish.Holds t :=
  (h .empty .empty).holds

end Build

namespace Concrete

open Build (Lays LaysAll lays_token laysAll_nil laysAll_each laysAll_maybe laysAll_each_attach
  laysAll_maybe_attach)

/-! ## Leaves, names and types -/

section Names

variable (slice : Slice)

theorem lays_buildLeaf (k : Kind) (c : Concrete) : (c.buildLeaf slice k).Lays (c.leaf slice k) :=
  lays_token k (c.text slice) c.line

theorem lays_buildName (c : Concrete) : (c.buildName slice).Lays (c.nameTree slice) := by
  fun_induction buildName slice c with
  | case1 c hk | case2 c hk =>
      rw [nameTree_eq, hk]
      exact lays_buildLeaf slice .identifier c
  | case3 c hk scope next rest hn _ ih | case5 c hk scope next rest hn _ ih =>
      rw [nameTree_eq, hk]
      show Lays _ (c.scopedTree slice)
      rw [scopedTree, hn]
      intro a ha
      have hscope := ih a ha
      have hname := lays_buildLeaf slice .identifier
        ((next :: rest).getLast (List.cons_ne_nil next rest)) _ hscope.built
      exact (hscope.append hname).push .memberAccess none c.line
  | case4 c hk hn | case6 c hk hn =>
      rw [nameTree_eq, hk]
      show Lays _ (c.scopedTree slice)
      rw [scopedTree]
      split
      · rename_i h
        exact absurd h (hn _ _ _)
      · exact lays_buildLeaf slice .identifier c
  | case7 c hk base rest hn _ ih =>
      rw [nameTree_eq, hk]
      show Lays _ (c.genericTree slice)
      rw [genericTree, hn]
      exact ih
  | case8 c hk hn =>
      rw [nameTree_eq, hk]
      show Lays _ (c.genericTree slice)
      rw [genericTree, hn]
      exact lays_buildLeaf slice _ c
  | case9 c =>
      rw [nameTree_eq]
      unfold nameTreeOf
      split
      all_goals first
        | contradiction
        | exact lays_buildLeaf slice _ c

theorem lays_buildType (c : Concrete) : (c.buildType slice).Lays (c.typeTree slice) := by
  refine LaysAll.node ?_ .typeRef c.line
  have hname := (lays_buildName slice c).single
  unfold buildTypeName
  generalize c.kind = kind
  split
  · exact hname
  · exact hname
  · exact hname
  · simpa only using laysAll_nil

theorem lays_buildPackage (c : Concrete) : (c.buildPackage slice).Lays (c.packageTree slice) := by
  rw [packageTree, ← List.flatMap_pure_eq_map]
  exact (laysAll_each fun x _ => (lays_buildName slice x).single).node .packageDecl c.line

theorem lays_buildClassLiteral (c : Concrete) :
    (c.buildClassLiteral slice).Lays (c.classLiteralTree slice) := by
  intro a ha
  have htype := laysAll_maybe (lays_buildName slice) c.namedChildren.head? a ha
  have hmember := lays_token .classLiteral "class" c.line _ htype.built
  exact (htype.append hmember).push .memberAccess none c.line

theorem lays_buildString (c : Concrete) : (c.buildString slice).Lays (c.stringTree slice) := by
  rw [buildString, stringTree]
  split
  · exact lays_buildLeaf slice _ c
  · exact lays_buildLeaf slice _ c

end Names

/-! ## Everything else -/

variable {slice : Slice}

/-- The name of a call is built before its receiver and stands behind it. -/
theorem laid_buildCallee {c : Concrete} {a a₁ a₂ : Arena} {name object : List Nat}
    (hname : a.Laid name ((c.child? "name").toList.map (leaf slice .identifier)) a₁)
    (hobject : a₁.Laid object ((c.child? "object").toList.map (tree slice)) a₂) :
    a.Laid ((buildCallee c.line object name).run a₂).1 (c.calleeTrees slice)
      ((buildCallee c.line object name).run a₂).2 := by
  have both := hname.append_front hobject
  have hnames := hname.length_eq
  have hobjects := hobject.length_eq
  rw [calleeTrees]
  cases ho : c.child? "object" with
  | none =>
      rw [ho] at both hobjects
      obtain rfl : object = [] := List.length_eq_zero_iff.mp hobjects
      cases hn : c.child? "name" with
      | none => rw [hn] at both; exact both
      | some n => rw [hn] at both; exact both
  | some o =>
      rw [ho] at both hobjects
      obtain ⟨i, rfl⟩ := List.length_eq_one_iff.mp hobjects
      cases hn : c.child? "name" with
      | none =>
          rw [hn] at both hnames
          obtain rfl : name = [] := List.length_eq_zero_iff.mp hnames
          exact both
      | some n =>
          rw [hn] at both hnames
          obtain ⟨j, rfl⟩ := List.length_eq_one_iff.mp hnames
          exact both.push .memberAccess none c.line

/-- What is built from the node is what it is lowered to. -/
structure Builds (slice : Slice) (c : Concrete) : Prop where
  tree : (c.build slice).Lays (c.tree slice)
  contribution : (c.buildContribution slice).LaysAll (c.contribution slice)
  modifiers : (c.buildModifiers slice).Lays (c.modifiersTree slice)
  annotationUse : (c.buildAnnotationUse slice).Lays (c.annotationTree slice)
  arguments : (c.buildArguments slice).Lays (c.argumentsTree slice)

section Step

variable {c : Concrete} (ih : ∀ x : Concrete, x.size < c.size → Builds slice x)

include ih

theorem laysAll_buildContent : (c.buildContent slice).LaysAll (c.content slice) := by
  rw [buildContent, content_eq]
  exact laysAll_each_attach fun x => (ih x.1 (size_lt_of_named x.2)).contribution

theorem laysAll_buildIn (field : String) :
    (c.buildIn slice field).LaysAll (c.treeIn slice field) := by
  rw [buildIn, treeIn_eq]
  exact laysAll_maybe_attach _ fun x => (ih x.1 (size_lt_of_child? x.2)).tree

theorem laysAll_buildContributionIn (field : String) :
    (c.buildContributionIn slice field).LaysAll (c.contributionIn slice field) := by
  rw [buildContributionIn, contributionIn_eq]
  split
  · rename_i x h
    show LaysAll (x.buildContribution slice) _
    rw [h, Option.toList_some, List.flatMap_singleton]
    exact (ih x (size_lt_of_child? h)).contribution
  · rename_i h
    rw [h]
    exact laysAll_nil

theorem lays_buildAnnotationUse : (c.buildAnnotationUse slice).Lays (c.annotationTree slice) := by
  rw [buildAnnotationUse, annotationTree]
  exact (laysAll_maybe (lays_buildName slice) _).node_append (laysAll_buildIn ih "arguments") _ _

theorem lays_buildModifiers : (c.buildModifiers slice).Lays (c.modifiersTree slice) := by
  rw [buildModifiers, modifiersTree_eq]
  refine LaysAll.node (laysAll_each_attach fun x => ?_) .modifiers c.line
  have hannotation := (ih x.1 (size_lt_of_mem x.2)).annotationUse.single
  unfold modifierTrees
  dsimp only
  generalize x.1.kind = kind
  split
  · exact (lays_buildLeaf slice .finalModifier x.1).single
  · exact hannotation
  · exact hannotation
  · simpa only using laysAll_nil

theorem lays_buildArguments : (c.buildArguments slice).Lays (c.argumentsTree slice) := by
  rw [buildArguments, argumentsTree_eq]
  refine LaysAll.node (laysAll_each_attach fun x => ?_) .argumentList c.line
  exact LaysAll.wrapped .expression x.1.line (ih x.1 (size_lt_of_named x.2)).contribution

theorem lays_buildDeclaredModifiers :
    (c.buildDeclaredModifiers slice).Lays (c.declaredModifiers slice) := by
  rw [buildDeclaredModifiers, declaredModifiers]
  split
  · rename_i m h
    show Lays (m.buildModifiers slice) _
    rw [h]
    exact (ih m (size_lt_of_modifiers? h)).modifiers
  · rename_i h
    rw [h]
    exact laysAll_nil.node .modifiers c.line

theorem laysAll_buildValue : (c.buildValue slice).LaysAll
    ((c.child? "value").toList.map fun v =>
      .interior .expression v.line (c.contributionIn slice "value")) := by
  rw [buildValue]
  refine laysAll_maybe_attach _ fun ⟨v, h⟩ => ?_
  have hts : c.contributionIn slice "value" = v.contribution slice := by
    rw [contributionIn_eq, h, Option.toList_some, List.flatMap_singleton]
  rw [hts]
  exact (ih v (size_lt_of_child? h)).contribution.node .expression v.line

theorem laysAll_buildVariables : (c.buildVariables slice).LaysAll (c.variableTrees slice) := by
  rw [buildVariables, variableTrees_eq, ← List.flatMap_pure_eq_map]
  refine laysAll_each_attach fun d a ha => ?_
  have ihd : ∀ x : Concrete, x.size < d.1.size → Builds slice x :=
    fun x hx => ih x (Nat.lt_trans hx (size_lt_of_childrenIn d.2))
  have hmodifiers := lays_buildDeclaredModifiers ih a ha
  have htype := laysAll_maybe (lays_buildType slice) (c.child? "type") _ hmodifiers.built
  have hname := laysAll_maybe (lays_buildLeaf slice .identifier) (d.1.child? "name") _
    htype.built
  have hvalue := laysAll_buildValue ihd _ hname.built
  exact (hmodifiers.append ((htype.append hname).append hvalue)).push .variableDecl none d.1.line

theorem lays_buildCall : (c.buildCall slice).Lays (c.callTree slice) := by
  rw [buildCall, callTree_eq]
  intro a ha
  have hname := laysAll_maybe (lays_buildLeaf slice .identifier) (c.child? "name") a ha
  have hobject := laysAll_buildIn ih "object" _ hname.built
  rw [treeIn_eq] at hobject
  have hcallee := laid_buildCallee hname hobject
  have harguments := laysAll_maybe_attach (c.child? "arguments")
    (f := fun x => x.1.buildArguments slice)
    (fun x => (ih x.1 (size_lt_of_child? x.2)).arguments) _ hcallee.built
  exact (hcallee.append harguments).push .methodCall none c.line

theorem lays_build : (c.build slice).Lays (c.tree slice) := by
  rw [build, tree]
  cases Form.ofKind c.kind with
  | package => exact lays_buildPackage slice c
  | branch k => exact (laysAll_buildContent ih).node k c.line
  | leaf k => exact lays_buildLeaf slice k c
  | modifiers => exact lays_buildModifiers ih
  | annotationUse => exact lays_buildAnnotationUse ih
  | call => exact lays_buildCall ih
  | arguments => exact lays_buildArguments ih
  | access =>
      exact (laysAll_buildIn ih "object").node_append (laysAll_buildIn ih "field")
        .memberAccess c.line
  | qualifiedName => exact lays_buildName slice c
  | classLiteral => exact lays_buildClassLiteral slice c
  | operation =>
      exact (laysAll_buildContributionIn ih "left").node_append
        (laysAll_buildContributionIn ih "right") c.operationKind c.line
  | string => exact lays_buildString slice c
  | type => exact lays_buildType slice c
  | comment | parentheses | declaration | other =>
      dsimp only
      split
      · exact lays_buildLeaf slice _ c
      · exact (laysAll_buildContent ih).node _ c.line

theorem laysAll_buildContribution :
    (c.buildContribution slice).LaysAll (c.contribution slice) := by
  have htree := (lays_build ih).single
  rw [buildContribution, contribution]
  cases Form.ofKind c.kind with
  | comment => exact laysAll_nil
  | parentheses => exact laysAll_buildContent ih
  | declaration => exact laysAll_buildVariables ih
  | _ => exact htree

end Step

theorem builds (c : Concrete) : Builds slice c := by
  induction c using induction_size with
  | step c ih =>
      exact ⟨lays_build ih, laysAll_buildContribution ih, lays_buildModifiers ih,
        lays_buildAnnotationUse ih, lays_buildArguments ih⟩

/-! ## Whole files -/

theorem lays_buildUnit (c : Concrete) :
    (c.buildUnit slice).Lays (.interior .compilationUnit c.line (c.content slice)) :=
  (laysAll_buildContent fun x _ => builds x).node .compilationUnit c.line

/-- A file is refused by both readings, for one reason, or by none. -/
theorem fileArena_eq_error_iff {c : Concrete} {e : SyntaxError} :
    c.fileArena slice = .error e ↔ c.fileTree slice = .error e := by
  rw [fileArena, fileTree]
  split
  · rw [Except.error.injEq, Except.error.injEq]
  · exact ⟨fun h => (by cases h), fun h => (by cases h)⟩

/-- The arena of a file holds the tree of the file. -/
theorem holds_of_fileArena {c : Concrete} {a : Arena} (h : c.fileArena slice = .ok a) :
    ∃ t, c.fileTree slice = .ok t ∧ a.Holds t := by
  rw [fileArena] at h
  rw [fileTree]
  split at h
  · cases h
  · rename_i hok
    rw [if_neg hok]
    cases h
    exact ⟨_, rfl, Build.holds_finish (lays_buildUnit c)⟩

theorem exists_fileArena {c : Concrete} {t : Tree} (h : c.fileTree slice = .ok t) :
    ∃ a, c.fileArena slice = .ok a ∧ a.Holds t := by
  cases ha : c.fileArena slice with
  | error e => rw [fileArena_eq_error_iff.mp ha] at h; cases h
  | ok a =>
      obtain ⟨t', ht', hholds⟩ := holds_of_fileArena ha
      cases ht'.symm.trans h
      exact ⟨a, rfl, hholds⟩

end Concrete

end PropertyHarvest
