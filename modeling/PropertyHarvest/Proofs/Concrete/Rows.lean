/-
# Lowering does not look at rows

The row of a concrete node becomes the line of what it is lowered to, and has
no other effect.  Changing the rows before lowering is changing the lines after
it (`rowsToLines`).

The function on rows is arbitrary and need not keep any order.  Columns do not occur,
and bytes stay as they are, because they do decide something: the text of a leaf.
The error line of a refused file is not covered here either, for it is a row.

Each function of the lowering has one lemma, of one form: what it makes of the tree with
other rows is what it makes of the tree, with other lines.  They are gathered for
smaller trees in one structure (`RowsToLines`), which is the hypothesis of the
induction.
-/
import Mathlib.Data.List.Basic
import PropertyHarvest.Proofs.Concrete.Equations
import PropertyHarvest.Proofs.Tree.Located

namespace PropertyHarvest.Concrete

mutual

def mapRow (g : Nat → Nat) : Concrete → Concrete
  | .node l cs => .node { l with row := g l.row } (mapRowIn g cs)

def mapRowIn (g : Nat → Nat) : List Concrete → List Concrete
  | [] => []
  | c :: cs => mapRow g c :: mapRowIn g cs

end

/-- What a change of rows does to lines, which count from one. -/
def lineOf (g : Nat → Nat) (l : Nat) : Nat :=
  g (l - 1) + 1

theorem mapRowIn_eq_map (g : Nat → Nat) (cs : List Concrete) :
    mapRowIn g cs = cs.map (mapRow g) := by
  induction cs with
  | nil => rfl
  | cons c cs ih => rw [mapRowIn, ih, List.map_cons]

/-! ## Parts of a node -/

variable (g : Nat → Nat) (c : Concrete)

theorem label_mapRow : (c.mapRow g).label = { c.label with row := g c.label.row } := by
  obtain ⟨l, cs⟩ := c
  rfl

theorem children_mapRow : (c.mapRow g).children = c.children.map (mapRow g) := by
  obtain ⟨l, cs⟩ := c
  exact mapRowIn_eq_map g cs

theorem kind_mapRow : (c.mapRow g).kind = c.kind := by
  rw [kind, label_mapRow]
  rfl

theorem line_mapRow : (c.mapRow g).line = lineOf g c.line := by
  rw [line, label_mapRow]
  rfl

theorem field?_mapRow : (c.mapRow g).label.field? = c.label.field? := by
  rw [label_mapRow]

theorem named_mapRow : (c.mapRow g).label.named = c.label.named := by
  rw [label_mapRow]

/-- A choice of children that does not look at rows. -/
theorem filter_mapRow {p : Concrete → Bool} (hp : ∀ x, p (x.mapRow g) = p x) (cs : List Concrete) :
    (cs.map (mapRow g)).filter p = (cs.filter p).map (mapRow g) := by
  rw [List.filter_map]
  exact congrArg (List.map _) (List.filter_congr fun x _ => hp x)

theorem find?_mapRow {p : Concrete → Bool} (hp : ∀ x, p (x.mapRow g) = p x) (cs : List Concrete) :
    (cs.map (mapRow g)).find? p = (cs.find? p).map (mapRow g) := by
  rw [List.find?_map]
  exact congrArg (fun q => (cs.find? q).map (mapRow g)) (funext hp)

theorem namedChildren_mapRow : (c.mapRow g).namedChildren = c.namedChildren.map (mapRow g) := by
  rw [namedChildren, children_mapRow]
  exact filter_mapRow g (named_mapRow g) _

theorem childrenIn_mapRow (field : String) :
    (c.mapRow g).childrenIn field = (c.childrenIn field).map (mapRow g) := by
  rw [childrenIn, children_mapRow]
  exact filter_mapRow g (fun x => by rw [field?_mapRow]) _

theorem child?_mapRow (field : String) :
    (c.mapRow g).child? field = (c.child? field).map (mapRow g) := by
  rw [child?, children_mapRow]
  exact find?_mapRow g (fun x => by rw [field?_mapRow]) _

theorem modifiers?_mapRow : (c.mapRow g).modifiers? = c.modifiers?.map (mapRow g) := by
  rw [modifiers?, namedChildren_mapRow]
  exact find?_mapRow g (fun x => by rw [kind_mapRow]) _

variable (slice : Slice)

theorem text_mapRow : (c.mapRow g).text slice = c.text slice := by
  rw [text, label_mapRow]
  rfl

theorem leaf_mapRow (k : Kind) :
    (c.mapRow g).leaf slice k = (c.leaf slice k).mapLine (lineOf g) := by
  rw [leaf, text_mapRow, line_mapRow]
  rfl

theorem interior_mapRow (k : Kind) {ts us : List Tree} (h : us = ts.map (Tree.mapLine (lineOf g))) :
    Tree.interior k (c.mapRow g).line us = (Tree.interior k c.line ts).mapLine (lineOf g) := by
  rw [Tree.mapLine_interior, line_mapRow, h]

theorem map_child?_mapRow (field : String) {f : Concrete → Tree}
    (hf : ∀ x, c.child? field = some x → f (x.mapRow g) = (f x).mapLine (lineOf g)) :
    ((c.mapRow g).child? field).toList.map f =
      ((c.child? field).toList.map f).map (Tree.mapLine (lineOf g)) := by
  rw [child?_mapRow]
  cases hx : c.child? field with
  | none => rfl
  | some x => exact congrArg (fun t => [t]) (hf x hx)

theorem flatMap_mapRow {f : Concrete → List Tree} {cs : List Concrete}
    (hf : ∀ x ∈ cs, f (x.mapRow g) = (f x).map (Tree.mapLine (lineOf g))) :
    (cs.map (mapRow g)).flatMap f = (cs.flatMap f).map (Tree.mapLine (lineOf g)) := by
  rw [List.flatMap_map, List.map_flatMap]
  exact List.flatMap_congr hf

/-! ## Names and types -/

theorem nameTree_mapRow : (c.mapRow g).nameTree slice = (c.nameTree slice).mapLine (lineOf g) := by
  induction c using induction_size with
  | step c ih =>
      have hscoped : (c.mapRow g).scopedTree slice = (c.scopedTree slice).mapLine (lineOf g) := by
        rw [scopedTree, scopedTree]
        rw [namedChildren_mapRow]
        cases hn : c.namedChildren with
        | nil => exact leaf_mapRow g c slice _
        | cons scope rest =>
            cases rest with
            | nil => exact leaf_mapRow g c slice _
            | cons next rest =>
                have hscope := ih scope (size_lt_of_named (hn ▸ List.mem_cons_self))
                refine interior_mapRow g c .memberAccess ?_
                simp only [List.map_cons, List.map_nil, ← hscope, ← leaf_mapRow]
                simp only [← List.map_cons, List.getLast_map]
      have hgeneric :
          (c.mapRow g).genericTree slice = (c.genericTree slice).mapLine (lineOf g) := by
        rw [genericTree, genericTree]
        rw [namedChildren_mapRow]
        cases hn : c.namedChildren with
        | nil => exact leaf_mapRow g c slice _
        | cons base rest => exact ih base (size_lt_of_named (hn ▸ List.mem_cons_self))
      rw [nameTree_eq, nameTree_eq, kind_mapRow]
      unfold nameTreeOf
      split
      · exact leaf_mapRow g c slice _
      · exact leaf_mapRow g c slice _
      · exact hscoped
      · exact hscoped
      · exact hgeneric
      · exact leaf_mapRow g c slice _

theorem typeTree_mapRow : (c.mapRow g).typeTree slice = (c.typeTree slice).mapLine (lineOf g) := by
  refine interior_mapRow g c .typeRef ?_
  rw [kind_mapRow, nameTree_mapRow]
  split <;> rfl

theorem packageTree_mapRow :
    (c.mapRow g).packageTree slice = (c.packageTree slice).mapLine (lineOf g) := by
  refine interior_mapRow g c .packageDecl ?_
  rw [namedChildren_mapRow, filter_mapRow g (fun x => by rw [kind_mapRow]), List.map_map,
    List.map_map]
  exact List.map_congr_left fun x _ => nameTree_mapRow g x slice

theorem classLiteralTree_mapRow :
    (c.mapRow g).classLiteralTree slice = (c.classLiteralTree slice).mapLine (lineOf g) := by
  refine interior_mapRow g c .memberAccess ?_
  rw [namedChildren_mapRow, List.head?_map, line_mapRow]
  cases c.namedChildren.head? with
  | none => rfl
  | some x =>
      simp only [Option.map_some, Option.toList_some, List.map_cons, List.map_nil, nameTree_mapRow,
        List.cons_append, List.nil_append, Tree.mapLine_token]

theorem stringTree_mapRow :
    (c.mapRow g).stringTree slice = (c.stringTree slice).mapLine (lineOf g) := by
  rw [stringTree, stringTree]
  rw [text_mapRow]
  split
  · exact leaf_mapRow g c slice _
  · exact leaf_mapRow g c slice _

theorem operationKind_mapRow : (c.mapRow g).operationKind = c.operationKind := by
  have hk : ((c.mapRow g).child? "operator").map kind = (c.child? "operator").map kind := by
    rw [child?_mapRow, Option.map_map]
    exact Option.map_congr fun x _ => kind_mapRow g x
  rw [operationKind, operationKind]
  rw [hk]

/-! ## The mutual part

Each piece is lowered the same on other rows if everything smaller is. -/

/-- However `c` is lowered, its rows become lines and nothing else. -/
structure RowsToLines (c : Concrete) : Prop where
  tree_eq : (c.mapRow g).tree slice = (c.tree slice).mapLine (lineOf g)
  contribution_eq : (c.mapRow g).contribution slice =
    (c.contribution slice).map (Tree.mapLine (lineOf g))
  annotation_eq : (c.mapRow g).annotationTree slice = (c.annotationTree slice).mapLine (lineOf g)
  modifiers_eq : (c.mapRow g).modifiersTree slice = (c.modifiersTree slice).mapLine (lineOf g)
  arguments_eq : (c.mapRow g).argumentsTree slice = (c.argumentsTree slice).mapLine (lineOf g)

section Step

variable {g c slice} (ih : ∀ x : Concrete, x.size < c.size → RowsToLines g slice x)
include ih

theorem content_mapRow :
    (c.mapRow g).content slice = (c.content slice).map (Tree.mapLine (lineOf g)) := by
  rw [content_eq, content_eq, namedChildren_mapRow]
  exact flatMap_mapRow g fun x hx => (ih x (size_lt_of_named hx)).contribution_eq

theorem treeIn_mapRow (field : String) :
    (c.mapRow g).treeIn slice field = (c.treeIn slice field).map (Tree.mapLine (lineOf g)) := by
  rw [treeIn_eq, treeIn_eq]
  exact map_child?_mapRow g c field fun x hx => (ih x (size_lt_of_child? hx)).tree_eq

theorem contributionIn_mapRow (field : String) :
    (c.mapRow g).contributionIn slice field =
      (c.contributionIn slice field).map (Tree.mapLine (lineOf g)) := by
  rw [contributionIn_eq, contributionIn_eq, child?_mapRow]
  cases hx : c.child? field with
  | none => rfl
  | some x =>
      have hx := (ih x (size_lt_of_child? hx)).contribution_eq
      simp only [Option.map_some, Option.toList_some, List.flatMap_singleton, hx]

theorem annotationTree_mapRow :
    (c.mapRow g).annotationTree slice = (c.annotationTree slice).mapLine (lineOf g) := by
  rw [annotationTree, annotationTree]
  refine interior_mapRow g c .annotationUse ?_
  rw [treeIn_mapRow ih, map_child?_mapRow g c "name" fun x _ => nameTree_mapRow g x slice,
    List.map_append]

theorem modifierTrees_mapRow {x : Concrete} (hx : x ∈ c.children) :
    (x.mapRow g).modifierTrees slice = (x.modifierTrees slice).map (Tree.mapLine (lineOf g)) := by
  have ha := (ih x (size_lt_of_mem hx)).annotation_eq
  rw [modifierTrees, modifierTrees]
  rw [kind_mapRow, leaf_mapRow, ha]
  split <;> rfl

theorem modifiersTree_mapRow :
    (c.mapRow g).modifiersTree slice = (c.modifiersTree slice).mapLine (lineOf g) := by
  rw [modifiersTree_eq, modifiersTree_eq]
  refine interior_mapRow g c .modifiers ?_
  rw [children_mapRow]
  exact flatMap_mapRow g fun x hx => modifierTrees_mapRow ih hx

theorem argumentTrees_mapRow {x : Concrete} (hx : x ∈ c.namedChildren) :
    (x.mapRow g).argumentTrees slice = (x.argumentTrees slice).map (Tree.mapLine (lineOf g)) := by
  have hc := (ih x (size_lt_of_named hx)).contribution_eq
  rw [argumentTrees, argumentTrees]
  rw [hc]
  cases x.contribution slice with
  | nil => rfl
  | cons t ts => exact congrArg (fun u => [u]) (interior_mapRow g x .expression rfl)

theorem argumentsTree_mapRow :
    (c.mapRow g).argumentsTree slice = (c.argumentsTree slice).mapLine (lineOf g) := by
  rw [argumentsTree_eq, argumentsTree_eq]
  refine interior_mapRow g c .argumentList ?_
  rw [namedChildren_mapRow]
  exact flatMap_mapRow g fun x hx => argumentTrees_mapRow ih hx

theorem calleeTrees_mapRow :
    (c.mapRow g).calleeTrees slice = (c.calleeTrees slice).map (Tree.mapLine (lineOf g)) := by
  rw [calleeTrees, calleeTrees]
  rw [child?_mapRow, child?_mapRow]
  cases ho : c.child? "object" with
  | none =>
      cases c.child? "name" with
      | none => rfl
      | some name => exact congrArg (fun t => [t]) (leaf_mapRow g name slice _)
  | some object =>
      have hobject := (ih object (size_lt_of_child? ho)).tree_eq
      cases c.child? "name" with
      | none => exact congrArg (fun t => [t]) hobject
      | some name =>
          refine congrArg (fun t => [t]) (interior_mapRow g c .memberAccess ?_)
          rw [hobject, leaf_mapRow]
          rfl

theorem callTree_mapRow :
    (c.mapRow g).callTree slice = (c.callTree slice).mapLine (lineOf g) := by
  have ha := map_child?_mapRow g c "arguments" (f := argumentsTree slice)
    fun x hx => (ih x (size_lt_of_child? hx)).arguments_eq
  rw [callTree_eq, callTree_eq]
  refine interior_mapRow g c .methodCall ?_
  rw [calleeTrees_mapRow ih, ha, List.map_append]

theorem declaredModifiers_mapRow :
    (c.mapRow g).declaredModifiers slice = (c.declaredModifiers slice).mapLine (lineOf g) := by
  rw [declaredModifiers, declaredModifiers]
  rw [modifiers?_mapRow]
  cases hm : c.modifiers? with
  | none => exact interior_mapRow g c .modifiers rfl
  | some m => exact (ih m (size_lt_of_modifiers? hm)).modifiers_eq

theorem variableTree_mapRow {d : Concrete} (hd : d ∈ c.childrenIn "declarator") :
    (c.mapRow g).variableTree slice (d.mapRow g) = (c.variableTree slice d).mapLine (lineOf g) := by
  have hv : (d.mapRow g).contributionIn slice "value" =
      (d.contributionIn slice "value").map (Tree.mapLine (lineOf g)) :=
    contributionIn_mapRow (fun x hx => ih x (Nat.lt_trans hx (size_lt_of_childrenIn hd))) "value"
  have htype := map_child?_mapRow g c "type" (f := typeTree slice)
    fun x _ => typeTree_mapRow g x slice
  have hname := map_child?_mapRow g d "name" (f := leaf slice .identifier)
    fun x _ => leaf_mapRow g x slice .identifier
  have hvalue : ((d.mapRow g).child? "value").toList.map (fun v =>
      Tree.interior .expression v.line ((d.mapRow g).contributionIn slice "value")) =
      ((d.child? "value").toList.map fun v =>
        Tree.interior .expression v.line (d.contributionIn slice "value")).map
          (Tree.mapLine (lineOf g)) := by
    rw [hv, child?_mapRow]
    cases d.child? "value" with
    | none => rfl
    | some v => exact congrArg (fun t => [t]) (interior_mapRow g v .expression rfl)
  refine interior_mapRow g d .variableDecl ?_
  rw [declaredModifiers_mapRow ih, htype, hname, hvalue, List.map_cons, List.map_append,
    List.map_append]

theorem variableTrees_mapRow :
    (c.mapRow g).variableTrees slice = (c.variableTrees slice).map (Tree.mapLine (lineOf g)) := by
  rw [variableTrees_eq, variableTrees_eq, childrenIn_mapRow, List.map_map, List.map_map]
  exact List.map_congr_left fun d hd => variableTree_mapRow ih hd

theorem tree_mapRow_of_smaller :
    (c.mapRow g).tree slice = (c.tree slice).mapLine (lineOf g) := by
  have hother : (if (c.mapRow g).namedChildren.isEmpty then
        (c.mapRow g).leaf slice (.other (c.mapRow g).kind)
      else .interior (.other (c.mapRow g).kind) (c.mapRow g).line ((c.mapRow g).content slice)) =
      (if c.namedChildren.isEmpty then c.leaf slice (.other c.kind)
        else .interior (.other c.kind) c.line (c.content slice)).mapLine (lineOf g) := by
    rw [namedChildren_mapRow, List.isEmpty_map, kind_mapRow]
    split
    · exact leaf_mapRow g c slice _
    · exact interior_mapRow g c _ (content_mapRow ih)
  rw [tree, tree, kind_mapRow]
  rw [kind_mapRow] at hother
  split
  · exact packageTree_mapRow g c slice
  · exact interior_mapRow g c _ (content_mapRow ih)
  · exact leaf_mapRow g c slice _
  · exact modifiersTree_mapRow ih
  · exact annotationTree_mapRow ih
  · exact callTree_mapRow ih
  · exact argumentsTree_mapRow ih
  · refine interior_mapRow g c _ ?_
    rw [treeIn_mapRow ih, treeIn_mapRow ih, List.map_append]
  · exact nameTree_mapRow g c slice
  · exact classLiteralTree_mapRow g c slice
  · rw [operationKind_mapRow]
    refine interior_mapRow g c _ ?_
    rw [contributionIn_mapRow ih, contributionIn_mapRow ih, List.map_append]
  · exact stringTree_mapRow g c slice
  · exact typeTree_mapRow g c slice
  all_goals exact hother

theorem contribution_mapRow_of_smaller :
    (c.mapRow g).contribution slice = (c.contribution slice).map (Tree.mapLine (lineOf g)) := by
  rw [contribution, contribution, kind_mapRow]
  split
  · rfl
  · exact content_mapRow ih
  · exact variableTrees_mapRow ih
  · exact congrArg (fun t => [t]) (tree_mapRow_of_smaller ih)

end Step

theorem rowsToLines : RowsToLines g slice c := by
  induction c using induction_size with
  | step c ih =>
      exact {
        tree_eq := tree_mapRow_of_smaller ih
        contribution_eq := contribution_mapRow_of_smaller ih
        annotation_eq := annotationTree_mapRow ih
        modifiers_eq := modifiersTree_mapRow ih
        arguments_eq := argumentsTree_mapRow ih }

end PropertyHarvest.Concrete
