/-
# The equations of the lowering

The lowering recurses on the size of a concrete tree and carries the reasons
why sizes fall.  Its equations here are without them.

Where a function of the lowering chooses by the word of the node, the choices have
names of their own, so that a proof can go on with one of them and never unfolds the
recursion.  Nothing new is said.  Whoever needs an induction on a concrete tree has it
on its size (`induction_size`), because the lowering goes down to grandchildren.
-/
import PropertyHarvest.Concrete.Lowering

namespace PropertyHarvest.Concrete

variable (slice : Slice)

theorem content_eq (c : Concrete) :
    c.content slice = c.namedChildren.flatMap (contribution slice) := by
  rw [content]
  simp only [List.flatMap_subtype, List.unattach_attach]

theorem treeIn_eq (c : Concrete) (field : String) :
    c.treeIn slice field = (c.child? field).toList.map (tree slice) := by
  rw [treeIn]
  split
  · rename_i x h
    have hx : (c.child? field).toList = [x] := by rw [h]; rfl
    rw [hx]
    rfl
  · rename_i h
    have hx : (c.child? field).toList = [] := by rw [h]; rfl
    rw [hx]
    rfl

theorem contributionIn_eq (c : Concrete) (field : String) :
    c.contributionIn slice field = (c.child? field).toList.flatMap (contribution slice) := by
  rw [contributionIn]
  split
  · rename_i x h
    have hx : (c.child? field).toList = [x] := by rw [h]; rfl
    rw [hx, List.flatMap_singleton]
  · rename_i h
    have hx : (c.child? field).toList = [] := by rw [h]; rfl
    rw [hx]
    rfl

/-! ## Names -/

def scopedTree (c : Concrete) : Tree :=
  match c.namedChildren with
  | scope :: next :: rest =>
    .interior .memberAccess c.line
      [scope.nameTree slice,
        ((next :: rest).getLast (List.cons_ne_nil next rest)).leaf slice .identifier]
  | _ => c.leaf slice .identifier

def genericTree (c : Concrete) : Tree :=
  match c.namedChildren with
  | base :: _ => base.nameTree slice
  | [] => c.leaf slice (.other "generic_type")

def nameTreeOf (kind : String) (c : Concrete) : Tree :=
  match kind with
  | "identifier" | "type_identifier" => c.leaf slice .identifier
  | "scoped_identifier" | "scoped_type_identifier" => c.scopedTree slice
  | "generic_type" => c.genericTree slice
  | kind => c.leaf slice (.other kind)

theorem nameTree_eq (c : Concrete) : c.nameTree slice = c.nameTreeOf slice c.kind := by
  rw [nameTree]
  split
  case h_1 hk | h_2 hk =>
    rw [hk]
    rfl
  case h_3 hk | h_4 hk =>
    rw [hk]
    show _ = c.scopedTree slice
    rw [scopedTree]
    split
    · rename_i h
      simp only [h]
    · rename_i hno
      split
      · rename_i h
        exact absurd h (hno _ _ _)
      · rfl
  case h_5 hk =>
    rw [hk]
    show _ = c.genericTree slice
    rw [genericTree]
    split
    · rename_i h
      simp only [h]
    · rename_i h
      simp only [h]
  case h_6 =>
    unfold nameTreeOf
    split
    all_goals first | rfl | contradiction

/-! ## Modifiers and annotations -/

/-- What a child of a modifiers node leaves behind. -/
def modifierTrees (x : Concrete) : List Tree :=
  match x.kind with
  | "final" => [x.leaf slice .finalModifier]
  | "marker_annotation" | "annotation" => [x.annotationTree slice]
  | _ => []

theorem modifiersTree_eq (c : Concrete) :
    c.modifiersTree slice =
      .interior .modifiers c.line (c.children.flatMap (modifierTrees slice)) := by
  rw [modifiersTree]
  simp only [List.flatMap_subtype, List.unattach_attach]
  rfl

/-! ## Declarations -/

/-- The modifiers of a declaration, empty ones if none are written. -/
def declaredModifiers (c : Concrete) : Tree :=
  c.modifiers?.elim (.interior .modifiers c.line []) (modifiersTree slice)

def variableTree (c d : Concrete) : Tree :=
  .interior .variableDecl d.line (declaredModifiers slice c ::
    ((c.child? "type").toList.map (typeTree slice) ++
      (d.child? "name").toList.map (leaf slice .identifier) ++
      (d.child? "value").toList.map fun v =>
        .interior .expression v.line (d.contributionIn slice "value")))

theorem variableTrees_eq (c : Concrete) :
    c.variableTrees slice = (c.childrenIn "declarator").map (variableTree slice c) := by
  rw [variableTrees]
  simp only [List.map_subtype, List.unattach_attach]
  refine List.map_congr_left fun d _ => ?_
  refine congrArg (Tree.interior _ _) (congrArg (· :: _) ?_)
  split
  · rename_i m h
    rw [declaredModifiers, h]
    rfl
  · rename_i h
    rw [declaredModifiers, h]
    rfl

/-! ## Calls -/

def argumentTrees (x : Concrete) : List Tree :=
  match x.contribution slice with
  | [] => []
  | wrapped => [.interior .expression x.line wrapped]

theorem argumentsTree_eq (c : Concrete) :
    c.argumentsTree slice =
      .interior .argumentList c.line (c.namedChildren.flatMap (argumentTrees slice)) := by
  rw [argumentsTree]
  simp only [List.flatMap_subtype, List.unattach_attach]
  rfl

/-- The callee of a call: its name, or the access to its name. -/
def calleeTrees (c : Concrete) : List Tree :=
  match c.child? "object", c.child? "name" with
  | some object, some name =>
    [.interior .memberAccess c.line [object.tree slice, name.leaf slice .identifier]]
  | some object, none => [object.tree slice]
  | none, some name => [name.leaf slice .identifier]
  | none, none => []

theorem callTree_eq (c : Concrete) :
    c.callTree slice = .interior .methodCall c.line
      (c.calleeTrees slice ++ (c.child? "arguments").toList.map (argumentsTree slice)) := by
  rw [callTree]
  refine congrArg (Tree.interior _ _) (congr (congrArg _ ?_) ?_)
  · rw [treeIn_eq, calleeTrees]
    cases c.child? "object" with
    | none => cases c.child? "name" <;> rfl
    | some object => cases c.child? "name" <;> rfl
  split
  · rename_i x h
    have hx : (c.child? "arguments").toList = [x] := by rw [h]; rfl
    rw [hx]
    rfl
  · rename_i h
    have hx : (c.child? "arguments").toList = [] := by rw [h]; rfl
    rw [hx]
    rfl

/-! ## Induction -/

/-- What holds of a tree once it holds of all smaller ones. -/
theorem induction_size {P : Concrete → Prop}
    (step : ∀ c, (∀ x, x.size < c.size → P x) → P c) (c : Concrete) : P c := by
  generalize hn : c.size = n
  induction n using Nat.strongRecOn generalizing c with
  | ind n ih =>
      refine step c fun x hx => ?_
      exact ih x.size (hn ▸ hx) x rfl

end PropertyHarvest.Concrete
