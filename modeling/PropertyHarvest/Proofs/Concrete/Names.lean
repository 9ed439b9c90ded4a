/-
# Dotted names

A source writes `a.b.c` in two ways.  Names of packages, annotations and types
are scoped names, nested to the left; the receiver of a call is a field access,
nested to the left as well.  Here the list of the simple names stands for what is
written (`DottedName`, `AccessChain`), and each way of reading such a name finds
what the list says:

    the dotted text              all names, joined by dots
    a class literal              the last name
    the receiver of a call       the last name, whatever is called

A name that starts at something else than a simple name, at a call for instance, has
no dotted text and is not described.  What the harvester makes of the names is in
`Proofs.Harvester.Names`.

Both relations are on the concrete tree and do not mention the lowering.  Comments in
between are allowed by leaving open what else a node has for children.
-/
import PropertyHarvest.Declaration
import PropertyHarvest.Proofs.Concrete.Meaning

namespace PropertyHarvest.Concrete

variable (slice : Slice)

/-! ## Scoped names -/

/-- The node writes the names, joined by dots.  What stands between a scope and
the name behind it, comments for instance, is not read. -/
inductive DottedName : Concrete → List String → Prop
  | name {c : Concrete} (kind_eq : c.kind = "identifier" ∨ c.kind = "type_identifier") :
      DottedName c [c.text slice]
  | dotted {c scope last : Concrete} {between : List Concrete} {names : List String}
      (kind_eq : c.kind = "scoped_identifier" ∨ c.kind = "scoped_type_identifier")
      (named_eq : c.namedChildren = scope :: (between ++ [last]))
      (scope_names : DottedName scope names) : DottedName c (names ++ [last.text slice])

variable {slice} {c : Concrete} {names : List String}

theorem DottedName.ne_nil (h : DottedName slice c names) : names ≠ [] := by
  cases h with
  | name => exact List.cons_ne_nil _ _
  | dotted => exact List.append_ne_nil_of_right_ne_nil _ (List.cons_ne_nil _ _)

theorem nameTree_of_simple (hk : c.kind = "identifier" ∨ c.kind = "type_identifier") :
    c.nameTree slice = c.leaf slice .identifier := by
  rw [nameTree_eq]
  rcases hk with hk | hk <;> rw [hk] <;> rfl

theorem nameTree_of_scoped {scope last : Concrete} {between : List Concrete}
    (hk : c.kind = "scoped_identifier" ∨ c.kind = "scoped_type_identifier")
    (hc : c.namedChildren = scope :: (between ++ [last])) :
    c.nameTree slice =
      .interior .memberAccess c.line [scope.nameTree slice, last.leaf slice .identifier] := by
  have htree : c.nameTree slice = c.scopedTree slice := by
    rw [nameTree_eq]
    rcases hk with hk | hk <;> rw [hk] <;> rfl
  obtain ⟨next, rest, hbehind⟩ := List.exists_cons_of_ne_nil
    (List.append_ne_nil_of_right_ne_nil between (List.cons_ne_nil last []))
  rw [hbehind] at hc
  rw [htree, scopedTree, hc]
  simp only [← hbehind, List.getLast_concat]

/-- An access to a name is called by that name behind what it is an access to. -/
theorem dottedName?_access {object : Tree} {line : Nat} {last : Concrete} (hne : names ≠ [])
    (ho : object.dottedName? = some (".".intercalate names)) :
    (Tree.interior .memberAccess line [object, last.leaf slice .identifier]).dottedName? =
      some (".".intercalate (names ++ [last.text slice])) := by
  have hlast : (last.leaf slice .identifier).dottedName? = some (last.text slice) := rfl
  rw [String.intercalate_append_of_ne_nil hne (List.cons_ne_nil _ _),
    String.intercalate_singleton, Tree.interior, Tree.dottedName?, ho, hlast]

theorem dottedName?_nameTree (h : DottedName slice c names) :
    (c.nameTree slice).dottedName? = some (".".intercalate names) := by
  induction h with
  | @name c hk =>
      rw [nameTree_of_simple hk, String.intercalate_singleton]
      rfl
  | dotted hk hc hscope ih =>
      rw [nameTree_of_scoped hk hc]
      exact dottedName?_access hscope.ne_nil ih

theorem classLiteralName?_classLiteralTree (h : DottedName slice c names) {l : Concrete}
    (hl : l.namedChildren.head? = some c) :
    Declaration.classLiteralName? (l.classLiteralTree slice) = names.getLast? := by
  rw [classLiteralTree, hl]
  cases h with
  | name hk =>
      rw [Option.toList_some, List.map_singleton, nameTree_of_simple hk]
      rfl
  | dotted hk hc =>
      rw [Option.toList_some, List.map_singleton, nameTree_of_scoped hk hc, List.getLast?_concat]
      rfl

/-! ## Field accesses -/

variable (slice) in
/-- The node accesses the last name as a field of the ones before it. -/
inductive AccessChain : Concrete → List String → Prop
  | name {c : Concrete} (kind_eq : c.kind = "identifier") : AccessChain c [c.text slice]
  | access {c object field : Concrete} {names : List String} (kind_eq : c.kind = "field_access")
      (object_eq : c.child? "object" = some object) (field_eq : c.child? "field" = some field)
      (field_kind : field.kind = "identifier") (object_names : AccessChain object names) :
      AccessChain c (names ++ [field.text slice])

theorem AccessChain.ne_nil (h : AccessChain slice c names) : names ≠ [] := by
  cases h with
  | name => exact List.cons_ne_nil _ _
  | access => exact List.append_ne_nil_of_right_ne_nil _ (List.cons_ne_nil _ _)

theorem tree_of_access_eq {object field : Concrete} (hk : c.kind = "field_access")
    (ho : c.child? "object" = some object) (hf : c.child? "field" = some field)
    (hfk : field.kind = "identifier") :
    c.tree slice =
      .interior .memberAccess c.line [object.tree slice, field.leaf slice .identifier] := by
  rw [tree_of_access hk, treeIn_eq, treeIn_eq, ho, hf]
  show Tree.interior _ _ [object.tree slice, field.tree slice] = _
  rw [tree_of_identifier hfk]

theorem dottedName?_tree (h : AccessChain slice c names) :
    (c.tree slice).dottedName? = some (".".intercalate names) := by
  induction h with
  | @name c hk =>
      rw [tree_of_identifier hk, String.intercalate_singleton]
      rfl
  | access hk ho hf hfk hchain ih =>
      rw [tree_of_access_eq hk ho hf hfk]
      exact dottedName?_access hchain.ne_nil ih

theorem calledName?_tree (h : AccessChain slice c names) :
    (c.tree slice).calledName? = names.getLast? := by
  cases h with
  | name hk =>
      rw [tree_of_identifier hk]
      rfl
  | access hk ho hf hfk =>
      rw [tree_of_access_eq hk ho hf hfk, List.getLast?_concat]
      rfl

theorem firstChild?_callTree {call object name : Concrete} (hk : call.kind = "method_invocation")
    (ho : call.child? "object" = some object) (hn : call.child? "name" = some name) :
    (call.tree slice).firstChild? = some
      (.interior .memberAccess call.line [object.tree slice, name.leaf slice .identifier]) := by
  rw [tree, hk]
  show (call.callTree slice).firstChild? = _
  rw [callTree_eq, calleeTrees, ho, hn]
  rfl

end PropertyHarvest.Concrete
