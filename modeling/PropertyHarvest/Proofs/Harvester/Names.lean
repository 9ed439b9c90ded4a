/-
# What a dotted name decides

The harvester decides by names that a source may write with dots: by the name of
a package where its files lie, by the name of an annotation whether a method is a
test, by the type of a class literal which module a handle configures, and by
what stands before the parentheses what is called on what.  The list of the
simple names decides each of them, however many there are and whatever comments
stand between them (`names_decide`).

What a name decides is said for the first place where it stands.  A second package
declaration, a second annotation, or a second declaration of a handle is described
elsewhere; here it is asked that there is none before.

There is no bound on the length of a name, and the type of a class literal may be
written with its package while the declared type of a handle may not.
-/
import PropertyHarvest.Proofs.Arena.Layout
import PropertyHarvest.Proofs.Concrete.Names
import PropertyHarvest.Proofs.Harvester.Reading

namespace PropertyHarvest

/-! ## The path of a package -/

namespace Harvester

theorem map_slash_of_no_dot {s : String} (h : '.' ∉ s.toList) :
    (s.toList.map fun c => if c = '.' then '/' else c) = s.toList := by
  have hfix : ∀ c ∈ s.toList, (if c = '.' then '/' else c) = id c := fun c hc =>
    if_neg (ne_of_mem_of_not_mem hc h)
  rw [List.map_congr_left hfix, List.map_id]

theorem pathOfName_intercalate {names : List String} (h : ∀ s ∈ names, '.' ∉ s.toList) :
    pathOfName (".".intercalate names) = "/".intercalate names ++ "/" := by
  have hlist : ((".".intercalate names).toList.map fun c => if c = '.' then '/' else c) =
      ("/".intercalate names).toList := by
    induction names with
    | nil => rfl
    | cons s names ih =>
        obtain ⟨hs, hnames⟩ := List.forall_mem_cons.mp h
        cases names with
        | nil =>
            rw [String.intercalate_singleton, String.intercalate_singleton]
            exact map_slash_of_no_dot hs
        | cons t names =>
            rw [String.intercalate_cons_cons, String.intercalate_cons_cons]
            simp only [String.toList_append, List.map_append, ih hnames, map_slash_of_no_dot hs]
            rfl
  rw [pathOfName, hlist, String.ofList_toList]

end Harvester

namespace Concrete

variable {slice : Slice} {c : Concrete} {names : List String}

/-- The package declaration names `c`, and no other name before it. -/
structure NamesPackage (p c : Concrete) : Prop where
  kind_eq : p.kind = "package_declaration"
  name_kind : c.kind = "identifier" ∨ c.kind = "scoped_identifier"
  first : ∃ before after, p.namedChildren = before ++ c :: after ∧
    ∀ x ∈ before, x.kind ≠ "identifier" ∧ x.kind ≠ "scoped_identifier"

theorem is_of_dottedName? {t : Tree} {text : String} (h : t.dottedName? = some text) :
    (t.is .identifier || t.is .memberAccess) = true := by
  unfold Tree.dottedName? at h
  split at h
  · rfl
  · rfl
  · cases h

theorem packageName?_tree {p : Concrete} (hp : p.NamesPackage c) (h : DottedName slice c names) :
    Harvester.packageName? (p.tree slice) = some (".".intercalate names) := by
  obtain ⟨before, after, hsplit, hbefore⟩ := hp.first
  have htree : p.tree slice = p.packageTree slice := by
    rw [tree, hp.kind_eq]
    rfl
  have hname : (c.kind == "identifier" || c.kind == "scoped_identifier") = true := by
    simpa only [Bool.or_eq_true, beq_iff_eq] using hp.name_kind
  have hnone : before.filter (fun x => x.kind == "identifier" || x.kind == "scoped_identifier") =
      [] := by
    refine List.filter_eq_nil_iff.mpr fun x hx => ?_
    simpa only [Bool.or_eq_true, beq_iff_eq, not_or] using hbefore x hx
  have hfirst : (c :: after).filter (fun x => x.kind == "identifier" ||
      x.kind == "scoped_identifier") =
      c :: after.filter fun x => x.kind == "identifier" || x.kind == "scoped_identifier" :=
    List.filter_cons_of_pos hname
  have htext := dottedName?_nameTree h
  rw [htree, packageTree, hsplit, List.filter_append, hnone, List.nil_append, hfirst,
    List.map_cons, Harvester.packageName?]
  show (List.find? _ (c.nameTree slice :: _)).bind _ = _
  rw [List.find?_cons, is_of_dottedName? htext]
  exact htext

/-! ## The annotation of a test -/

def marksTest (slice : Slice) (x : Concrete) : Bool :=
  (x.modifierTrees slice).any fun t =>
    t.is .annotationUse && (t.firstChild?.bind Tree.dottedName?).any Idiom.isTestAnnotation

/-- The modifiers of a method stand first in it. -/
structure HasModifiers (method modifiers : Concrete) : Prop where
  kind_eq : method.kind = "method_declaration"
  modifiers_kind : modifiers.kind = "modifiers"
  first : ∃ rest, method.parts = modifiers :: rest

structure Annotates (mark c : Concrete) : Prop where
  kind_eq : mark.kind = "marker_annotation" ∨ mark.kind = "annotation"
  name_eq : mark.child? "name" = some c

theorem hasTestAnnotation_tree {method modifiers : Concrete}
    (h : HasModifiers method modifiers) :
    Harvester.hasTestAnnotation (method.tree slice) = modifiers.children.any (marksTest slice) := by
  obtain ⟨rest, hparts⟩ := h.first
  have htree : method.tree slice =
      .interior .methodDecl method.line (method.content slice) := by
    rw [tree, h.kind_eq]
    rfl
  have hmodifiers : modifiers.contribution slice = [modifiers.modifiersTree slice] := by
    rw [contribution, tree, h.modifiers_kind]
    rfl
  rw [htree, content_eq_parts, hparts, List.flatMap_cons, hmodifiers, modifiersTree_eq,
    Harvester.hasTestAnnotation]
  show (((modifiers.children.flatMap (modifierTrees slice)).filter _).any _) = _
  rw [List.any_filter, List.any_flatMap]
  rfl

theorem marksTest_eq {mark : Concrete} (ha : Annotates mark c) (h : DottedName slice c names) :
    marksTest slice mark = Idiom.isTestAnnotation (".".intercalate names) := by
  have hmark : mark.modifierTrees slice = [mark.annotationTree slice] := by
    rw [modifierTrees]
    rcases ha.kind_eq with hk | hk <;> simp only [hk]
  have hfirst : (mark.annotationTree slice).firstChild? = some (c.nameTree slice) := by
    rw [annotationTree, ha.name_eq]
    rfl
  have hkind : (mark.annotationTree slice).is .annotationUse = true := by
    rw [annotationTree]
    rfl
  rw [marksTest, hmark, List.any_cons, List.any_nil, hkind, hfirst, Option.bind_some,
    dottedName?_nameTree h]
  simp

/-! ## The configuration of a module -/

/-- The declarator `d` of the local declaration `p` makes `handle` a configuration
of what the class literal of the type `c` names. -/
inductive Configures (slice : Slice) (p d : Concrete) (handle : String) (c : Concrete) : Prop
  | intro {type name call factory arguments literal : Concrete}
      (kind_eq : p.kind = "local_variable_declaration")
      (declarator : d ∈ p.childrenIn "declarator")
      (type_eq : p.child? "type" = some type) (type_kind : type.kind = "type_identifier")
      (type_text : type.text slice = "DefaultConfiguration" ∨ type.text slice = "Configuration")
      (name_eq : d.child? "name" = some name) (name_text : name.text slice = handle)
      (value_eq : d.child? "value" = some call) (call_kind : call.kind = "method_invocation")
      (undotted : call.child? "object" = none) (factory_eq : call.child? "name" = some factory)
      (factory_text : factory.text slice = "createModuleConfig" ∨
        factory.text slice = "getModuleConfig")
      (arguments_eq : call.child? "arguments" = some arguments)
      (parts_eq : arguments.parts = [literal]) (literal_kind : literal.kind = "class_literal")
      (type_first : literal.namedChildren.head? = some c) : Configures slice p d handle c

section Variable

variable {p d : Concrete}

theorem typeName?_variableTree {type : Concrete} (ht : p.child? "type" = some type)
    (hk : type.kind = "type_identifier") :
    Declaration.typeName? (p.variableTree slice d) = some (type.text slice) := by
  have htype : type.typeTree slice =
      .interior .typeRef type.line [type.leaf slice .identifier] := by
    rw [typeTree, hk, ← nameTree_of_simple (.inr hk)]
    rfl
  rw [Declaration.typeName?, find?_variableTree Kind.noConfusion, ht, Option.toList_some,
    List.map_singleton, htype]
  rfl

theorem declaredName?_variableTree {name : Concrete} (hn : d.child? "name" = some name) :
    Declaration.declaredName? (p.variableTree slice d) = some (name.text slice) := by
  have htype : ((p.child? "type").toList.map (typeTree slice)).find? (·.is .identifier) = none := by
    cases p.child? "type" <;> rfl
  rw [Declaration.declaredName?, find?_variableTree Kind.noConfusion, hn, List.append_assoc,
    List.find?_append, htype]
  rfl

theorem factoryCall?_variableTree {call name arguments : Concrete} {factory : Idiom.Factory}
    (hv : d.child? "value" = some call) (hk : call.kind = "method_invocation")
    (ho : call.child? "object" = none) (hn : call.child? "name" = some name)
    (hf : Idiom.Factory.ofName? (name.text slice) = some factory)
    (ha : call.child? "arguments" = some arguments) :
    Declaration.factoryCall? (p.variableTree slice d) =
      some (factory, call.callTree slice, some (arguments.argumentsTree slice)) := by
  have hvalue : Declaration.initializer? (p.variableTree slice d) = some (call.callTree slice) := by
    rw [Declaration.initializer?, findFirstChild?_variableTree hv (contribution_of_call hk)]
    rfl
  have hcall : (call.callTree slice).creationCall? =
      some (name.text slice, some (arguments.argumentsTree slice)) := by
    rw [callTree_eq, calleeTrees, ho, hn, ha, Option.toList_some, List.map_singleton,
      argumentsTree_eq]
    rfl
  rw [Declaration.factoryCall?, hvalue, Option.bind_eq_bind, Option.bind_some, hcall]
  show (Idiom.Factory.ofName? (name.text slice)).bind _ = _
  rw [hf]
  rfl

end Variable

/-- The one argument of the factory is a class literal, and its last name is the
module. -/
theorem moduleOfArguments_classLiteral {arguments literal : Concrete} {module : String}
    (hp : arguments.parts = [literal]) (hk : literal.kind = "class_literal")
    (hc : literal.namedChildren.head? = some c) (h : DottedName slice c names)
    (hlast : names.getLast? = some module) :
    Declaration.moduleOfArguments (some (arguments.argumentsTree slice)) = .ok module := by
  have hliteral : literal.argumentTrees slice =
      [.interior .expression literal.line [literal.classLiteralTree slice]] := by
    rw [argumentTrees, contribution_of_classLiteral hk]
  have hkind : (literal.classLiteralTree slice).kind = .memberAccess := rfl
  have hname := (classLiteralName?_classLiteralTree h hc).trans hlast
  rw [argumentsTree_eq_parts, hp, List.flatMap_singleton, hliteral]
  show Declaration.moduleOfContent (literal.classLiteralTree slice) = _
  rw [Declaration.moduleOfContent, hkind]
  dsimp only
  rw [hname]

theorem Configures.classify_eq {p d : Concrete} {handle module : String} {parent? : Option Kind}
    (hd : Configures slice p d handle c) (h : DottedName slice c names)
    (hlast : names.getLast? = some module) (hlocal : Declaration.isLocal parent? = true) :
    Declaration.classify parent? (p.variableTree slice d) =
      .ok (.configuration handle module) := by
  obtain ⟨-, -, htype, htk, htext, hname, hhandle, hv, hk, ho, hn, hfactory, ha, hp, hl, hc⟩ := hd
  have hf : ∀ {name : String}, name = "createModuleConfig" ∨ name = "getModuleConfig" →
      Idiom.Factory.ofName? name = some .fromArgument := by
    rintro name (rfl | rfl) <;> rfl
  have hconfig : ∀ {type : String}, type = "DefaultConfiguration" ∨ type = "Configuration" →
      Idiom.isConfigurationType type = true := by
    rintro type (rfl | rfl) <;> decide
  rw [Declaration.classify, if_pos hlocal, typeName?_variableTree htype htk,
    declaredName?_variableTree hname, hhandle]
  dsimp only
  rw [if_pos (hconfig htext), factoryCall?_variableTree hv hk ho hn (hf hfactory) ha]
  dsimp only
  rw [Declaration.moduleOf, moduleOfArguments_classLiteral hp hl hc h hlast]
  rfl

/-! ## The visits -/

theorem visit_package {p : Concrete} (hp : p.NamesPackage c) (h : DottedName slice c names)
    (hdots : ∀ s ∈ names, '.' ∉ s.toList) {a : Arena} {n : Node a} (hn : n.tree = p.tree slice)
    (harvester : Harvester) :
    harvester.visit n =
      (.ok (), { harvester with packagePath := "/".intercalate names ++ "/" }) := by
  have hkind : n.kind = .packageDecl := by
    rw [Node.kind, hn, tree, hp.kind_eq]
    rfl
  rw [Harvester.visit, hkind]
  dsimp only
  rw [Harvester.visitPackage, hn, packageName?_tree hp h]
  show (_, { harvester with packagePath := Harvester.pathOfName (".".intercalate names) }) = _
  rw [Harvester.pathOfName_intercalate hdots]

theorem visit_variable {p d : Concrete} {handle module : String}
    (hd : Configures slice p d handle c) (h : DottedName slice c names)
    (hlast : names.getLast? = some module) {a : Arena} {n : Node a}
    (hn : n.tree = p.variableTree slice d)
    (hlocal : Declaration.isLocal (n.parent?.map Node.kind) = true) {harvester : Harvester}
    (hactive : harvester.scope.isActive = true) :
    harvester.visit n =
      (.ok (), { harvester with scope := harvester.scope.bind handle module }) := by
  have hkind : n.kind = .variableDecl := by
    rw [Node.kind, hn]
    rfl
  rw [Harvester.visit, hkind]
  dsimp only
  rw [if_pos hactive, Harvester.visitVariable, hn, hd.classify_eq h hlast hlocal]

/-- While no method is open, a method is opened exactly if it carries the annotation
of a test. -/
theorem isActiveMethod_visit_iff {method : Concrete} (hk : method.kind = "method_declaration")
    {a : Arena} {n : Node a} (hn : n.tree = method.tree slice) {harvester : Harvester}
    (hidle : harvester.scope.isActive = false) :
    (harvester.visit n).2.scope.isActiveMethod n.id = true ↔
      Harvester.hasTestAnnotation (method.tree slice) = true := by
  have hkind : n.kind = .methodDecl := by
    rw [Node.kind, hn, tree, hk]
    rfl
  rw [Harvester.visit, hkind]
  dsimp only
  rw [Harvester.visitMethod, hn, hidle, Bool.not_false, Bool.true_and]
  cases Harvester.hasTestAnnotation (method.tree slice) with
  | true =>
      rw [if_pos rfl, MethodScope.enter, hidle, if_neg Bool.false_ne_true]
      simp [MethodScope.isActiveMethod]
  | false =>
      rw [if_neg Bool.false_ne_true, MethodScope.isActiveMethod]
      rw [MethodScope.isActive, Option.isSome_eq_false_iff, Option.isNone_iff_eq_none] at hidle
      simp [hidle]

theorem isTestAnnotation_iff {name : String} :
    Idiom.isTestAnnotation name = true ↔
      name = "Test" ∨ name = "org.junit.Test" ∨ name = "org.junit.jupiter.api.Test" := by
  rw [Idiom.isTestAnnotation, List.contains_iff_mem, Idiom.testAnnotations]
  simp only [List.mem_cons, List.not_mem_nil, or_false]

/-- An annotation makes a method a test or changes nothing. -/
theorem hasTestAnnotation_iff {mark method method' modifiers modifiers' : Concrete}
    {us vs : List Concrete} (ha : Annotates mark c) (h : DottedName slice c names)
    (hm : HasModifiers method modifiers) (hc : modifiers.children = us ++ mark :: vs)
    (hm' : HasModifiers method' modifiers') (hc' : modifiers'.children = us ++ vs) :
    Harvester.hasTestAnnotation (method.tree slice) = true ↔
      Idiom.isTestAnnotation (".".intercalate names) = true ∨
        Harvester.hasTestAnnotation (method'.tree slice) = true := by
  rw [hasTestAnnotation_tree hm, hasTestAnnotation_tree hm', hc, hc', List.any_append,
    List.any_cons, List.any_append, marksTest_eq ha h]
  simp only [Bool.or_eq_true]
  exact or_left_comm

theorem callee_of_chain {call object name : Concrete} {init : List String} {receiver : String}
    (hk : call.kind = "method_invocation") (ho : call.child? "object" = some object)
    (hn : call.child? "name" = some name) (h : AccessChain slice object init)
    (hlast : init.getLast? = some receiver) :
    ∃ callee, (call.tree slice).firstChild? = some callee ∧
      callee.dottedName? = some (".".intercalate (init ++ [name.text slice])) ∧
      callee.calledName? = some (name.text slice) ∧ callee.receiverName? = some receiver :=
  ⟨_, firstChild?_callTree hk ho hn, dottedName?_access h.ne_nil (dottedName?_tree h), rfl,
    (calledName?_tree h).trans hlast⟩

/-- What the list of the simple names decides, wherever they are written as a
dotted name or as a chain of accesses. -/
theorem names_decide {names : List String} (hdots : ∀ s ∈ names, '.' ∉ s.toList) :
    -- The dotted text is that of the names.
    (∀ c, DottedName slice c names →
      (c.nameTree slice).dottedName? = some (".".intercalate names)) ∧
    -- The files of a package lie below its names.
    (∀ c p, DottedName slice c names → NamesPackage p c →
      ∀ {a : Arena} (n : Node a) (h : Harvester), n.tree = p.tree slice →
        h.visit n = (.ok (), { h with packagePath := "/".intercalate names ++ "/" })) ∧
    -- One of three names makes a method a test; any other changes nothing.  A test is
    -- opened when it is met while no other is open.
    (∀ c mark us vs method modifiers method' modifiers', DottedName slice c names →
      Annotates mark c → HasModifiers method modifiers → modifiers.children = us ++ mark :: vs →
      HasModifiers method' modifiers' → modifiers'.children = us ++ vs →
      (Harvester.hasTestAnnotation (method.tree slice) = true ↔
        (".".intercalate names = "Test" ∨ ".".intercalate names = "org.junit.Test" ∨
          ".".intercalate names = "org.junit.jupiter.api.Test") ∨
        Harvester.hasTestAnnotation (method'.tree slice) = true) ∧
      ∀ {a : Arena} (n : Node a) (h : Harvester), n.tree = method.tree slice →
        h.scope.isActive = false → ((h.visit n).2.scope.isActiveMethod n.id = true ↔
          Harvester.hasTestAnnotation (method.tree slice) = true)) ∧
    -- The last name is the module that a handle configures.
    (∀ c p d handle module, DottedName slice c names → Configures slice p d handle c →
      names.getLast? = some module →
      p.contribution slice = (p.childrenIn "declarator").map (p.variableTree slice) ∧
      ∀ {a : Arena} (n : Node a) (h : Harvester), n.tree = p.variableTree slice d →
        Declaration.isLocal (n.parent?.map Node.kind) = true → h.scope.isActive = true →
        h.visit n = (.ok (), { h with scope := h.scope.bind handle module })) ∧
    -- The last name is what is called, and the one before it is the receiver.
    (∀ (call object name : Concrete) init receiver, call.kind = "method_invocation" →
      call.child? "object" = some object → call.child? "name" = some name →
      AccessChain slice object init → names = init ++ [name.text slice] →
      init.getLast? = some receiver →
      ∃ callee, (call.tree slice).firstChild? = some callee ∧
        callee.dottedName? = some (".".intercalate names) ∧
        callee.calledName? = names.getLast? ∧ callee.receiverName? = some receiver) := by
  refine ⟨fun c => dottedName?_nameTree, fun c p h hp a n s hn => visit_package hp h hdots hn s,
    fun c mark us vs method modifiers method' modifiers' h ha hm hc hm' hc' => ⟨?_,
      fun n s hn hidle => isActiveMethod_visit_iff hm.kind_eq hn hidle⟩,
    fun c p d handle module h hd hlast => ⟨?_, fun n s hn hlocal hactive =>
      visit_variable hd h hlast hn hlocal hactive⟩,
    fun call object name init receiver hk ho hn h hnames hlast => ?_⟩
  · rw [hasTestAnnotation_iff ha h hm hc hm' hc', isTestAnnotation_iff]
  · have hp : p.contribution slice = p.variableTrees slice := by
      obtain ⟨hk⟩ := hd
      rw [contribution, hk]
      rfl
    rw [hp, variableTrees_eq]
  · rw [hnames, List.getLast?_concat]
    exact callee_of_chain hk ho hn h hlast

/-! ## One name in five places

The name below reads `org./* unit */junit.Test`.
-/

/-- The words around the name; a node starts where its word stands. -/
def nameWords : Slice := fun start _ =>
  ["org", "/* unit */", "junit", "Test", "Configuration", "config", "getModuleConfig"].getD start ""

/-- The name, with the grammar's words for a simple and for a dotted name. -/
def unitName (simple dotted : String) (field? : Option String) : Concrete :=
  wordNode dotted field? 0 [
    wordNode dotted none 0 [
      wordNode simple none 0 [], wordNode "block_comment" none 1 [], wordNode simple none 2 []],
    wordNode simple none 3 []]

def unitPackage : Concrete :=
  wordNode "package_declaration" none 0 [unitName "identifier" "scoped_identifier" none]

def unitMark : Concrete :=
  wordNode "marker_annotation" none 0 [unitName "identifier" "scoped_identifier" (some "name")]

/-- A method with the given annotations. -/
def markedMethod (marks : List Concrete) : Concrete :=
  wordNode "method_declaration" none 0 [wordNode "modifiers" none 0 marks]

def unitDeclarator : Concrete :=
  wordNode "variable_declarator" (some "declarator") 5 [
    wordNode "identifier" (some "name") 5 [],
    wordNode "method_invocation" (some "value") 6 [
      wordNode "identifier" (some "name") 6 [],
      wordNode "argument_list" (some "arguments") 6 [
        wordNode "class_literal" none 0 [
          unitName "type_identifier" "scoped_type_identifier" none]]]]

def unitConfiguration : Concrete :=
  wordNode "local_variable_declaration" none 4 [
    wordNode "type_identifier" (some "type") 4 [], unitDeclarator]

def unitCall : Concrete :=
  wordNode "method_invocation" none 0 [
    wordNode "field_access" (some "object") 0 [
      wordNode "identifier" (some "object") 0 [], wordNode "identifier" (some "field") 2 []],
    wordNode "identifier" (some "name") 3 []]

theorem dottedName_unitName {simple dotted : String} (field? : Option String)
    (hs : simple = "identifier" ∨ simple = "type_identifier")
    (hd : dotted = "scoped_identifier" ∨ dotted = "scoped_type_identifier") :
    DottedName nameWords (unitName simple dotted field?) ["org", "junit", "Test"] := by
  let comment := wordNode "block_comment" none 1 []
  let org := wordNode simple none 0 []
  let unit := wordNode simple none 2 []
  have hjunit : DottedName nameWords (wordNode dotted none 0 [org, comment, unit])
      ["org", "junit"] :=
    @DottedName.dotted _ _ org unit [comment] ["org"] hd rfl (.name hs)
  exact @DottedName.dotted _ _ _ (wordNode simple none 3 []) [] ["org", "junit"] hd rfl hjunit

theorem namesPackage_unitPackage :
    NamesPackage unitPackage (unitName "identifier" "scoped_identifier" none) where
  kind_eq := rfl
  name_kind := .inr rfl
  first := ⟨[], [], rfl, fun _ h => nomatch h⟩

theorem hasModifiers_markedMethod (marks : List Concrete) :
    HasModifiers (markedMethod marks) (wordNode "modifiers" none 0 marks) where
  kind_eq := rfl
  modifiers_kind := rfl
  first := ⟨[], rfl⟩

theorem configures_unitDeclarator :
    Configures nameWords unitConfiguration unitDeclarator "config"
      (unitName "type_identifier" "scoped_type_identifier" none) :=
  .intro rfl (List.mem_singleton.mpr rfl) rfl rfl (.inr rfl) rfl rfl rfl rfl rfl rfl (.inr rfl) rfl
    rfl rfl rfl

theorem accessChain_unitCall :
    AccessChain nameWords (wordNode "field_access" (some "object") 0 [
      wordNode "identifier" (some "object") 0 [], wordNode "identifier" (some "field") 2 []])
      ["org", "junit"] :=
  @AccessChain.access _ _ (wordNode "identifier" (some "object") 0 [])
    (wordNode "identifier" (some "field") 2 []) ["org"] rfl rfl rfl rfl (.name rfl)

theorem names_decide_unit :
    ((unitName "identifier" "scoped_identifier" none).nameTree nameWords).dottedName? =
        some "org.junit.Test" ∧
      (∃ n : Node (.ofTree (unitPackage.tree nameWords)),
        ((Harvester.ofBasePath "").visit n).2.packagePath = "org/junit/Test/") ∧
      (∃ n : Node (.ofTree ((markedMethod [unitMark]).tree nameWords)),
        ((Harvester.ofBasePath "").visit n).2.scope.isActiveMethod n.id = true) ∧
      (∃ n : Node (.ofTree (.interior .block 1 (unitConfiguration.contribution nameWords))),
        (({ Harvester.ofBasePath "" with scope := (MethodScope.empty.enter 0).2 }).visit
          n).2.scope.moduleOf? "config" = some "Test") ∧
      ∃ callee, (unitCall.tree nameWords).firstChild? = some callee ∧
        callee.calledName? = some "Test" ∧ callee.receiverName? = some "junit" := by
  have hdots : ∀ s ∈ ["org", "junit", "Test"], '.' ∉ s.toList := by decide
  have hname := dottedName_unitName none (.inl rfl) (.inl rfl)
  have htype := dottedName_unitName none (.inr rfl) (.inr rfl)
  have hmark := dottedName_unitName (some "name") (.inl rfl) (.inl rfl)
  obtain ⟨htext, hpackage, htest, hmodule, hcall⟩ := @names_decide nameWords _ hdots
  refine ⟨htext _ hname, ?_, ?_, ?_, ?_⟩
  · obtain ⟨n, -, hn⟩ := Arena.exists_root_ofTree (unitPackage.tree nameWords)
    refine ⟨n, ?_⟩
    rw [hpackage _ _ hname namesPackage_unitPackage n _ hn]
    rfl
  · obtain ⟨n, -, hn⟩ := Arena.exists_root_ofTree ((markedMethod [unitMark]).tree nameWords)
    obtain ⟨hmarked, hopens⟩ := htest _ unitMark [] [] _ _ _ _ hmark ⟨.inl rfl, rfl⟩
      (hasModifiers_markedMethod _) rfl (hasModifiers_markedMethod []) rfl
    exact ⟨n, (hopens n _ hn rfl).mpr (hmarked.mpr (.inl (.inr (.inl rfl))))⟩
  · obtain ⟨htrees, hbind⟩ := hmodule _ _ _ "config" "Test" htype configures_unitDeclarator rfl
    have hmem : unitConfiguration.variableTree nameWords unitDeclarator ∈
        (Tree.interior .block 1 (unitConfiguration.contribution nameWords)).children := by
      show _ ∈ unitConfiguration.contribution nameWords
      rw [htrees]
      exact List.mem_map_of_mem (List.mem_singleton.mpr rfl)
    obtain ⟨n, hn, hparent⟩ := Node.exists_child_ofTree hmem
    refine ⟨n, ?_⟩
    rw [hbind n _ hn (by rw [hparent]; rfl) rfl]
    rfl
  · obtain ⟨callee, hcallee, -, hcalled, hreceiver⟩ :=
      hcall unitCall _ _ _ "junit" rfl rfl rfl accessChain_unitCall rfl rfl
    exact ⟨callee, hcallee, hcalled, hreceiver⟩

end Concrete

end PropertyHarvest
