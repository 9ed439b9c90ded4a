/-
# Values with the base path left open

The base path is put in front of every path that is built, and nothing ever
looks at it.  So the value of an expression is a template, a row of fixed texts
and of places for the base path; which template it is, whether there is one,
and with what refusal if there is none, does not depend on the base path
(`exists_template`).  Where no path is built there is no place to fill.

A template is a list of pieces and no function, so two of them can be compared, and
that a base path occurs in one is visible.  Two templates may be filled in alike at one
base path and not at another; which happens where a path is written out by hand and
built elsewhere.
-/
import PropertyHarvest.Proofs.Literal.Handles
import PropertyHarvest.Proofs.Tree.Located

namespace PropertyHarvest

/-! ## Templates -/

inductive Piece where
  | text (s : String)
  /-- Where the base path goes. -/
  | basePath
  deriving DecidableEq, Repr

/-- A text in which the base path is left open. -/
abbrev Template := List Piece

namespace Template

def fill (basePath : String) : Template → String
  | [] => ""
  | .text s :: rest => s ++ fill basePath rest
  | .basePath :: rest => basePath ++ fill basePath rest

def IsFixed (t : Template) : Prop :=
  Piece.basePath ∉ t

theorem fill_append (b : String) (t u : Template) :
    (t ++ u : Template).fill b = t.fill b ++ u.fill b := by
  fun_induction fill b t with
  | case1 => exact String.empty_append.symm
  | case2 s rest ih => rw [List.cons_append, fill, ih, String.append_assoc]
  | case3 rest ih => rw [List.cons_append, fill, ih, String.append_assoc]

theorem fill_text (b s : String) : fill b [.text s] = s := by
  rw [fill, fill, String.append_empty]

theorem isFixed_text (s : String) : IsFixed [.text s] := by
  intro h
  cases List.mem_singleton.mp h

theorem IsFixed.append {t u : Template} (ht : t.IsFixed) (hu : u.IsFixed) :
    (t ++ u : Template).IsFixed := by
  intro h
  exact (List.mem_append.mp h).elim ht hu

theorem IsFixed.fill_eq {t : Template} (h : t.IsFixed) (b b' : String) :
    t.fill b = t.fill b' := by
  induction t with
  | nil => rfl
  | cons piece rest ih =>
      have hrest : IsFixed rest := fun hr => h (List.mem_cons_of_mem _ hr)
      cases piece with
      | text s => rw [fill, fill, ih hrest]
      | basePath => exact absurd List.mem_cons_self h

/-- An operand of a concatenation; an absent one is a text. -/
def operand (t? : Option Template) : Template :=
  t?.getD [.text nullText]

theorem fill_operand (b : String) (t? : Option Template) :
    (operand t?).fill b = (t?.map (fill b)).getD nullText := by
  cases t? with
  | none => exact fill_text b _
  | some t => rfl

theorem isFixed_operand {t? : Option Template} (h : ∀ t, t? = some t → t.IsFixed) :
    (operand t?).IsFixed := by
  cases t? with
  | none => exact isFixed_text _
  | some t => exact h t rfl

/-- The path that a builder makes of a file name. -/
def built (packagePath : String) (builder : Idiom.PathBuilder) (name : Template) : Template :=
  .basePath :: .text builder.dir :: .text packagePath :: name

end Template

namespace Surroundings

def atBase (s : Surroundings) (basePath : String) : Surroundings :=
  { s with basePath }

end Surroundings

theorem Template.fill_built (s : Surroundings) (b : String) (builder : Idiom.PathBuilder)
    (name : Template) : (built s.packagePath builder name).fill b =
      Literal.builtPath (s.atBase b) builder (name.fill b) := by
  rw [built, fill, fill, fill, Literal.builtPath, String.append_assoc, String.append_assoc]
  rfl

/-! ## Expressions -/

namespace Tree

open Literal (callShape)

/-- A call that builds a path, by the name that is called. -/
def isPathCall (t : Tree) : Bool :=
  t.is .methodCall && t.firstChild?.any fun callee =>
    callee.is .identifier && (callee.text?.bind Idiom.PathBuilder.ofName?).isSome

/-- No path is built in the tree. -/
def BuildsNoPath (t : Tree) : Prop :=
  t.Everywhere (·.isPathCall = false)

theorem isPathCall_of_callShape {files : List String} {t argument : Tree}
    {builder : Idiom.PathBuilder} (hk : t.kind = .methodCall)
    (hc : callShape files t = .path builder argument) : t.isPathCall = true := by
  have hcall : t.is .methodCall = true := beq_iff_eq.mpr hk
  rw [isPathCall, hcall, Bool.true_and]
  unfold callShape at hc
  cases hcallee : t.firstChild? with
  | none =>
      rw [hcallee] at hc
      cases hc
  | some callee =>
      rw [hcallee] at hc
      dsimp only at hc
      split at hc
      · exact absurd hc Literal.dottedShape_ne_path
      · rename_i hident
        unfold Literal.plainShape at hc
        split at hc
        · rename_i hname _
          rw [Option.any_some, hname]
          exact Bool.and_eq_true_iff.mpr ⟨beq_iff_eq.mpr hident, rfl⟩
        · cases hc
      · cases hc

/-- `r` is what an expression comes to while the base path is left open: filled
in at any base path it is the value there, and there is something to fill in
only where a path is built. -/
structure ComesTo (s : Surroundings) (t : Tree) (r : Except LiteralError (Option Template)) :
    Prop where
  literal_atBase : ∀ b, t.literal (s.atBase b) = r.map (Option.map (Template.fill b))
  isFixed : t.BuildsNoPath → ∀ x, r = .ok (some x) → x.IsFixed

variable {s : Surroundings} {t : Tree}

theorem ComesTo.refused {e : LiteralError} (h : ∀ b, t.literal (s.atBase b) = .error e) :
    t.ComesTo s (.error e) where
  literal_atBase := h
  isFixed := fun _ _ he => by cases he

theorem ComesTo.constant {text : String} (h : ∀ b, t.literal (s.atBase b) = .ok (some text)) :
    t.ComesTo s (.ok (some [.text text])) where
  literal_atBase := fun b => by
    rw [h b]
    exact congrArg (Except.ok ∘ some) (Template.fill_text b text).symm
  isFixed := fun _ x hx => by
    cases hx
    exact Template.isFixed_text text

/-- Every expression comes to a template, to nothing, or to a refusal, and the
base path has no part in it. -/
theorem exists_template (s : Surroundings) (t : Tree) : ∃ r, t.ComesTo s r := by
  fun_induction literal s t with
  | case1 t hk text ht => exact ⟨_, .constant fun b => literal_string hk ht⟩
  | case2 t hk ht => exact ⟨_, .refused fun b => literal_string_of_none hk ht⟩
  | case3 t hk =>
      refine ⟨.ok none, fun b => literal_null hk, fun _ x hx => ?_⟩
      cases hx
  | case4 t hk left right hl hr _ _ ihl ihr =>
      obtain ⟨l, hleft⟩ := ihl
      obtain ⟨r, hright⟩ := ihr
      have hvalue (b : String) := literal_concatenation (s := s.atBase b) hk hl hr
      simp only [hleft.literal_atBase, hright.literal_atBase] at hvalue
      -- The left refusal comes first, as in the value.
      rcases l with e | l?
      · exact ⟨_, .refused hvalue⟩
      rcases r with e | r?
      · exact ⟨_, .refused hvalue⟩
      refine ⟨.ok (some (Template.operand l? ++ Template.operand r?)), fun b => ?_, ?_⟩
      · rw [hvalue b]
        show Except.ok (some (Literal.join _ _)) = .ok (some (Template.fill b _))
        rw [Template.fill_append, Template.fill_operand, Template.fill_operand, Literal.join]
      · rintro hno x ⟨⟩
        refine .append (Template.isFixed_operand fun y hy => ?_)
          (Template.isFixed_operand fun y hy => ?_)
        · exact hleft.isFixed (hno.child (mem_of_firstChild? hl)) y (congrArg _ hy)
        · exact hright.isFixed (hno.child (mem_of_lastChild? hr)) y (congrArg _ hy)
  | case5 t hk hno => exact ⟨_, .refused fun b => literal_concatenation_of_none hk hno⟩
  | case6 t hk name hc =>
      exact ⟨_, .constant fun b => literal_constant (s := s.atBase b) hk hc⟩
  | case7 t hk handle hc =>
      exact ⟨_, .refused fun b => literal_filePath (s := s.atBase b) hk hc⟩
  | case8 t hk builder argument hc ha =>
      exact ⟨_, .refused fun b => literal_path_of_none (s := s.atBase b) hk hc ha⟩
  | case9 t hk builder argument hc content ha _ ih =>
      obtain ⟨r, hcontent⟩ := ih
      have hvalue (b : String) := literal_path (s := s.atBase b) hk hc ha
      simp only [hcontent.literal_atBase] at hvalue
      rcases r with e | name?
      · exact ⟨_, .refused hvalue⟩
      cases name? with
      | none => exact ⟨_, .refused hvalue⟩
      | some name =>
          refine ⟨.ok (some (.built s.packagePath builder name)), fun b => ?_, ?_⟩
          · rw [hvalue b]
            show Except.ok (some _) = .ok (some (Template.fill b _))
            rw [Template.fill_built]
          · intro hno
            have hpath := isPathCall_of_callShape hk hc
            rw [hno.root] at hpath
            cases hpath
  | case10 t hk hc => exact ⟨_, .refused fun b => literal_unknown (s := s.atBase b) hk hc⟩
  | case11 t hs hn hc hm =>
      have hvalue : hasValueKind t.kind = false := hasValueKind_eq_false_iff.mpr ⟨hs, hn, hc, hm⟩
      exact ⟨_, .refused fun b => literal_of_not_hasValueKind hvalue⟩

/-- What is refused is refused at every base path. -/
theorem literal_atBase_eq_error_iff (s : Surroundings) (b : String) (t : Tree)
    (e : LiteralError) : t.literal (s.atBase b) = .error e ↔ t.literal s = .error e := by
  obtain ⟨r, hr⟩ := exists_template s t
  rw [hr.literal_atBase b, show t.literal s = _ from hr.literal_atBase s.basePath]
  cases r with
  | error e' => exact Iff.rfl
  | ok x => exact ⟨fun h => (by cases h), fun h => (by cases h)⟩

theorem literal_atBase_of_buildsNoPath (s : Surroundings) (b : String) (h : t.BuildsNoPath) :
    t.literal (s.atBase b) = t.literal s := by
  obtain ⟨r, hr⟩ := exists_template s t
  rw [hr.literal_atBase b, show t.literal s = _ from hr.literal_atBase s.basePath]
  rcases r with e | _ | x
  · rfl
  · rfl
  · show Except.ok (some (x.fill b)) = .ok (some (x.fill s.basePath))
    rw [(hr.isFixed h x rfl).fill_eq b s.basePath]

theorem exists_template_content (s : Surroundings) (t : Tree) :
    ∃ r, ∀ b, t.literalContent (s.atBase b) = Except.map (Option.map (Template.fill b)) r := by
  cases hc : t.firstChild? with
  | none => exact ⟨.error t.unsupported, fun b => by rw [literalContent, hc]; rfl⟩
  | some content =>
      obtain ⟨r, hr⟩ := exists_template s content
      refine ⟨r, fun b => ?_⟩
      rw [literalContent, hc]
      exact hr.literal_atBase b

end Tree

/-! ## Properties -/

/-- A property in which the base path is left open. -/
structure PropertyTemplate where
  name : Template
  value : Template
  deriving DecidableEq, Repr

def PropertyTemplate.fill (basePath : String) (t : PropertyTemplate) : Property :=
  ⟨t.name.fill basePath, t.value.fill basePath⟩

namespace CallSite

theorem exists_template_argument (s : Surroundings) (argument? : Option Tree) :
    ∃ r, ∀ b, argumentValue (s.atBase b) argument? =
      Except.map (Option.map (Template.fill b)) r := by
  cases argument? with
  | none => exact ⟨.ok none, fun b => rfl⟩
  | some argument => exact Tree.exists_template_content s argument

theorem exists_template (s : Surroundings) (arguments? : Option Tree) :
    ∃ r, ∀ b, property (s.atBase b) arguments? =
      Except.map (Option.map (PropertyTemplate.fill b)) r := by
  obtain ⟨name, hname⟩ := exists_template_argument s (Declaration.wrappedArguments arguments?)[0]?
  obtain ⟨value, hvalue⟩ := exists_template_argument s (Declaration.wrappedArguments arguments?)[1]?
  simp only [property, hname, hvalue]
  rcases name with e | name?
  · exact ⟨.error e, fun b => rfl⟩
  rcases value with e | value?
  · exact ⟨.error e, fun b => rfl⟩
  cases name? with
  | none => exact ⟨.ok none, fun b => rfl⟩
  | some name =>
      cases value? with
      | none => exact ⟨.ok none, fun b => rfl⟩
      | some value => exact ⟨.ok (some ⟨name, value⟩), fun b => rfl⟩

theorem property_atBase_of_buildsNoPath (s : Surroundings) (b : String)
    {arguments? : Option Tree}
    (h : ∀ argument ∈ Declaration.wrappedArguments arguments?, argument.BuildsNoPath) :
    property (s.atBase b) arguments? = property s arguments? := by
  have value (i : Nat) : argumentValue (s.atBase b) (Declaration.wrappedArguments arguments?)[i]? =
      argumentValue s (Declaration.wrappedArguments arguments?)[i]? := by
    cases hi : (Declaration.wrappedArguments arguments?)[i]? with
    | none => rfl
    | some argument =>
        have hno := h argument (List.mem_of_getElem? hi)
        show argument.literalContent _ = argument.literalContent _
        rw [Tree.literalContent, Tree.literalContent]
        cases hc : argument.firstChild? with
        | none => rfl
        | some content =>
            exact Tree.literal_atBase_of_buildsNoPath s b (hno.child (Tree.mem_of_firstChild? hc))
  simp only [property, value]

end CallSite

end PropertyHarvest
