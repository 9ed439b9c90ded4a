/-
# Values of trees that resemble each other

Trees that resemble each other have the same value or are refused for the same
reason on the same line (`Resembles.literal_eq`).  Where the text of a node is
read that may be of any kind, as the constant in `Type.CONSTANT.toString()`, the
node is the member of an access.

The converse is not asked.  Two trees with one value may have nothing to do with each
other.

The induction is on the size of the first tree, as the value recurses.  What a call asks
for is settled before it: trees that resemble each other have the same shape as calls
(`CallShape.Resembles`), and only a path builder goes on to an argument.
-/
import PropertyHarvest.Proofs.Literal.Equations
import PropertyHarvest.Proofs.Tree.Resemblance

namespace PropertyHarvest

open PropertyHarvest.Tree (Resembles)

namespace Literal

/-! ## The shapes of a call -/

/-- The same shape, of arguments that resemble each other. -/
inductive CallShape.Resembles : CallShape → CallShape → Prop
  | constant {name : String} : Resembles (.constant name) (.constant name)
  | filePath {handle : String} : Resembles (.filePath handle) (.filePath handle)
  | unknown : Resembles .unknown .unknown
  | path {builder : Idiom.PathBuilder} {argument argument' : Tree}
      (argument_resembles : argument.Resembles argument') :
      Resembles (.path builder argument) (.path builder argument')

theorem CallShape.Resembles.refl (shape : CallShape) : shape.Resembles shape := by
  cases shape with
  | constant name => exact .constant
  | filePath handle => exact .filePath
  | unknown => exact .unknown
  | path builder argument => exact .path (.refl argument)

variable {t t' u u' : Tree} {arguments? arguments'? : Option Tree} {files : List String}

theorem enumConstant?_eq (h : t.Resembles t') (hk : t.kind = .memberAccess)
    (hu : u'.text? = u.text?) (ha : Option.Rel Resembles arguments? arguments'?) :
    enumConstant? t' u' arguments'? = enumConstant? t u arguments? := by
  have hempty : arguments'?.all (·.children.isEmpty) = arguments?.all (·.children.isEmpty) := by
    cases ha with
    | none => rfl
    | some hrel => exact isEmpty_of_forall₂ hrel.children
  have hmember := h.member_text?_eq hk
  rw [enumConstant?, enumConstant?, hu, hempty]
  rcases cases_of_rel h.firstChild? with ⟨hf, hf'⟩ | ⟨owner, owner', hf, hf', howner⟩
  · rw [hf, hf']
  rcases cases_of_rel h.secondChild? with ⟨hs, hs'⟩ | ⟨constant, constant', hs, hs', -⟩
  · rw [hf, hf', hs, hs']
  rw [hs, hs', Option.bind_some, Option.bind_some] at hmember
  rw [hf, hf', hs, hs']
  dsimp only
  rw [howner.is_eq, hmember]

theorem fileHandle?_eq (h : t.Resembles t') (hu : u'.text? = u.text?) :
    fileHandle? files t' u' = fileHandle? files t u := by
  rw [fileHandle?, fileHandle?, h.is_eq, hu]
  split
  · rename_i hobject
    rw [Bool.and_eq_true] at hobject
    rw [h.identifier_text?_eq (eq_of_beq hobject.1)]
  · rfl

theorem dottedShape_eq (h : t.Resembles t') (hk : t.kind = .memberAccess)
    (ha : Option.Rel Resembles arguments? arguments'?) :
    dottedShape files t' arguments'? = dottedShape files t arguments? := by
  have hmember := h.member_text?_eq hk
  rw [dottedShape, dottedShape]
  rcases cases_of_rel h.firstChild? with ⟨hf, hf'⟩ | ⟨object, object', hf, hf', hobject⟩
  · rw [hf, hf']
  rcases cases_of_rel h.secondChild? with ⟨hs, hs'⟩ | ⟨member, member', hs, hs', -⟩
  · rw [hf, hf', hs, hs']
  rw [hs, hs', Option.bind_some, Option.bind_some] at hmember
  rw [hf, hf', hs, hs']
  dsimp only
  rw [hobject.is_eq]
  split
  · rename_i haccess
    rw [enumConstant?_eq hobject (eq_of_beq haccess) hmember ha]
  · rw [fileHandle?_eq hobject hmember]

theorem plainShape_resembles (h : t.Resembles t') (hk : t.kind = .identifier)
    (ha : Option.Rel Resembles arguments? arguments'?) :
    (plainShape t arguments?).Resembles (plainShape t' arguments'?) := by
  unfold plainShape
  rw [h.identifier_text?_eq hk]
  cases t.text?.bind Idiom.PathBuilder.ofName? with
  | none => exact .unknown
  | some builder =>
      cases ha with
      | none => exact .unknown
      | @some arguments arguments' harguments =>
          dsimp only
          rw [harguments.children.length_eq]
          split
          · rcases cases_of_rel (harguments.findFirstChild? .expression) with
              ⟨he, he'⟩ | ⟨argument, argument', he, he', hargument⟩
            · rw [he, he']
              exact .refl _
            · rw [he, he']
              exact .path hargument
          · exact .refl _

theorem callShape_resembles (h : t.Resembles t') (files : List String) :
    (callShape files t).Resembles (callShape files t') := by
  have harguments := h.findFirstChild? .argumentList
  rw [callShape, callShape]
  rcases cases_of_rel h.firstChild? with ⟨hf, hf'⟩ | ⟨callee, callee', hf, hf', hcallee⟩
  · rw [hf, hf']
    exact .refl _
  · rw [hf, hf']
    dsimp only
    rw [hcallee.kind_eq]
    split
    · rename_i hk
      rw [dottedShape_eq hcallee hk harguments]
      exact .refl _
    · rename_i hk
      exact plainShape_resembles hcallee hk harguments
    · exact .refl _

end Literal

namespace Tree

open Literal (callShape callShape_resembles)

variable {s : Surroundings} {t t' : Tree}

theorem Resembles.unsupported_eq (h : t.Resembles t') : t'.unsupported = t.unsupported := by
  rw [unsupported, unsupported, h.kind_eq, h.line_eq]

section Step

variable (h : t.Resembles t')
  (ih : ∀ {u u' : Tree}, u.size < t.size → u.Resembles u' → u'.literal s = u.literal s)
include h ih

omit ih in
theorem literal_string_of_resembles (hk : t.kind = .stringLiteral) :
    t'.literal s = t.literal s := by
  have hk' : t'.kind = .stringLiteral := h.kind_eq.trans hk
  have htext : t'.text? = t.text? := h.text?_eq fun word he => by
    rw [hk] at he
    cases he
  cases hvalue : t.text?.bind unquote? with
  | none =>
      rw [literal_string_of_none hk hvalue, literal_string_of_none hk' (htext ▸ hvalue),
        h.unsupported_eq]
  | some text => rw [literal_string hk hvalue, literal_string hk' (htext ▸ hvalue)]

theorem literal_concatenation_of_resembles (hk : t.kind = .concatenation) :
    t'.literal s = t.literal s := by
  have hk' : t'.kind = .concatenation := h.kind_eq.trans hk
  rcases cases_of_rel h.firstChild? with ⟨hl, hl'⟩ | ⟨left, left', hl, hl', hleft⟩
  · rw [literal_concatenation_of_none hk (fun _ _ hs _ => nomatch hl.symm.trans hs),
      literal_concatenation_of_none hk' (fun _ _ hs _ => nomatch hl'.symm.trans hs),
      h.unsupported_eq]
  rcases cases_of_rel h.lastChild? with ⟨hr, hr'⟩ | ⟨right, right', hr, hr', hright⟩
  · rw [literal_concatenation_of_none hk (fun _ _ _ hs => nomatch hr.symm.trans hs),
      literal_concatenation_of_none hk' (fun _ _ _ hs => nomatch hr'.symm.trans hs),
      h.unsupported_eq]
  rw [literal_concatenation hk hl hr, literal_concatenation hk' hl' hr',
    ih (size_lt_of_mem (mem_of_firstChild? hl)) hleft,
    ih (size_lt_of_mem (mem_of_lastChild? hr)) hright]

theorem literal_call_of_resembles (hk : t.kind = .methodCall) : t'.literal s = t.literal s := by
  have hk' : t'.kind = .methodCall := h.kind_eq.trans hk
  have hshape := callShape_resembles h s.fileHandles
  generalize hc : callShape s.fileHandles t = shape at hshape
  generalize hc' : callShape s.fileHandles t' = shape' at hshape
  cases hshape with
  | constant => rw [literal_constant hk hc, literal_constant hk' hc']
  | filePath => rw [literal_filePath hk hc, literal_filePath hk' hc', h.line_eq]
  | unknown => rw [literal_unknown hk hc, literal_unknown hk' hc', h.unsupported_eq]
  | @path builder argument argument' hargument =>
      rcases cases_of_rel hargument.firstChild? with ⟨ha, ha'⟩ | ⟨content, content', ha, ha', hr⟩
      · rw [literal_path_of_none hk hc ha, literal_path_of_none hk' hc' ha',
          hargument.unsupported_eq]
      · have hsize : content.size < t.size :=
          Nat.lt_trans (size_lt_of_mem (mem_of_firstChild? ha)) (Literal.size_lt_of_callShape hc)
        rw [literal_path hk hc ha, literal_path hk' hc' ha', ih hsize hr, h.unsupported_eq]

end Step

/-- The value is the same, and so is the reason why there is none. -/
theorem Resembles.literal_eq (s : Surroundings) (h : t.Resembles t') :
    t'.literal s = t.literal s := by
  induction hn : t.size using Nat.strongRecOn generalizing t t' with
  | ind n ih =>
  subst hn
  have hsmaller {u u' : Tree} (hu : u.size < t.size) (hr : u.Resembles u') :
      u'.literal s = u.literal s := ih u.size hu hr rfl
  cases hk : t.kind with
  | stringLiteral => exact literal_string_of_resembles h hk
  | nullLiteral => rw [literal_null hk, literal_null (h.kind_eq.trans hk)]
  | concatenation => exact literal_concatenation_of_resembles h hsmaller hk
  | methodCall => exact literal_call_of_resembles h hsmaller hk
  | _ =>
      have hno : hasValueKind t.kind = false := by rw [hk]; rfl
      rw [literal_of_not_hasValueKind hno, literal_of_not_hasValueKind (h.kind_eq ▸ hno),
        h.unsupported_eq]

theorem Resembles.literalContent_eq (s : Surroundings) (h : t.Resembles t') :
    t'.literalContent s = t.literalContent s := by
  rw [literalContent, literalContent]
  rcases cases_of_rel h.firstChild? with ⟨hf, hf'⟩ | ⟨content, content', hf, hf', hcontent⟩
  · rw [hf, hf', h.unsupported_eq]
  · rw [hf, hf']
    exact hcontent.literal_eq s

end Tree

end PropertyHarvest
