/-
# Members asked for their names

A call through a dotted callee has a value in one shape only:

    Owner.member.toString()        or getName(), or name()

The owner is a simple name, nothing is passed, and the value is the text of the
member (`literal_dotted`).  Nothing is asked about the member itself, so an enum
constant is read as its name, and `class` and `this` are read just the same
(`literal_pseudoMember`).

The header of the value functions says that enum constants are meant.  This module says
what is accepted, and it is more.

The condition is an inductive with one constructor (`AsksName`), and a dotted call that
does not meet it has no value: it is refused as a construct, or for a file handle that
is asked for its path.
-/
import PropertyHarvest.Proofs.Literal.Equations

namespace PropertyHarvest

namespace Tree

/-- The call asks `member`, a member of a simple name, for its name and passes
nothing.  Of an access only the first two children count. -/
inductive AsksName (call member : Tree) : Prop
  | intro {callee access accessor owner : Tree} {name : String}
      (callee_eq : call.firstChild? = some callee)
      (callee_kind : callee.kind = .memberAccess)
      (access_eq : callee.firstChild? = some access)
      (access_kind : access.kind = .memberAccess)
      (accessor_eq : callee.secondChild? = some accessor)
      (accessor_text : accessor.text? = some name)
      (accessor_mem : name ∈ Idiom.enumNameAccessors)
      (owner_eq : access.firstChild? = some owner)
      (owner_kind : owner.kind = .identifier)
      (member_eq : access.secondChild? = some member)
      (nothing_passed : ∀ arguments, call.findFirstChild? .argumentList = some arguments →
        arguments.children = []) : AsksName call member

end Tree

namespace Literal

open PropertyHarvest.Tree (AsksName)

/-! ## The shape -/

theorem enumConstant?_eq_some_iff {access accessor : Tree} {arguments? : Option Tree}
    {name : String} :
    enumConstant? access accessor arguments? = some name ↔
      ∃ owner member, access.firstChild? = some owner ∧ access.secondChild? = some member ∧
        owner.kind = .identifier ∧ (∃ a, accessor.text? = some a ∧ a ∈ Idiom.enumNameAccessors) ∧
        (∀ arguments, arguments? = some arguments → arguments.children = []) ∧
        member.text? = some name := by
  constructor
  · intro h
    rw [enumConstant?] at h
    split at h
    · rename_i owner member ho hm
      split at h
      · rename_i hall
        simp only [Bool.and_eq_true, Option.any_eq_true, Option.all_eq_true,
          List.isEmpty_iff] at hall
        obtain ⟨⟨hk, a, ha, hname⟩, hargs⟩ := hall
        exact ⟨owner, member, ho, hm, beq_iff_eq.mp hk, ⟨a, ha, List.contains_iff_mem.mp hname⟩,
          hargs, h⟩
      · cases h
    · cases h
  · intro ⟨owner, member, ho, hm, hk, ⟨a, ha, hname⟩, hargs, htext⟩
    have hall : (owner.is .identifier && accessor.text?.any Idiom.isEnumNameAccessor
        && arguments?.all (·.children.isEmpty)) = true := by
      simp only [Bool.and_eq_true, Option.any_eq_true, Option.all_eq_true, List.isEmpty_iff]
      exact ⟨⟨beq_iff_eq.mpr hk, a, ha, List.contains_iff_mem.mpr hname⟩, hargs⟩
    simp only [enumConstant?, ho, hm, hall, if_true, htext]

theorem mem_of_fileHandle? {files : List String} {object member : Tree} {handle : String}
    (h : fileHandle? files object member = some handle) : handle ∈ files := by
  rw [fileHandle?] at h
  split at h
  · obtain ⟨-, hcontains⟩ := Option.filter_eq_some_iff.mp h
    exact List.contains_iff_mem.mp hcontains
  · cases h

theorem callShape_dotted {files : List String} {call callee : Tree}
    (hc : call.firstChild? = some callee) (hk : callee.kind = .memberAccess) :
    callShape files call = dottedShape files callee (call.findFirstChild? .argumentList) := by
  simp only [callShape, hc, hk]

/-- A dotted call has the shape of a constant if it asks a member for its name,
and that of a path only for a known file handle. -/
theorem callShape_eq_constant_iff {files : List String} {call callee : Tree}
    (hc : call.firstChild? = some callee) (hk : callee.kind = .memberAccess) {name : String} :
    callShape files call = .constant name ↔
      ∃ member, call.AsksName member ∧ member.text? = some name := by
  rw [callShape_dotted hc hk]
  constructor
  · intro h
    rw [dottedShape] at h
    split at h
    · rename_i access accessor hac hacc
      split at h
      · rename_i hm
        cases he : enumConstant? access accessor (call.findFirstChild? .argumentList) with
        | none =>
            rw [he] at h
            cases h
        | some constant =>
            rw [he] at h
            cases h
            obtain ⟨owner, member, ho, hmem, hok, ⟨a, ha, hname⟩, hargs, htext⟩ :=
              enumConstant?_eq_some_iff.mp he
            exact ⟨member, .intro hc hk hac (beq_iff_eq.mp hm) hacc ha hname ho hok hmem hargs,
              htext⟩
      · cases hf : fileHandle? files access accessor <;> rw [hf] at h <;> cases h
    · cases h
  · rintro ⟨member, ⟨hc', -, hac, hm, hacc, ha, hname, ho, hok, hmem, hargs⟩, htext⟩
    cases hc.symm.trans hc'
    have he : enumConstant? _ _ (call.findFirstChild? .argumentList) = some name :=
      enumConstant?_eq_some_iff.mpr ⟨_, member, ho, hmem, hok, ⟨_, ha, hname⟩, hargs, htext⟩
    have his : Tree.is _ .memberAccess = true := beq_iff_eq.mpr hm
    simp only [dottedShape, hac, hacc, his, if_true, he, Option.elim_some]

theorem mem_of_callShape_eq_filePath {files : List String} {call callee : Tree}
    (hc : call.firstChild? = some callee) (hk : callee.kind = .memberAccess) {handle : String}
    (h : callShape files call = .filePath handle) : handle ∈ files := by
  rw [callShape_dotted hc hk, dottedShape] at h
  split at h
  · rename_i object member ho hm
    split at h
    · cases he : enumConstant? object member (call.findFirstChild? .argumentList) <;>
        rw [he] at h <;> cases h
    · cases hf : fileHandle? files object member with
      | none =>
          rw [hf] at h
          cases h
      | some found =>
          rw [hf] at h
          cases h
          exact mem_of_fileHandle? hf
  · cases h

end Literal

/-! ## The value -/

namespace Tree

open Literal

variable {s : Surroundings} {call callee : Tree}

/-- A dotted call has a value if and only if it asks a member for its name, and
then the value is the text of the member, of whatever kind the member is.  Any
other dotted call is refused, as a construct or for a file handle. -/
theorem literal_dotted (s : Surroundings) (hk : call.kind = .methodCall)
    (hc : call.firstChild? = some callee) (hm : callee.kind = .memberAccess) :
    (∀ v, call.literal s = .ok v ↔
      ∃ member name, call.AsksName member ∧ member.text? = some name ∧ v = some name) ∧
    ∀ e, call.literal s = .error e → e = call.unsupported ∨
      ∃ handle ∈ s.fileHandles, e = .unsupportedFileVariable handle call.line := by
  have value (name : String) (h : callShape s.fileHandles call = .constant name) :
      ∃ member, call.AsksName member ∧ member.text? = some name :=
    (callShape_eq_constant_iff hc hm).mp h
  have shape {member : Tree} {name : String} (h : call.AsksName member)
      (ht : member.text? = some name) : callShape s.fileHandles call = .constant name :=
    (callShape_eq_constant_iff hc hm).mpr ⟨member, h, ht⟩
  cases hshape : callShape s.fileHandles call with
  | constant name =>
      obtain ⟨member, hasks, htext⟩ := value name hshape
      rw [literal_constant hk hshape]
      refine ⟨fun v => ⟨?_, ?_⟩, fun e h => by cases h⟩
      · rintro ⟨⟩
        exact ⟨member, name, hasks, htext, rfl⟩
      · rintro ⟨member', name', hasks', htext', rfl⟩
        cases hshape.symm.trans (shape hasks' htext')
        rfl
  | path builder argument =>
      rw [callShape_dotted hc hm] at hshape
      exact absurd hshape dottedShape_ne_path
  | filePath handle =>
      have hmem := mem_of_callShape_eq_filePath hc hm hshape
      rw [literal_filePath hk hshape]
      refine ⟨fun v => ⟨fun h => (by cases h), ?_⟩, ?_⟩
      · rintro ⟨member, name, hasks, htext, -⟩
        cases hshape.symm.trans (shape hasks htext)
      · rintro e ⟨⟩
        exact .inr ⟨handle, hmem, rfl⟩
  | unknown =>
      rw [literal_unknown hk hshape]
      refine ⟨fun v => ⟨fun h => (by cases h), ?_⟩, ?_⟩
      · rintro ⟨member, name, hasks, htext, -⟩
        cases hshape.symm.trans (shape hasks htext)
      · rintro e ⟨⟩
        exact .inl rfl

/-- The call `Outer.member.getName()`, where `member` is of kind `kind`. -/
def askedName (kind : Kind) (member : String) : Tree :=
  interior .methodCall 1 [
    interior .memberAccess 1 [
      interior .memberAccess 1 [token .identifier "Outer" 1, token kind member 1],
      token .identifier "getName" 1],
    interior .argumentList 1 []]

theorem asksName_askedName (kind : Kind) (member : String) :
    (askedName kind member).AsksName (token kind member 1) := by
  have hname : "getName" ∈ Idiom.enumNameAccessors := by simp [Idiom.enumNameAccessors]
  refine .intro rfl rfl rfl rfl rfl rfl hname rfl rfl rfl ?_
  rintro arguments ⟨⟩
  rfl

/-- `Outer.METHOD_DEF.getName()`, whatever surrounds it. -/
theorem literal_dotted_enumConstant :
    (askedName .identifier "METHOD_DEF").literal ⟨"", "", []⟩ = .ok (some "METHOD_DEF") := by
  have hkind : (askedName .identifier "METHOD_DEF").kind = .methodCall := rfl
  have hvalue := (literal_dotted ⟨"", "", []⟩ hkind rfl rfl).1 (some "METHOD_DEF")
  exact hvalue.mpr ⟨_, "METHOD_DEF", asksName_askedName _ _, rfl, rfl⟩

theorem literal_askedName (s : Surroundings) (kind : Kind) (member : String) :
    (askedName kind member).literal s = .ok (some member) := by
  have hshape : callShape s.fileHandles (askedName kind member) = .constant member :=
    (callShape_eq_constant_iff rfl rfl).mpr ⟨_, asksName_askedName kind member, rfl⟩
  exact literal_constant rfl hshape

/-- The member of `Outer.class.getName()` and that of `Outer.this.getName()` are
no identifiers, and are values all the same. -/
theorem literal_pseudoMember :
    (askedName .classLiteral "class").literal ⟨"", "", []⟩ = .ok (some "class") ∧
      (askedName (.other "this") "this").literal ⟨"", "", []⟩ = .ok (some "this") := by
  constructor
  · exact literal_askedName _ _ _
  · exact literal_askedName _ _ _

end Tree

end PropertyHarvest
