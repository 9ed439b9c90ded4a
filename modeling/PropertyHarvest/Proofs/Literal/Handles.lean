/-
# File handles and values

The file handles of a method decide how a refusal is worded and nothing else.
With other file handles an expression has the same value, or it is refused on
the same line (`literal_agrees`).  The two refusals differ at most in one way:

    handle.getPath()    a file variable     where `handle` is a file handle
                        a construct         where it is not

The call that is met first is the same in both, because no file handle has a
part in what is evaluated.

The two lists of handles are arbitrary; neither has to be part of the other.  Which of
them is right is not asked, and a list may have names that are declared nowhere.

The relation between the two outcomes is closed under everything that an evaluation
does with its parts (`Agrees.bind`), so the induction has one case of its
own, that of a call.
-/
import PropertyHarvest.CallSite
import PropertyHarvest.Proofs.Literal.Equations
import PropertyHarvest.Proofs.Matching
import PropertyHarvest.Proofs.Tree.Located

namespace PropertyHarvest

/-! ## Asking for a path -/

/-- The call asks `handle` for its path.  Of the callee only the first two
children count. -/
inductive Tree.AsksPath (call : Tree) (handle : String) : Prop
  | intro {callee object member : Tree}
      (kind_eq : call.kind = .methodCall)
      (callee_eq : call.firstChild? = some callee)
      (callee_kind : callee.kind = .memberAccess)
      (object_eq : callee.firstChild? = some object)
      (object_kind : object.kind = .identifier)
      (object_text : object.text? = some handle)
      (member_eq : callee.secondChild? = some member)
      (member_text : member.text? = some Idiom.filePathAccessor) : Tree.AsksPath call handle

theorem Tree.AsksPath.kind_eq {call : Tree} {handle : String} (h : call.AsksPath handle) :
    call.kind = .methodCall := by
  cases h
  assumption

namespace Literal

variable {files files' : List String} {call : Tree} {handle : String}

theorem fileHandle?_eq_some_iff {object member : Tree} :
    fileHandle? files object member = some handle ↔
      object.kind = .identifier ∧ member.text? = some Idiom.filePathAccessor ∧
        object.text? = some handle ∧ handle ∈ files := by
  have hcond : (object.is .identifier && member.text? == some Idiom.filePathAccessor) = true ↔
      object.kind = .identifier ∧ member.text? = some Idiom.filePathAccessor := by
    rw [Bool.and_eq_true, Tree.is, beq_iff_eq, beq_iff_eq]
  rw [fileHandle?]
  split
  · rename_i h
    rw [Option.filter_eq_some_iff, List.contains_iff_mem]
    exact ⟨fun hx => ⟨(hcond.mp h).1, (hcond.mp h).2, hx⟩, fun hx => hx.2.2⟩
  · rename_i h
    exact ⟨fun hx => (by cases hx), fun hx => absurd (hcond.mpr ⟨hx.1, hx.2.1⟩) h⟩

/-- A path that is asked for: the one shape that file handles decide. -/
theorem callShape_of_asksPath (h : call.AsksPath handle) :
    callShape files call = if handle ∈ files then .filePath handle else .unknown := by
  obtain @⟨callee, object, member, -, hcallee, hck, hobject, hok, hot, hmember, hmt⟩ := h
  have hnot : object.is .memberAccess = false := by
    rw [Tree.is, hok]
    rfl
  simp only [callShape, hcallee, hck, dottedShape, hobject, hmember, hnot, Bool.false_eq_true,
    if_false]
  split
  · rename_i hmem
    rw [fileHandle?_eq_some_iff.mpr ⟨hok, hmt, hot, hmem⟩]
    rfl
  · rename_i hmem
    cases hf : fileHandle? files _ _ with
    | none => rfl
    | some found =>
        obtain ⟨-, -, hfound, hin⟩ := fileHandle?_eq_some_iff.mp hf
        cases hot.symm.trans hfound
        exact absurd hin hmem

theorem plainShape_ne_filePath {callee : Tree} {arguments? : Option Tree} :
    plainShape callee arguments? ≠ .filePath handle := by
  intro h
  unfold plainShape at h
  split at h
  · split at h
    · revert h
      cases Tree.findFirstChild? _ .expression <;> simp
    · cases h
  · cases h

/-- A dotted callee has the shape of a path only where it asks for one. -/
theorem of_dottedShape_eq_filePath {callee : Tree} {arguments? : Option Tree}
    (h : dottedShape files callee arguments? = .filePath handle) :
    ∃ object member, callee.firstChild? = some object ∧ callee.secondChild? = some member ∧
      fileHandle? files object member = some handle := by
  unfold dottedShape at h
  split at h
  · rename_i object member hobject hmember
    split at h
    · revert h
      cases enumConstant? object member arguments? <;> simp
    · refine ⟨object, member, hobject, hmember, ?_⟩
      revert h
      cases fileHandle? files object member <;> simp
  · cases h

theorem asksPath_of_callShape (hk : call.kind = .methodCall)
    (h : callShape files call = .filePath handle) : call.AsksPath handle ∧ handle ∈ files := by
  unfold callShape at h
  split at h
  · cases h
  rename_i callee hcallee
  split at h
  · rename_i hck
    obtain ⟨object, member, hobject, hmember, hhandle⟩ := of_dottedShape_eq_filePath h
    obtain ⟨hok, hmt, hot, hmem⟩ := fileHandle?_eq_some_iff.mp hhandle
    exact ⟨.intro hk hcallee hck hobject hok hot hmember hmt, hmem⟩
  · exact absurd h plainShape_ne_filePath
  · cases h

/-- Of any other call the shape is the same with all file handles. -/
theorem callShape_of_not_asksPath (hk : call.kind = .methodCall)
    (h : ∀ handle, ¬ call.AsksPath handle) : callShape files' call = callShape files call := by
  unfold callShape
  cases hcallee : call.firstChild? with
  | none => rfl
  | some callee =>
      dsimp only
      split
      · rename_i hck
        unfold dottedShape
        split
        · rename_i object member hobject hmember
          split
          · rfl
          · have hnone (fs : List String) : fileHandle? fs object member = none := by
              cases hf : fileHandle? fs object member with
              | none => rfl
              | some handle =>
                  obtain ⟨hok, hmt, hot, -⟩ := fileHandle?_eq_some_iff.mp hf
                  exact absurd (.intro hk hcallee hck hobject hok hot hmember hmt) (h handle)
            rw [hnone, hnone]
        · rfl
      · rfl
      · rfl

theorem exists_of_callShape_eq_path {builder : Idiom.PathBuilder} {argument : Tree}
    (h : callShape files call = .path builder argument) :
    ∃ arguments ∈ call.children, argument ∈ arguments.children ∧ argument.kind = .expression := by
  unfold callShape at h
  split at h
  · cases h
  split at h
  · exact absurd h dottedShape_ne_path
  · obtain ⟨arguments, harguments, hargument⟩ := of_plainShape_eq_path h
    exact ⟨arguments, Tree.mem_of_findFirstChild? harguments,
      Tree.mem_of_findFirstChild? hargument, Tree.kind_of_findFirstChild? hargument⟩
  · cases h

end Literal

/-! ## Two refusals -/

/-- The same refusal up to its reason: one call among `calls` asks a handle for
its path, and only one of the two lists knows the handle as a file. -/
inductive LiteralError.Alike (calls : Tree → Prop) (files files' : List String) :
    LiteralError → LiteralError → Prop
  | same (e : LiteralError) : Alike calls files files' e e
  | file {call : Tree} {handle : String} (here : calls call) (asks : call.AsksPath handle)
      (known : handle ∈ files) (unknown : handle ∉ files') :
      Alike calls files files' (.unsupportedFileVariable handle call.line) call.unsupported
  | noFile {call : Tree} {handle : String} (here : calls call) (asks : call.AsksPath handle)
      (unknown : handle ∉ files) (known : handle ∈ files') :
      Alike calls files files' call.unsupported (.unsupportedFileVariable handle call.line)

namespace LiteralError

variable {calls calls' : Tree → Prop} {files files' : List String} {e e' : LiteralError}

theorem Alike.line_eq (h : e.Alike calls files files' e') : e'.line = e.line := by
  cases h <;> rfl

theorem Alike.mono (h : e.Alike calls files files' e') (hc : ∀ call, calls call → calls' call) :
    e.Alike calls' files files' e' := by
  cases h with
  | same => exact .same e
  | file here asks known unknown => exact .file (hc _ here) asks known unknown
  | noFile here asks unknown known => exact .noFile (hc _ here) asks unknown known

end LiteralError

/-- Two outcomes with the same value, or with refusals that are alike up to
their reason. -/
inductive LiteralError.Agrees {α : Type} (calls : Tree → Prop) (files files' : List String) :
    Except LiteralError α → Except LiteralError α → Prop
  | value (v : α) : Agrees calls files files' (.ok v) (.ok v)
  | refused {e e' : LiteralError} (alike : e.Alike calls files files' e') :
      Agrees calls files files' (.error e) (.error e')

namespace LiteralError.Agrees

variable {α β : Type} {calls calls' : Tree → Prop} {files files' : List String}
  {x x' : Except LiteralError α}

theorem refl (x : Except LiteralError α) : Agrees calls files files' x x := by
  cases x with
  | error e => exact .refused (.same e)
  | ok v => exact .value v

theorem mono (h : Agrees calls files files' x x') (hc : ∀ call, calls call → calls' call) :
    Agrees calls' files files' x x' := by
  cases h with
  | value v => exact .value v
  | refused alike => exact .refused (alike.mono hc)

theorem bind {f f' : α → Except LiteralError β} (h : Agrees calls files files' x x')
    (hf : ∀ v, Agrees calls files files' (f v) (f' v)) :
    Agrees calls files files' (x >>= f) (x' >>= f') := by
  cases h with
  | value v => exact hf v
  | refused alike => exact .refused alike

theorem mapError_line (h : Agrees calls files files' x x') :
    x'.mapError line = x.mapError line := by
  cases h with
  | value v => rfl
  | refused alike => exact congrArg Except.error alike.line_eq

theorem ok_iff (h : Agrees calls files files' x x') (v : α) : x = .ok v ↔ x' = .ok v := by
  cases h with
  | value u => exact Iff.rfl
  | refused alike => exact ⟨fun hx => (by cases hx), fun hx => (by cases hx)⟩

end LiteralError.Agrees

/-! ## Values -/

namespace Surroundings

def withFiles (s : Surroundings) (files : List String) : Surroundings :=
  { s with fileHandles := files }

end Surroundings

namespace Tree

open Literal LiteralError

variable {s : Surroundings} {t : Tree} {handle : String}

theorem literal_of_asksPath (h : t.AsksPath handle) :
    t.literal s = .error
      (if handle ∈ s.fileHandles then .unsupportedFileVariable handle t.line
        else t.unsupported) := by
  have hk : t.kind = .methodCall := h.kind_eq
  have hshape : callShape s.fileHandles t = _ := callShape_of_asksPath h
  split
  · rename_i hmem
    rw [if_pos hmem] at hshape
    exact literal_filePath hk hshape
  · rename_i hmem
    rw [if_neg hmem] at hshape
    exact literal_unknown hk hshape

theorem agrees_of_asksPath (h : t.AsksPath handle) (files : List String) :
    Agrees t.Holds s.fileHandles files (t.literal s) (t.literal (s.withFiles files)) := by
  rw [literal_of_asksPath h, literal_of_asksPath h]
  refine .refused ?_
  show Alike t.Holds s.fileHandles files _ (if handle ∈ files then _ else _)
  by_cases hold : handle ∈ s.fileHandles <;> by_cases hnew : handle ∈ files
  · rw [if_pos hold, if_pos hnew]
    exact .same _
  · rw [if_pos hold, if_neg hnew]
    exact .file .root h hold hnew
  · rw [if_neg hold, if_pos hnew]
    exact .noFile .root h hold hnew
  · rw [if_neg hold, if_neg hnew]
    exact .same _

/-- A call that asks for a path agrees in any case, so for the rest its shape may
be taken to be the same. -/
theorem agrees_of_callShape {files : List String} {r : Except LiteralError (Option String)}
    (hk : t.kind = .methodCall) (hr : t.literal s = r)
    (h : callShape files t = callShape s.fileHandles t →
      Agrees t.Holds s.fileHandles files r (t.literal (s.withFiles files))) :
    Agrees t.Holds s.fileHandles files r (t.literal (s.withFiles files)) := by
  by_cases hasks : ∃ handle, t.AsksPath handle
  · obtain ⟨handle, hasks⟩ := hasks
    rw [← hr]
    exact agrees_of_asksPath hasks files
  · exact h (callShape_of_not_asksPath hk (not_exists.mp hasks))

/-- With other file handles an expression has the same value, or is refused
alike up to the reason. -/
theorem literal_agrees (s : Surroundings) (files : List String) (t : Tree) :
    Agrees t.Holds s.fileHandles files (t.literal s) (t.literal (s.withFiles files)) := by
  fun_induction literal s t with
  | case1 t hk text ht =>
      rw [literal_string hk ht]
      exact .value _
  | case2 t hk ht =>
      rw [literal_string_of_none hk ht]
      exact .refl _
  | case3 t hk =>
      rw [literal_null hk]
      exact .value _
  | case4 t hk left right hl hr _ _ ihl ihr =>
      rw [literal_concatenation (s := s.withFiles files) hk hl hr]
      refine .bind (ihl.mono fun call => .inside (mem_of_firstChild? hl)) fun l => ?_
      refine .bind (ihr.mono fun call => .inside (mem_of_lastChild? hr)) fun r => ?_
      exact .value _
  | case5 t hk hno =>
      rw [literal_concatenation_of_none hk hno]
      exact .refl _
  | case6 t hk name hc =>
      -- From here on it is a call.  With other handles it may be taken for another form
      -- of call, and only then do the two results part.
      refine agrees_of_callShape hk (literal_constant hk hc) fun hshape => ?_
      rw [literal_constant (s := s.withFiles files) hk (hshape.trans hc)]
      exact .value _
  | case7 t hk handle hc =>
      refine agrees_of_callShape hk (literal_filePath hk hc) fun hshape => ?_
      rw [literal_filePath (s := s.withFiles files) hk (hshape.trans hc)]
      exact .refl _
  | case8 t hk builder argument hc ha =>
      refine agrees_of_callShape hk (literal_path_of_none hk hc ha) fun hshape => ?_
      rw [literal_path_of_none (s := s.withFiles files) hk (hshape.trans hc) ha]
      exact .refl _
  | case9 t hk builder argument hc content ha _ ih =>
      refine agrees_of_callShape hk (literal_path hk hc ha) fun hshape => ?_
      rw [literal_path (s := s.withFiles files) hk (hshape.trans hc) ha]
      refine .bind (ih.mono fun call hcall => ?_) fun name? => ?_
      · obtain ⟨arguments, harguments, hargument, -⟩ := exists_of_callShape_eq_path hc
        exact .inside harguments (.inside hargument (.inside (mem_of_firstChild? ha) hcall))
      · cases name? with
        | none => exact .refl _
        | some name => exact .refl _
  | case10 t hk hc =>
      refine agrees_of_callShape hk (literal_unknown hk hc) fun hshape => ?_
      rw [literal_unknown (s := s.withFiles files) hk (hshape.trans hc)]
      exact .refl _
  | case11 t hs hn hc hm =>
      have hvalue : hasValueKind t.kind = false := hasValueKind_eq_false_iff.mpr ⟨hs, hn, hc, hm⟩
      rw [literal_of_not_hasValueKind hvalue]
      exact .refl _

theorem literalContent_agrees (s : Surroundings) (files : List String) (t : Tree) :
    Agrees t.Holds s.fileHandles files (t.literalContent s)
      (t.literalContent (s.withFiles files)) := by
  rw [literalContent, literalContent]
  cases hc : t.firstChild? with
  | none => exact .refl _
  | some content =>
      exact (literal_agrees s files content).mono fun call => .inside (mem_of_firstChild? hc)

end Tree

namespace CallSite

open LiteralError

/-- A call inside one of the wrapped arguments. -/
def InArguments (arguments? : Option Tree) (call : Tree) : Prop :=
  ∃ argument ∈ Declaration.wrappedArguments arguments?, argument.Holds call

theorem argumentValue_agrees (s : Surroundings) (files : List String) (arguments? : Option Tree)
    (i : Nat) : Agrees (InArguments arguments?) s.fileHandles files
      (argumentValue s (Declaration.wrappedArguments arguments?)[i]?)
      (argumentValue (s.withFiles files) (Declaration.wrappedArguments arguments?)[i]?) := by
  cases hi : (Declaration.wrappedArguments arguments?)[i]? with
  | none => exact .refl _
  | some argument =>
      refine (Tree.literalContent_agrees s files argument).mono fun call hcall => ?_
      exact ⟨argument, List.mem_of_getElem? hi, hcall⟩

theorem property_agrees (s : Surroundings) (files : List String) (arguments? : Option Tree) :
    Agrees (InArguments arguments?) s.fileHandles files (property s arguments?)
      (property (s.withFiles files) arguments?) := by
  rw [property, property]
  refine .bind (argumentValue_agrees s files arguments? 0) fun name? => ?_
  refine .bind (argumentValue_agrees s files arguments? 1) fun value? => ?_
  exact .refl _

/-- The file handles have no part in which property is found. -/
theorem property_eq_ok_iff (basePath packagePath : String) (files files' : List String)
    {arguments? : Option Tree} {p? : Option Property} :
    property ⟨basePath, packagePath, files⟩ arguments? = .ok p? ↔
      property ⟨basePath, packagePath, files'⟩ arguments? = .ok p? :=
  (property_agrees ⟨basePath, packagePath, files⟩ files' arguments?).ok_iff p?

end CallSite

end PropertyHarvest
