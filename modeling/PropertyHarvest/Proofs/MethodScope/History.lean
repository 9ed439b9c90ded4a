/-
# What a scope remembers

A scope is called in any order: methods are entered, handles are bound, findings
are added, a verification is marked, the scope is finished, and in between it is
asked what it knows.  After any series of calls it knows what was said since it
was last finished and nothing else (`remembers_after`):

    the open method     the first that was entered
    a bound handle      has the module of its last binding
    the file handles    all that were added
    the properties      all that were added, each where it was first mentioned
    verified            if a verification was marked

No part of a scope has a say in what becomes of another, so a call is looked at
part by part (`Remembers.apply`).

The calls are those of the scope itself and not those of a harvester, which makes them
in a certain order.  A property may be added when no method is open; it is there when
the scope is next finished.
-/
import Mathlib.Data.List.DropRight
import PropertyHarvest.MethodScope
import PropertyHarvest.Proofs.Accumulation.Log

namespace PropertyHarvest

namespace MethodScope

/-! ## Bindings -/

theorem lookup_filter_ne {bindings : List (String × String)} {h k : String} (hk : k ≠ h) :
    (bindings.filter (·.1 != h)).lookup k = bindings.lookup k := by
  induction bindings with
  | nil => rfl
  | cons e rest ih =>
      obtain ⟨x, module⟩ := e
      by_cases hx : x = h
      · subst hx
        rw [List.filter_cons_of_neg (by simp), ih, List.lookup_cons, beq_false_of_ne hk]
      · rw [List.filter_cons_of_pos (by simp [hx]), List.lookup_cons, List.lookup_cons, ih]

theorem moduleOf?_bind (s : MethodScope) (h module k : String) :
    (s.bind h module).moduleOf? k = if h = k then some module else s.moduleOf? k := by
  rw [bind, moduleOf?]
  by_cases hk : h = k
  · subst hk
    rw [if_pos rfl, List.lookup_cons_self]
  · rw [if_neg hk, List.lookup_cons, beq_false_of_ne fun he => hk he.symm]
    exact lookup_filter_ne fun he => hk he.symm

/-! ## Calls -/

/-- What a scope can be asked. -/
inductive Question where
  | isActive
  | isActiveMethod (method : Nat)
  | moduleOf (handle : String)
  | isBound (handle : String)
  | isFileHandle (handle : String)
  | isVerified
  deriving DecidableEq

inductive Call where
  | enter (method : Nat)
  | bind (handle module : String)
  | addFileHandle (handle : String)
  | addProperty (module : String) (p : Property)
  | markVerified
  | finish
  | ask (question : Question)
  deriving DecidableEq

/-- What a call gives back. -/
inductive Answer where
  | nothing
  | told (yes : Bool)
  | module (module? : Option String)
  | properties (properties? : Option Modules)

def Question.answer (s : MethodScope) : Question → Answer
  | isActive => .told s.isActive
  | isActiveMethod method => .told (s.isActiveMethod method)
  | moduleOf handle => .module (s.moduleOf? handle)
  | isBound handle => .told (s.isBound handle)
  | isFileHandle handle => .told (s.fileHandles.contains handle)
  | isVerified => .told s.verified

namespace Call

def answer (s : MethodScope) : Call → Answer
  | enter method => .told (s.enter method).1
  | finish => .properties s.finish.1
  | ask question => question.answer s
  | _ => .nothing

def apply (s : MethodScope) : Call → MethodScope
  | enter method => (s.enter method).2
  | bind handle module => s.bind handle module
  | addFileHandle handle => s.addFileHandle handle
  | addProperty module p => s.addProperty module p
  | markVerified => s.markVerified
  | finish => s.finish.2
  | ask _ => s

/-- The method that the call enters. -/
def entered? : Call → Option Nat
  | enter method => some method
  | _ => none

/-- The module that the call binds a handle to. -/
def boundTo? (handle : String) : Call → Option String
  | bind h module => if h = handle then some module else none
  | _ => none

/-- The property that the call adds, with its module. -/
def added? : Call → Option (String × Property)
  | addProperty module p => some (module, p)
  | _ => none

end Call

def answers (s : MethodScope) : List Call → List Answer
  | [] => []
  | c :: calls => c.answer s :: answers (c.apply s) calls

def after (calls : List Call) : MethodScope :=
  calls.foldl Call.apply .empty

/-- What some calls add, oldest first. -/
def added (calls : List Call) : List (String × Property) :=
  calls.filterMap Call.added?

/-- The calls behind the last that finished the scope. -/
def sinceFinish (calls : List Call) : List Call :=
  calls.rtakeWhile (· ≠ .finish)

/-! ## One call, part by part -/

section Apply

variable (s : MethodScope) {c : Call} (hc : c ≠ .finish)
include hc

theorem active?_apply : (c.apply s).active? = s.active?.or c.entered? := by
  cases c with
  | finish => exact absurd rfl hc
  | enter method =>
      show (s.enter method).2.active? = _
      rw [enter, isActive]
      cases hs : s.active? with
      | none => rfl
      | some m => exact hs
  | _ => exact (Option.or_none).symm

theorem moduleOf?_apply (handle : String) :
    (c.apply s).moduleOf? handle = (c.boundTo? handle).or (s.moduleOf? handle) := by
  cases c with
  | finish => exact absurd rfl hc
  | bind h module =>
      show (s.bind h module).moduleOf? handle = (if h = handle then some module else none).or _
      rw [moduleOf?_bind]
      split <;> rfl
  | enter method =>
      show (s.enter method).2.moduleOf? handle = _
      rw [enter]
      split <;> rfl
  | _ => rfl

theorem mem_fileHandles_apply (handle : String) :
    handle ∈ (c.apply s).fileHandles ↔ handle ∈ s.fileHandles ∨ .addFileHandle handle = c := by
  cases c with
  | finish => exact absurd rfl hc
  | addFileHandle h =>
      show handle ∈ s.fileHandles.insert h ↔ _
      rw [List.mem_insert_iff, Call.addFileHandle.injEq, or_comm]
  | enter method =>
      show handle ∈ (s.enter method).2.fileHandles ↔ _
      rw [enter]
      split <;> simp
  | _ => simp [Call.apply, bind, addProperty, markVerified]

theorem properties_apply :
    (c.apply s).properties =
      c.added?.elim s.properties fun added => s.properties.insert added.1 added.2 := by
  cases c with
  | finish => exact absurd rfl hc
  | enter method =>
      show (s.enter method).2.properties = _
      rw [enter]
      split <;> rfl
  | _ => rfl

theorem verified_apply :
    (c.apply s).verified = true ↔ s.verified = true ∨ .markVerified = c := by
  cases c with
  | finish => exact absurd rfl hc
  | markVerified => simp [Call.apply, markVerified]
  | enter method =>
      show (s.enter method).2.verified = true ↔ _
      rw [enter]
      split <;> simp
  | _ => simp [Call.apply, bind, addProperty, addFileHandle]

end Apply

/-! ## A series of calls -/

/-- The scope knows what the calls `past` said, none of which finished it. -/
structure Remembers (s : MethodScope) (past : List Call) : Prop where
  active?_eq : s.active? = (past.filterMap Call.entered?).head?
  moduleOf?_eq : ∀ handle, s.moduleOf? handle = (past.filterMap (Call.boundTo? handle)).getLast?
  mem_fileHandles_iff : ∀ handle, handle ∈ s.fileHandles ↔ .addFileHandle handle ∈ past
  properties_eq : s.properties = .ofLog (added past)
  verified_iff : s.verified = true ↔ .markVerified ∈ past

theorem remembers_empty : Remembers .empty [] where
  active?_eq := rfl
  moduleOf?_eq := fun _ => rfl
  mem_fileHandles_iff := fun _ => iff_of_false List.not_mem_nil List.not_mem_nil
  properties_eq := rfl
  verified_iff := iff_of_false Bool.false_ne_true List.not_mem_nil

theorem Remembers.apply {s : MethodScope} {past : List Call} (hs : Remembers s past) {c : Call}
    (hc : c ≠ .finish) : Remembers (c.apply s) (past ++ [c]) where
  active?_eq := by
    rw [active?_apply s hc, hs.active?_eq, List.filterMap_append, List.head?_append]
    cases hentered : c.entered? <;> simp [hentered]
  moduleOf?_eq := by
    intro handle
    rw [moduleOf?_apply s hc, hs.moduleOf?_eq, List.filterMap_append, List.getLast?_append]
    cases hbound : c.boundTo? handle <;> simp [hbound]
  mem_fileHandles_iff := by
    intro handle
    rw [mem_fileHandles_apply s hc, hs.mem_fileHandles_iff, List.mem_append, List.mem_singleton]
  properties_eq := by
    rw [properties_apply s hc, hs.properties_eq, added, added, List.filterMap_append]
    cases hadded : c.added? with
    | none => simp [hadded]
    | some added =>
        rw [List.filterMap_cons_some hadded, List.filterMap_nil, Modules.ofLog_concat]
        rfl
  verified_iff := by
    rw [verified_apply s hc, hs.verified_iff, List.mem_append, List.mem_singleton]

theorem remembers_after (calls : List Call) : Remembers (after calls) (sinceFinish calls) := by
  induction calls using List.reverseRecOn with
  | nil => exact remembers_empty
  | append_singleton calls c ih =>
      rw [after, List.foldl_append, sinceFinish]
      by_cases hc : c = .finish
      · subst hc
        rw [List.rtakeWhile_concat_neg _ _ _ (by simp)]
        exact remembers_empty
      · rw [List.rtakeWhile_concat_pos _ _ _ (by simpa using hc)]
        exact ih.apply hc

theorem answers_append (s : MethodScope) (calls more : List Call) :
    answers s (calls ++ more) = answers s calls ++ answers (calls.foldl Call.apply s) more := by
  induction calls generalizing s with
  | nil => rfl
  | cons c calls ih =>
      rw [List.cons_append, answers, answers, ih, List.cons_append, List.foldl_cons]

/-- A scope that was finished answers like a new one. -/
theorem answers_append_finish (s : MethodScope) (calls later : List Call) :
    answers s (calls ++ .finish :: later) =
      answers s (calls ++ [.finish]) ++ answers .empty later := by
  rw [List.append_cons, answers_append, List.foldl_append]
  rfl

/-! ## What the answers tell -/

/-- A method is entered only if none was. -/
theorem Remembers.enter_iff {s : MethodScope} {past : List Call} (hs : Remembers s past)
    (method : Nat) : (s.enter method).1 = true ↔ ∀ m, .enter m ∉ past := by
  have hidle : s.active? = none ↔ ∀ m, .enter m ∉ past := by
    rw [hs.active?_eq, List.head?_eq_none_iff, List.filterMap_eq_nil_iff]
    constructor
    · intro h m hm
      cases h _ hm
    · intro h c hc
      cases c with
      | enter m => exact absurd hc (h m)
      | _ => rfl
  rw [← hidle, enter, isActive]
  cases s.active? with
  | none => exact ⟨fun _ => rfl, fun _ => rfl⟩
  | some m => exact ⟨fun h => (by cases h), fun h => (by cases h)⟩

theorem Remembers.isBound_iff {s : MethodScope} {past : List Call} (hs : Remembers s past)
    (handle : String) : s.isBound handle = true ↔ ∃ module, .bind handle module ∈ past := by
  rw [isBound, hs.moduleOf?_eq, List.getLast?_isSome, ne_eq, List.filterMap_eq_nil_iff]
  constructor
  · intro h
    obtain ⟨c, hc⟩ := not_forall.mp h
    obtain ⟨hmem, hbound⟩ := Classical.not_imp.mp hc
    cases c with
    | bind k module =>
        rw [Call.boundTo?] at hbound
        split at hbound
        · rename_i hk
          exact ⟨module, hk ▸ hmem⟩
        · exact absurd rfl hbound
    | _ => exact absurd rfl hbound
  · rintro ⟨module, hmem⟩ h
    have hnone := h _ hmem
    rw [Call.boundTo?, if_pos rfl] at hnone
    cases hnone

/-- A scope is its history since it was last finished.  It knows what the calls
since then said; a method is entered only if it is the first of them; a handle is
bound if one of them bound it; and to finish hands out, if one of them marked a
verification, the modules they named, each once, with the properties they added,
each once.  What comes behind is answered as by a new scope. -/
theorem scope_is_history (calls : List Call) :
    Remembers (after calls) (sinceFinish calls) ∧
      (∀ method, ((after calls).enter method).1 = true ↔ ∀ m, .enter m ∉ sinceFinish calls) ∧
      (∀ handle, (after calls).isBound handle = true ↔
        ∃ module, .bind handle module ∈ sinceFinish calls) ∧
      (after calls).finish.1 =
        (if .markVerified ∈ sinceFinish calls then
          some (((added (sinceFinish calls)).map Prod.fst).eraseDups.map fun m =>
            (m, (Modules.entriesOf (added (sinceFinish calls)) m).eraseDups))
        else none) ∧
      ∀ (s : MethodScope) (later : List Call), answers s (calls ++ .finish :: later) =
        answers s (calls ++ [.finish]) ++ answers .empty later := by
  have hs := remembers_after calls
  refine ⟨hs, hs.enter_iff, hs.isBound_iff, ?_, fun s => answers_append_finish s calls⟩
  rw [finish, ← Modules.ofLog_eq, ← hs.properties_eq]
  by_cases hverified : .markVerified ∈ sinceFinish calls
  · rw [if_pos (hs.verified_iff.mpr hverified), if_pos hverified]
  · rw [if_neg (mt hs.verified_iff.mp hverified), if_neg hverified]

/-- A method that is entered second is not the open one, and what was added
before a scope was finished is not handed out afterwards. -/
example : answers .empty [.enter 1, .enter 2, .addProperty "A" ⟨"max", "3"⟩, .finish,
      .markVerified, .finish] =
    [.told true, .told false, .nothing, .properties none, .nothing, .properties (some [])] := by
  rfl

end MethodScope

end PropertyHarvest
