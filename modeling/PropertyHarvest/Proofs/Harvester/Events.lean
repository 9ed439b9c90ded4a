/-
# Events in any order

A walk calls a harvester in an orderly way: every visit of a test is followed by
its leave, and all nodes are of one tree.  Nothing in the harvester relies on
that.  Here it is called in any order and on any nodes of any trees, and three
things hold all the time (`Sound`):

    between two methods the scope is empty
    every module of the scope has a property, and none twice
    every module that was found has a property, and none twice

A visit and a leave are one equation each (`take_eq`, `leave_eq`).  From these
an event keeps `Sound` (`Sound.apply`), and so does every series of events.

No order of events is excluded, and no node: trees may be begun and never ended, nodes
may be left that were never visited, and one node may be of another tree than the next.
Of what is found in such a series nothing more is said than that it is well-formed.
What it consists of is said for whole walks (`Proofs.Harvester.Isolation`).
-/
import PropertyHarvest.Proofs.Accumulation.Merge
import PropertyHarvest.Proofs.Harvester.Reading

namespace PropertyHarvest

/-! ## Scopes that nodes are shown to -/

namespace MethodScope

variable {a : Arena}

/-- The scope after a node was shown to it: an open scope reads the node, and
any other is opened by a test. -/
def shown (basePath packagePath : String) (s : MethodScope) (n : Node a) : MethodScope :=
  if s.isActive then s.read basePath packagePath n
  else if n.isTest then s.opened n.id
  else s

/-- What is reported of a node that is shown. -/
def shownSkips (basePath packagePath : String) (s : MethodScope) (n : Node a) :
    List Diagnostic :=
  if s.isActive then s.skips basePath packagePath n else []

end MethodScope

namespace Harvester

variable {a : Arena} {h : Harvester} {n : Node a}

/-! ## One visit and one leave -/

theorem take_eq (h : Harvester) (n : Node a) :
    h.take n =
      { h with packagePath := n.packagePathAfter h.packagePath
               scope := h.scope.shown h.basePath h.packagePath n
               diagnostics :=
                h.diagnostics ++ h.scope.shownSkips h.basePath h.packagePath n } := by
  rw [MethodScope.shown, MethodScope.shownSkips]
  by_cases ha : h.scope.isActive = true
  · rw [if_pos ha, if_pos ha]
    exact take_of_active ha n
  · have hidle : h.scope.isActive = false := Bool.eq_false_iff.mpr ha
    rw [if_neg ha, if_neg ha, List.append_nil]
    by_cases ht : n.isTest = true
    · have hk : n.kind ≠ .packageDecl := by
        rw [(Node.isTest_iff.mp ht).1]
        exact Kind.noConfusion
      rw [if_pos ht, Node.packagePathAfter_of_ne hk]
      exact take_of_test hidle ht
    · rw [if_neg ht]
      exact take_of_idle hidle (Bool.eq_false_iff.mpr ht)

/-- Leaving `n` closes the scope: `n` has the number of the method that opened
it. -/
def Closes (h : Harvester) (n : Node a) : Prop :=
  n.kind = .methodDecl ∧ h.scope.active? = some n.id

instance : Decidable (h.Closes n) :=
  inferInstanceAs (Decidable (_ ∧ _))

/-- The harvester after its open method was left. -/
def closed (h : Harvester) : Harvester :=
  { h with
    scope := .empty
    found := if h.scope.verified then h.found.merge h.scope.properties else h.found }

theorem leave_eq (h : Harvester) (n : Node a) :
    leave n h = if h.Closes n then h.closed else h := by
  have hiff : (n.is .methodDecl && h.scope.isActiveMethod n.id) = true ↔ h.Closes n := by
    rw [Bool.and_eq_true, Node.is_iff, MethodScope.isActiveMethod, beq_iff_eq, Closes]
  rw [leave]
  by_cases hc : h.Closes n
  · rw [if_pos (hiff.mpr hc), if_pos hc, closed, MethodScope.finish]
    cases h.scope.verified <;> rfl
  · rw [if_neg (mt hiff.mp hc), if_neg hc]

/-- A visit that is refused changes nothing. -/
theorem eq_of_visit_eq_error {e : ProcessError} {h' : Harvester}
    (hv : visit n h = (.error e, h')) : h' = h := by
  by_cases hk : acceptableKinds.contains n.kind = true
  · rw [visit_of_shown hk] at hv
    cases hv
  · rw [visit_of_hidden (Bool.eq_false_iff.mpr hk)] at hv
    cases hv
    rfl

example : (visit (⟨0, by decide⟩ : Node (.ofTree (.token .finalModifier "final" 1)))
    (ofBasePath "")).1 = .error (.unacceptableNode .finalModifier 1) := by
  decide

/-! ## Soundness -/

/-- What holds of a harvester at any time. -/
structure Sound (h : Harvester) : Prop where
  /-- Between two methods nothing is bound, collected or verified. -/
  idle : h.scope.isActive = false → h.scope = .empty
  collected : h.scope.properties.Proper
  found : h.found.modules.Proper

end Harvester

/-! ## Events -/

inductive Event where
  | startFile
  | visit {a : Arena} (n : Node a)
  | leave {a : Arena} (n : Node a)
  | drain
  | takeDiagnostics

namespace Event

def apply (h : Harvester) : Event → Harvester
  | startFile => h.startFile
  | visit n => (Harvester.visit n h).2
  | leave n => Harvester.leave n h
  | drain => h.drain.2
  | takeDiagnostics => h.takeDiagnostics.2

/-- The two calls that are there to change what was found: a drain, and a leave
of the open method. -/
def Moves (h : Harvester) : Event → Prop
  | leave n => h.Closes n
  | drain => True
  | _ => False

/-- Any other call leaves alone what was found. -/
theorem found_apply {h : Harvester} {e : Event} (he : ¬ e.Moves h) :
    (e.apply h).found = h.found := by
  cases e with
  | startFile => rfl
  | visit n =>
      show (h.take n).found = h.found
      rw [Harvester.take_eq]
  | leave n =>
      have hopen : ¬ h.Closes n := he
      show (Harvester.leave n h).found = h.found
      rw [Harvester.leave_eq, if_neg hopen]
  | drain => exact absurd trivial he
  | takeDiagnostics => rfl

end Event

namespace MethodScope

variable {a : Arena} {s : MethodScope}

theorem proper_of_reads {s' : MethodScope} (h : s.Reads s') (hs : s.properties.Proper) :
    s'.properties.Proper := by
  cases h with
  | property module p => exact hs.extend module (List.cons_ne_nil p [])
  | same => exact hs
  | bind handle module => exact hs
  | fileHandle handle => exact hs
  | verified => exact hs

theorem proper_shown (hs : s.properties.Proper) (b p : String) (n : Node a) :
    (s.shown b p n).properties.Proper := by
  rw [shown]
  split
  · exact proper_of_reads (s.reads_read b p n) hs
  · split
    · exact hs
    · exact hs

theorem isActive_shown (ha : s.isActive = true) (b p : String) (n : Node a) :
    (s.shown b p n).isActive = true := by
  rw [shown, if_pos ha, isActive, (s.reads_read b p n).active?_eq]
  exact ha

end MethodScope

namespace Harvester

theorem sound_ofBasePath (basePath : String) : (ofBasePath basePath).Sound where
  idle := fun _ => rfl
  collected := .nil
  found := .nil

theorem Sound.take {a : Arena} {h : Harvester} (hs : h.Sound) (n : Node a) :
    (h.take n).Sound := by
  rw [take_eq]
  refine ⟨?_, MethodScope.proper_shown hs.collected _ _ n, hs.found⟩
  intro hidle
  change (h.scope.shown h.basePath h.packagePath n).isActive = false at hidle
  show h.scope.shown h.basePath h.packagePath n = .empty
  by_cases ha : h.scope.isActive = true
  · rw [MethodScope.isActive_shown ha] at hidle
    cases hidle
  · rw [MethodScope.shown, if_neg ha] at hidle ⊢
    -- A test would have opened the scope.
    split at hidle
    · cases hidle
    · rename_i ht
      rw [if_neg ht]
      exact hs.idle hidle

theorem Sound.closed {h : Harvester} (hs : h.Sound) : h.closed.Sound where
  idle := fun _ => rfl
  collected := .nil
  found := by
    rw [Harvester.closed]
    dsimp only
    split
    · exact hs.found.merge hs.collected
    · exact hs.found

theorem Sound.apply {h : Harvester} (hs : h.Sound) (e : Event) : (e.apply h).Sound := by
  cases e with
  | startFile => exact ⟨fun _ => rfl, .nil, hs.found⟩
  | visit n => exact hs.take n
  | leave n =>
      show (leave n h).Sound
      rw [leave_eq]
      split
      · exact hs.closed
      · exact hs
  | drain => exact ⟨hs.idle, hs.collected, .nil⟩
  | takeDiagnostics => exact ⟨hs.idle, hs.collected, hs.found⟩

/-- Each event keeps a sound harvester sound, so a series of events does. -/
theorem Sound.foldl {h : Harvester} (hs : h.Sound) (events : List Event) :
    (events.foldl Event.apply h).Sound := by
  induction events generalizing h with
  | nil => exact hs
  | cons e events ih => exact ih (hs.apply e)

def after (basePath : String) (events : List Event) : Harvester :=
  events.foldl Event.apply (ofBasePath basePath)

/-- Every order of calls keeps the state sound.  So a drain hands out no module
without properties and no property twice; the next call changes what was found
only if it is a drain or leaves the open method; and a visit that is refused
changes nothing at all. -/
theorem sound_after (basePath : String) (events : List Event) :
    (after basePath events).Sound ∧ (after basePath events).drain.1.Proper ∧
      (∀ e : Event, ¬ e.Moves (after basePath events) →
        (e.apply (after basePath events)).found = (after basePath events).found) ∧
      ∀ {a : Arena} (n : Node a) {e : ProcessError} {h' : Harvester},
        visit n (after basePath events) = (.error e, h') → h' = after basePath events := by
  have hsound : (after basePath events).Sound := (sound_ofBasePath basePath).foldl events
  exact ⟨hsound, hsound.found, fun e he => Event.found_apply he, fun n => eq_of_visit_eq_error⟩

end Harvester

end PropertyHarvest
