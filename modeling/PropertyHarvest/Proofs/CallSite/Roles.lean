/-
# The roles of a call, said outright

`CallSite.classify` asks its questions in turn.  The two roles that matter can
be told apart by the callee alone: a property is set through a dotted callee, a
verification is undotted.  So neither answer depends on the order of the
questions, and a verification does not depend on what is bound.

Both equivalences hold of every tree and of every list of kinds above it.  Whether
such a list belongs to a call of an arena, and what it tells of a source file, is
asked in `Proofs.Concrete.Nesting`.

The third role is what is left.  A call can have at most one role, because the first
needs a callee of one kind and the second a callee of another.
-/
import PropertyHarvest.CallSite

namespace PropertyHarvest

namespace CallSite

theorem names_of_identifier {t : Tree} (h : t.kind = .identifier) :
    t.calledName? = t.text? ∧ t.receiverName? = t.text? := by
  obtain ⟨k, text?, line, cs⟩ := t
  cases h
  exact ⟨rfl, rfl⟩

variable {isBound : String → Bool} {above : List Kind} {t : Tree}

theorem classify_eq_setProperty_iff {handle : String} :
    classify isBound above t = .setProperty handle ↔
      (∃ callee, t.firstChild? = some callee ∧ callee.kind = .memberAccess ∧
        callee.calledName? = some Idiom.setPropertyMethod ∧
        callee.receiverName? = some handle) ∧ isBound handle = true := by
  constructor
  · intro h
    rw [classify] at h
    split at h
    · cases h
    · rename_i callee hc
      split at h
      · rename_i name receiver hn hr
        split at h
        · rename_i hset
          cases h
          simp only [Bool.and_eq_true, decide_eq_true_eq] at hset
          obtain ⟨⟨rfl, hk⟩, hb⟩ := hset
          exact ⟨⟨callee, hc, beq_iff_eq.mp hk, hn, hr⟩, hb⟩
        · split at h <;> cases h
      · cases h
  · rintro ⟨⟨callee, hc, hk, hn, hr⟩, hb⟩
    have hm : callee.is .memberAccess = true := beq_iff_eq.mpr hk
    rw [classify]
    rw [hc]
    dsimp only
    rw [hn, hr]
    dsimp only
    rw [hm, hb, decide_eq_true rfl, Bool.and_self, Bool.and_self, if_pos rfl]

/-- A call as a statement of its own, in no `try`. -/
def StandsAlone (above : List Kind) : Prop :=
  isNested above = false ∧ Kind.tryBlock ∉ above

theorem standsAlone_iff :
    StandsAlone above ↔ (!isNested above && !isGuarded above) = true := by
  rw [StandsAlone, isGuarded]
  rw [Bool.and_eq_true, Bool.not_eq_true', Bool.not_eq_true', ← Bool.not_eq_true,
    ← Bool.not_eq_true, List.contains_iff_mem]

theorem classify_eq_verification_iff :
    classify isBound above t = .verification ↔
      (∃ callee name, t.firstChild? = some callee ∧ callee.kind = .identifier ∧
        callee.text? = some name ∧ name ∈ Idiom.verifyMethods) ∧ StandsAlone above := by
  constructor
  · intro h
    rw [classify] at h
    split at h
    · cases h
    · rename_i callee hc
      split at h
      · rename_i name receiver hn hr
        split at h
        · cases h
        · split at h
          · rename_i hv
            rw [Bool.and_assoc, Bool.and_eq_true, ← standsAlone_iff, Bool.and_eq_true] at hv
            obtain ⟨⟨hk, hname⟩, halone⟩ := hv
            have hk : callee.kind = .identifier := beq_iff_eq.mp hk
            rw [(names_of_identifier hk).1] at hn
            exact ⟨⟨callee, name, hc, hk, hn, List.contains_iff_mem.mp hname⟩, halone⟩
          · cases h
      · cases h
  · rintro ⟨⟨callee, name, hc, hk, hn, hname⟩, halone⟩
    have hi : callee.is .identifier = true := beq_iff_eq.mpr hk
    have hm : callee.is .memberAccess = false := by
      rw [Tree.is, hk]
      rfl
    have hv : Idiom.isVerifyMethod name = true := List.contains_iff_mem.mpr hname
    rw [classify]
    rw [hc]
    dsimp only
    rw [(names_of_identifier hk).1, (names_of_identifier hk).2, hn]
    dsimp only
    rw [hm, Bool.and_false, Bool.false_and, if_neg Bool.false_ne_true, hi, hv, Bool.and_self,
      Bool.true_and, standsAlone_iff.mp halone, if_pos rfl]

end CallSite

end PropertyHarvest
