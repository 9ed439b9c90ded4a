/-
# Trees that resemble each other

A construct that is never inspected is kept as a node of kind `other`.  Whether
such a node is a leaf with its text or a node without children makes almost no
difference.  `Resembles` relates a tree to one in which some of these leaves
have lost their text; only a member of an access must keep it, because there it
may be read as the name of a constant.

What is read from the one tree is read from the other: the same names, and
children that resemble each other again.

The relation is no equivalence: texts are lost in one direction only, which is that of
a file to the file with more comments.

Lines and kinds are equal throughout, and so are the numbers of children.
-/
import PropertyHarvest.Proofs.Matching
import PropertyHarvest.Tree

namespace PropertyHarvest.Tree

mutual

/-- The second tree is the first, but for the texts of leaves that are never
read. -/
inductive Resembles : Tree → Tree → Prop
  | node {k : Kind} {text? : Option String} {line : Nat} {cs cs' : List Tree}
      (member : k = .memberAccess → cs'[1]?.bind Tree.text? = cs[1]?.bind Tree.text?)
      (children : ResembleAll cs cs') :
      Resembles (.node k text? line cs) (.node k text? line cs')
  /-- An unread leaf that has become a node without children. -/
  | emptied {word text : String} {line : Nat} :
      Resembles (.token (.other word) text line) (.interior (.other word) line [])

inductive ResembleAll : List Tree → List Tree → Prop
  | nil : ResembleAll [] []
  | cons {t t' : Tree} {ts ts' : List Tree} (head : Resembles t t') (tail : ResembleAll ts ts') :
      ResembleAll (t :: ts) (t' :: ts')

end

theorem resembleAll_iff {ts ts' : List Tree} :
    ResembleAll ts ts' ↔ List.Forall₂ Resembles ts ts' := by
  constructor
  · intro h
    induction ts generalizing ts' with
    | nil =>
        cases h
        exact .nil
    | cons t ts ih =>
        cases h with
        | cons head tail => exact .cons head (ih tail)
  · intro h
    induction h with
    | nil => exact .nil
    | cons head _ ih => exact .cons head ih

/-! ## How a tree comes to resemble another -/

mutual

theorem Resembles.refl : (t : Tree) → t.Resembles t
  | .node _ _ _ cs => .node (fun _ => rfl) (resembleAll_refl cs)

theorem resembleAll_refl : (ts : List Tree) → ResembleAll ts ts
  | [] => .nil
  | t :: ts => .cons (.refl t) (resembleAll_refl ts)

end

theorem forall₂_resembles_refl (ts : List Tree) : List.Forall₂ Resembles ts ts :=
  resembleAll_iff.mp (resembleAll_refl ts)

/-- Any node but an access, over children that resemble each other. -/
theorem Resembles.interior {k : Kind} (hk : k ≠ .memberAccess) (line : Nat) {cs cs' : List Tree}
    (h : List.Forall₂ Resembles cs cs') : (interior k line cs).Resembles (interior k line cs') :=
  .node (fun he => absurd he hk) (resembleAll_iff.mpr h)

variable {t t' : Tree}

/-! ## What both have in common -/

namespace Resembles

theorem kind_eq (h : t.Resembles t') : t'.kind = t.kind := by
  cases h <;> rfl

theorem line_eq (h : t.Resembles t') : t'.line = t.line := by
  cases h <;> rfl

theorem is_eq (h : t.Resembles t') (k : Kind) : t'.is k = t.is k := by
  rw [is, is, h.kind_eq]

/-- Only what is never inspected loses its text. -/
theorem text?_eq (h : t.Resembles t') (hk : ∀ word, t.kind ≠ .other word) :
    t'.text? = t.text? := by
  cases h with
  | node => rfl
  | emptied => exact absurd rfl (hk _)

theorem children (h : t.Resembles t') : List.Forall₂ Resembles t.children t'.children := by
  cases h with
  | node _ children => exact resembleAll_iff.mp children
  | emptied => exact .nil

theorem firstChild? (h : t.Resembles t') : Option.Rel Resembles t.firstChild? t'.firstChild? :=
  forall₂_head? h.children

theorem secondChild? (h : t.Resembles t') :
    Option.Rel Resembles t.secondChild? t'.secondChild? :=
  forall₂_getElem? h.children 1

theorem lastChild? (h : t.Resembles t') : Option.Rel Resembles t.lastChild? t'.lastChild? :=
  forall₂_getLast? h.children

theorem findFirstChild? (h : t.Resembles t') (k : Kind) :
    Option.Rel Resembles (t.findFirstChild? k) (t'.findFirstChild? k) :=
  forall₂_find? h.children fun _ _ hc => hc.is_eq k

theorem filter_is (h : t.Resembles t') (k : Kind) :
    List.Forall₂ Resembles (t.children.filter (·.is k)) (t'.children.filter (·.is k)) :=
  forall₂_filter h.children fun _ _ hc => hc.is_eq k

/-- A member of an access keeps its text, whatever it is. -/
theorem member_text?_eq (h : t.Resembles t') (hk : t.kind = .memberAccess) :
    t'.secondChild?.bind Tree.text? = t.secondChild?.bind Tree.text? := by
  cases h with
  | node member => exact member hk
  | emptied => rfl

/-! ## Names -/

theorem identifier_text?_eq (h : t.Resembles t') (hk : t.kind = .identifier) :
    t'.text? = t.text? :=
  h.text?_eq fun word he => by
    rw [hk] at he
    cases he

theorem cons_cons {k : Kind} {text? : Option String} {line : Nat} {u v : Tree} {rest : List Tree}
    (h : (Tree.node k text? line (u :: v :: rest)).Resembles t') :
    ∃ u' v' rest', t' = .node k text? line (u' :: v' :: rest') ∧ u.Resembles u' ∧
      v.Resembles v' := by
  cases h with
  | node _ children =>
      cases children with
      | cons hu tail =>
          cases tail with
          | cons hv _ => exact ⟨_, _, _, rfl, hu, hv⟩

theorem of_cons_cons {k : Kind} {text? : Option String} {line : Nat} {u' v' : Tree}
    {rest' : List Tree} (h : t.Resembles (.node k text? line (u' :: v' :: rest'))) :
    ∃ u v rest, t = .node k text? line (u :: v :: rest) := by
  cases h with
  | node _ children =>
      cases children with
      | cons _ tail =>
          cases tail with
          | cons _ _ => exact ⟨_, _, _, rfl⟩

theorem of_identifier {text? : Option String} {line : Nat} {cs' : List Tree}
    (h : t.Resembles (.node .identifier text? line cs')) :
    ∃ cs, t = .node .identifier text? line cs := by
  cases h
  exact ⟨_, rfl⟩

theorem dottedName?_eq (h : t.Resembles t') : t'.dottedName? = t.dottedName? := by
  fun_induction dottedName? t generalizing t' with
  | case1 text? line cs =>
      cases h
      rfl
  | case2 text? line object member rest o m ho hm iho ihm =>
      obtain ⟨object', member', rest', rfl, hobject, hmember⟩ := h.cons_cons
      rw [dottedName?, iho hobject, ihm hmember, ho, hm]
  | case3 text? line object member rest hno iho ihm =>
      obtain ⟨object', member', rest', rfl, hobject, hmember⟩ := h.cons_cons
      rw [dottedName?, iho hobject, ihm hmember]
      split
      · rename_i o m ho hm
        exact absurd hm (hno o m ho)
      · rfl
  | case4 u hidentifier haccess =>
      rw [dottedName?.eq_def]
      split
      · obtain ⟨cs, he⟩ := h.of_identifier
        exact absurd he (hidentifier _ _ _)
      · obtain ⟨object, member, rest, he⟩ := h.of_cons_cons
        exact absurd he (haccess _ _ _ _ _)
      · rfl

theorem calledName?_eq (h : t.Resembles t') : t'.calledName? = t.calledName? := by
  fun_induction calledName? t generalizing t' with
  | case1 text? line cs =>
      cases h
      rfl
  | case2 text? line object member rest ih =>
      obtain ⟨object', member', rest', rfl, -, hmember⟩ := h.cons_cons
      rw [calledName?, ih hmember]
  | case3 u hidentifier haccess =>
      rw [calledName?.eq_def]
      split
      · obtain ⟨cs, he⟩ := h.of_identifier
        exact absurd he (hidentifier _ _ _)
      · obtain ⟨object, member, rest, he⟩ := h.of_cons_cons
        exact absurd he (haccess _ _ _ _ _)
      · rfl

theorem receiverName?_eq (h : t.Resembles t') : t'.receiverName? = t.receiverName? := by
  have hkind := h.kind_eq
  cases h with
  | emptied => rfl
  | @node k text? line cs cs' _ children =>
      cases k with
      | memberAccess =>
          cases children with
          | nil => rfl
          | cons hobject _ => exact hobject.calledName?_eq
      | _ => rfl

end Resembles

end PropertyHarvest.Tree
