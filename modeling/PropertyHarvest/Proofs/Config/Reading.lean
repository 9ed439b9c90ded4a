/-
# Reading a configuration

  the text has the members        and is read as
  those of `c`                    `c`
  some of those of `c`            `c` where they are given, the default elsewhere
  one of those twice              nothing

Members of other names are skipped, whatever they hold.  How the text spells its
members and their values does not matter (`Json.IsText`), nor in which order they
stand.

The text is any text of JSON whose value is an object with these members, so nothing
depends on how a writer spells it.  The other form, an array of the fields in order,
is read by the same code and is not described here.  Neither is what happens to a
value of the wrong type, which is refused whatever else the text has.
-/
import Mathlib.Data.List.Perm.Subperm
import PropertyHarvest.Config
import PropertyHarvest.Proofs.Json.RoundTrip

namespace PropertyHarvest

namespace Config

variable {members : List (String × Json)} {name : String} {v : Json}

def fields (c : Config) : List (String × Json) :=
  [("basePath", .ofText c.basePath), ("includes", .ofTexts c.includes),
    ("ignores", .ofTexts c.ignores)]

def fieldNames : List String := ["basePath", "includes", "ignores"]

def known (members : List (String × Json)) : List (String × Json) :=
  members.filter fun m => m.1 ∈ fieldNames

/-- The configuration with the fields of some names, and the defaults elsewhere. -/
def keep (c : Config) (names : List String) : Config where
  basePath := if "basePath" ∈ names then c.basePath else ({} : Config).basePath
  includes := if "includes" ∈ names then c.includes else ({} : Config).includes
  ignores := if "ignores" ∈ names then c.ignores else ({} : Config).ignores

/-! ## One member -/

theorem filter_known (h : name ∈ fieldNames) :
    (known members).filter (fun m => m.1 == name) = members.filter fun m => m.1 == name := by
  rw [known, List.filter_filter]
  refine List.filter_congr fun m _ => ?_
  by_cases hm : m.1 = name
  · simp [hm, h]
  · simp [hm]

theorem filter_names (members : List (Option String × Json)) (name : String) :
    (members.filter fun (n, _) => n == some name).length =
      (members.map Prod.fst).count (some name) := by
  rw [List.count, List.countP_map, ← List.countP_eq_length_filter]
  rfl

/-- A member that is known at most once is read as it is. -/
theorem member?_of_subperm (h : (members.filter fun m => m.1 == name).Subperm [(name, v)]) :
    member? (members.map fun (n, v) => (some n, v)) name =
      some (if name ∈ members.map Prod.fst then some v else none) := by
  have hfilter : (members.map fun (n, v) => (some n, v)).filter (fun (n, _) => n == some name) =
      (members.filter fun m => m.1 == name).map fun (n, v) => (some n, v) := by
    rw [List.filter_map]
    rfl
  have hmem : name ∈ members.map Prod.fst ↔ members.filter (fun m => m.1 == name) ≠ [] := by
    simp [List.filter_eq_nil_iff]
  rw [member?, hfilter]
  rcases List.subperm_singleton_iff.mp h with hnone | hone
  · rw [if_neg fun hname => hmem.mp hname hnone, hnone]
    rfl
  · rw [if_pos (hmem.mpr (by rw [hone]; exact List.cons_ne_nil _ _)), hone]
    rfl

/-- A member that is repeated is refused. -/
theorem member?_of_repeated {members : List (Option String × Json)}
    (h : 2 ≤ (members.map Prod.fst).count (some name)) : member? members name = none := by
  rw [← filter_names] at h
  rw [member?]
  split
  · rename_i hnone
    rw [hnone] at h
    cases h
  · rename_i hone
    rw [hone] at h
    cases h with
    | step h => cases h
  · rfl

/-! ## All members -/

theorem texts?_ofTexts (texts : List String) : (Json.ofTexts texts).texts? = some texts := by
  have hread : (Json.text? ∘ Json.ofText) = fun t => pure (id t) := rfl
  rw [Json.ofTexts, Json.texts?, List.mapM_map, hread, List.mapM_pure, List.map_id]
  rfl

theorem elim_given {α : Type} {given : Prop} [Decidable given] {read : Json → Option α} {v : Json}
    {a : α} (h : read v = some a) (default : α) :
    (if given then some v else none).elim (some default) read =
      some (if given then a else default) := by
  split
  · exact h
  · rfl

theorem ofJson?_of_known (c : Config) (h : (known members).Subperm c.fields) :
    ofJson? (.ofMembers members) = some (c.keep (members.map Prod.fst)) := by
  have hmember {name : String} {v : Json} (hname : name ∈ fieldNames)
      (hv : c.fields.filter (fun m => m.1 == name) = [(name, v)]) :
      member? (members.map fun (n, v) => (some n, v)) name =
        some (if name ∈ members.map Prod.fst then some v else none) := by
    refine member?_of_subperm ?_
    rw [← filter_known hname, ← hv]
    exact h.filter _
  have hnames : (members.map fun (n, v) => (some n, v)).all (fun (n, _) => n.isSome) = true := by
    simp
  have hbasePath : Json.text? (.ofText c.basePath) = some c.basePath := rfl
  rw [Json.ofMembers, ofJson?, hmember (by decide) rfl, hmember (by decide) rfl,
    hmember (by decide) rfl, hnames]
  show ofFields? _ _ _ = _
  rw [ofFields?, elim_given hbasePath, elim_given (texts?_ofTexts c.includes),
    elim_given (texts?_ofTexts c.ignores)]
  rfl

theorem ofJson?_of_repeated {members : List (Option String × Json)} {name : String}
    (hname : name ∈ fieldNames) (h : 2 ≤ (members.map Prod.fst).count (some name)) :
    ofJson? (.obj members) = none := by
  have hrepeated := member?_of_repeated h
  rw [ofJson?]
  cases members.all fun (n, _) => n.isSome with
  | false => rfl
  | true =>
      simp only [fieldNames, List.mem_cons, List.not_mem_nil, or_false] at hname
      rcases hname with rfl | rfl | rfl
      · rw [hrepeated]
        rfl
      · rw [hrepeated]
        cases member? members "basePath" <;> rfl
      · rw [hrepeated]
        cases member? members "basePath" with
        | none => rfl
        | some basePath? => cases member? members "includes" <;> rfl

theorem keep_of_perm (c : Config) (h : (known members).Perm c.fields) :
    c.keep (members.map Prod.fst) = c := by
  have hgiven {name : String} (hname : name ∈ fieldNames) : name ∈ members.map Prod.fst := by
    have hmem := ((h.map Prod.fst).mem_iff (a := name)).mpr hname
    exact (List.filter_sublist.map Prod.fst).subset hmem
  rw [keep, if_pos (hgiven (by decide)), if_pos (hgiven (by decide)), if_pos (hgiven (by decide))]

theorem textual_toJson (c : Config) : c.toJson.Textual := by
  have htexts (texts : List String) : (Json.ofTexts texts).Textual := by
    refine .arr fun v hv => ?_
    obtain ⟨t, -, rfl⟩ := List.mem_map.mp hv
    exact .text t
  refine .obj fun m hm => ?_
  simp only [List.mem_cons, List.not_mem_nil, or_false] at hm
  rcases hm with rfl | rfl | rfl
  · exact .text c.basePath
  · exact htexts c.includes
  · exact htexts c.ignores

theorem read?_text (c : Config) : read? c.text = some c := by
  have hsub : (known c.fields).Subperm c.fields := List.filter_sublist.subperm
  have hperm : (known c.fields).Perm c.fields := List.Perm.refl _
  rw [read?, text, Json.read?_pretty c.textual_toJson, Option.bind_some]
  show ofJson? (.ofMembers c.fields) = _
  rw [ofJson?_of_known c hsub, keep_of_perm c hperm]

/-- A text with the members of a configuration, in any order and with others
between them, is read as the configuration.  Where some of them are missing, the
defaults take their place, and a text in which one of them is repeated is refused.
So what is written for a configuration is read as it. -/
theorem read?_recovers (c : Config) :
    (∀ members text, Json.IsText (.ofMembers members) text → (known members).Perm c.fields →
      read? text = some c) ∧
    (∀ members text, Json.IsText (.ofMembers members) text → (known members).Subperm c.fields →
      read? text = some (c.keep (members.map Prod.fst))) ∧
    (∀ members text, Json.IsText (.obj members) text →
      ∀ name ∈ fieldNames, 2 ≤ (members.map Prod.fst).count (some name) → read? text = none) ∧
    read? c.text = some c := by
  have hsome : ∀ members text, Json.IsText (.ofMembers members) text →
      (known members).Subperm c.fields → read? text = some (c.keep (members.map Prod.fst)) := by
    intro members text htext hknown
    rw [read?, Json.read?_of_isText htext, Option.bind_some, ofJson?_of_known c hknown]
  have hall : ∀ members text, Json.IsText (.ofMembers members) text →
      (known members).Perm c.fields → read? text = some c := by
    intro members text htext hknown
    rw [hsome members text htext hknown.subperm, keep_of_perm c hknown]
  refine ⟨hall, hsome, fun members text htext name hname hcount => ?_, ?_⟩
  · rw [read?, Json.read?_of_isText htext, Option.bind_some, ofJson?_of_repeated hname hcount]
  · exact hall c.fields c.text (Json.isText_pretty c.textual_toJson) (List.Perm.refl _)

/-- A configuration with a character that takes two escapes. -/
def clef : Config where
  basePath := "𝄞"
  includes := ["a"]

/-- Its members in another order, with one between them that is skipped. -/
def clefMembers : List (String × Json) :=
  [("ignores", .arr []), ("base", .arr [.num "-1.5e+3", .obj []]), ("basePath", .ofText "𝄞"),
    ("includes", .ofTexts ["a"])]

/-- How the members are written. -/
def clefSlots : List Json.Member :=
  [⟨some "ignores", .arr [], ⟨[], Json.quote (some "ignores"), []⟩, ⟨[' '], ['[', ' ', ']'], []⟩⟩,
    ⟨some "base", .arr [.num "-1.5e+3", .obj []], ⟨['\n'], Json.quote (some "base"), []⟩,
      ⟨[], "[-1.5e+3, \x7b\x7d]".toList, []⟩⟩,
    ⟨some "basePath", .ofText "𝄞", ⟨['\n'], Json.quote (some "basePath"), []⟩,
      ⟨[], "\"\\ud834\\uDD1E\"".toList, [' ']⟩⟩,
    ⟨some "includes", .ofTexts ["a"], ⟨['\n'], Json.quote (some "includes"), []⟩,
      ⟨[], "[\"a\"]".toList, []⟩⟩]

def clefText : String :=
  "\x7b\"ignores\": [ ],\n\"base\":[-1.5e+3, \x7b\x7d]," ++
    "\n\"basePath\":\"\\ud834\\uDD1E\" ,\n\"includes\":[\"a\"]\x7d\n"

theorem isText_clefText : Json.IsText (.ofMembers clefMembers) clefText := by
  have hnumber : Json.Denotes (.num "-1.5e+3") "-1.5e+3".toList :=
    .num (@Json.Number.mk ['-'] ['1'] ['.', '5'] ['e', '+', '3'] (by decide)
      (.digits (by decide) (by decide)) (.digits (by decide))
      (@Json.Exponent.digits 'e' ['+'] ['3'] (by decide) (by decide) (by decide)))
  have hbase : Json.Denotes (.arr [.num "-1.5e+3", .obj []]) "[-1.5e+3, \x7b\x7d]".toList :=
    @Json.Denotes.arr [(.num "-1.5e+3", ⟨[], "-1.5e+3".toList, []⟩),
      (.obj [], ⟨[' '], ['\x7b', '\x7d'], []⟩)] (by simp) (by decide)
      (List.forall_mem_cons.mpr ⟨hnumber, List.forall_mem_singleton.mpr (.emptyObj Json.blank_nil)⟩)
  have hhigh : Json.Piece.Written (.code 0xd834) ['\\', 'u', 'd', '8', '3', '4'] :=
    @Json.Piece.Written.code 'd' '8' '3' '4' 13 8 3 4 ⟨by decide, .inl rfl⟩ ⟨by decide, .inl rfl⟩
      ⟨by decide, .inl rfl⟩ ⟨by decide, .inl rfl⟩
  have hlow : Json.Piece.Written (.code 0xdd1e) ['\\', 'u', 'D', 'D', '1', 'E'] :=
    @Json.Piece.Written.code 'D' 'D' '1' 'E' 13 13 1 14 ⟨by decide, .inr rfl⟩ ⟨by decide, .inr rfl⟩
      ⟨by decide, .inl rfl⟩ ⟨by decide, .inr rfl⟩
  have hclef : Json.StringText (some "𝄞") "\"\\ud834\\uDD1E\"".toList :=
    .text (.cons hhigh (.cons hlow .nil)) (@Json.Means.pair '𝄞' [] [] (by decide) .nil)
  have hincludes : Json.Denotes (.ofTexts ["a"]) "[\"a\"]".toList :=
    @Json.Denotes.arr [(.ofText "a", ⟨[], Json.quote (some "a"), []⟩)] (by simp) (by decide)
      (List.forall_mem_singleton.mpr (.str (Json.stringText_quote "a")))
  have hslots : Json.Denotes (.obj (clefSlots.map fun m => (m.name, m.value)))
      ('\x7b' :: (Json.commaSeparated (clefSlots.map Json.Member.chars) ++ ['\x7d'])) := by
    refine .obj (by simp [clefSlots]) (by decide) ?_ ?_
    · simp only [clefSlots, List.forall_mem_cons]
      exact ⟨Json.stringText_quote _, Json.stringText_quote _, Json.stringText_quote _,
        Json.stringText_quote _, by simp⟩
    · simp only [clefSlots, List.forall_mem_cons]
      exact ⟨@Json.Denotes.emptyArr [' '] (by decide), hbase, .str hclef, hincludes, by simp⟩
  exact ⟨⟨[], _, ['\n']⟩, by decide, hslots, by decide +kernel⟩

/-- All members in another order, one member alone, and a member twice. -/
theorem read?_recovers_clef :
    Json.IsText (.ofMembers clefMembers) clefText ∧ (known clefMembers).Perm clef.fields ∧
    read? clefText = some clef ∧
    read? (Json.ofMembers [("includes", .ofTexts ["a"])]).pretty = some { includes := ["a"] } ∧
    read? (Json.ofMembers [("ignores", .arr []), ("ignores", .arr [])]).pretty = none := by
  have hknown : (known clefMembers).Perm clef.fields :=
    (List.perm_append_singleton ("ignores", Json.arr [])
      [("basePath", Json.ofText "𝄞"), ("includes", Json.ofTexts ["a"])]).symm
  have hone : (Json.ofMembers [("includes", .ofTexts ["a"])]).Textual :=
    .obj (List.forall_mem_singleton.mpr (.arr (List.forall_mem_singleton.mpr (.text "a"))))
  have htwice : (Json.ofMembers [("ignores", .arr []), ("ignores", .arr [])]).Textual := by
    have hempty : Json.Textual (.arr []) := .arr fun v hv => absurd hv List.not_mem_nil
    exact .obj (List.forall_mem_cons.mpr ⟨hempty, List.forall_mem_singleton.mpr hempty⟩)
  have hsubperm : (known [("includes", Json.ofTexts ["a"])]).Subperm clef.fields :=
    List.Sublist.subperm (.cons _ (.cons_cons _ (.cons _ .slnil)))
  obtain ⟨hall, hsome, hrepeated, -⟩ := read?_recovers clef
  exact ⟨isText_clefText, hknown, hall clefMembers clefText isText_clefText hknown,
    hsome _ _ (Json.isText_pretty hone) hsubperm,
    hrepeated _ _ (Json.isText_pretty htwice) "ignores" (by decide) (by decide)⟩

end Config

end PropertyHarvest
