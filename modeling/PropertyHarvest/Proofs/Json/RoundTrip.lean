/-
# Reading what was written

A value made of texts is written as a text that denotes it (`denotes_write`), at
whatever depth and with whatever characters its texts have.  So it is read back
as it was (`read?_pretty`).

Numbers, truth values and `null` are written as well and would be read back as they
are kept; no part of the library writes one, and they are not covered.

What has to be seen is that the escapes of the writer are among those of the grammar
and mean the character that they stand for (`exists_written_escape`), and that blanks
and new lines stand only where the grammar allows blanks.  The depth is arbitrary in
the induction, because the items of a value are written one level deeper than the
value.
-/
import PropertyHarvest.Json.Writer
import PropertyHarvest.Proofs.Json.Grammar

namespace PropertyHarvest.Json

/-- Made of texts, and of arrays and objects of such values. -/
inductive Textual : Json → Prop where
  | text (text : String) : Textual (ofText text)
  | arr {items : List Json} (h : ∀ v ∈ items, Textual v) : Textual (.arr items)
  | obj {members : List (String × Json)} (h : ∀ m ∈ members, Textual m.2) :
      Textual (ofMembers members)

/-! ## Texts -/

theorem hexDigit_digit {n : Nat} (h : n < 16) : HexDigit (hexDigit n) n :=
  ⟨h, .inl rfl⟩

/-- An escaped character is a piece that means this character. -/
theorem exists_written_escape (c : Char) :
    ∃ p : Piece, p.Written (escape c) ∧ ∀ ps cs, Means ps cs → Means (p :: ps) (c :: cs) := by
  fun_cases escape c
  case case8 hcontrol =>
      have hzero : HexDigit '0' 0 := hexDigit_digit (by decide)
      have hcode : ((0 * 16 + 0) * 16 + c.toNat / 16) * 16 + c.toNat % 16 = c.toNat := by omega
      have hwritten := Piece.Written.code hzero hzero
        (hexDigit_digit (n := c.toNat / 16) (by omega))
        (hexDigit_digit (n := c.toNat % 16) (by omega))
      rw [hcode] at hwritten
      exact ⟨_, hwritten, fun _ _ h => .unit (by omega) h⟩
  case case9 hquote hback _ _ _ _ _ hcontrol =>
      exact ⟨.char c, .char hquote hback (by omega), fun _ _ h => .char h⟩
  all_goals exact ⟨.char _, .short (by decide), fun _ _ h => .char h⟩

theorem exists_written_escapes (cs : List Char) :
    ∃ ps, List.Forall₂ Piece.Written ps (cs.map escape) ∧ Means ps cs := by
  induction cs with
  | nil => exact ⟨[], .nil, .nil⟩
  | cons c cs ih =>
      obtain ⟨p, hp, hmeans⟩ := exists_written_escape c
      obtain ⟨ps, hps, hcs⟩ := ih
      exact ⟨p :: ps, .cons hp hps, hmeans ps cs hcs⟩

theorem stringText_quote (text : String) : StringText (some text) (quote (some text)) := by
  obtain ⟨ps, hps, hmeans⟩ := exists_written_escapes text.toList
  have h := StringText.text hps hmeans
  rwa [String.ofList_toList, ← List.flatMap_def] at h

/-! ## Values -/

theorem blank_newline (depth : Nat) : Blank (newline depth) := by
  intro c hc
  rcases List.mem_cons.mp hc with rfl | hc
  · decide
  · rw [List.eq_of_mem_replicate hc]
    decide

theorem blank_nil : Blank [] :=
  fun _ hc => absurd hc List.not_mem_nil

theorem exists_items {depth : Nat} {v : Json} {items : List Json}
    (h : ∀ w ∈ v :: items, Denotes w (write depth w)) (outer : Nat) :
    ∃ slots : List (Json × Padded), slots.map Prod.fst = v :: items ∧ (∀ i ∈ slots, i.2.Fair) ∧
      (∀ i ∈ slots, Denotes i.1 i.2.text) ∧
      commaSeparated (slots.map fun i => i.2.chars) =
        newline depth ++ write depth v ++ writeItems depth items ++ newline outer := by
  induction items generalizing v with
  | nil =>
      refine ⟨[(v, ⟨newline depth, write depth v, newline outer⟩)], rfl, ?_, ?_, ?_⟩
      · exact List.forall_mem_singleton.mpr ⟨blank_newline depth, blank_newline outer⟩
      · exact List.forall_mem_singleton.mpr (h v List.mem_cons_self)
      · simp [commaSeparated, Padded.chars, writeItems]
  | cons w items ih =>
      obtain ⟨hv, hitems⟩ := List.forall_mem_cons.mp h
      obtain ⟨slots, hvalues, hfair, hdenote, hchars⟩ := ih hitems
      obtain ⟨slot, slots, rfl⟩ : ∃ slot rest, slots = slot :: rest :=
        List.exists_cons_of_ne_nil (by rintro rfl; cases hvalues)
      refine ⟨(v, ⟨newline depth, write depth v, []⟩) :: slot :: slots, ?_, ?_, ?_, ?_⟩
      · rw [List.map_cons, hvalues]
      · exact List.forall_mem_cons.mpr ⟨⟨blank_newline depth, blank_nil⟩, hfair⟩
      · exact List.forall_mem_cons.mpr ⟨hv, hdenote⟩
      · rw [List.map_cons] at hchars
        rw [List.map_cons, List.map_cons, commaSeparated_cons, hchars]
        simp [Padded.chars, writeItems]

theorem exists_members {depth : Nat} {m : String × Json} {members : List (String × Json)}
    (h : ∀ n ∈ m :: members, Denotes n.2 (write depth n.2)) (outer : Nat) :
    ∃ slots : List Member,
      slots.map (fun n => (n.name, n.value)) =
        (m :: members).map (fun (name, v) => (some name, v)) ∧
      (∀ n ∈ slots, n.key.Fair ∧ n.slot.Fair) ∧
      (∀ n ∈ slots, StringText n.name n.key.text) ∧
      (∀ n ∈ slots, Denotes n.value n.slot.text) ∧
      commaSeparated (slots.map Member.chars) =
        newline depth ++ quote (some m.1) ++ [':', ' '] ++ write depth m.2 ++
          writeMembers depth (members.map fun (name, v) => (some name, v)) ++ newline outer := by
  have hblank : Blank [' '] := by decide
  induction members generalizing m with
  | nil =>
      refine ⟨[⟨some m.1, m.2, ⟨newline depth, quote (some m.1), []⟩,
        ⟨[' '], write depth m.2, newline outer⟩⟩], rfl, ?_, ?_, ?_, ?_⟩
      · exact List.forall_mem_singleton.mpr
          ⟨⟨blank_newline depth, blank_nil⟩, hblank, blank_newline outer⟩
      · exact List.forall_mem_singleton.mpr (stringText_quote m.1)
      · exact List.forall_mem_singleton.mpr (h m List.mem_cons_self)
      · simp [commaSeparated, Member.chars, Padded.chars, writeMembers]
  | cons n members ih =>
      obtain ⟨hm, hmembers⟩ := List.forall_mem_cons.mp h
      obtain ⟨slots, hvalues, hfair, hnamed, hdenote, hchars⟩ := ih hmembers
      obtain ⟨slot, slots, rfl⟩ : ∃ slot rest, slots = slot :: rest :=
        List.exists_cons_of_ne_nil (by rintro rfl; cases hvalues)
      refine ⟨⟨some m.1, m.2, ⟨newline depth, quote (some m.1), []⟩,
        ⟨[' '], write depth m.2, []⟩⟩ :: slot :: slots, ?_, ?_, ?_, ?_, ?_⟩
      · rw [List.map_cons, hvalues]
        rfl
      · exact List.forall_mem_cons.mpr
          ⟨⟨⟨blank_newline depth, blank_nil⟩, hblank, blank_nil⟩, hfair⟩
      · exact List.forall_mem_cons.mpr ⟨stringText_quote m.1, hnamed⟩
      · exact List.forall_mem_cons.mpr ⟨hm, hdenote⟩
      · rw [List.map_cons] at hchars
        rw [List.map_cons, List.map_cons, commaSeparated_cons, hchars]
        simp [Member.chars, Padded.chars, writeMembers]

theorem denotes_write {v : Json} (h : Textual v) (depth : Nat) : Denotes v (write depth v) := by
  induction h generalizing depth with
  | text text =>
      rw [ofText, write]
      exact .str (stringText_quote text)
  | @arr items _ ih =>
      cases items with
      | nil =>
          rw [write]
          exact .emptyArr blank_nil
      | cons v items =>
          obtain ⟨slots, hvalues, hfair, hdenote, hchars⟩ :=
            exists_items (fun w hw => ih w hw (depth + 1)) depth
          have hne : slots ≠ [] := by
            rintro rfl
            cases hvalues
          have harr := Denotes.arr hne hfair hdenote
          rw [hvalues, hchars] at harr
          simpa [write] using harr
  | @obj members _ ih =>
      cases members with
      | nil =>
          rw [ofMembers, List.map_nil, write]
          exact .emptyObj blank_nil
      | cons m members =>
          obtain ⟨slots, hvalues, hfair, hnamed, hdenote, hchars⟩ :=
            exists_members (fun n hn => ih n hn (depth + 1)) depth
          have hne : slots ≠ [] := by
            rintro rfl
            cases hvalues
          have hobj := Denotes.obj hne hfair hnamed hdenote
          rw [hvalues, hchars] at hobj
          simpa [ofMembers, write] using hobj

/-- What is written for a value made of texts is a text of that value. -/
theorem isText_pretty {v : Json} (h : Textual v) : IsText v v.pretty := by
  refine ⟨⟨[], write 0 v, []⟩, ⟨blank_nil, blank_nil⟩, denotes_write h 0, ?_⟩
  rw [pretty, String.toList_ofList, Padded.chars, List.append_nil]
  rfl

/-- What is written for a value made of texts is read as that value. -/
theorem read?_pretty {v : Json} (h : Textual v) : read? v.pretty = some v :=
  read?_of_isText (isText_pretty h)

end PropertyHarvest.Json
