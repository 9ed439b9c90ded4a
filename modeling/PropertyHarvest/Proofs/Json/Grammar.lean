/-
# JSON texts

  grammar      `Denotes v cs`    the characters `cs` are a value, and it is `v`
  characters   `Lexes cs ts`     before a delimiter, `cs` adds the tokens `ts`
  tokens       `Builds ts v`     where a value may come, `ts` leaves the value `v`

The grammar does not mention the reader.  The other two say what the reader does
in every state in which the piece may come, so that they compose along the
grammar, and a text is read as the value that it denotes (`read?_of_isText`), with
whatever blanks, escapes and digits, and nested to any depth.

One direction is proved: what the grammar allows is read, and as what it denotes.  That
nothing else is read is not needed here and not said.  Half of a surrogate pair that
is escaped is allowed in a string, and then the string has no text.
-/
import Mathlib.Data.List.Forall2
import PropertyHarvest.Json.Reader

namespace PropertyHarvest.Json

/-! ## Blanks and numbers -/

def Blank (cs : List Char) : Prop :=
  ∀ c ∈ cs, c ∈ [' ', '\n', '\t', '\r']

instance : DecidablePred Blank :=
  fun cs => List.decidableBAll _ cs

def Digits (cs : List Char) : Prop :=
  cs ≠ [] ∧ ∀ c ∈ cs, c.isDigit = true

instance : DecidablePred Digits :=
  fun cs => @instDecidableAnd _ _ inferInstance (List.decidableBAll _ cs)

/-- A whole number has no zero in front. -/
inductive Whole : List Char → Prop where
  | zero : Whole ['0']
  | digits {d : Char} {ds : List Char} (nonzero : d ≠ '0') (digits : Digits (d :: ds)) :
      Whole (d :: ds)

inductive Fraction : List Char → Prop where
  | none : Fraction []
  | digits {ds : List Char} (digits : Digits ds) : Fraction ('.' :: ds)

inductive Exponent : List Char → Prop where
  | none : Exponent []
  | digits {mark : Char} {sign ds : List Char} (mark_mem : mark ∈ ['e', 'E'])
      (sign_mem : sign ∈ [[], ['+'], ['-']]) (digits : Digits ds) : Exponent (mark :: (sign ++ ds))

inductive Number : List Char → Prop where
  | mk {sign whole fraction exponent : List Char} (sign_mem : sign ∈ [[], ['-']])
      (isWhole : Whole whole) (isFraction : Fraction fraction) (isExponent : Exponent exponent) :
      Number (sign ++ (whole ++ (fraction ++ exponent)))

/-! ## Strings -/

/-- A hexadecimal digit, of either case, and its value. -/
def HexDigit (c : Char) (n : Nat) : Prop :=
  n < 16 ∧ (c = Nat.digitChar n ∨ c = (Nat.digitChar n).toUpper)

/-- What may follow a backslash, and the character that it stands for. -/
def shortEscapes : List (Char × Char) :=
  [('"', '"'), ('\\', '\\'), ('/', '/'), ('b', '\x08'), ('f', '\x0c'), ('n', '\n'), ('r', '\r'),
    ('t', '\t')]

/-- How a piece of a string is written. -/
inductive Piece.Written : Piece → List Char → Prop where
  | char {c : Char} (quote : c ≠ '"') (backslash : c ≠ '\\') (control : 0x20 ≤ c.toNat) :
      Written (.char c) [c]
  | short {e c : Char} (escape : (e, c) ∈ shortEscapes) : Written (.char c) ['\\', e]
  | code {a b c d : Char} {i j k l : Nat} (first : HexDigit a i) (second : HexDigit b j)
      (third : HexDigit c k) (fourth : HexDigit d l) :
      Written (.code (((i * 16 + j) * 16 + k) * 16 + l)) ['\\', 'u', a, b, c, d]

/-- The characters that the pieces of a string mean.  A number is a unit of
UTF-16: a character up to U+FFFF, or one of the two halves of a greater one. -/
inductive Means : List Piece → List Char → Prop where
  | nil : Means [] []
  | char {c : Char} {ps : List Piece} {cs : List Char} (rest : Means ps cs) :
      Means (.char c :: ps) (c :: cs)
  | unit {c : Char} {ps : List Piece} {cs : List Char} (small : c.toNat < 0x10000)
      (rest : Means ps cs) : Means (.code c.toNat :: ps) (c :: cs)
  | pair {c : Char} {ps : List Piece} {cs : List Char} (great : 0x10000 ≤ c.toNat)
      (rest : Means ps cs) :
      Means (.code (0xd800 + (c.toNat - 0x10000) / 0x400) ::
        .code (0xdc00 + (c.toNat - 0x10000) % 0x400) :: ps) (c :: cs)

/-- A string and its text; it has none if a half of a character stands alone. -/
inductive StringText : Option String → List Char → Prop where
  | text {ps : List Piece} {css : List (List Char)} {cs : List Char}
      (pieces : List.Forall₂ Piece.Written ps css) (means : Means ps cs) :
      StringText (some (String.ofList cs)) ('"' :: (css.flatten ++ ['"']))
  | broken {ps : List Piece} {css : List (List Char)}
      (pieces : List.Forall₂ Piece.Written ps css) (meaningless : ∀ cs, ¬ Means ps cs) :
      StringText none ('"' :: (css.flatten ++ ['"']))

/-! ## Values -/

/-- A part of a text between blanks. -/
structure Padded where
  before : List Char
  text : List Char
  after : List Char

namespace Padded

def chars (p : Padded) : List Char :=
  p.before ++ (p.text ++ p.after)

/-- What stands around the text is blank. -/
def Fair (p : Padded) : Prop :=
  Blank p.before ∧ Blank p.after

instance : DecidablePred Fair :=
  fun p => inferInstanceAs (Decidable (Blank p.before ∧ Blank p.after))

end Padded

/-- A member of an object and how it is written. -/
structure Member where
  name : Option String
  value : Json
  key : Padded
  slot : Padded

def Member.chars (m : Member) : List Char :=
  m.key.chars ++ ':' :: m.slot.chars

/-- Parts of a text with commas between them. -/
def commaSeparated : List (List Char) → List Char
  | [] => []
  | [cs] => cs
  | cs :: rest => cs ++ ',' :: commaSeparated rest

/-- The characters are a value, and it is `v`. -/
inductive Denotes : Json → List Char → Prop where
  | null : Denotes .null ['n', 'u', 'l', 'l']
  | true : Denotes (.bool true) ['t', 'r', 'u', 'e']
  | false : Denotes (.bool false) ['f', 'a', 'l', 's', 'e']
  | num {cs : List Char} (number : Number cs) : Denotes (.num (String.ofList cs)) cs
  | str {text? : Option String} {cs : List Char} (string : StringText text? cs) :
      Denotes (.str text?) cs
  | emptyArr {bs : List Char} (blank : Blank bs) : Denotes (.arr []) ('[' :: (bs ++ [']']))
  | arr {items : List (Json × Padded)} (nonempty : items ≠ []) (fair : ∀ i ∈ items, i.2.Fair)
      (denote : ∀ i ∈ items, Denotes i.1 i.2.text) :
      Denotes (.arr (items.map Prod.fst))
        ('[' :: (commaSeparated (items.map fun i => i.2.chars) ++ [']']))
  | emptyObj {bs : List Char} (blank : Blank bs) : Denotes (.obj []) ('\x7b' :: (bs ++ ['\x7d']))
  | obj {members : List Member} (nonempty : members ≠ [])
      (fair : ∀ m ∈ members, m.key.Fair ∧ m.slot.Fair)
      (named : ∀ m ∈ members, StringText m.name m.key.text)
      (denote : ∀ m ∈ members, Denotes m.value m.slot.text) :
      Denotes (.obj (members.map fun m => (m.name, m.value)))
        ('\x7b' :: (commaSeparated (members.map Member.chars) ++ ['\x7d']))

/-- The whole text is one value with blanks around it. -/
def IsText (v : Json) (text : String) : Prop :=
  ∃ p : Padded, p.Fair ∧ Denotes v p.text ∧ text.toList = p.chars

/-! ## Characters of a string -/

theorem isHigh_iff {n : Nat} : isHigh n = true ↔ 0xd800 ≤ n ∧ n < 0xdc00 := by
  rw [isHigh, Bool.and_eq_true, decide_eq_true_iff, decide_eq_true_iff]

theorem isLow_iff {n : Nat} : isLow n = true ↔ 0xdc00 ≤ n ∧ n < 0xe000 := by
  rw [isLow, Bool.and_eq_true, decide_eq_true_iff, decide_eq_true_iff]

/-- No character is a half of another. -/
theorem toNat_lt (c : Char) : c.toNat < 0xd800 ∨ 0xe000 ≤ c.toNat ∧ c.toNat < 0x110000 := by
  have h := c.valid
  rcases h with h | ⟨h, h'⟩
  · exact .inl h
  · exact .inr ⟨h, h'⟩

theorem toNat_ofNat {n : Nat} (h : n < 0xd800 ∨ 0xe000 ≤ n ∧ n < 0x110000) :
    (Char.ofNat n).toNat = n := by
  have hvalid : n.isValidChar := h
  rw [Char.ofNat, dif_pos hvalid]
  rfl

theorem toNat_pairChar {n m : Nat} (hn : isHigh n = true) (hm : isLow m = true) :
    (pairChar n m).toNat = 0x10000 + (n - 0xd800) * 0x400 + (m - 0xdc00) := by
  rw [isHigh_iff] at hn
  rw [isLow_iff] at hm
  exact toNat_ofNat (by omega)

theorem charsOf_of_means {ps : List Piece} {cs : List Char} (h : Means ps cs) :
    charsOf ps = some cs := by
  induction h with
  | nil => rfl
  | char _ ih => rw [charsOf, ih, Option.map_some]
  | @unit c ps cs small _ ih =>
      have hc := toNat_lt c
      have hhigh : ¬ isHigh c.toNat = true := by
        rw [isHigh_iff]
        omega
      have hlow : ¬ isLow c.toNat = true := by
        rw [isLow_iff]
        omega
      rw [charsOf.eq_def]
      simp only [if_neg hhigh, if_neg hlow, ih, Option.map_some, Char.ofNat_toNat]
  | @pair c ps cs great _ ih =>
      have hc := toNat_lt c
      have hhigh : isHigh (0xd800 + (c.toNat - 0x10000) / 0x400) = true := by
        rw [isHigh_iff]
        omega
      have hlow : isLow (0xdc00 + (c.toNat - 0x10000) % 0x400) = true := by
        rw [isLow_iff]
        omega
      have hpair : pairChar (0xd800 + (c.toNat - 0x10000) / 0x400)
          (0xdc00 + (c.toNat - 0x10000) % 0x400) = c := by
        rw [← Char.toNat_inj, toNat_pairChar hhigh hlow]
        omega
      rw [charsOf, if_pos hhigh, if_pos hlow, hpair, ih, Option.map_some]

theorem means_of_charsOf {ps : List Piece} (h : ∀ n, .code n ∈ ps → n < 0x10000)
    {cs : List Char} (hcs : charsOf ps = some cs) : Means ps cs := by
  fun_induction charsOf ps generalizing cs with
  | case1 =>
      cases hcs
      exact .nil
  | case2 c rest ih =>
      obtain ⟨ds, hds, rfl⟩ := Option.map_eq_some_iff.mp hcs
      exact .char (ih (fun n hn => h n (List.mem_cons_of_mem _ hn)) hds)
  | case3 n hn m rest hm ih =>
      obtain ⟨ds, hds, rfl⟩ := Option.map_eq_some_iff.mp hcs
      have hrest := ih (fun k hk => h k (List.mem_cons_of_mem _ (List.mem_cons_of_mem _ hk))) hds
      have hchar := toNat_pairChar hn hm
      rw [isHigh_iff] at hn
      rw [isLow_iff] at hm
      have hpair := Means.pair (c := pairChar n m) (by omega) hrest
      have hcode : 0x10000 + (n - 0xd800) * 0x400 + (m - 0xdc00) - 0x10000 =
          (n - 0xd800) * 0x400 + (m - 0xdc00) := by omega
      have hhigh : 0xd800 + ((n - 0xd800) * 0x400 + (m - 0xdc00)) / 0x400 = n := by omega
      have hlow : 0xdc00 + ((n - 0xd800) * 0x400 + (m - 0xdc00)) % 0x400 = m := by omega
      rw [hchar, hcode, hhigh, hlow] at hpair
      exact hpair
  | case4 => cases hcs
  | case5 => cases hcs
  | case6 => cases hcs
  | case7 n rest hn hm ih =>
      obtain ⟨ds, hds, rfl⟩ := Option.map_eq_some_iff.mp hcs
      have hsmall := h n List.mem_cons_self
      rw [isHigh_iff] at hn
      rw [isLow_iff] at hm
      have hchar : (Char.ofNat n).toNat = n := toNat_ofNat (by omega)
      have hunit := Means.unit (c := Char.ofNat n) (by omega)
        (ih (fun k hk => h k (List.mem_cons_of_mem _ hk)) hds)
      rw [hchar] at hunit
      exact hunit

theorem HexDigit.value {c : Char} {n : Nat} (h : HexDigit c n) : hexValue? c = some n := by
  have hvalues : ∀ n < 16, hexValue? (Nat.digitChar n) = some n ∧
      hexValue? (Nat.digitChar n).toUpper = some n := by
    decide
  rcases h.2 with rfl | rfl
  · exact (hvalues n h.1).1
  · exact (hvalues n h.1).2

theorem code_lt {ps : List Piece} {css : List (List Char)}
    (h : List.Forall₂ Piece.Written ps css) : ∀ n, .code n ∈ ps → n < 0x10000 := by
  induction h with
  | nil => exact fun n hn => absurd hn List.not_mem_nil
  | cons hp _ ih =>
      intro n hn
      rcases List.mem_cons.mp hn with rfl | hn
      · cases hp with
        | code first second third fourth =>
            have := first.1
            have := second.1
            have := third.1
            have := fourth.1
            omega
      · exact ih n hn

/-! ## Tokens of a text -/

namespace Lexer

/-- A written piece is read as that piece. -/
theorem foldlM_step_written {p : Piece} {cs : List Char} (h : p.Written cs) (read : List Piece)
    (done : List Token) :
    cs.foldlM step ⟨.string read, done⟩ = some ⟨.string (p :: read), done⟩ := by
  cases h with
  | @char c quote backslash control =>
      have hcontrol : ¬ c.toNat < 0x20 := by omega
      rw [List.foldlM_cons, step]
      simp only [if_neg quote, if_neg backslash, if_neg hcontrol]
      rfl
  | short escape =>
      simp only [shortEscapes, List.mem_cons, List.not_mem_nil, or_false, Prod.mk.injEq] at escape
      rcases escape with ⟨rfl, rfl⟩ | ⟨rfl, rfl⟩ | ⟨rfl, rfl⟩ | ⟨rfl, rfl⟩ | ⟨rfl, rfl⟩ |
        ⟨rfl, rfl⟩ | ⟨rfl, rfl⟩ | ⟨rfl, rfl⟩
      all_goals rfl
  | code first second third fourth =>
      simp [List.foldlM_cons, step, first.value, second.value, third.value, fourth.value]

theorem foldlM_step_pieces {ps : List Piece} {css : List (List Char)}
    (h : List.Forall₂ Piece.Written ps css) (read : List Piece) (done : List Token) :
    css.flatten.foldlM step ⟨.string read, done⟩ = some ⟨.string (ps.reverse ++ read), done⟩ := by
  induction h generalizing read with
  | nil => rfl
  | @cons p cs ps css hp _ ih =>
      rw [List.flatten_cons, List.foldlM_append, foldlM_step_written hp, List.reverse_cons,
        List.append_assoc]
      exact ih (p :: read)

/-- What ends a word or a number. -/
def delimiters : List Char := [' ', '\n', '\t', '\r', ',', ']', '\x7d']

/-- The current token may end here, and a delimiter is read as after its end. -/
def Ends (l : Lexer) (done : List Token) : Prop :=
  l.finish = some done ∧ ∀ c ∈ delimiters, l.step c = startWith done c

theorem ends_blank (done : List Token) : Ends ⟨.blank, done⟩ done :=
  ⟨rfl, fun _ _ => rfl⟩

theorem ends_word {read : List Char} {t : Token}
    (h : wordToken? (String.ofList read.reverse) = some t) (done : List Token) :
    Ends ⟨.word read, done⟩ (t :: done) := by
  have hfinish : finish ⟨.word read, done⟩ = some (t :: done) := by
    simp only [finish, h, Option.map_some]
  refine ⟨hfinish, fun c hc => ?_⟩
  have hletters : delimiters.all (fun c => !isLetter c) = true := by decide
  have hletter : isLetter c = false := by simpa using List.all_eq_true.mp hletters c hc
  simp only [step, hletter, Bool.false_eq_true, if_false, hfinish, Option.bind_some]

theorem ends_number {part : NumberPart} (h : part.isComplete = true) (read : List Char)
    (done : List Token) :
    Ends ⟨.number part read, done⟩ (.num (String.ofList read.reverse) :: done) := by
  have hfinish : finish ⟨.number part read, done⟩ =
      some (.num (String.ofList read.reverse) :: done) := by
    simp only [finish, h, if_true]
  refine ⟨hfinish, fun c hc => ?_⟩
  have hnexts : delimiters.all (fun c => part.next? c == none) = true := by
    cases part with
    | zero => decide
    | whole => decide
    | fraction => decide
    | exponentDigits => decide
    | _ => cases h
  have hnext : part.next? c = none := eq_of_beq (List.all_eq_true.mp hnexts c hc)
  simp only [step, hnext, hfinish, Option.bind_some]

theorem foldlM_step_number {cs : List Char} {part last : NumberPart}
    (h : cs.foldlM NumberPart.next? part = some last) (read : List Char) (done : List Token) :
    cs.foldlM step ⟨.number part read, done⟩ = some ⟨.number last (cs.reverse ++ read), done⟩ := by
  induction cs generalizing part read with
  | nil =>
      cases h
      rfl
  | cons c cs ih =>
      rw [List.foldlM_cons] at h ⊢
      obtain ⟨next, hnext, hrest⟩ := Option.bind_eq_some_iff.mp h
      have hstep : step ⟨.number part read, done⟩ c = some ⟨.number next (c :: read), done⟩ := by
        simp only [step, hnext]
      rw [hstep, List.reverse_cons, List.append_assoc]
      exact ih hrest (c :: read)

end Lexer

namespace NumberPart

theorem foldlM_next_digits {part : NumberPart} {ds : List Char}
    (h : ∀ c, c.isDigit = true → part.next? c = some part) (hds : ∀ c ∈ ds, c.isDigit = true) :
    ds.foldlM next? part = some part := by
  induction ds with
  | nil => rfl
  | cons d ds ih =>
      obtain ⟨hd, hds⟩ := List.forall_mem_cons.mp hds
      rw [List.foldlM_cons, h d hd]
      exact ih hds

theorem foldlM_next_of_digits {part next : NumberPart} {ds : List Char} (hds : Digits ds)
    (hfirst : ∀ c, c.isDigit = true → part.next? c = some next)
    (hmore : ∀ c, c.isDigit = true → next.next? c = some next) :
    ds.foldlM next? part = some next := by
  obtain ⟨hne, hdigits⟩ := hds
  obtain ⟨d, ds, rfl⟩ := List.exists_cons_of_ne_nil hne
  obtain ⟨hd, hrest⟩ := List.forall_mem_cons.mp hdigits
  rw [List.foldlM_cons, hfirst d hd]
  exact foldlM_next_digits hmore hrest

theorem foldlM_next_exponent {part : NumberPart} {cs : List Char} (h : Exponent cs)
    (hpart : part ∈ [zero, whole, fraction]) :
    ∃ last, cs.foldlM next? part = some last ∧ last.isComplete = true := by
  have hdigits {ds : List Char} (hds : Digits ds) (part : NumberPart)
      (hpart : part ∈ [exponent, exponentSign]) : ds.foldlM next? part = some exponentDigits := by
    refine foldlM_next_of_digits hds (fun c hc => ?_) fun c hc => by simp only [next?, hc, if_true]
    rcases List.mem_pair.mp hpart with rfl | rfl
    · simp only [next?, hc, if_true]
    · simp only [next?, hc, if_true]
  cases h with
  | none =>
      refine ⟨part, rfl, ?_⟩
      revert part
      decide
  | @digits mark sign ds mark_mem sign_mem digits =>
      have hmarks : ['e', 'E'].all (fun mark => part.next? mark == some exponent) = true := by
        revert part
        decide
      have hmark : part.next? mark = some exponent :=
        eq_of_beq (List.all_eq_true.mp hmarks mark mark_mem)
      refine ⟨exponentDigits, ?_, rfl⟩
      rw [List.foldlM_cons, hmark]
      show (sign ++ ds).foldlM next? exponent = _
      rw [List.foldlM_append]
      simp only [List.mem_cons, List.not_mem_nil, or_false] at sign_mem
      rcases sign_mem with rfl | rfl | rfl
      · exact hdigits digits exponent (by decide)
      · exact hdigits digits exponentSign (by decide)
      · exact hdigits digits exponentSign (by decide)

theorem foldlM_next_fraction {part : NumberPart} {cs : List Char} (h : Fraction cs)
    (hpart : part ∈ [zero, whole]) :
    ∃ last ∈ [zero, whole, fraction], cs.foldlM next? part = some last := by
  cases h with
  | none => exact ⟨part, List.mem_append_left [fraction] hpart, rfl⟩
  | @digits ds digits =>
      have hpoint : part.next? '.' = some point := by
        revert part
        decide
      refine ⟨fraction, by decide, ?_⟩
      rw [List.foldlM_cons, hpoint]
      refine foldlM_next_of_digits digits (fun c hc => ?_) fun c hc => ?_
      · simp only [next?, hc, if_true]
      · simp only [next?, hc, if_true]

end NumberPart

theorem mem_of_isDigit {c : Char} (h : c.isDigit = true) :
    c ∈ ['0', '1', '2', '3', '4', '5', '6', '7', '8', '9'] := by
  have hdigits : ∀ n < 58, 48 ≤ n →
      Char.ofNat n ∈ ['0', '1', '2', '3', '4', '5', '6', '7', '8', '9'] := by
    decide
  rw [Char.isDigit, Bool.and_eq_true, decide_eq_true_iff, decide_eq_true_iff] at h
  rw [← Char.ofNat_toNat c]
  exact hdigits c.toNat (Nat.lt_succ_of_le h.2) h.1

/-- A whole number is read to its end, at the beginning of a number and after its
sign. -/
theorem Whole.exists_read {cs : List Char} (h : Whole cs) :
    ∃ d ds, ∃ part ∈ [NumberPart.zero, .whole], cs = d :: ds ∧
      NumberPart.next? .minus d = some part ∧ ds.foldlM NumberPart.next? part = some part ∧
      ∀ done, Lexer.startWith done d = some ⟨.number part [d], done⟩ := by
  cases h with
  | zero => exact ⟨'0', [], .zero, by decide, rfl, by decide, rfl, fun _ => rfl⟩
  | @digits d ds nonzero digits =>
      obtain ⟨hd, hds⟩ := List.forall_mem_cons.mp digits.2
      refine ⟨d, ds, .whole, by decide, rfl, ?_, ?_, fun done => ?_⟩
      · simp only [NumberPart.next?, if_neg nonzero, hd, if_true]
      · refine NumberPart.foldlM_next_digits (fun c hc => ?_) hds
        simp only [NumberPart.next?, hc, if_true]
      · have hothers : ['0', '1', '2', '3', '4', '5', '6', '7', '8', '9'].all (fun d =>
            !Lexer.isBlank d && !Lexer.isLetter d && d != '"' && d != '-') = true := by
          decide
        have hother := List.all_eq_true.mp hothers d (mem_of_isDigit hd)
        simp only [Bool.and_eq_true, Bool.not_eq_true', bne_iff_ne] at hother
        obtain ⟨⟨⟨hblank, hletter⟩, hquote⟩, hminus⟩ := hother
        simp only [Lexer.startWith, hblank, hletter, Bool.false_eq_true, if_false, if_neg hquote,
          if_neg hminus, if_neg nonzero, hd, if_true]

/-! ## Characters and tokens -/

/-- Read between tokens, the characters add the tokens and end between tokens. -/
def Spells (cs : List Char) (ts : List Token) : Prop :=
  ∀ done, cs.foldlM Lexer.step ⟨.blank, done⟩ = some ⟨.blank, ts.reverse ++ done⟩

/-- Read between tokens, the characters add the tokens, the last of which may
have to be ended by a delimiter. -/
def Lexes (cs : List Char) (ts : List Token) : Prop :=
  ∀ done, ∃ l, cs.foldlM Lexer.step ⟨.blank, done⟩ = some l ∧ l.Ends (ts.reverse ++ done)

theorem Spells.lexes {cs : List Char} {ts : List Token} (h : Spells cs ts) : Lexes cs ts :=
  fun done => ⟨_, h done, Lexer.ends_blank _⟩

theorem Spells.append {cs ds : List Char} {ts us : List Token} (h : Spells cs ts)
    (hd : Spells ds us) : Spells (cs ++ ds) (ts ++ us) := by
  intro done
  rw [List.foldlM_append, h done, List.reverse_append, List.append_assoc]
  exact hd _

theorem Spells.append_lexes {cs ds : List Char} {ts us : List Token} (h : Spells cs ts)
    (hd : Lexes ds us) : Lexes (cs ++ ds) (ts ++ us) := by
  intro done
  rw [List.foldlM_append, h done, List.reverse_append, List.append_assoc]
  exact hd _

/-- A delimiter ends the last token. -/
theorem Lexes.append {cs ds : List Char} {c : Char} {ts us : List Token} (h : Lexes cs ts)
    (hc : c ∈ Lexer.delimiters) (hd : Spells (c :: ds) us) : Spells (cs ++ c :: ds) (ts ++ us) := by
  intro done
  obtain ⟨l, hl, -, hstep⟩ := h done
  have hrest := hd (ts.reverse ++ done)
  rw [List.foldlM_cons] at hrest
  rw [List.foldlM_append, hl, List.reverse_append, List.append_assoc, ← hrest]
  show (c :: ds).foldlM Lexer.step l = _
  rw [List.foldlM_cons, hstep c hc]
  rfl

theorem spells_mark {c : Char} {t : Token}
    (h : ∀ done, Lexer.startWith done c = some ⟨.blank, t :: done⟩) : Spells [c] [t] := by
  intro done
  rw [List.foldlM_cons, Lexer.step, h done]
  rfl

theorem Blank.spells {cs : List Char} (h : Blank cs) : Spells cs [] := by
  intro done
  induction cs with
  | nil => rfl
  | cons c cs ih =>
      obtain ⟨hc, hcs⟩ := List.forall_mem_cons.mp h
      have hblanks : [' ', '\n', '\t', '\r'].all Lexer.isBlank = true := by decide
      have hstep : Lexer.step ⟨.blank, done⟩ c = some ⟨.blank, done⟩ := by
        simp only [Lexer.step, Lexer.startWith, List.all_eq_true.mp hblanks c hc, if_true]
      rw [List.foldlM_cons, hstep]
      exact ih hcs

theorem Lexes.append_blank {cs bs : List Char} {ts : List Token} (h : Lexes cs ts)
    (hb : Blank bs) : Lexes (cs ++ bs) ts := by
  cases bs with
  | nil => rwa [List.append_nil]
  | cons b bs =>
      have hdelimiter : b ∈ Lexer.delimiters :=
        List.mem_append_left [',', ']', '\x7d'] (hb b List.mem_cons_self)
      have hspells := h.append hdelimiter hb.spells
      rw [List.append_nil] at hspells
      exact hspells.lexes

theorem Padded.Fair.lexes {p : Padded} (h : p.Fair) {ts : List Token} (ht : Lexes p.text ts) :
    Lexes p.chars ts :=
  h.1.spells.append_lexes (ht.append_blank h.2)

theorem StringText.spells {text? : Option String} {cs : List Char} (h : StringText text? cs) :
    Spells cs [.str text?] := by
  have hread {ps : List Piece} {css : List (List Char)} (hps : List.Forall₂ Piece.Written ps css) :
      Spells ('"' :: (css.flatten ++ ['"'])) [.str (textOf ps)] := by
    intro done
    have hopen : Lexer.step ⟨.blank, done⟩ '"' = some ⟨.string [], done⟩ := rfl
    rw [List.foldlM_cons, hopen]
    show (css.flatten ++ ['"']).foldlM Lexer.step ⟨.string [], done⟩ = _
    rw [List.foldlM_append, Lexer.foldlM_step_pieces hps, List.append_nil]
    show some (⟨.blank, .str (textOf ps.reverse.reverse) :: done⟩ : Lexer) = _
    rw [List.reverse_reverse]
    rfl
  cases h with
  | @text ps css cs pieces means =>
      have htext : textOf ps = some (String.ofList cs) := by
        rw [textOf, charsOf_of_means means, Option.map_some]
      exact htext ▸ hread pieces
  | @broken ps css pieces meaningless =>
      have htext : textOf ps = none := by
        rw [textOf, Option.map_eq_none_iff]
        by_contra hne
        obtain ⟨cs, hcs⟩ := Option.ne_none_iff_exists'.mp hne
        exact meaningless cs (means_of_charsOf (code_lt pieces) hcs)
      exact htext ▸ hread pieces

theorem Number.lexes {cs : List Char} (h : Number cs) : Lexes cs [.num (String.ofList cs)] := by
  have hread {c : Char} {rest : List Char} {part last : NumberPart}
      (hstart : ∀ done, Lexer.startWith done c = some ⟨.number part [c], done⟩)
      (hrest : rest.foldlM NumberPart.next? part = some last) (hlast : last.isComplete = true) :
      Lexes (c :: rest) [.num (String.ofList (c :: rest))] := by
    intro done
    have hends := Lexer.ends_number hlast (rest.reverse ++ [c]) done
    rw [List.reverse_append, List.reverse_reverse] at hends
    refine ⟨_, ?_, hends⟩
    rw [List.foldlM_cons, Lexer.step, hstart]
    exact Lexer.foldlM_step_number hrest [c] done
  cases h with
  | @mk sign whole fraction exponent sign_mem isWhole isFraction isExponent =>
      obtain ⟨d, ds, part, hpart, rfl, hminus, hds, hstart⟩ := isWhole.exists_read
      obtain ⟨middle, hmiddle, hfraction⟩ := NumberPart.foldlM_next_fraction isFraction hpart
      obtain ⟨last, hexponent, hlast⟩ := NumberPart.foldlM_next_exponent isExponent hmiddle
      have hrest : (ds ++ (fraction ++ exponent)).foldlM NumberPart.next? part = some last := by
        rw [List.foldlM_append, hds]
        show (fraction ++ exponent).foldlM NumberPart.next? part = _
        rw [List.foldlM_append, hfraction]
        exact hexponent
      rcases List.mem_pair.mp sign_mem with rfl | rfl
      · exact hread hstart hrest hlast
      · refine hread (fun _ => rfl) ?_ hlast
        show (d :: (ds ++ (fraction ++ exponent))).foldlM NumberPart.next? .minus = _
        rw [List.foldlM_cons, hminus]
        exact hrest

theorem tokens?_of_lexes {cs : List Char} {ts : List Token} (h : Lexes cs ts) :
    tokens? cs = some ts := by
  obtain ⟨l, hl, hfinish, -⟩ := h []
  rw [tokens?, Lexer.start, hl, Option.bind_some, hfinish, List.append_nil, Option.map_some,
    List.reverse_reverse]

/-! ## Tokens and values -/

/-- Read where a value may come, the tokens leave this value. -/
def Builds (ts : List Token) (v : Json) : Prop :=
  ∀ stack, ts.foldlM Reader.step ⟨stack, .value⟩ = some ⟨stack, .more v⟩

/-- What builds a value may also come after an opening bracket. -/
theorem Builds.firstItem {ts : List Token} {v : Json} (h : Builds ts v) (stack : List Frame) :
    ts.foldlM Reader.step ⟨stack, .firstItem⟩ = some ⟨stack, .more v⟩ := by
  have hv := h stack
  match ts with
  | [] => cases hv
  | t :: ts =>
      rw [List.foldlM_cons] at hv ⊢
      cases t with
      | closeBracket => cases hv
      | _ => exact hv

/-- After a value of an open array, the tokens add these items and close it. -/
def EndsArray (ts : List Token) (items : List Json) : Prop :=
  ∀ stack held last, ts.foldlM Reader.step ⟨.arr held :: stack, .more last⟩ =
    some ⟨stack, .more (.arr (held.reverse ++ last :: items))⟩

/-- After a value of an open object, the tokens add these members and close it. -/
def EndsObject (ts : List Token) (members : List (Option String × Json)) : Prop :=
  ∀ stack held name last, ts.foldlM Reader.step ⟨.obj held name :: stack, .more last⟩ =
    some ⟨stack, .more (.obj (held.reverse ++ (name, last) :: members))⟩

theorem endsArray_nil : EndsArray [.closeBracket] [] := by
  intro stack held last
  rw [← List.reverse_cons]
  rfl

theorem EndsArray.cons {ts us : List Token} {v : Json} {items : List Json} (hv : Builds ts v)
    (h : EndsArray us items) : EndsArray (.comma :: (ts ++ us)) (v :: items) := by
  intro stack held last
  rw [List.foldlM_cons]
  show (ts ++ us).foldlM Reader.step ⟨.arr (last :: held) :: stack, .value⟩ = _
  rw [List.foldlM_append, hv]
  show us.foldlM Reader.step ⟨.arr (last :: held) :: stack, .more v⟩ = _
  rw [h, List.reverse_cons, List.append_assoc]
  rfl

theorem endsObject_nil : EndsObject [.closeBrace] [] := by
  intro stack held name last
  rw [← List.reverse_cons]
  rfl

theorem EndsObject.cons {ts us : List Token} {name : Option String} {v : Json}
    {members : List (Option String × Json)} (hv : Builds ts v) (h : EndsObject us members) :
    EndsObject (.comma :: (.str name :: .colon :: ts ++ us)) ((name, v) :: members) := by
  intro stack held key last
  simp only [List.cons_append, List.foldlM_cons]
  show (ts ++ us).foldlM Reader.step ⟨.obj ((key, last) :: held) name :: stack, .value⟩ = _
  rw [List.foldlM_append, hv]
  show us.foldlM Reader.step ⟨.obj ((key, last) :: held) name :: stack, .more v⟩ = _
  rw [h, List.reverse_cons, List.append_assoc]
  rfl

theorem Builds.arr {ts us : List Token} {v : Json} {items : List Json} (hv : Builds ts v)
    (h : EndsArray us items) : Builds (.openBracket :: (ts ++ us)) (.arr (v :: items)) := by
  intro stack
  rw [List.foldlM_cons]
  show (ts ++ us).foldlM Reader.step ⟨.arr [] :: stack, .firstItem⟩ = _
  rw [List.foldlM_append, hv.firstItem]
  exact h stack [] v

theorem Builds.obj {ts us : List Token} {name : Option String} {v : Json}
    {members : List (Option String × Json)} (hv : Builds ts v) (h : EndsObject us members) :
    Builds (.openBrace :: (.str name :: .colon :: ts ++ us)) (.obj ((name, v) :: members)) := by
  intro stack
  simp only [List.cons_append, List.foldlM_cons]
  show (ts ++ us).foldlM Reader.step ⟨.obj [] name :: stack, .value⟩ = _
  rw [List.foldlM_append, hv]
  exact h stack [] name v

theorem ofTokens?_of_builds {ts : List Token} {v : Json} (h : Builds ts v) :
    ofTokens? ts = some v := by
  rw [ofTokens?, Reader.start, h []]
  rfl

/-! ## Texts and values -/

/-- The characters are the tokens of the value. -/
def Reads (cs : List Char) (v : Json) : Prop :=
  ∃ ts, Lexes cs ts ∧ Builds ts v

theorem Padded.Fair.reads {p : Padded} (h : p.Fair) {v : Json} (hv : Reads p.text v) :
    Reads p.chars v := by
  obtain ⟨ts, hts, hv⟩ := hv
  exact ⟨ts, h.lexes hts, hv⟩

theorem commaSeparated_cons (cs ds : List Char) (rest : List (List Char)) :
    commaSeparated (cs :: ds :: rest) = cs ++ ',' :: commaSeparated (ds :: rest) :=
  rfl

theorem exists_endsArray {item : Json × Padded} {items : List (Json × Padded)}
    (h : ∀ i ∈ item :: items, Reads i.2.chars i.1) :
    ∃ ts us, Spells (commaSeparated ((item :: items).map fun i => i.2.chars) ++ [']']) (ts ++ us) ∧
      Builds ts item.1 ∧ EndsArray us (items.map Prod.fst) := by
  induction items generalizing item with
  | nil =>
      obtain ⟨ts, hts, hv⟩ := h item List.mem_cons_self
      exact ⟨ts, [.closeBracket], hts.append (by decide) (spells_mark fun _ => rfl), hv,
        endsArray_nil⟩
  | cons next items ih =>
      obtain ⟨⟨ts, hts, hv⟩, hitems⟩ := List.forall_mem_cons.mp h
      obtain ⟨ts', us, hrest, hnext, hend⟩ := ih hitems
      refine ⟨ts, .comma :: (ts' ++ us), ?_, hv, .cons hnext hend⟩
      have hcomma : Spells [','] [.comma] := spells_mark fun _ => rfl
      rw [List.map_cons, List.map_cons, commaSeparated_cons, List.append_assoc, List.cons_append]
      exact hts.append (by decide) (hcomma.append hrest)

theorem Member.exists_tokens {m : Member} (hkey : m.key.Fair) (hslot : m.slot.Fair)
    (hname : StringText m.name m.key.text) (hv : Reads m.slot.text m.value) :
    ∃ ts, Lexes m.chars (.str m.name :: .colon :: ts) ∧ Builds ts m.value := by
  obtain ⟨ts, hts, hv⟩ := hslot.reads hv
  have hcolon : Spells [':'] [.colon] := spells_mark fun _ => rfl
  have hkeySpells : Spells m.key.chars [.str m.name] := by
    have hspells := hkey.1.spells.append (hname.spells.append hkey.2.spells)
    exact hspells
  refine ⟨ts, ?_, hv⟩
  exact hkeySpells.append_lexes (hcolon.append_lexes hts)

theorem exists_endsObject {m : Member} {members : List Member}
    (h : ∀ n ∈ m :: members, ∃ ts, Lexes n.chars (.str n.name :: .colon :: ts) ∧
      Builds ts n.value) :
    ∃ ts us, Spells (commaSeparated ((m :: members).map Member.chars) ++ ['\x7d'])
        (.str m.name :: .colon :: ts ++ us) ∧
      Builds ts m.value ∧ EndsObject us (members.map fun n => (n.name, n.value)) := by
  induction members generalizing m with
  | nil =>
      obtain ⟨ts, hts, hv⟩ := h m List.mem_cons_self
      exact ⟨ts, [.closeBrace], hts.append (by decide) (spells_mark fun _ => rfl), hv,
        endsObject_nil⟩
  | cons next members ih =>
      obtain ⟨⟨ts, hts, hv⟩, hmembers⟩ := List.forall_mem_cons.mp h
      obtain ⟨ts', us, hrest, hnext, hend⟩ := ih hmembers
      refine ⟨ts, .comma :: (.str next.name :: .colon :: ts' ++ us), ?_, hv, .cons hnext hend⟩
      have hcomma : Spells [','] [.comma] := spells_mark fun _ => rfl
      rw [List.map_cons, List.map_cons, commaSeparated_cons, List.append_assoc, List.cons_append]
      exact hts.append (by decide) (hcomma.append hrest)

theorem reads_of_denotes {v : Json} {cs : List Char} (h : Denotes v cs) : Reads cs v := by
  have hword {cs : List Char} {v : Json} (t : Token) (read : List Char)
      (hstep : ∀ done, cs.foldlM Lexer.step ⟨.blank, done⟩ = some ⟨.word read, done⟩)
      (ht : Lexer.wordToken? (String.ofList read.reverse) = some t) (hv : Builds [t] v) :
      Reads cs v :=
    ⟨[t], fun done => ⟨_, hstep done, Lexer.ends_word ht done⟩, hv⟩
  induction h with
  | null => exact hword .null ['l', 'l', 'u', 'n'] (fun _ => rfl) (by decide) fun _ => rfl
  | true => exact hword (.bool true) ['e', 'u', 'r', 't'] (fun _ => rfl) (by decide) fun _ => rfl
  | false =>
      exact hword (.bool false) ['e', 's', 'l', 'a', 'f'] (fun _ => rfl) (by decide) fun _ => rfl
  | num number => exact ⟨_, number.lexes, fun _ => rfl⟩
  | str string => exact ⟨_, string.spells.lexes, fun _ => rfl⟩
  | emptyArr blank =>
      have hopen : Spells ['['] [.openBracket] := spells_mark fun _ => rfl
      have hclose : Spells [']'] [.closeBracket] := spells_mark fun _ => rfl
      exact ⟨_, (hopen.append (blank.spells.append hclose)).lexes, fun _ => rfl⟩
  | @arr items nonempty fair denote ih =>
      obtain ⟨item, items, rfl⟩ := List.exists_cons_of_ne_nil nonempty
      obtain ⟨ts, us, hspells, hv, hend⟩ :=
        exists_endsArray fun i hi => (fair i hi).reads (ih i hi)
      have hopen : Spells ['['] [.openBracket] := spells_mark fun _ => rfl
      exact ⟨_, (hopen.append hspells).lexes, hv.arr hend⟩
  | emptyObj blank =>
      have hopen : Spells ['\x7b'] [.openBrace] := spells_mark fun _ => rfl
      have hclose : Spells ['\x7d'] [.closeBrace] := spells_mark fun _ => rfl
      exact ⟨_, (hopen.append (blank.spells.append hclose)).lexes, fun _ => rfl⟩
  | @obj members nonempty fair named denote ih =>
      obtain ⟨m, members, rfl⟩ := List.exists_cons_of_ne_nil nonempty
      obtain ⟨ts, us, hspells, hv, hend⟩ := exists_endsObject fun n hn =>
        Member.exists_tokens (fair n hn).1 (fair n hn).2 (named n hn) (ih n hn)
      have hopen : Spells ['\x7b'] [.openBrace] := spells_mark fun _ => rfl
      exact ⟨_, (hopen.append hspells).lexes, hv.obj hend⟩

/-- A text is read as the value that it denotes. -/
theorem read?_of_isText {v : Json} {text : String} (h : IsText v text) : read? text = some v := by
  obtain ⟨p, hfair, hdenotes, htext⟩ := h
  obtain ⟨ts, hts, hv⟩ := hfair.reads (reads_of_denotes hdenotes)
  rw [read?, htext, tokens?_of_lexes hts]
  exact ofTokens?_of_builds hv

end PropertyHarvest.Json
