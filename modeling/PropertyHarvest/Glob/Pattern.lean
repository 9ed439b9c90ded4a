/-
# Glob patterns

A pattern is matched against a whole text.  A question mark stands for any one
character, a star for any characters, brackets for a character of a class, and
two stars, alone between slashes, for any number of whole directories.

A pattern is read from left to right with the character before the current one at
hand, since two stars are whole directories only after a slash or at the beginning.
Each fault tells the number of characters before it; only the first one is told.

Matching is a search with backtracking, and `Outcome` has three values for its sake:
a text that is exhausted ends the whole search, and not just the current attempt.
What it finds is compared with a relation that mentions no search in
`Proofs.Glob.Fitting`.
-/

namespace PropertyHarvest.Glob

inductive ClassItem where
  | single (c : Char)
  | range (lo hi : Char)
  deriving DecidableEq, Repr

/-- A part of a pattern. -/
inductive Token where
  | char (c : Char)
  | anyChar
  | anySequence
  /-- Any number of whole directories. -/
  | anyDirectories
  | within (items : List ClassItem)
  | except (items : List ClassItem)
  deriving DecidableEq, Repr

/-- What is wrong with a pattern. -/
inductive Fault where
  /-- More than two stars. -/
  | wildcards
  /-- Two stars beside something else than a slash. -/
  | recursiveWildcards
  /-- A bracket without a class. -/
  | invalidRange
  deriving DecidableEq, Repr

def Fault.message : Fault → String
  | wildcards => "wildcards are either regular `*` or recursive `**`"
  | recursiveWildcards => "recursive wildcards must form a single path component"
  | invalidRange => "invalid range pattern"

/-- A fault and the number of characters before it. -/
structure PatternError where
  position : Nat
  fault : Fault
  deriving DecidableEq, Repr

def PatternError.message (e : PatternError) : String :=
  "Pattern syntax error near position " ++ toString e.position ++ ": " ++ e.fault.message

abbrev Pattern := List Token

/-- Whether a text has a star or a question mark.  A text without them names
one thing and is not read as a pattern. -/
def hasWildcard (text : String) : Bool :=
  text.toList.any fun c => c == '*' || c == '?'

/-! ## Reading a pattern -/

def classItems : List Char → List ClassItem
  | lo :: '-' :: hi :: rest => .range lo hi :: classItems rest
  | c :: rest => .single c :: classItems rest
  | [] => []

/-- Splits after the first character, which belongs to the class, and then at
the first closing bracket. -/
def splitClass? : List Char → Option (List Char × List Char)
  | [] => none
  | c :: rest =>
    match rest.dropWhile (· != ']') with
    | [] => none
    | _ :: after => some (c :: rest.takeWhile (· != ']'), after)

/-- Reads a class after its opening bracket. -/
def readClass? : List Char → Option (Token × List Char)
  | '!' :: rest => (splitClass? rest).map fun (items, after) => (.except (classItems items), after)
  | rest => (splitClass? rest).map fun (items, after) => (.within (classItems items), after)

theorem length_splitClass? {cs items after : List Char}
    (h : splitClass? cs = some (items, after)) : after.length < cs.length := by
  cases cs with
  | nil => cases h
  | cons c rest =>
    have hd : (rest.dropWhile (· != ']')).length ≤ rest.length :=
      List.IsSuffix.length_le (List.dropWhile_suffix _)
    simp only [splitClass?] at h
    split at h
    · cases h
    · rename_i heq
      simp only [Option.some.injEq, Prod.mk.injEq] at h
      rw [heq] at hd
      simp only [List.length_cons] at hd ⊢
      rw [← h.2]
      omega

theorem length_readClass? {cs after : List Char} {t : Token}
    (h : readClass? cs = some (t, after)) : after.length < cs.length := by
  unfold readClass? at h
  split at h
  · rename_i rest
    obtain ⟨⟨items, after'⟩, hs, he⟩ := Option.map_eq_some_iff.mp h
    simp only [Prod.mk.injEq] at he
    have := length_splitClass? hs
    simp only [List.length_cons]
    rw [← he.2]
    omega
  · obtain ⟨⟨items, after'⟩, hs, he⟩ := Option.map_eq_some_iff.mp h
    simp only [Prod.mk.injEq] at he
    rw [← he.2]
    exact length_splitClass? hs

/-- Puts a token for whole directories after the tokens `done`, last one first;
one of two in a row is enough, unless the pattern has just begun. -/
def pushDirectories (done : List Token) : List Token :=
  match done with
  | .anyDirectories :: _ :: _ => done
  | _ => .anyDirectories :: done

/-- Reads a pattern from the character at `position` on.  `previous?` is the
character before it and `done` what was read so far, last token first. -/
def readFrom (position : Nat) (previous? : Option Char) (done : List Token) :
    List Char → Except PatternError Pattern
  | [] => .ok done.reverse
  | '?' :: rest => readFrom (position + 1) (some '?') (.anyChar :: done) rest
  | '*' :: '*' :: '*' :: _ => .error ⟨position + 2, .wildcards⟩
  | '*' :: '*' :: rest =>
    if previous?.all (· == '/') then
      match rest with
      | [] => .ok (pushDirectories done).reverse
      | '/' :: rest => readFrom (position + 3) (some '/') (pushDirectories done) rest
      | _ => .error ⟨position + 2, .recursiveWildcards⟩
    else .error ⟨position - 1, .recursiveWildcards⟩
  | '*' :: rest => readFrom (position + 1) (some '*') (.anySequence :: done) rest
  | '[' :: rest =>
    match h : readClass? rest with
    | some (t, after) =>
      have := length_readClass? h
      readFrom (position + 1 + (rest.length - after.length)) (some ']') (t :: done) after
    | none => .error ⟨position, .invalidRange⟩
  | c :: rest => readFrom (position + 1) (some c) (.char c :: done) rest
termination_by cs => cs.length

def Pattern.read (text : String) : Except PatternError Pattern :=
  readFrom 0 none [] text.toList

/-! ## Matching

A match that fails because the text ended while the pattern went on cannot be
mended by giving more of the text to an earlier star; it is told apart from any
other failure, and ends the search. -/

/-- How a match ended. -/
inductive Outcome where
  | matched
  /-- This way to match failed. -/
  | mismatch
  /-- The text ended too early. -/
  | exhausted
  deriving DecidableEq, Repr

def inClass (items : List ClassItem) (c : Char) : Bool :=
  items.any fun
    | .single x => c == x
    | .range lo hi => lo ≤ c && c ≤ hi

/-- Whether a token that stands for one character can stand for `c`. -/
def Token.accepts : Token → Char → Bool
  | .char x, c => c == x
  | .anyChar, _ => true
  | .within items, c => inClass items c
  | .except items, c => !inClass items c
  | .anySequence, _ | .anyDirectories, _ => false

/-- Tries to match after one more character and after more of them; where
whole directories are skipped, only after a slash. -/
def resume (whole : Bool) (next : List Char → Outcome) : List Char → Outcome
  | [] => next []
  | c :: rest =>
    if whole && c != '/' then resume whole next rest
    else
      match next rest with
      | .mismatch => resume whole next rest
      | outcome => outcome

/-- Matches a text from its beginning to its end. -/
def Pattern.run : Pattern → List Char → Outcome
  | [], [] => .matched
  | [], _ :: _ => .mismatch
  | t :: ts, cs =>
    match t with
    | .anySequence =>
      match run ts cs with
      | .mismatch => resume false (run ts) cs
      | outcome => outcome
    | .anyDirectories =>
      match run ts cs with
      | .mismatch => resume true (run ts) cs
      | outcome => outcome
    | t =>
      match cs with
      | [] => .exhausted
      | c :: rest => if t.accepts c then run ts rest else .mismatch

def Pattern.matches (p : Pattern) (text : String) : Bool :=
  p.run text.toList == .matched

end PropertyHarvest.Glob
