/-
# The tokens of a JSON text

A text is read one character at a time.  What has been read of the current
token is a `Mode`; a character either goes on with it or ends it and starts the
next.  Strings are gathered as pieces, because only two escapes together may
spell one character; `textOf` puts them together.

A control character inside a string is refused as it stands.  Half of a pair that is
escaped is not; the string is then well-formed, and no text.  Digits are kept and not
evaluated, so a number may be of any size.

The reader of characters never looks ahead.  A number and a word are ended by the
character behind them, which is at once the beginning of what follows.
-/

namespace PropertyHarvest.Json

/-- The smallest parts of a JSON text. -/
inductive Token where
  | openBrace
  | closeBrace
  | openBracket
  | closeBracket
  | comma
  | colon
  | null
  | bool (value : Bool)
  | num (digits : String)
  | str (text? : Option String)
  deriving DecidableEq, Repr

/-! ## Strings -/

/-- A part of a string: a character, or an escaped number of sixteen bits. -/
inductive Piece where
  | char (c : Char)
  | code (n : Nat)
  deriving DecidableEq, Repr

/-- Whether a number is the first half of a pair. -/
def isHigh (n : Nat) : Bool :=
  0xd800 ≤ n && n < 0xdc00

/-- Whether a number is the second half of a pair. -/
def isLow (n : Nat) : Bool :=
  0xdc00 ≤ n && n < 0xe000

/-- The character that two halves spell. -/
def pairChar (high low : Nat) : Char :=
  Char.ofNat (0x10000 + (high - 0xd800) * 0x400 + (low - 0xdc00))

/-- The characters that the pieces spell; none if a half stands alone. -/
def charsOf : List Piece → Option (List Char)
  | [] => some []
  | .char c :: rest => (charsOf rest).map (c :: ·)
  | .code n :: rest =>
    if isHigh n then
      match rest with
      | .code m :: rest' => if isLow m then (charsOf rest').map (pairChar n m :: ·) else none
      | _ => none
    else if isLow n then none
    else (charsOf rest).map (Char.ofNat n :: ·)

def textOf (pieces : List Piece) : Option String :=
  (charsOf pieces).map String.ofList

/-- What a character after a backslash stands for. -/
def escaped? : Char → Option Char
  | '"' => some '"'
  | '\\' => some '\\'
  | '/' => some '/'
  | 'b' => some '\x08'
  | 'f' => some '\x0c'
  | 'n' => some '\n'
  | 'r' => some '\r'
  | 't' => some '\t'
  | _ => none

def hexValue? (c : Char) : Option Nat :=
  if '0' ≤ c ∧ c ≤ '9' then some (c.toNat - '0'.toNat)
  else if 'a' ≤ c ∧ c ≤ 'f' then some (c.toNat - 'a'.toNat + 10)
  else if 'A' ≤ c ∧ c ≤ 'F' then some (c.toNat - 'A'.toNat + 10)
  else none

/-! ## Numbers -/

/-- What of a number has been read. -/
inductive NumberPart where
  | minus
  | zero
  | whole
  | point
  | fraction
  | exponent
  | exponentSign
  | exponentDigits
  deriving DecidableEq, Repr

/-- Whether a number may end here. -/
def NumberPart.isComplete : NumberPart → Bool
  | .zero | .whole | .fraction | .exponentDigits => true
  | .minus | .point | .exponent | .exponentSign => false

/-- How a number may go on. -/
def NumberPart.next? (part : NumberPart) (c : Char) : Option NumberPart :=
  match part with
  | .minus => if c = '0' then some .zero else if c.isDigit then some .whole else none
  | .zero =>
    if c = '.' then some .point else if c = 'e' ∨ c = 'E' then some .exponent else none
  | .whole =>
    if c.isDigit then some .whole else if c = '.' then some .point
    else if c = 'e' ∨ c = 'E' then some .exponent else none
  | .point => if c.isDigit then some .fraction else none
  | .fraction =>
    if c.isDigit then some .fraction else if c = 'e' ∨ c = 'E' then some .exponent else none
  | .exponent =>
    if c.isDigit then some .exponentDigits else if c = '+' ∨ c = '-' then some .exponentSign
    else none
  | .exponentSign | .exponentDigits => if c.isDigit then some .exponentDigits else none

/-! ## Reading -/

/-- What of the current token has been read, last character first. -/
inductive Mode where
  /-- Between tokens. -/
  | blank
  /-- Inside a word such as `null`. -/
  | word (read : List Char)
  | number (part : NumberPart) (read : List Char)
  | string (read : List Piece)
  /-- After a backslash. -/
  | escape (read : List Piece)
  /-- Inside an escaped number of which `left` digits are to come. -/
  | code (value left : Nat) (read : List Piece)
  deriving DecidableEq, Repr

/-- The current token and the tokens before it, last one first. -/
structure Lexer where
  mode : Mode
  done : List Token
  deriving Repr

namespace Lexer

def start : Lexer := ⟨.blank, []⟩

def isBlank (c : Char) : Bool :=
  c = ' ' || c = '\n' || c = '\t' || c = '\r'

def isLetter (c : Char) : Bool :=
  'a' ≤ c && c ≤ 'z'

def wordToken? (word : String) : Option Token :=
  match word with
  | "null" => some .null
  | "true" => some (.bool true)
  | "false" => some (.bool false)
  | _ => none

def markToken? : Char → Option Token
  | '\x7b' => some .openBrace
  | '\x7d' => some .closeBrace
  | '[' => some .openBracket
  | ']' => some .closeBracket
  | ',' => some .comma
  | ':' => some .colon
  | _ => none

/-- Starts a token, or goes on between tokens, after the tokens `done`. -/
def startWith (done : List Token) (c : Char) : Option Lexer :=
  if isBlank c then some ⟨.blank, done⟩
  else if isLetter c then some ⟨.word [c], done⟩
  else if c = '"' then some ⟨.string [], done⟩
  else if c = '-' then some ⟨.number .minus [c], done⟩
  else if c = '0' then some ⟨.number .zero [c], done⟩
  else if c.isDigit then some ⟨.number .whole [c], done⟩
  else (markToken? c).map fun t => ⟨.blank, t :: done⟩

/-- Ends the current token; a string cannot end here. -/
def finish (l : Lexer) : Option (List Token) :=
  match l.mode with
  | .blank => some l.done
  | .word read => (wordToken? (String.ofList read.reverse)).map (· :: l.done)
  | .number part read =>
    if part.isComplete then some (.num (String.ofList read.reverse) :: l.done) else none
  | .string _ | .escape _ | .code .. => none

def step (l : Lexer) (c : Char) : Option Lexer :=
  match l.mode with
  | .blank => startWith l.done c
  | .word read =>
    if isLetter c then some ⟨.word (c :: read), l.done⟩
    else l.finish.bind (startWith · c)
  | .number part read =>
    match part.next? c with
    | some part => some ⟨.number part (c :: read), l.done⟩
    | none => l.finish.bind (startWith · c)
  | .string read =>
    if c = '"' then some ⟨.blank, .str (textOf read.reverse) :: l.done⟩
    else if c = '\\' then some ⟨.escape read, l.done⟩
    else if c.toNat < 0x20 then none
    else some ⟨.string (.char c :: read), l.done⟩
  | .escape read =>
    if c = 'u' then some ⟨.code 0 4 read, l.done⟩
    else (escaped? c).map fun e => ⟨.string (.char e :: read), l.done⟩
  | .code value left read =>
    (hexValue? c).map fun digit =>
      if left ≤ 1 then ⟨.string (.code (value * 16 + digit) :: read), l.done⟩
      else ⟨.code (value * 16 + digit) (left - 1) read, l.done⟩

end Lexer

def tokens? (text : List Char) : Option (List Token) :=
  ((text.foldlM Lexer.step Lexer.start).bind Lexer.finish).map List.reverse

end PropertyHarvest.Json
