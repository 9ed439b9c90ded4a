/-
# Writing JSON

Values are written over several lines, two blanks deeper for each level; an
empty array or object takes no line of its own.  In strings the quote, the
backslash and the control characters below the blank are escaped, and nothing
else is.

The writer keeps the order of members and writes a repeated one again.  Numbers and
words are written as they are kept.  For values made of texts, arrays and objects the
reader gives the value back (`Proofs.Json.RoundTrip`).

What is written ends without a new line.  Whoever shows a text to a reader adds one.
-/
import PropertyHarvest.Json

namespace PropertyHarvest.Json

def hexDigit (n : Nat) : Char :=
  Nat.digitChar n

/-- A character inside a string. -/
def escape (c : Char) : List Char :=
  match c with
  | '"' => ['\\', '"']
  | '\\' => ['\\', '\\']
  | '\x08' => ['\\', 'b']
  | '\x0c' => ['\\', 'f']
  | '\n' => ['\\', 'n']
  | '\r' => ['\\', 'r']
  | '\t' => ['\\', 't']
  | c =>
    if c.toNat < 0x20 then ['\\', 'u', '0', '0', hexDigit (c.toNat / 16), hexDigit (c.toNat % 16)]
    else [c]

/-- A string; one that is no text is written as half of a pair. -/
def quote : Option String → List Char
  | some text => '"' :: text.toList.flatMap escape ++ ['"']
  | none => ['"', '\\', 'u', 'd', '8', '0', '0', '"']

/-- A new line at a given depth. -/
def newline (depth : Nat) : List Char :=
  '\n' :: List.replicate (2 * depth) ' '

mutual

def write (depth : Nat) : Json → List Char
  | .null => "null".toList
  | .bool true => "true".toList
  | .bool false => "false".toList
  | .num digits => digits.toList
  | .str text? => quote text?
  | .arr [] => ['[', ']']
  | .arr (item :: items) =>
    '[' :: newline (depth + 1) ++ write (depth + 1) item ++ writeItems (depth + 1) items
      ++ newline depth ++ [']']
  | .obj [] => ['\x7b', '\x7d']
  | .obj ((name, value) :: members) =>
    '\x7b' :: newline (depth + 1) ++ quote name ++ [':', ' '] ++ write (depth + 1) value
      ++ writeMembers (depth + 1) members ++ newline depth ++ ['\x7d']

/-- The items after the first. -/
def writeItems (depth : Nat) : List Json → List Char
  | [] => []
  | item :: items => ',' :: newline depth ++ write depth item ++ writeItems depth items

/-- The members after the first. -/
def writeMembers (depth : Nat) : List (Option String × Json) → List Char
  | [] => []
  | (name, value) :: members =>
    ',' :: newline depth ++ quote name ++ [':', ' '] ++ write depth value
      ++ writeMembers depth members

end

def pretty (v : Json) : String :=
  String.ofList (write 0 v)

end PropertyHarvest.Json
