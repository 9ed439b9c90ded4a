/-
# Reading JSON

A text is read strictly: one value, blanks around the tokens, nothing else.
The reader keeps the arrays and objects that are open as a stack, so that a
value may be nested to any depth.

What may come next is a value of `Expected`.  After a comma a value or a member has
to follow, so a comma at the end is refused; numbers may be of any size, and a name
may be repeated.  What a repeated name means is left to whoever reads the value.

That the reader accepts what the grammar of JSON allows, and reads it as what it
denotes, is in `Proofs.Json.Grammar`.

Tokens come one at a time, and what is refused is refused at the first token that
cannot be next.  At the end one value has to be there, and nothing open.
-/
import PropertyHarvest.Json
import PropertyHarvest.Json.Token

namespace PropertyHarvest.Json

/-- An open array or object with what it holds so far, last one first. -/
inductive Frame where
  | arr (items : List Json)
  /-- The value of the member `name` is being read. -/
  | obj (members : List (Option String × Json)) (name : Option String)
  deriving Repr

/-- What may come next. -/
inductive Expected where
  | value
  /-- After an opening bracket: a value or the closing bracket. -/
  | firstItem
  /-- After an opening brace: a name or the closing brace. -/
  | firstName
  /-- After a comma in the object with the given members. -/
  | name (members : List (Option String × Json))
  | colon
  /-- After a value: a comma or the end of the innermost frame. -/
  | more (last : Json)
  deriving Repr

/-- The open frames, innermost first, and what may come next. -/
structure Reader where
  stack : List Frame
  expected : Expected
  deriving Repr

namespace Reader

def start : Reader := ⟨[], .value⟩

/-- Reads the first token of a value. -/
def value (stack : List Frame) : Token → Option Reader
  | .null => some ⟨stack, .more .null⟩
  | .bool b => some ⟨stack, .more (.bool b)⟩
  | .num digits => some ⟨stack, .more (.num digits)⟩
  | .str text? => some ⟨stack, .more (.str text?)⟩
  | .openBracket => some ⟨.arr [] :: stack, .firstItem⟩
  | .openBrace => some ⟨stack, .firstName⟩
  | .closeBracket | .closeBrace | .comma | .colon => none

/-- Reads what follows the value `last` in the innermost frame. -/
def more (last : Json) : List Frame → Token → Option Reader
  | .arr items :: stack, .comma => some ⟨.arr (last :: items) :: stack, .value⟩
  | .arr items :: stack, .closeBracket => some ⟨stack, .more (.arr (last :: items).reverse)⟩
  | .obj members name :: stack, .comma => some ⟨stack, .name ((name, last) :: members)⟩
  | .obj members name :: stack, .closeBrace =>
    some ⟨stack, .more (.obj ((name, last) :: members).reverse)⟩
  | _, _ => none

def step (r : Reader) (t : Token) : Option Reader :=
  match r.expected, t with
  | .value, t => value r.stack t
  | .firstItem, .closeBracket => some ⟨r.stack.tail, .more (.arr [])⟩
  | .firstItem, t => value r.stack t
  | .firstName, .closeBrace => some ⟨r.stack, .more (.obj [])⟩
  | .firstName, .str name => some ⟨.obj [] name :: r.stack, .colon⟩
  | .name members, .str name => some ⟨.obj members name :: r.stack, .colon⟩
  | .colon, .colon => some ⟨r.stack, .value⟩
  | .more last, t => more last r.stack t
  | _, _ => none

/-- The value that was read, if nothing is open. -/
def result? : Reader → Option Json
  | ⟨[], .more v⟩ => some v
  | _ => none

end Reader

def ofTokens? (tokens : List Token) : Option Json :=
  (tokens.foldlM Reader.step Reader.start).bind Reader.result?

/-- The value that a text spells. -/
def read? (text : String) : Option Json :=
  (tokens? text.toList).bind ofTokens?

end PropertyHarvest.Json
