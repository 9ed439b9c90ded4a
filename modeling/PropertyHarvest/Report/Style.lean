/-
# Coloured text

On a terminal that shows colours a text is set between a sequence that turns
its style on and one that turns all styles off.  Where a text itself turns all
styles off, its own is turned on again.

Only the sequences are written here; whether a terminal shows colours is asked by the
program.  An empty text is set between the sequences like any other.

A style is a row of inks, each with the code that turns it on.  All of them are turned
off by one sequence, which is the reason for turning the outer style on again.
-/

namespace PropertyHarvest

/-- A property of shown text. -/
inductive Ink where
  | bold
  | red
  | green
  | yellow
  | cyan
  deriving DecidableEq, Repr

def Ink.code : Ink → String
  | bold => "1"
  | red => "31"
  | green => "32"
  | yellow => "33"
  | cyan => "36"

namespace Style

def reset : List Char := ['\x1b', '[', '0', 'm']

/-- Turns a style on. -/
def turnOn (inks : List Ink) : List Char :=
  ['\x1b', '['] ++ (String.intercalate ";" (inks.map Ink.code)).toList ++ ['m']

/-- Turns a style on again after each reset. -/
def keepOn (on : List Char) : List Char → List Char
  | '\x1b' :: '[' :: '0' :: 'm' :: rest => reset ++ on ++ keepOn on rest
  | c :: rest => c :: keepOn on rest
  | [] => []

/-- The text in a style, or as it is where no colours are shown. -/
def paint (colored : Bool) (inks : List Ink) (text : String) : String :=
  if colored then
    let on := turnOn inks
    String.ofList (on ++ keepOn on text.toList ++ reset)
  else text

def unlines (lines : List String) : String :=
  String.join (lines.map (· ++ "\n"))

end Style

end PropertyHarvest
