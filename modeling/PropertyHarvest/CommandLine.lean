/-
# Command lines

A command line asks for a scan, for a new configuration file, or for help.
Some command lines are no commands; the first word that cannot be read decides
why.  A word is the sign that no options follow, a long option with or without a
value of its own, a row of short options, or anything else.

A value option may wait for its value and is set when the next option, the next
flag or the end is met (`Draft.settle`).  So of two things that are wrong with a
command line it is not always the first that is told.  Each option can be set once;
that holds of flags too.

Only the words are read here.  Nothing is looked up in a file system, and no default
is filled in before all words are read (`Draft.options`).
-/
import PropertyHarvest.Project

namespace PropertyHarvest

/-! ## Words -/

/-- A word of a command line. -/
inductive Word where
  /-- Two dashes: no options follow. -/
  | separator
  /-- A name after two dashes, and the value after an equals sign. -/
  | long (name : String) (value? : Option String)
  /-- One letter after the other, after one dash. -/
  | short (letters : List Char)
  | plain (text : String)
  deriving DecidableEq, Repr

/-- Splits a name from the value after the first equals sign. -/
def Word.ofLong (cs : List Char) : Word :=
  .long (String.ofList (cs.takeWhile (· != '=')))
    (match cs.dropWhile (· != '=') with
    | [] => none
    | _ :: value => some (String.ofList value))

/-- Tells what kind of word a text is.  A single dash is a plain word. -/
def Word.read (text : String) : Word :=
  match text.toList with
  | ['-', '-'] => .separator
  | '-' :: '-' :: cs => .ofLong cs
  | '-' :: c :: cs => .short (c :: cs)
  | _ => .plain text

/-! ## Commands -/

inductive Format where
  | text
  | json
  deriving DecidableEq, Repr, Inhabited

def Format.ofName? : String → Option Format
  | "text" => some .text
  | "json" => some .json
  | _ => none

/-- What a scan is asked for. -/
structure ScanOptions where
  project : ProjectOptions := {}
  verbose : Bool := false
  format : Format := .text
  deriving DecidableEq, Repr, Inhabited

inductive Command where
  | scan (options : ScanOptions)
  /-- Write a new configuration file. -/
  | init
  | help
  deriving DecidableEq, Repr

/-- Why a command line is no command. -/
inductive UsageStop where
  /-- A word has no meaning where it stands. -/
  | unknownArgument
  /-- An option has no value or one that it cannot have. -/
  | invalidValue
  /-- A word stands in the place of a command. -/
  | invalidSubcommand
  /-- An option is given twice. -/
  | argumentConflict
  /-- An option that takes no value has one. -/
  | tooManyValues
  /-- The command line asks how a command is used. -/
  | displayHelp
  /-- The command line asks for the version. -/
  | displayVersion
  deriving DecidableEq, Repr

def UsageStop.text : UsageStop → String
  | unknownArgument => "unexpected argument"
  | invalidValue => "invalid value for an option"
  | invalidSubcommand => "unrecognized subcommand"
  | argumentConflict => "option given more than once"
  | tooManyValues => "unexpected value for an option"
  | displayHelp => "help requested"
  | displayVersion => "version requested"

def UsageStop.status : UsageStop → Nat
  | displayHelp | displayVersion => 0
  | _ => 2

namespace CommandLine

/-! ## Options with a value -/

/-- An option of a scan that takes a value. -/
inductive ValueOption where
  | path
  | basePath
  | format
  deriving DecidableEq, Repr

def ValueOption.ofName? : String → Option ValueOption
  | "path" => some .path
  | "base-path" => some .basePath
  | "format" => some .format
  | _ => none

/-- What the words read so far ask of a scan. -/
structure Draft where
  path? : Option String := none
  basePath? : Option String := none
  format? : Option Format := none
  verbose : Bool := false
  /-- An option that is not yet set, and its value if that was read. -/
  pending? : Option (ValueOption × Option String) := none
  deriving DecidableEq, Repr, Inhabited

namespace Draft

/-- Sets an option, once, to a value that it can have. -/
def set (d : Draft) (option : ValueOption) (value : String) : Except UsageStop Draft :=
  match option with
  | .path =>
    if d.path?.isSome then .error .argumentConflict
    else if value = "" then .error .invalidValue
    else .ok { d with path? := some value }
  | .basePath =>
    if d.basePath?.isSome then .error .argumentConflict
    else .ok { d with basePath? := some value }
  | .format =>
    if d.format?.isSome then .error .argumentConflict
    else
      match Format.ofName? value with
      | none => .error .invalidValue
      | some f => .ok { d with format? := some f }

/-- Sets the option that is pending. -/
def settle (d : Draft) : Except UsageStop Draft :=
  match d.pending? with
  | none => .ok d
  | some (_, none) => .error .invalidValue
  | some (option, some value) => { d with pending? := none }.set option value

def setVerbose (d : Draft) : Except UsageStop Draft := do
  let d ← d.settle
  if d.verbose then .error .argumentConflict else .ok { d with verbose := true }

/-- Stops to show help. -/
def showHelp (d : Draft) : Except UsageStop Draft := do
  let _ ← d.settle
  .error .displayHelp

/-- Reads a long option that takes no value. -/
def flag (value? : Option String) (set : Except UsageStop Draft) : Except UsageStop Draft :=
  if value?.isSome then .error .tooManyValues else set

def long (d : Draft) (name : String) (value? : Option String) : Except UsageStop Draft :=
  match ValueOption.ofName? name with
  | some option => do
    let d ← d.settle
    match value? with
    | some value => d.set option value
    | none => .ok { d with pending? := some (option, none) }
  | none =>
    match name with
    | "verbose" => flag value? d.setVerbose
    | "help" => flag value? d.showHelp
    | _ => .error .unknownArgument

def short (d : Draft) : Char → Except UsageStop Draft
  | 'v' => d.setVerbose
  | 'h' => d.showHelp
  | _ => .error .unknownArgument

/-- Reads a plain word, which can only be the value of the pending option. -/
def plain (d : Draft) (text : String) : Except UsageStop Draft :=
  match d.pending? with
  | some (option, none) => .ok { d with pending? := some (option, some text) }
  | _ => .error .unknownArgument

/-- Reads the words after the command. -/
def read (d : Draft) : List String → Except UsageStop Draft
  | [] => d.settle
  | text :: rest =>
    match Word.read text with
    | .separator => if rest.isEmpty then d.settle else .error .unknownArgument
    | .long name value? => do (← d.long name value?).read rest
    | .short letters => do (← letters.foldlM short d).read rest
    | .plain text => do (← d.plain text).read rest

/-- What is asked for; what is not given has its default. -/
def options (d : Draft) : ScanOptions :=
  ⟨⟨d.path?, d.basePath?⟩, d.verbose, d.format?.getD .text⟩

end Draft

/-! ## Commands -/

def commandNames : List String := ["scan", "init", "help"]

/-- Stops at an option that shows something and takes no value. -/
def display (value? : Option String) (stop : UsageStop) : UsageStop :=
  if value?.isSome then .tooManyValues else stop

/-- Stops at an option that every command has. -/
def commonOption : Word → UsageStop
  | .long "help" value? => display value? .displayHelp
  | .short ('h' :: _) => .displayHelp
  | _ => .unknownArgument

def readInit : List String → Except UsageStop Command
  | [] | ["--"] => .ok .init
  | text :: _ => .error (commonOption (Word.read text))

/-- Reads the words after the command that asks for help; they name at most one
command. -/
def readHelp : List String → UsageStop
  | [] => .displayHelp
  | [name] => if name ∈ commandNames then .displayHelp else .invalidSubcommand
  | _ => .invalidSubcommand

/-- Reads a command line. -/
def read : List String → Except UsageStop Command
  | [] => .ok .help
  | text :: rest =>
    match Word.read text with
    | .separator =>
      match rest with
      | [] => .ok .help
      | name :: _ => .error (if name ∈ commandNames then .unknownArgument else .invalidSubcommand)
    | .long "version" value? => .error (display value? .displayVersion)
    | .short ('V' :: _) => .error .displayVersion
    | .plain "scan" => (Draft.read {} rest).map fun d => .scan d.options
    | .plain "init" => readInit rest
    | .plain "help" => .error (readHelp rest)
    | .plain _ => .error .invalidSubcommand
    | word => .error (commonOption word)

end CommandLine

end PropertyHarvest
