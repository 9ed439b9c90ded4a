/-
# The program

Reads the command line and, for a command that needs one, a snapshot of the
project from standard input; runs the command, and writes what it says.

All input and output of the library is here.  What is written to the file system is
one file, and only where a command has left one that was not there before.

Where the standard input holds no snapshot, the program ends as one that could not
begin.  Help and the version need none.
-/
import PropertyHarvest.Command
import PropertyHarvest.Snapshot

namespace PropertyHarvest.Program

/-- Reads the rest of a stream. -/
partial def readRest (stream : IO.FS.Stream) (bytes : ByteArray) : IO ByteArray := do
  let more ← stream.read 65536
  if more.isEmpty then return bytes else readRest stream (bytes ++ more)

def readSnapshot : IO (Option LinkedFileSystem) := do
  let bytes ← readRest (← IO.getStdin) .empty
  return (String.fromUTF8? bytes).bind Json.read? |>.bind LinkedFileSystem.ofJson?

def showsColours : IO Bool := do
  return (← IO.getEnv "NO_COLOR").isNone && (← (← IO.getStdout).isTty)

/-- Runs a command on a project; a new configuration file is written out. -/
def runCommand (fs : LinkedFileSystem) (command : Command) : IO UInt32 := do
  let o := command.run fs.seen (← showsColours)
  if !fs.seen.hasPath Config.fileName then
    if let some text := (command.leaves fs).plain.text? Config.fileName then
      IO.FS.writeFile Config.fileName text
  (← IO.getStdout).putStr o.output
  (← IO.getStderr).putStr o.messages
  return o.status.code.toUInt32

/-- Says why a command line is no command. -/
def explain (s : UsageStop) : IO UInt32 := do
  match s with
  | .displayHelp => (← IO.getStdout).putStr Command.helpText
  | .displayVersion => (← IO.getStdout).putStr Command.versionText
  | s => IO.eprintln ("error: " ++ s.text)
  return s.status.toUInt32

/-- Runs the program on the words of its command line. -/
def run (args : List String) : IO UInt32 := do
  match CommandLine.read args with
  | .error s => explain s
  | .ok .help => runCommand { plain := .fresh } .help
  | .ok command =>
    match ← readSnapshot with
    | some fs => runCommand fs command
    | none =>
      IO.eprintln "error: standard input holds no snapshot of a project"
      return ExitStatus.error.code.toUInt32

end PropertyHarvest.Program

def main (args : List String) : IO UInt32 :=
  PropertyHarvest.Program.run args
