import Stencil.Outcome

/-!
# The command line

The program takes a command as its arguments. On standard input it is told what files and
directories there are, one path a line; a path that ends with a slash is that of a directory. It
reads the files, carries the command out on what it has read, and writes the files that the command
left changed.
-/

namespace Stencil.CommandLine

/-- The lines of a stream. -/
partial def readLines (stream : IO.FS.Stream) (done : List String) : IO (List String) := do
  let line ← stream.getLine
  if line.isEmpty then return done.reverse
  readLines stream (String.ofList (line.toList.filter (· != '\n')) :: done)

/-- The bytes of the file that a path leads to, if they can be read. -/
def readBytes? (path : String) : IO (Option ByteArray) := do
  try return some (← IO.FS.readBinFile path)
  catch _ => return none

/-- Adds what a path names to the files. -/
def addPath (files : Files) (path : String) : IO Files := do
  let location := Files.placeOf files.workingDirectory path
  if path.toList.getLast? = some '/' then return files.add location none
  match ← readBytes? path with
  | some bytes => return files.add location (some bytes)
  | none => return files

/-- The files below the working directory and elsewhere that standard input names. -/
def readFiles : IO Files := do
  let workingDirectory := Files.placeOf [] ((← IO.getEnv "PWD").getD "")
  let start : Files := ⟨[], [], workingDirectory⟩
  let paths ← readLines (← IO.getStdin) []
  (paths.filter (· ≠ "")).foldlM addPath (start.add workingDirectory none)

/-- Makes the new directories and writes the files that have changed. -/
def writeChanges (before after : Files) : IO Unit := do
  for directory in before.newDirectories after do
    IO.FS.createDirAll (Files.pathOf directory)
  for (location, bytes) in before.changes after do
    IO.FS.writeBinFile (Files.pathOf location) bytes

/-- Carries a command out. -/
def perform (environment : Environment) (command : Command) : IO UInt32 := do
  let files ← match command with
    | .version | .help => pure ⟨[], [], []⟩
    | _ => readFiles
  let outcome := command.run environment ⟨files, Setting.mostPasses⟩
  IO.print outcome.output
  writeChanges files outcome.files
  match outcome.complaint with
  | some complaint => IO.eprintln ("Error: " ++ complaint.message)
  | none => pure ()
  return UInt32.ofNat outcome.code

end Stencil.CommandLine

/-- Runs the program. -/
def main (arguments : List String) : IO UInt32 := do
  let environment : Stencil.Environment :=
    ⟨← IO.getEnv "SIGIL_TEMPLATE_DIR", ← IO.getEnv "SIGIL_CONFIG"⟩
  match Stencil.Command.read? environment arguments with
  | some command => Stencil.CommandLine.perform environment command
  | none =>
      IO.eprint Stencil.usageText
      return UInt32.ofNat Stencil.usageCode
