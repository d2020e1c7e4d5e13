import Fettle.CommandLine.Run

/-!
# The program

The outer layer reads the files below the working directory and the standard input, and writes what
the run leaves behind. A file that names the program it is for counts as executable.
-/

open Fettle

namespace Fettle.Main

/-- A file with its bytes. -/
def fileNode (bytes : ByteArray) : Files.Node :=
  let content := bytes.toList
  .file content ("#!".toUTF8.toList.isPrefixOf content)

/-- The entries of a directory, down to a depth. What cannot be read is left out. -/
def snapshot : Nat → Array IO.FS.DirEntry → IO (List (String × Files.Node))
  | 0, _ => return []
  | depth + 1, entries => do
    let mut nodes := []
    for e in entries do
      try
        if ← e.path.isDir then
          nodes := nodes ++ [(e.fileName, .directory (← snapshot depth (← e.path.readDir)))]
        else
          nodes := nodes ++ [(e.fileName, fileNode (← IO.FS.readBinFile e.path))]
      catch _ => pure ()
    return nodes

/-- The files outside the working directory that are named by paths that begin with a slash. -/
def outsideFiles (paths : List String) : IO (List (String × Files.Node)) := do
  let mut nodes := []
  for path in paths do
    if path.startsWith "/" then
      try nodes := nodes ++ [(path, fileNode (← IO.FS.readBinFile path))] catch _ => pure ()
  return nodes

/-- Run the program with arguments that are accepted. -/
def runAccepted (a : CommandLine.Arguments) : IO UInt32 := do
  let surroundings : Settings.Surroundings :=
    ⟨← IO.getEnv "SHED_CONFIG_HOME", ← IO.getEnv "HOME"⟩
  let user := surroundings.userPath
  let stdin ← if a.inputPath.isNone then (← IO.getStdin).readBinToEnd else pure .empty
  let named := user :: a.config.toList ++ a.inputPath.toList
  let root ← snapshot 16 (← (← IO.currentDir).readDir)
  let before : Files.Tree := ⟨.directory root, ← outsideFiles named⟩
  let (result, after) := CommandLine.run a user stdin.toList before
  for (path, content) in before.changes after do
    IO.FS.writeBinFile path ⟨content.toArray⟩
  (← IO.getStdout).putStr result.output
  (← IO.getStderr).putStr result.errors
  return result.status.toUInt32

end Fettle.Main

/-- Read the command line and run the program. -/
def main (args : List String) : IO UInt32 := do
  match CommandLine.parse args with
  | .error r =>
    IO.eprintln ("usage: shed [--mode shed|format|lint] [--formatter black|ruff] " ++
      "[--config FILE] [--json] [--diff] [--check] [-v] [FILE]")
    return r.exitStatus.toUInt32
  | .ok a => Main.runAccepted a
