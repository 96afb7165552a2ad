import Stencil.Command.Run
import Stencil.FileTree.Change

/-!
# The program

Loads the files that a command is about, runs the command on them, and brings the changes back
to the file system.
-/

open Stencil

namespace Stencil.Program

/-- The tree with what is below a directory of the file system. Links to directories are not
followed. -/
partial def loadBelow (entries : Array IO.FS.DirEntry) (t : FileTree) : IO FileTree := do
  let mut t := t
  for entry in entries do
    let path : Path := ⟨entry.path.toString⟩
    if (← entry.path.symlinkMetadata).type == .dir then
      match t.makeDirectory path with
      | .ok made => t ← loadBelow (← entry.path.readDir) made
      | .error _ => t ← loadBelow (← entry.path.readDir) t
    else if !(← entry.path.isDir) then
      match t.write path (.ofBytes (← IO.FS.readBinFile entry.path)) with
      | .ok written => t := written
      | .error _ => pure ()
  return t

/-- The tree with what stands at a path of the file system, if something does. The empty path is
the working directory. -/
def loadAt (t : FileTree) (path : Path) : IO FileTree := do
  try
    let place ← IO.FS.realPath (if path.text = "" then "." else path.text)
    if ← place.isDir then
      let (_, t) := (Files.ensureDirectories ⟨place.toString⟩).on t
      loadBelow (← place.readDir) t
    else
      let content := Content.ofBytes (← IO.FS.readBinFile place)
      let above := (Path.parent? ⟨place.toString⟩).getD ⟨"/"⟩
      let (_, t) := (Files.ensureDirectories above).on t
      return ((t.write ⟨place.toString⟩ content).toOption).getD t
  catch _ => return t

/-- Brings a change to the file system. -/
def apply : Change → IO Unit
  | .makeDirectory location => IO.FS.createDirAll (FileTree.pathOf location).text
  | .write location (.text value) => IO.FS.writeFile (FileTree.pathOf location).text value
  | .write location (.binary bytes) =>
    IO.FS.writeBinFile (FileTree.pathOf location).text ⟨bytes.toArray⟩
  | .remove location => IO.FS.removeFile (FileTree.pathOf location).text

/-- The files for a run, with the relative paths beginning in the working directory. -/
def load (args : List String) : IO FileTree := do
  let here : Path := ⟨(← IO.currentDir).toString⟩
  let (_, t) := (Files.ensureDirectories here).on FileTree.empty
  let t := { t with current := (t.locate here).toOption.getD [] }
  match Command.parse args with
  | .ok command => command.roots.foldlM loadAt t
  | .error _ => return t

end Stencil.Program

/-- Runs the program with its arguments. -/
def main (args : List String) : IO UInt32 := do
  let before ← Program.load args
  let (ending, after) := Command.run args before
  (before.changes after).forM Program.apply
  (← IO.getStdout).putStr ending.stdout
  (← IO.getStderr).putStr ending.stderr
  return UInt32.ofNat ending.exit
