import Stencil.FileTree.Access
import Stencil.Options

/-!
# The options of a project

A project has its options in a file of its own. Where the file is missing, the options are the
defaults.
-/

namespace Stencil.Config

/-- The name of the file with the options. -/
def fileName : String := "htmlc.json"

/-- The file with the options of the project in a directory. -/
def fileIn (directory : Path) : Path := directory.join ⟨fileName⟩

/-- The options in a file, or the defaults if it is missing. -/
def load (path : Path) (t : FileTree) : Except Diagnostic Options :=
  if t.exists? path then
    match t.read path with
    | .error e => .error (.io path.text e.message)
    | .ok text =>
      match Options.parse text with
      | .ok o => .ok o
      | .error d => .error (d.inFile path.text)
  else .ok {}

end Stencil.Config
