import Stencil.FileTree.Access
import Stencil.Options
import Stencil.Text

/-!
# Source files

The sources of a project are the files below a directory that have one of the extensions of the
options. A path below the directory is ignored if, written from the directory on, it holds one
of the patterns of the options; what is below an ignored directory is not looked at. The
directory itself is not ignored, and it may be a single file.
-/

namespace Stencil

/-- A file with blocks to compile. -/
structure Source where
  path : Path
  /-- The extension of the options that the file has. -/
  extension : String
deriving DecidableEq, Repr

namespace Source

/-- Where the output of a file goes: next to it, with the suffix in place of the extension. -/
def outputOf (path : Path) (suffix : String) : Path :=
  path.withFileName (((path.fileName?.map Name.stem).getD "") ++ suffix)

/-- Where the output of a source goes. -/
def output (s : Source) (suffix : String) : Path := outputOf s.path suffix

/-! ### Which files are sources -/

/-- The path through names, written from the directory where it begins. -/
def relative (names : List Name) : String :=
  String.ofList (['/'].intercalate (names.map fun name => name.text.toList))

/-- One of the patterns stands in the path. An empty pattern stands in none. -/
def isIgnored (o : Options) (names : List Name) : Bool :=
  o.ignore.any fun pattern => pattern != "" && Text.contains pattern (relative names)

/-- The source at a path, if the file has one of the extensions. -/
def ofPath? (o : Options) (path : Path) : Option Source :=
  path.extension?.bind fun found =>
    (o.extensions.find? (· == found)).map fun extension => ⟨path, extension⟩

mutual

/-- The sources of an entry at a path. The names lead to it from the directory at which the
search begins. -/
def inEntry (o : Options) (path : Path) (names : List Name) : Entry → List Source
  | .file _ => (ofPath? o path).toList
  | .directory entries => inEntries o path names entries

/-- The sources among the entries of the directory at a path. -/
def inEntries (o : Options) (path : Path) (names : List Name) :
    List (Name × Entry) → List Source
  | [] => []
  | (name, entry) :: rest =>
    (if isIgnored o (names ++ [name]) then []
      else inEntry o (path.child name) (names ++ [name]) entry) ++
      inEntries o path names rest

end

/-- The order of sources is that of their paths. -/
def le (a b : Source) : Bool := a.path.le b.path

/-- The failure to look at a directory. -/
def searchFailed (directory : Path) (e : FileError) : Diagnostic :=
  .io directory.text ("IO error for operation on " ++ directory.text ++ ": " ++ e.message)

/-- The sources below a directory, in the order of their paths. -/
def find (o : Options) (directory : Path) (t : FileTree) : Except Diagnostic (List Source) :=
  match t.locate directory with
  | .error e => .error (searchFailed directory e)
  | .ok location =>
    match t.get? location with
    | none => .error (searchFailed directory .notFound)
    | some entry => .ok ((inEntry o directory [] entry).mergeSort le)

end Source

end Stencil
