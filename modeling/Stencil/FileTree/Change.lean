import Stencil.FileTree.Access

/-!
# Changes between two trees

What has to be done to make one tree of another: the directories to make and the files to write,
in an order in which a directory comes before what is in it, and then the files to remove.
-/

namespace Stencil

/-- A change at a location. -/
inductive Change where
  | makeDirectory (location : Location)
  | write (location : Location) (content : Content)
  | remove (location : Location)
deriving Repr

namespace FileTree

/-- The path of a location. -/
def pathOf (location : Location) : Path :=
  ⟨String.ofList (location.flatMap fun name => '/' :: name.text.toList)⟩

/-- The change that brings an entry into a tree where it is missing. -/
def added (before : FileTree) : Location × Entry → Option Change
  | (location, .directory _) =>
    if before.isDirectoryAt location then none else some (.makeDirectory location)
  | (location, .file content) =>
    match before.get? location with
    | some (.file old) => if old = content then none else some (.write location content)
    | _ => some (.write location content)

/-- The change that takes an entry out of a tree where it is no longer. -/
def removed (after : FileTree) : Location × Entry → Option Change
  | (_, .directory _) => none
  | (location, .file _) =>
    if (after.get? location).isSome then none else some (.remove location)

/-- The changes that make one tree of another. -/
def changes (before after : FileTree) : List Change :=
  (after.listBelow []).filterMap (added before) ++
    (before.listBelow []).filterMap (removed after)

end FileTree

end Stencil
