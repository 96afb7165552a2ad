import Stencil.FileTree.Entry

/-!
# Access to files by path

A file tree is the directory at the root, and the location where relative paths begin. A path is
followed step by step: every step but the last has to lead to a directory, and the two dots of
the root lead to the root. Reading, writing, making a directory and removing are functions of
the tree and the path, and each says why it fails. What is not named by the path stays as it is.

`Files` is for computations of several such operations: a failure ends them, and what was done
before it stays done.
-/

namespace Stencil

/-- Why an operation on files fails. -/
inductive FileError where
  | notFound
  | present
  | notADirectory
  | isADirectory
  | invalidArgument
  | nameTooLong
  | notText
  | zeroByte
deriving DecidableEq, Repr

/-- The text of a failure. -/
def FileError.message : FileError → String
  | notFound => "No such file or directory (os error 2)"
  | present => "File exists (os error 17)"
  | notADirectory => "Not a directory (os error 20)"
  | isADirectory => "Is a directory (os error 21)"
  | invalidArgument => "Invalid argument (os error 22)"
  | nameTooLong => "File name too long (os error 36)"
  | notText => "stream did not contain valid UTF-8"
  | zeroByte => "file name contained an unexpected NUL byte"

/-- The content of bytes: a text if they encode one. -/
def Content.ofBytes (bytes : ByteArray) : Content :=
  match String.fromUTF8? bytes with
  | some value => .text value
  | none => .binary bytes.data.toList

/-- A tree of files. -/
structure FileTree where
  /-- The entries of the directory at the root. -/
  entries : List (Name × Entry) := []
  /-- Where relative paths begin. -/
  current : Location := []
  ordered : (Entry.directory entries).Ordered := by exact ⟨List.Pairwise.nil, trivial⟩

namespace FileTree

/-- A tree without files. -/
def empty : FileTree := {}

instance : Inhabited FileTree := ⟨empty⟩

/-! ### Locations -/

/-- The directory at the root. -/
def root (t : FileTree) : Option Entry := some (.directory t.entries)

/-- What stands at a location. -/
def get? (t : FileTree) (location : Location) : Option Entry := Entry.get? t.root location

/-- A directory stands at the location. -/
def isDirectoryAt (t : FileTree) (location : Location) : Bool :=
  match t.get? location with
  | some (.directory _) => true
  | _ => false

theorem ordered_root (t : FileTree) : ∀ e ∈ t.root, e.Ordered := fun _ he =>
  Option.some.inj he ▸ t.ordered

theorem ordered_alterNamed {entries : List (Name × Entry)} {new : Option Entry}
    (h : (Entry.directory entries).Ordered) (hnew : ∀ e ∈ new, e.Ordered) (name : Name)
    (rest : Location) :
    (Entry.directory
      (Entry.alterNamed name (Entry.alter (fun _ => new) rest) entries)).Ordered :=
  Entry.ordered_alter (fun _ _ => hnew) (name :: rest)
    (fun _ he => Option.some.inj he ▸ h) _ rfl

/-- Puts an entry at a location, or removes what stands there. The root stays. -/
def put (t : FileTree) (location : Location) (new : Option Entry)
    (h : ∀ e ∈ new, e.Ordered) : FileTree :=
  match location with
  | [] => t
  | name :: rest =>
    { t with
      entries := Entry.alterNamed name (Entry.alter (fun _ => new) rest) t.entries
      ordered := ordered_alterNamed t.ordered h name rest }

theorem get?_put {location : Location} (hne : location ≠ []) (t : FileTree)
    {new : Option Entry} (h : ∀ e ∈ new, e.Ordered) (other : Location) :
    (t.put location new h).get? other =
      Entry.get? (Entry.alter (fun _ => new) location t.root) other := by
  cases location with
  | nil => exact absurd rfl hne
  | cons name rest => rfl

@[simp] theorem current_put (t : FileTree) (location : Location) {new : Option Entry}
    (h : ∀ e ∈ new, e.Ordered) : (t.put location new h).current = t.current := by
  cases location <;> rfl

/-! ### Following paths -/

/-- The most bytes that a name can have. -/
def maxNameBytes : Nat := 255

/-- The least number of bytes that a path cannot have. -/
def maxPathBytes : Nat := 4096

/-- The name has more bytes than a name can have. -/
def isTooLong (name : Name) : Bool := maxNameBytes < name.text.utf8ByteSize

/-- Follows steps from a location. -/
def follow (t : FileTree) : Location → List Component → Except FileError Location
  | here, [] => .ok here
  | here, step :: rest =>
    if t.isDirectoryAt here then
      match step with
      | .root => follow t [] rest
      | .current => follow t here rest
      | .parent => follow t here.dropLast rest
      | .name name =>
        if isTooLong name then .error .nameTooLong
        else if (t.get? (here ++ [name])).isSome then follow t (here ++ [name]) rest
        else .error .notFound
    else .error .notADirectory

/-- Refuses a path that cannot be one of the system. -/
def check (p : Path) : Except FileError Unit :=
  if p.text.toList.contains '\x00' then .error .zeroByte
  else if p.text = "" then .error .notFound
  else if maxPathBytes ≤ p.text.utf8ByteSize then .error .nameTooLong
  else .ok ()

/-- The location of what a path names. A path that ends in a slash names a directory. -/
def locate (t : FileTree) (p : Path) : Except FileError Location := do
  check p
  let location ← t.follow t.current p.steps
  if p.endsInSlash && !t.isDirectoryAt location then .error .notADirectory
  else return location

/-- The directory where the last step of a path is made, and that step. -/
def lastStep (t : FileTree) (p : Path) : Except FileError (Location × Component) := do
  check p
  match p.steps.getLast? with
  | none => .error .notFound
  | some step =>
    let parent ← t.follow t.current p.steps.dropLast
    if t.isDirectoryAt parent then return (parent, step) else .error .notADirectory

/-! ### Operations -/

/-- Something stands at the path. -/
def exists? (t : FileTree) (p : Path) : Bool := (t.locate p).isOk

/-- A directory stands at the path. -/
def isDirectory (t : FileTree) (p : Path) : Bool :=
  match t.locate p with
  | .ok location => t.isDirectoryAt location
  | .error _ => false

/-- The text of a file. -/
def read (t : FileTree) (p : Path) : Except FileError String := do
  let location ← t.locate p
  match t.get? location with
  | some (.file (.text value)) => return value
  | some (.file (.binary _)) => .error .notText
  | some (.directory _) => .error .isADirectory
  | none => .error .notFound

/-- Gives a file a content. The file need not be there, but its directory has to. -/
def write (t : FileTree) (p : Path) (content : Content) : Except FileError FileTree := do
  match ← t.lastStep p with
  | (parent, .name name) =>
    if p.endsInSlash then .error .isADirectory
    else if isTooLong name then .error .nameTooLong
    else if t.isDirectoryAt (parent ++ [name]) then .error .isADirectory
    else
      return t.put (parent ++ [name]) (some (.file content))
        (fun _ he => Option.some.inj he ▸ trivial)
  | _ => .error .isADirectory

/-- Makes a directory where nothing is. -/
def makeDirectory (t : FileTree) (p : Path) : Except FileError FileTree := do
  match ← t.lastStep p with
  | (parent, .name name) =>
    if isTooLong name then .error .nameTooLong
    else if (t.get? (parent ++ [name])).isSome then .error .present
    else
      return t.put (parent ++ [name]) (some (.directory []))
        (fun _ he => Option.some.inj he ▸ ⟨List.Pairwise.nil, trivial⟩)
  | _ => .error .present

/-- Removes a file, or a directory with all that is in it. -/
def remove (t : FileTree) (p : Path) : Except FileError FileTree := do
  let _ ← t.locate p
  match ← t.lastStep p with
  | (parent, .name name) =>
    return t.put (parent ++ [name]) none (fun e he => absurd he (Option.not_mem_none e))
  | _ => .error .invalidArgument

/-! ### All that is in a tree -/

mutual

/-- The locations of an entry and of all that is below it, each with its entry. -/
def listEntry (location : Location) : Entry → List (Location × Entry)
  | .file content => [(location, .file content)]
  | .directory entries => (location, .directory entries) :: listEntries location entries

/-- The locations of entries of one directory and of all that is below them. -/
def listEntries (location : Location) : List (Name × Entry) → List (Location × Entry)
  | [] => []
  | (name, entry) :: rest =>
    listEntry (location ++ [name]) entry ++ listEntries location rest

end

/-- All that is below a location, with the locations relative to it. -/
def listBelow (t : FileTree) (location : Location) : List (Location × Entry) :=
  match t.get? location with
  | some (.directory entries) => listEntries [] entries
  | _ => []

end FileTree

/-! ### Computations on files -/

/-- A computation on a tree of files that may fail. What it does before a failure stays done. -/
abbrev Files (ε α : Type) : Type := ExceptT ε (StateM FileTree) α

namespace Files

variable {ε ε' α : Type}

/-- Runs a computation on a tree. -/
def on (m : Files ε α) (t : FileTree) : Except ε α × FileTree := m t

/-- Asks something of the tree. -/
def ask (f : FileTree → Except ε α) : Files ε α := fun t => (f t, t)

/-- Changes the tree, or leaves it as it is if that fails. -/
def change (f : FileTree → Except ε FileTree) : Files ε Unit := fun t =>
  match f t with
  | .ok t' => (.ok (), t')
  | .error e => (.error e, t)

/-- Changes the tree if that can be done. -/
def attempt (f : FileTree → Except ε FileTree) : Files ε' Unit := fun t =>
  match f t with
  | .ok t' => (.ok (), t')
  | .error _ => (.ok (), t)

/-- Says in other words why a computation fails. -/
def explain (f : ε → ε') (m : Files ε α) : Files ε' α := fun t =>
  match m t with
  | (.ok a, t') => (.ok a, t')
  | (.error e, t') => (.error (f e), t')

/-- Makes a directory, unless it is there. -/
def ensureDirectory (p : Path) : Files FileError Unit :=
  change fun t =>
    match t.makeDirectory p with
    | .ok t' => .ok t'
    | .error e => if t.isDirectory p then .ok t else .error e

/-- Makes a directory and what is missing above it. A path of `n` components is given `n` steps
up; where none are left the path is empty, and there is nothing to make. -/
def ensureDirectoriesWithin : Nat → Path → Files FileError Unit
  | 0, _ => return
  | n + 1, p => do
    match ← ask fun t => Except.ok (t.makeDirectory p) with
    | .error .notFound =>
      match p.parent? with
      | some parent =>
        ensureDirectoriesWithin n parent
        ensureDirectory p
      | none => throw .notFound
    | _ => ensureDirectory p

/-- Makes a directory and all that is missing above it. -/
def ensureDirectories (p : Path) : Files FileError Unit :=
  ensureDirectoriesWithin p.components.length p

end Files

end Stencil
