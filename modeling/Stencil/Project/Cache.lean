import Stencil.Digest
import Stencil.FileTree.Access
import Stencil.Options

/-!
# The cache of outputs

A cache is a directory with one file for each path, which holds the output of the last
compilation under that path and the digest of what it was compiled from: the text of the source
and the options. An output is taken from the cache if the digest is that of the source at hand.
A file of the cache that cannot be read is as good as none, and one that holds no entry is
removed. Failures to write are passed over.
-/

namespace Stencil

/-- What a file of the cache holds. -/
structure CacheEntry where
  /-- The digest of the source and the options. -/
  hash : String
  /-- The output. -/
  output : String
deriving DecidableEq, Repr

namespace CacheEntry

/-- The text of an entry. -/
def render (e : CacheEntry) : String :=
  (Json.ofMembers [("hash", .string (some e.hash)), ("output", .string (some e.output))]).render

/-- The value of a member that stands once. -/
def member? (key : String) (members : List (String × Json)) : Option Json :=
  match members.filter fun member => member.1 == key with
  | [(_, value)] => some value
  | _ => none

/-- The entry of a JSON value: an object with both fields, once each, or a list of the two
values. Other fields are passed over. -/
def ofJson? : Json → Option CacheEntry
  | .object members => do
    let members ← members.mapM fun (key, value) => key.map fun key => (key, value)
    let hash ← (← member? "hash" members).text?
    let output ← (← member? "output" members).text?
    return ⟨hash, output⟩
  | .array [hash, output] => do
    let hash ← hash.text?
    let output ← output.text?
    return ⟨hash, output⟩
  | _ => none

/-- The entry that a text holds. -/
def parse? (text : String) : Option CacheEntry :=
  (Json.parse? text).bind ofJson?

end CacheEntry

/-- A cache in a directory, for compilation with given options. -/
structure Cache where
  directory : Path
  options : Options
deriving DecidableEq, Repr

namespace Cache

/-- The cache in a directory, which is made if it is not there. -/
def create (directory : Path) (o : Options) : Files Diagnostic Cache := do
  (Files.ensureDirectories directory).explain fun e => .io directory.text e.message
  return ⟨directory, o⟩

/-- The text that tells apart what outputs are compiled from. -/
def keyText (c : Cache) (source : String) : String := source ++ c.options.fingerprint

/-- The digest of a source and the options. -/
def hash (c : Cache) (source : String) : String := Digest.sha256 (c.keyText source)

/-- A character in the name of a file of the cache. -/
def safeChar (ch : Char) : Char := if ch = '/' || ch = '\\' || ch = ':' then '_' else ch

/-- The name of the file for a path. -/
def entryName (path : Path) : String :=
  String.ofList (path.text.toList.map safeChar) ++ ".json"

/-- The file for a path. -/
def entryPath (c : Cache) (path : Path) : Path := c.directory.join ⟨entryName path⟩

/-- The output for a source, if the cache holds it. -/
def get? {ε : Type} (c : Cache) (path : Path) (source : String) : Files ε (Option String) :=
  fun t =>
    match t.read (c.entryPath path) with
    | .error _ => (.ok none, t)
    | .ok text =>
      match CacheEntry.parse? text with
      | some entry =>
        (.ok (if entry.hash = c.hash source then some entry.output else none), t)
      | none =>
        match t.remove (c.entryPath path) with
        | .ok t' => (.ok none, t')
        | .error _ => (.ok none, t)

/-- Keeps the output for a source. -/
def set {ε : Type} (c : Cache) (path : Path) (source output : String) : Files ε Unit :=
  Files.attempt fun t =>
    t.write (c.entryPath path) (.text (CacheEntry.render ⟨c.hash source, output⟩))

end Cache

end Stencil
