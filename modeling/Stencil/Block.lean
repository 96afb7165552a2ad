import Stencil.Lowering.Node
import Stencil.Markup.Parse

/-!
# Template blocks

A block has a name, a body and a place in a host file. The name decides what becomes of the
body: markup becomes a list of arguments, or a function that returns an element; the body of
any other block is taken as it is, trimmed.
-/

namespace Stencil

/-- A template block. -/
structure Block where
  name : String
  /-- The body. -/
  value : String
  /-- The host file, if the block comes from one. -/
  file : Option String := none
  /-- The byte offset at which the block begins in the host file. -/
  start : Nat
  /-- The byte offset at which the block ends in the host file. -/
  stop : Nat
deriving DecidableEq, Repr

/-- What becomes of a block. -/
inductive BlockKind where
  /-- A list of arguments. -/
  | markup
  /-- A function that returns an element. -/
  | function
  /-- The body itself. -/
  | verbatim
deriving DecidableEq, Repr

/-- The kind of block that a name stands for. -/
def BlockKind.ofName : String → BlockKind
  | "html" | "htmlEl" => markup
  | "htmlF" => function
  | _ => verbatim

namespace Block

/-- A block that comes from no host file. -/
def standalone (name value : String) : Block :=
  { name, value := Text.trim value, start := 0, stop := value.utf8ByteSize }

/-- Adds the place of the block to a diagnostic. -/
def place (b : Block) (d : Diagnostic) : Diagnostic :=
  let d := d.inSpan { block := b.name, start := b.start, stop := b.stop }
  match b.file with
  | some file => d.inFile file
  | none => d

/-- The arguments that the markup of a block becomes. -/
def arguments (rt : Runtime) (b : Block) : Lowering String :=
  (lowerBlock rt (Markup.parse b.value)).located b.place

/-- The code that a block becomes. -/
def compile (rt : Runtime) (b : Block) : Lowering String :=
  match BlockKind.ofName b.name with
  | .markup => b.arguments rt
  | .function => rt.elementFunction <$> b.arguments rt
  | .verbatim => pure (Text.trim b.value)

end Block

end Stencil
