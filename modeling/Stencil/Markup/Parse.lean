import Stencil.Markup.Insertion
import Stencil.Markup.Lexer

/-!
# Reading markup

Markup is read as the content of a block element, character by character: the lexer makes
tokens of the characters, and the tokens change the tree. Runs of text are gathered until
another token ends them. Every text is markup; what is not well-formed is mended by the rules.

The characters arrive in pieces of a fixed number of bytes. A character that would be cut in two
is a piece of its own, as is what follows it. A byte-order mark is dropped at the beginning of a
piece and after a script. Line ends become line feeds, also between two pieces.
-/

namespace Stencil.Markup

/-- The number of bytes in a piece. -/
def pieceSize : Nat := 4096

/-- The reading of markup on the way. -/
structure Reading where
  lexer : LexState := .text .ordinary
  /-- The characters of the current run of text, last first. -/
  run : List Char := []
  tree : Tree := {}
  /-- The number of bytes before the next character. -/
  offset : Nat := 0
  /-- A byte-order mark that comes next is dropped. -/
  dropMark : Bool := true
  /-- A line feed that comes next belongs to the line end before it. -/
  afterReturn : Bool := false
deriving Repr

namespace Reading

/-- Ends the run of text. -/
def flush (r : Reading) : Reading :=
  match r.run with
  | [] => r
  | run => { r with run := [], tree := r.tree.process (.text run.reverse) }

/-- Takes a token, after the text before it. The tree may ask for another reading of text. -/
def take (r : Reading) (token : Token) : Reading :=
  let r := r.flush
  let endsScript := r.tree.mode = .rawText && token = .endTag "script"
  let tree := r.tree.process token
  { r with
    tree
    dropMark := r.dropMark || endsScript
    lexer := (tree.request.map LexState.text).getD r.lexer }

/-- Takes what the lexer has made. -/
def takeLexed (r : Reading) (next : Lexed) : Reading :=
  let tree := if next.lapse && r.run.isEmpty then r.tree.keepLineFeed else r.tree
  let r := { r with lexer := next.state, run := next.text.reverse ++ r.run, tree }
  match next.token with
  | some token => r.take token
  | none => r

/-- Reads a character that is neither a mark nor half of a line end. -/
def read (r : Reading) (c : Char) : Reading :=
  r.takeLexed (Lexer.step r.tree.isInForeign c r.lexer)

/-- Reads a character. -/
def step (r : Reading) (c : Char) : Reading :=
  let before := r.offset % pieceSize
  let isCut := before + c.utf8Size > pieceSize
  let begins := before = 0 || isCut || r.dropMark
  let r := { r with offset := r.offset + c.utf8Size, dropMark := isCut }
  if begins && c = '\ufeff' then r
  else if r.afterReturn && c = '\n' then { r with afterReturn := false }
  else { r.read (if c = '\r' then '\n' else c) with afterReturn := c = '\r' }

/-- The nodes when the text ends. -/
def finish (r : Reading) : List Node :=
  (r.takeLexed (Lexer.finish r.lexer)).flush.tree.finish

end Reading

/-- The nodes of markup. -/
def parse (source : String) : List Node :=
  (source.toList.foldl Reading.step {}).finish

end Stencil.Markup
