import Stencil.Chars.Space

/-!
# Lines

A line ends at a line feed or at the end of the text; a final line feed opens no further
line. Folding puts a text on one line: every line is trimmed, the lines that are then empty
are left out, and the others are joined by single spaces. A carriage return before a line
feed needs no rule of its own here, since it is white space at the end of its line.
-/

namespace Stencil.Chars

/-- The lines of a text, without their line feeds. -/
def lines : List Char → List (List Char)
  | [] => []
  | c :: rest =>
    if c = '\n' then
      [] :: lines rest
    else
      match lines rest with
      | [] => [[c]]
      | line :: more => (c :: line) :: more

/-- The text on one line: its non-blank lines, trimmed and joined by single spaces. -/
def fold (s : List Char) : List Char :=
  List.intercalate [' '] (((lines s).map trim).filter fun line => !line.isEmpty)

/-! ### Small facts -/

@[simp] theorem lines_nil : lines [] = [] := rfl

theorem lines_newline (s : List Char) : lines ('\n' :: s) = [] :: lines s := rfl

@[simp] theorem fold_nil : fold [] = [] := rfl

end Stencil.Chars
