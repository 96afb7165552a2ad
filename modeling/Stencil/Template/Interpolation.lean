import Stencil.Text

/-!
# Interpolation

Text is split into literals and expressions at pairs of double braces. Literals are folded
onto one line and expressions are trimmed; what is then empty is left out. A backslash right
before an opening pair takes the rest of the text literally, without the backslash. An
opening pair that is never closed takes the rest literally as it stands.
-/

namespace Stencil

/-- A part of a text. -/
inductive Segment where
  /-- Text that stands for itself. -/
  | literal (text : String)
  /-- An expression of the host language. -/
  | expr (code : String)
deriving DecidableEq, Repr

namespace Segment

/-- The delimiter before an expression. -/
def opening : List Char := ['\x7b', '\x7b']

/-- The delimiter after an expression. -/
def closing : List Char := ['\x7d', '\x7d']

/-- The literal for a stretch of text, if anything is left of it on one line. -/
def literals (text : List Char) : List Segment :=
  match Chars.fold text with
  | [] => []
  | c :: rest => [literal (String.ofList (c :: rest))]

/-- The expression for a stretch of code, if it is not blank. -/
def exprs (code : List Char) : List Segment :=
  match Chars.trim code with
  | [] => []
  | c :: rest => [expr (String.ofList (c :: rest))]

/-- What follows a closed pair of delimiters is shorter than the text. -/
theorem length_rest_lt {text before inner code rest : List Char}
    (hopen : Chars.cut opening text = some (before, inner))
    (hclose : Chars.cut closing inner = some (code, rest)) : rest.length < text.length := by
  have houter := Chars.length_of_cut hopen
  have hinner := Chars.length_of_cut hclose
  simp only [opening, List.length_cons, List.length_nil] at houter
  omega

/-- The segments of a text. -/
def split (text : List Char) : List Segment :=
  match _ : Chars.cut opening text with
  | none => literals text
  | some (before, inner) =>
    if before.getLast? = some '\\' then
      literals (before.dropLast ++ opening ++ inner)
    else
      match _ : Chars.cut closing inner with
      | none => literals text
      | some (code, rest) => literals before ++ exprs code ++ split rest
termination_by text.length
decreasing_by exact length_rest_lt ‹Chars.cut opening text = _› ‹Chars.cut closing inner = _›

/-- The segments of a text, in order. -/
def ofText (text : String) : List Segment :=
  split text.toList

end Segment

end Stencil
