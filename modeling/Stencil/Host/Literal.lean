import Stencil.Template.Interpolation

/-!
# Literals and comments of the host language

Three ways to put text into code: an interpreted literal between double quotes, in which
quotes, backslashes, line breaks and tabs are escaped; a raw literal between backquotes,
which holds everything but a backquote; and a block comment, in which the closing mark is
broken up by a space.
-/

namespace Stencil.Host

/-- A character inside an interpreted literal. -/
def escapeChar (c : Char) : List Char :=
  if c = '"' then ['\\', '"']
  else if c = '\\' then ['\\', '\\']
  else if c = '\n' then ['\\', 'n']
  else if c = '\r' then ['\\', 'r']
  else if c = '\t' then ['\\', 't']
  else [c]

/-- The characters of an interpreted literal, quotes included. -/
def quoteChars (value : List Char) : List Char :=
  '"' :: value.flatMap escapeChar ++ ['"']

/-- The interpreted literal of a text. -/
def quote (value : String) : String :=
  String.ofList (quoteChars value.toList)

/-- The literal for a text of the template: raw, or interpreted if it holds a backquote. -/
def textLiteral (value : String) : String :=
  if Text.contains "`" value then quote value else "`" ++ value ++ "`"

/-- The code of one segment. -/
def segment : Segment → String
  | .literal text => textLiteral text
  | .expr code => code

/-- The code of a list of segments: consecutive arguments. -/
def segments (parts : List Segment) : String :=
  ", ".intercalate (parts.map segment)

/-- The text of a comment with every closing mark broken up. -/
def defuse : List Char → List Char
  | '*' :: '/' :: rest => '*' :: ' ' :: '/' :: defuse rest
  | c :: rest => c :: defuse rest
  | [] => []

/-- The block comment of a text. -/
def comment (text : String) : String :=
  String.ofList ('/' :: '*' :: defuse text.toList ++ ['*', '/'])

/-! ### The same on lists of characters -/

@[simp] theorem toList_quote (value : String) :
    (quote value).toList = quoteChars value.toList := by
  simp [quote]

@[simp] theorem toList_comment (text : String) :
    (comment text).toList = '/' :: '*' :: defuse text.toList ++ ['*', '/'] := by
  simp [comment]

end Stencil.Host
