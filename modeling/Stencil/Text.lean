import Stencil.Chars.Lines
import Stencil.Chars.Search

/-!
# Text operations on strings

The operations of `Stencil.Chars` on strings, with the lemmas that say so.
-/

namespace Stencil.Text

/-- The text without leading and trailing white space. -/
def trim (s : String) : String :=
  String.ofList (Chars.trim s.toList)

/-- The text without trailing white space. -/
def trimEnd (s : String) : String :=
  String.ofList (Chars.trimEnd s.toList)

/-- The text holds white space only. -/
def isBlank (s : String) : Bool :=
  Chars.isBlank s.toList

/-- The text on one line: its non-blank lines, trimmed and joined by single spaces. -/
def fold (s : String) : String :=
  String.ofList (Chars.fold s.toList)

/-- The text before and after the first occurrence of `pattern`, if it occurs. -/
def cut (pattern s : String) : Option (String × String) :=
  (Chars.cut pattern.toList s.toList).map fun (before, after) =>
    (String.ofList before, String.ofList after)

/-- The pattern occurs in the text. -/
def contains (pattern s : String) : Bool :=
  Chars.contains pattern.toList s.toList

/-- The text begins with `start`. -/
def startsWith (start s : String) : Bool :=
  start.toList.isPrefixOf s.toList

/-- What follows `start`, if the text begins with it. -/
def after? (start s : String) : Option String :=
  if startsWith start s then some (String.ofList (s.toList.drop start.length)) else none

/-- The last character of the text is `c`. -/
def endsWith (c : Char) (s : String) : Bool :=
  s.toList.getLast? == some c

/-- The text without its last character. -/
def dropLast (s : String) : String :=
  String.ofList s.toList.dropLast

/-! ### The same on lists of characters -/

@[simp] theorem toList_trim (s : String) : (trim s).toList = Chars.trim s.toList := by
  simp [trim]

@[simp] theorem toList_trimEnd (s : String) : (trimEnd s).toList = Chars.trimEnd s.toList := by
  simp [trimEnd]

@[simp] theorem toList_fold (s : String) : (fold s).toList = Chars.fold s.toList := by
  simp [fold]

@[simp] theorem toList_dropLast (s : String) : (dropLast s).toList = s.toList.dropLast := by
  simp [dropLast]

end Stencil.Text
