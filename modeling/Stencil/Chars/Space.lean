/-!
# White space

Text is trimmed everywhere by the Unicode property `White_Space`: the ASCII blanks (tab to
carriage return, and space), the no-break spaces, the typographic spaces of the general
punctuation block, and the two separators of lines and paragraphs. The zero-width space and
the byte-order mark are not in it.

The operations are on lists of characters; `Stencil.Text` offers them on strings.
-/

namespace Stencil.Chars

/-- The characters with the Unicode property `White_Space`. -/
def isSpace (c : Char) : Bool :=
  let n := c.toNat
  (9 ≤ n && n ≤ 13) || n == 0x20 || n == 0x85 || n == 0xA0 || n == 0x1680 ||
    (0x2000 ≤ n && n ≤ 0x200A) || n == 0x2028 || n == 0x2029 || n == 0x202F ||
    n == 0x205F || n == 0x3000

/-- The text without its leading white space. -/
def trimStart (s : List Char) : List Char :=
  s.dropWhile isSpace

/-- The text without its trailing white space. -/
def trimEnd (s : List Char) : List Char :=
  (s.reverse.dropWhile isSpace).reverse

/-- The text without its leading and trailing white space. -/
def trim (s : List Char) : List Char :=
  trimEnd (trimStart s)

/-- The text holds white space only. -/
def isBlank (s : List Char) : Bool :=
  s.all isSpace

/-! ### Small facts -/

/-- Every character that is white space to the core library is white space here. -/
theorem isSpace_of_isWhitespace {c : Char} (h : c.isWhitespace = true) : isSpace c = true := by
  simp only [Char.isWhitespace, Bool.or_eq_true, decide_eq_true_eq] at h
  rcases h with ((rfl | rfl) | rfl) | rfl <;> rfl

@[simp] theorem trimStart_nil : trimStart [] = [] := rfl

@[simp] theorem trimEnd_nil : trimEnd [] = [] := rfl

@[simp] theorem trim_nil : trim [] = [] := rfl

@[simp] theorem isBlank_nil : isBlank [] = true := rfl

theorem isBlank_cons (c : Char) (s : List Char) :
    isBlank (c :: s) = (isSpace c && isBlank s) := rfl

end Stencil.Chars
