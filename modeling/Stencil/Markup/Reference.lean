import Stencil.Markup.Reference.Names

/-!
# Character references

An ampersand may begin a reference: by name (`&lt;`), by decimal number (`&#60;`) or by
hexadecimal number (`&#x3C;`). A reference is read character by character; `Reference.step`
either goes on or ends with the characters that it stands for, together with whether the
character at hand belongs to it. What turns out to be no reference stands for itself.
-/

namespace Stencil.Markup

/-- A reference on the way. -/
inductive Reference where
  /-- After the ampersand. -/
  | start
  /-- In a name, whose characters are given last first. -/
  | name (reversed : List Char)
  /-- After the number sign. -/
  | hash
  /-- After the number sign and the letter of a hexadecimal number. -/
  | hexMark (letter : Char)
  /-- In a decimal number. -/
  | decimal (value : Nat)
  /-- In a hexadecimal number. -/
  | hexadecimal (value : Nat)
deriving DecidableEq, Repr

namespace Reference

/-- What the code points 0x80 to 0x9F stand for: the characters of the Windows code page
1252 in these places, where it has one. -/
def controls : List Nat :=
  [0x20AC, 0x81, 0x201A, 0x0192, 0x201E, 0x2026, 0x2020, 0x2021, 0x02C6, 0x2030, 0x0160,
    0x2039, 0x0152, 0x8D, 0x017D, 0x8F, 0x90, 0x2018, 0x2019, 0x201C, 0x201D, 0x2022, 0x2013,
    0x2014, 0x02DC, 0x2122, 0x0161, 0x203A, 0x0153, 0x9D, 0x017E, 0x0178]

/-- The character that stands for what cannot be one. -/
def replacement : Char := '\ufffd'

/-- The character of a numeric reference. -/
def ofNumber (value : Nat) : Char :=
  if value = 0 || value > 0x10FFFF || (0xD800 ≤ value && value ≤ 0xDFFF) then
    replacement
  else if 0x80 ≤ value && value ≤ 0x9F then
    Char.ofNat ((controls[value - 0x80]?).getD value)
  else
    Char.ofNat value

/-- What the name stands for that `text` begins with, and what follows the name. -/
def leading? (text : List Char) : Option (List Char × List Char) :=
  (openNames.find? fun entry => entry.1.isPrefixOf text).map fun entry =>
    (entry.2, text.drop entry.1.length)

/-- What a name without its semicolon stands for before `next`. Within the value of an
attribute it is no reference if it goes on, or if an equals sign follows. -/
def unclosed (inValue : Bool) (text : List Char) (next : Option Char) : List Char :=
  match leading? text with
  | some (chars, rest) =>
    if inValue && (!rest.isEmpty || next == some '=') then '&' :: text else chars ++ rest
  | none => '&' :: text

/-- What a reference comes to at the next character. -/
inductive Step where
  /-- The reference goes on. -/
  | more (reference : Reference)
  /-- The reference is over. It stands for `text`, and the character belongs to it or not. -/
  | done (text : List Char) (taken : Bool)
deriving DecidableEq, Repr

/-- Reads the next character of a reference. -/
def step (inValue : Bool) (c : Char) : Reference → Step
  | start =>
    if c.isAlphanum then .more (name [c])
    else if c = '#' then .more hash
    else .done ['&'] false
  | name reversed =>
    let text := reversed.reverse
    if c.isAlphanum then
      .more (name (c :: reversed))
    else
      match if c = ';' then names.lookup text else none with
      | some chars => .done chars true
      | none => .done (unclosed inValue text (some c)) false
  | hash =>
    if c = 'x' || c = 'X' then .more (hexMark c)
    else
      match Chars.digit? c with
      | some d => .more (decimal d)
      | none => .done ['&', '#'] false
  | hexMark letter =>
    match Chars.hexDigit? c with
    | some d => .more (hexadecimal d)
    | none => .done ['&', '#', letter] false
  | decimal value =>
    match Chars.digit? c with
    | some d => .more (decimal (10 * value + d))
    | none => .done [ofNumber value] (c = ';')
  | hexadecimal value =>
    match Chars.hexDigit? c with
    | some d => .more (hexadecimal (16 * value + d))
    | none => .done [ofNumber value] (c = ';')

/-- What a reference stands for at the end of the text. -/
def finish (inValue : Bool) : Reference → List Char
  | start => ['&']
  | name reversed => unclosed inValue reversed.reverse none
  | hash => ['&', '#']
  | hexMark letter => ['&', '#', letter]
  | decimal value | hexadecimal value => [ofNumber value]

end Reference

end Stencil.Markup
