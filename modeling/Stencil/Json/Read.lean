import Stencil.Json.Value

/-!
# Reading JSON

A recursive reader over the characters of the text. White space is blank, tab, line feed and
carriage return. Numbers are checked for their form only. The depth of the recursion is bounded
by the length of the text, which `parse` hands to the reader as fuel.
-/

namespace Stencil.Json

/-- White space of JSON. -/
def isSpace (c : Char) : Bool := c = ' ' || c = '\t' || c = '\n' || c = '\r'

/-- The text without leading white space. -/
def skip (s : List Char) : List Char := s.dropWhile isSpace

/-! ### Strings -/

/-- A unit of a string: a character, or an escaped half of one. -/
inductive StringUnit where
  | char (c : Char)
  | half (code : Nat)
deriving DecidableEq, Repr

/-- The number of four digits. -/
def hexCode? (a b c d : Char) : Option Nat := do
  let a ← Chars.hexDigit? a
  let b ← Chars.hexDigit? b
  let c ← Chars.hexDigit? c
  let d ← Chars.hexDigit? d
  return ((a * 16 + b) * 16 + c) * 16 + d

/-- The unit with a code. -/
def unitOf (code : Nat) : StringUnit :=
  if 0xD800 ≤ code && code ≤ 0xDFFF then .half code else .char (Char.ofNat code)

/-- The character of a short escape. -/
def escape? (c : Char) : Option Char :=
  if c = '"' then some '"'
  else if c = '\\' then some '\\'
  else if c = '/' then some '/'
  else if c = 'b' then some '\x08'
  else if c = 'f' then some '\x0c'
  else if c = 'n' then some '\n'
  else if c = 'r' then some '\r'
  else if c = 't' then some '\t'
  else none

/-- The units of a string after its opening quote, and what follows its closing quote. -/
def units : List Char → Option (List StringUnit × List Char)
  | [] => none
  | '"' :: rest => some ([], rest)
  | '\\' :: 'u' :: a :: b :: c :: d :: rest => do
    let code ← hexCode? a b c d
    let (more, rest) ← units rest
    return (unitOf code :: more, rest)
  | '\\' :: e :: rest => do
    let c ← escape? e
    let (more, rest) ← units rest
    return (.char c :: more, rest)
  | c :: rest =>
    if c.toNat < 0x20 || c = '\\' then none
    else do
      let (more, rest) ← units rest
      return (.char c :: more, rest)

/-- The text of units, if every half of a character has its other half after it. -/
def joinUnits : List StringUnit → Option (List Char)
  | [] => some []
  | .char c :: rest => (joinUnits rest).map (c :: ·)
  | .half high :: .half low :: rest =>
    if high < 0xDC00 && 0xDC00 ≤ low then
      (joinUnits rest).map (Char.ofNat (0x10000 + (high - 0xD800) * 0x400 + (low - 0xDC00)) :: ·)
    else none
  | .half _ :: _ => none

/-- A string after its opening quote. -/
def stringBody (s : List Char) : Option (Option String × List Char) :=
  (units s).map fun (units, rest) => ((joinUnits units).map String.ofList, rest)

/-! ### Numbers -/

/-- The digits at the beginning of a text, and what follows them. -/
def digits (s : List Char) : List Char × List Char :=
  (s.takeWhile Char.isDigit, s.dropWhile Char.isDigit)

/-- One digit or more. -/
def someDigits (s : List Char) : Option (List Char × List Char) :=
  match digits s with
  | ([], _) => none
  | found => some found

/-- The whole part of a number: a zero, or digits that do not begin with one. -/
def wholePart (s : List Char) : Option (List Char × List Char) :=
  match s with
  | '0' :: rest => if (rest.head?.map Char.isDigit).getD false then none else some (['0'], rest)
  | s => someDigits s

/-- The part of a number after the point, if there is one. -/
def fraction (s : List Char) : Option (List Char × List Char) :=
  match s with
  | '.' :: rest => (someDigits rest).map fun (found, rest) => ('.' :: found, rest)
  | s => some ([], s)

/-- The exponent of a number, if there is one. -/
def exponent (s : List Char) : Option (List Char × List Char) :=
  match s with
  | e :: rest =>
    if e = 'e' || e = 'E' then
      match rest with
      | sign :: more =>
        if sign = '+' || sign = '-' then
          (someDigits more).map fun (found, rest) => (e :: sign :: found, rest)
        else (someDigits rest).map fun (found, rest) => (e :: found, rest)
      | [] => none
    else some ([], s)
  | [] => some ([], [])

/-- A number. -/
def number? (s : List Char) : Option (Json × List Char) := do
  let (sign, s) := match s with
    | '-' :: rest => (['-'], rest)
    | s => ([], s)
  let (whole, s) ← wholePart s
  let (point, s) ← fraction s
  let (power, s) ← exponent s
  return (number (String.ofList (sign ++ whole ++ point ++ power)), s)

/-! ### Values -/

/-- What follows a word at the beginning of a text. -/
def word? (word : String) (s : List Char) : Option (List Char) :=
  if word.toList.isPrefixOf s then some (s.drop word.length) else none

mutual

/-- A value after white space, and what follows it. -/
def value? : Nat → List Char → Option (Json × List Char)
  | 0, _ => none
  | n + 1, s =>
    match skip s with
    | '"' :: rest => (stringBody rest).map fun (text, rest) => (string text, rest)
    | '[' :: rest =>
      match skip rest with
      | ']' :: rest => some (array [], rest)
      | rest => (items? n rest).map fun (items, rest) => (array items, rest)
    | '\x7b' :: rest =>
      match skip rest with
      | '\x7d' :: rest => some (object [], rest)
      | rest => (members? n rest).map fun (members, rest) => (object members, rest)
    | 'n' :: rest => (word? "ull" rest).map fun rest => (null, rest)
    | 't' :: rest => (word? "rue" rest).map fun rest => (bool true, rest)
    | 'f' :: rest => (word? "alse" rest).map fun rest => (bool false, rest)
    | s => number? s

/-- The items of a list up to its closing bracket. -/
def items? : Nat → List Char → Option (List Json × List Char)
  | 0, _ => none
  | n + 1, s => do
    let (item, s) ← value? n s
    match skip s with
    | ',' :: rest => do
      let (items, rest) ← items? n rest
      return (item :: items, rest)
    | ']' :: rest => return ([item], rest)
    | _ => none

/-- The members of an object up to its closing brace. -/
def members? : Nat → List Char → Option (List (Option String × Json) × List Char)
  | 0, _ => none
  | n + 1, s =>
    match skip s with
    | '"' :: rest => do
      let (key, rest) ← stringBody rest
      match skip rest with
      | ':' :: rest => do
        let (value, rest) ← value? n rest
        match skip rest with
        | ',' :: rest => do
          let (members, rest) ← members? n rest
          return ((key, value) :: members, rest)
        | '\x7d' :: rest => return ([(key, value)], rest)
        | _ => none
      | _ => none
    | _ => none

end

/-- The value of a text that holds one value and white space around it. -/
def parse? (s : String) : Option Json :=
  match value? (2 * s.length + 2) s.toList with
  | some (value, rest) => if (skip rest).isEmpty then some value else none
  | none => none

end Stencil.Json
