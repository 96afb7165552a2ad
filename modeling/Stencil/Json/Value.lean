import Stencil.Chars.Digit

/-!
# JSON values and their compact text

A string of JSON text may hold an escaped half of a character that no other half goes with. No
text can be made of it; such a string is kept as `none`, so that it can be passed over where
nothing needs it.

`render` writes a value without white space. In strings it escapes quotes, backslashes and the
control characters below the space, and nothing else.
-/

namespace Stencil

/-- A JSON value. Numbers are kept as they are written. -/
inductive Json where
  | null
  | bool (value : Bool)
  | number (digits : String)
  | string (value : Option String)
  | array (items : List Json)
  | object (members : List (Option String × Json))
deriving Repr

namespace Json

mutual

/-- Equality of values is decided member by member. -/
def decEq : (v w : Json) → Decidable (v = w)
  | null, null => isTrue rfl
  | bool b, bool b' => decidable_of_iff (b = b') ⟨congrArg bool, bool.inj⟩
  | number d, number d' => decidable_of_iff (d = d') ⟨congrArg number, number.inj⟩
  | string s, string s' => decidable_of_iff (s = s') ⟨congrArg string, string.inj⟩
  | array items, array items' =>
    haveI := decEqItems items items'
    decidable_of_iff (items = items') ⟨congrArg array, array.inj⟩
  | object members, object members' =>
    haveI := decEqMembers members members'
    decidable_of_iff (members = members') ⟨congrArg object, object.inj⟩
  | null, bool _ | null, number _ | null, string _ | null, array _ | null, object _
  | bool _, null | bool _, number _ | bool _, string _ | bool _, array _ | bool _, object _
  | number _, null | number _, bool _ | number _, string _ | number _, array _
  | number _, object _ | string _, null | string _, bool _ | string _, number _
  | string _, array _ | string _, object _ | array _, null | array _, bool _
  | array _, number _ | array _, string _ | array _, object _ | object _, null
  | object _, bool _ | object _, number _ | object _, string _ | object _, array _ =>
    isFalse nofun

/-- Equality of the items of lists. -/
def decEqItems : (items items' : List Json) → Decidable (items = items')
  | [], [] => isTrue rfl
  | item :: rest, item' :: rest' =>
    haveI := decEq item item'
    haveI := decEqItems rest rest'
    decidable_of_iff (item = item' ∧ rest = rest') List.cons_eq_cons.symm
  | [], _ :: _ | _ :: _, [] => isFalse nofun

/-- Equality of the members of objects. -/
def decEqMembers : (members members' : List (Option String × Json)) →
    Decidable (members = members')
  | [], [] => isTrue rfl
  | (key, value) :: rest, (key', value') :: rest' =>
    haveI := decEq value value'
    haveI := decEqMembers rest rest'
    decidable_of_iff ((key = key' ∧ value = value') ∧ rest = rest') (by simp)
  | [], _ :: _ | _ :: _, [] => isFalse nofun

end

instance : DecidableEq Json := decEq

/-- A character inside a string. -/
def escapeChar (c : Char) : List Char :=
  if c = '"' then ['\\', '"']
  else if c = '\\' then ['\\', '\\']
  else if c = '\x08' then ['\\', 'b']
  else if c = '\t' then ['\\', 't']
  else if c = '\n' then ['\\', 'n']
  else if c = '\x0c' then ['\\', 'f']
  else if c = '\r' then ['\\', 'r']
  else if c.toNat < 0x20 then
    ['\\', 'u', '0', '0', Chars.hexChar (c.toNat / 16), Chars.hexChar (c.toNat % 16)]
  else [c]

/-- A string between quotes. -/
def quoteChars (s : List Char) : List Char := '"' :: s.flatMap escapeChar ++ ['"']

/-- The text of a string. -/
def quote (s : String) : String := String.ofList (quoteChars s.toList)

mutual

/-- The compact text of a value. -/
def render : Json → String
  | null => "null"
  | bool true => "true"
  | bool false => "false"
  | number digits => digits
  | string value => quote (value.getD "")
  | array items => "[" ++ renderItems items ++ "]"
  | object members => "\x7b" ++ renderMembers members ++ "\x7d"

/-- The items of a list, between commas. -/
def renderItems : List Json → String
  | [] => ""
  | [item] => item.render
  | item :: rest => item.render ++ "," ++ renderItems rest

/-- The members of an object, between commas. -/
def renderMembers : List (Option String × Json) → String
  | [] => ""
  | [(key, value)] => quote (key.getD "") ++ ":" ++ value.render
  | (key, value) :: rest =>
    quote (key.getD "") ++ ":" ++ value.render ++ "," ++ renderMembers rest

end

/-- The text of a value that is a string. -/
def text? : Json → Option String
  | string value => value
  | _ => none

/-- The value of a truth value. -/
def bool? : Json → Option Bool
  | bool value => some value
  | _ => none

/-- The texts of a list of strings. -/
def texts? : Json → Option (List String)
  | array items => items.mapM text?
  | _ => none

/-- An object with text keys. -/
def ofMembers (members : List (String × Json)) : Json :=
  object (members.map fun (key, value) => (some key, value))

/-- A list of texts. -/
def ofTexts (items : List String) : Json := array (items.map fun item => string (some item))

end Json

end Stencil
