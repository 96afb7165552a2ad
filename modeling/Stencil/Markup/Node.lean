import Stencil.Text

/-!
# Markup trees

A template is a list of sibling nodes: elements with an opening tag and children, text, and
comments. Attributes keep their source order and may repeat a key.
-/

namespace Stencil

/-- A key with its value. An attribute written without a value has the empty one. -/
structure Attribute where
  key : String
  value : String
deriving DecidableEq, Repr

/-- The opening tag of an element. -/
structure Tag where
  name : String
  attributes : List Attribute := []
deriving DecidableEq, Repr

/-- A node of a markup tree. -/
inductive Node where
  | element (tag : Tag) (children : List Node)
  | text (value : String)
  | comment (value : String)
deriving Repr

namespace Attribute

/-- The attribute as it is shown in an opening tag; an empty value is not written. -/
def describe (a : Attribute) : String :=
  if a.value = "" then " " ++ a.key else " " ++ a.key ++ "=\"" ++ a.value ++ "\""

end Attribute

namespace Tag

/-- The value of the first attribute with a key. An empty value counts as absent. -/
def attr? (tag : Tag) (key : String) : Option String :=
  match tag.attributes.find? fun a => a.key == key with
  | some a => if a.value = "" then none else some a.value
  | none => none

/-- The opening tag as it is shown in a diagnostic. -/
def describe (tag : Tag) : String :=
  "<" ++ tag.name ++ String.join (tag.attributes.map Attribute.describe) ++ ">"

end Tag

namespace Node

/-- Text of white space only. -/
def isBlank : Node → Bool
  | text value => Text.isBlank value
  | element .. | comment _ => false

end Node

end Stencil
