import Stencil.Markup.Node
import Stencil.Markup.Reference

/-!
# Tokens of markup

Markup is a sequence of tokens: text, start tags, end tags and comments. Text is read in one
of several ways. Ordinary text may hold tags and references. Inside some elements only the end
tag of the element is a tag, with or without references; scripts have their own rules for what
hides an end tag; plain text never ends.

A `Draft` is a tag whose characters are still being read.
-/

namespace Stencil.Markup

/-- A token. Runs of characters are joined before they become a token. -/
inductive Token where
  | text (chars : List Char)
  | startTag (tag : Tag) (selfClosing : Bool)
  | endTag (name : String)
  | comment (text : String)
deriving DecidableEq, Repr

/-- How deep a script is in what looks like a comment. -/
inductive ScriptState where
  /-- Outside. -/
  | plain
  /-- After the opening of a comment, or its first dash. -/
  | opening (dash : Bool)
  /-- In a comment, after at most two dashes. -/
  | comment (dashes : Nat)
  /-- In the name of a tag inside a comment. -/
  | openName (reversed : List Char)
  /-- In a script inside a comment, after at most two dashes. -/
  | nested (dashes : Nat)
  /-- After a less-than sign in a script inside a comment. -/
  | nestedLess
  /-- In the name of an end tag in a script inside a comment. -/
  | closeName (reversed : List Char)
deriving DecidableEq, Repr

/-- How text is read. -/
inductive TextMode where
  /-- Tags, comments and references count. -/
  | ordinary
  /-- References and the end tag of the element count. -/
  | escapable (element : String)
  /-- Only the end tag of the element counts. -/
  | raw (element : String)
  /-- Only the end tag counts, unless a comment hides it. -/
  | script (state : ScriptState)
  /-- Nothing counts. -/
  | plain
deriving DecidableEq, Repr

/-- A tag on the way. Names and values are given last character first. -/
structure Draft where
  isEnd : Bool
  name : List Char
  selfClosing : Bool := false
  /-- The attributes that are complete, last first. -/
  done : List Attribute := []
  /-- The name and the value of the attribute that is being read. -/
  current : Option (List Char × List Char) := none
deriving DecidableEq, Repr

namespace Draft

/-- The letter in lower case, and the replacement for the null character. -/
def nameChar (c : Char) : Char :=
  if c = '\x00' then Reference.replacement else c.toLower

/-- The null character is replaced in values. -/
def valueChar (c : Char) : Char :=
  if c = '\x00' then Reference.replacement else c

/-- Completes the attribute that is being read. -/
def completed (t : Draft) : Draft :=
  match t.current with
  | some (name, value) =>
    { t with
      done := ⟨String.ofList name.reverse, String.ofList value.reverse⟩ :: t.done
      current := none }
  | none => t

/-- Adds a character to the name of the tag. -/
def pushName (t : Draft) (c : Char) : Draft :=
  { t with name := nameChar c :: t.name }

/-- Begins an attribute. -/
def beginAttribute (t : Draft) (c : Char) : Draft :=
  { t.completed with current := some ([nameChar c], []) }

/-- Adds a character to the name of the attribute. -/
def pushKey (t : Draft) (c : Char) : Draft :=
  { t with current := t.current.map fun (name, value) => (nameChar c :: name, value) }

/-- Adds characters to the value of the attribute. -/
def pushValue (t : Draft) (cs : List Char) : Draft :=
  { t with current := t.current.map fun (name, value) => (name, cs.reverse ++ value) }

/-- Of several attributes with one key, the first counts. -/
def firstOnly : List Attribute → List Attribute
  | [] => []
  | a :: rest => a :: (firstOnly rest).filter fun b => b.key != a.key

/-- The token of a complete tag. -/
def token (t : Draft) : Token :=
  let t := t.completed
  let name := String.ofList t.name.reverse
  if t.isEnd then .endTag name else .startTag ⟨name, firstOnly t.done.reverse⟩ t.selfClosing

end Draft

end Stencil.Markup
