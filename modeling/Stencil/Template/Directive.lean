import Stencil.Text

/-!
# Directives and attribute roles

An attribute plays a role by its key alone. `g-on:` and `@` name an event handler, `g-bind:`
and `:` a bound attribute, ten keys are directives, and every other key is a plain attribute.
The long spelling of a handler or bind is tried before the short one, and handlers are tried
before binds.
-/

namespace Stencil

/-- The keys with a meaning of their own. -/
inductive Directive where
  /-- Names the element for later reference. -/
  | ref
  /-- Renders an expression as raw content. -/
  | html
  /-- Repeats the element. -/
  | loop
  /-- Opens a chain of alternatives. -/
  | ifCond
  /-- Extends a chain of alternatives under a condition. -/
  | elseIf
  /-- Closes a chain of alternatives. -/
  | otherwise
  /-- Makes the children of the element the arms of a switch. -/
  | switch
  /-- An arm of a switch for one value. -/
  | case
  /-- The arm of a switch for all other values. -/
  | default
  /-- Marks the element as a pointer. -/
  | pointer
deriving DecidableEq, Repr

namespace Directive

/-- The attribute key of a directive. -/
def key : Directive → String
  | ref => "g-ref"
  | html => "g-html"
  | loop => "g-for"
  | ifCond => "g-if"
  | elseIf => "g-else-if"
  | otherwise => "g-else"
  | switch => "g-switch"
  | case => "g-case"
  | default => "g-default"
  | pointer => "g-pointer"

/-- Every directive, once. -/
def all : List Directive :=
  [ref, html, loop, ifCond, elseIf, otherwise, switch, case, default, pointer]

/-- The directive with a key, if the key is one. -/
def ofKey? (key : String) : Option Directive :=
  all.find? fun directive => directive.key == key

/-- The directives that place an element among its siblings. -/
def isControlFlow : Directive → Bool
  | ifCond | elseIf | otherwise | case | default | loop => true
  | ref | html | switch | pointer => false

/-- Reading back a directive's key gives the directive. -/
theorem ofKey?_key (directive : Directive) : ofKey? directive.key = some directive := by
  cases directive <;> decide

/-- A key read as a directive is that directive's key. -/
theorem key_of_ofKey? {key : String} {directive : Directive}
    (h : ofKey? key = some directive) : directive.key = key := by
  simpa using List.find?_some h

end Directive

/-- What an attribute is for, as its key tells. -/
inductive Role where
  /-- Runs code on an event. -/
  | handler (event : String)
  /-- Sets an attribute from an expression. -/
  | bind (target : String)
  /-- Steers the template itself. -/
  | directive (directive : Directive)
  /-- An ordinary attribute. -/
  | plain (key : String)
deriving DecidableEq, Repr

namespace Role

/-- The event that a handler key names. -/
def event? (key : String) : Option String :=
  Text.after? "g-on:" key <|> Text.after? "@" key

/-- The attribute that a bind key names. -/
def target? (key : String) : Option String :=
  Text.after? "g-bind:" key <|> Text.after? ":" key

/-- The role of an attribute key. -/
def ofKey (key : String) : Role :=
  match event? key with
  | some event => handler event
  | none =>
    match target? key with
    | some target => bind target
    | none =>
      match Directive.ofKey? key with
      | some found => directive found
      | none => plain key

end Role

end Stencil
