import Stencil.Diagnostic
import Stencil.Dict
import Stencil.Markup.Node
import Stencil.Template.Iteration

/-!
# Element descriptors

A descriptor says what the attributes of an element ask for. Attributes are added one after
the other: a later plain attribute, handler, bind or optional directive replaces an earlier
one of the same target, whereas a second directive among the branches is an error.
-/

namespace Stencil

/-- The part that an element plays among its siblings. -/
inductive Branch where
  | ifCond (condition : String)
  | elseIf (condition : String)
  | otherwise
  | case (value : String)
  | default
deriving DecidableEq, Repr

/-- The directive that gives an element its part. -/
def Branch.directive : Branch → Directive
  | ifCond _ => .ifCond
  | elseIf _ => .elseIf
  | otherwise => .otherwise
  | case _ => .case
  | default => .default

/-- What the attributes of an element ask for. -/
structure Descriptor where
  tag : String
  /-- Plain attributes. -/
  attrs : Dict := .empty
  /-- Code to run, by event. -/
  handlers : Dict := .empty
  /-- Expressions, by the attribute that they set. -/
  binds : Dict := .empty
  reference : Option String := none
  /-- The expression for the raw content. -/
  rawHtml : Option String := none
  /-- The clause to repeat the element by. -/
  loopClause : Option String := none
  branch : Option Branch := none
  /-- The value that the children are the arms for. -/
  switchTarget : Option String := none
  isPointer : Bool := false
deriving DecidableEq, Repr

namespace Descriptor

/-- Gives the element a part among its siblings; it can have one only. -/
def setBranch (d : Descriptor) (branch : Branch) : Except Cause Descriptor :=
  match d.branch with
  | some first => .error (.branchConflict d.tag first.directive branch.directive)
  | none => .ok { d with branch := some branch }

/-- Carries out a directive. -/
def direct (d : Descriptor) (value : String) : Directive → Except Cause Descriptor
  | .ref => .ok { d with reference := some value }
  | .html => .ok { d with rawHtml := some value }
  | .loop => .ok { d with loopClause := some (Iteration.normalize value) }
  | .switch => .ok { d with switchTarget := some value }
  | .pointer => .ok { d with isPointer := true }
  | .ifCond => d.setBranch (.ifCond value)
  | .elseIf => d.setBranch (.elseIf value)
  | .otherwise => d.setBranch .otherwise
  | .case => d.setBranch (.case value)
  | .default => d.setBranch .default

/-- Adds an attribute by its role. -/
def add (d : Descriptor) (a : Attribute) : Except Cause Descriptor :=
  match Role.ofKey a.key with
  | .handler event => .ok { d with handlers := d.handlers.insert event a.value }
  | .bind target => .ok { d with binds := d.binds.insert target a.value }
  | .plain key => .ok { d with attrs := d.attrs.insert key a.value }
  | .directive directive => d.direct a.value directive

end Descriptor

end Stencil
