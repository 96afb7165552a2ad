import Stencil.Lowering.Pass
import Stencil.Template.Descriptor

/-!
# Opening tags

Every attribute of a tag is reported before its role is looked at. An ordinary tag takes any
attribute. The tags of components take plain attributes only, and those that stand for a node
also the directives that place it among its siblings.
-/

namespace Stencil.Tag

/-- Reports the attributes one by one and adds them to a descriptor. -/
def collect (d : Descriptor) : List Attribute → Lowering Descriptor
  | [] => pure d
  | a :: rest => do
    Pass.observe a
    match d.add a with
    | .ok d => collect d rest
    | .error cause => Pass.fail { cause }

/-- The descriptor of a tag. -/
def descriptor (tag : Tag) : Lowering Descriptor :=
  collect { tag := tag.name } tag.attributes

/-- Which attributes a tag of a component takes. -/
def accepts (controlFlow : Bool) (a : Attribute) : Bool :=
  match Role.ofKey a.key with
  | .plain _ => true
  | .directive directive => controlFlow && directive.isControlFlow
  | .handler _ | .bind _ => false

/-- The descriptor of a tag of a component, if the tag takes all its attributes. -/
def strictDescriptor (tag : Tag) (controlFlow : Bool) : Lowering Descriptor :=
  Pass.within tag.describe do
    let d ← tag.descriptor
    match tag.attributes.find? fun a => !accepts controlFlow a with
    | some a => Pass.fail { cause := .unsupportedAttribute tag.name a.key }
    | none => pure d

/-- The value of an attribute that the tag must have. -/
def require (tag : Tag) (key : String) : Lowering String :=
  match tag.attr? key with
  | some value => pure value
  | none =>
    Pass.fail { cause := .missingAttribute tag.name key, context := some tag.describe }

end Stencil.Tag
