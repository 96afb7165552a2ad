import Stencil.Lowering.Sequence
import Stencil.Lowering.Tag

/-!
# Components

A component call takes its children apart: templates, contents for its slots, and its body.
Templates and slots may stand anywhere among the children; the body is what is left, lowered
as a sequence of siblings. The parts and the remaining attributes become one more argument of
the call.

The functions here do not recurse into the tree: they are given the lowerings of the child as
a node and of its contents, and run the one that applies.
-/

namespace Stencil

/-- The children of a component on the way. -/
structure Parts where
  body : Siblings := {}
  slots : Dict := .empty
  templates : Dict := .empty
deriving DecidableEq, Repr

namespace Parts

/-- Adds a template, whose code is that of the tag's contents. -/
def addTemplate (parts : Parts) (tag : Tag) (contents : Lowering Sequence) :
    Lowering Parts := do
  let _ ← tag.strictDescriptor false
  let name ← tag.require "name"
  let code ← contents
  if parts.templates.contains name then
    Pass.fail { cause := .repeatedTemplate name }
  else
    let closure := Runtime.template ((tag.attr? "types").getD "") code.code
    return { parts with templates := parts.templates.insert name closure }

/-- Adds the content of a slot, which cannot be an alternative. -/
def addSlot (parts : Parts) (tag : Tag) (slot : String) (whole : Lowering Fragment) :
    Lowering Parts := do
  let fragment ← whole
  if fragment.branch?.isSome then
    Pass.fail { cause := .branchInSlot slot, context := some tag.describe }
  else if parts.slots.contains slot then
    Pass.fail { cause := .repeatedSlot slot }
  else
    return { parts with slots := parts.slots.insert slot fragment.code }

/-- Adds a node of the body. -/
def addBody (parts : Parts) (whole : Lowering Fragment) : Lowering Parts := do
  let fragment ← whole
  let body ← Pass.ofExcept (parts.body.push fragment)
  return { parts with body }

/-- Adds a child by what it is for. -/
def add (parts : Parts) (whole : Lowering Fragment) (contents : Lowering Sequence) :
    Node → Lowering Parts
  | .element tag _ =>
    if tag.name = "template" then
      parts.addTemplate tag contents
    else
      match tag.attr? "slot" with
      | some slot => parts.addSlot tag slot whole
      | none => parts.addBody whole
  | .text _ | .comment _ => parts.addBody whole

end Parts

namespace Component

/-- A call to a component, with its parts as one more argument unless there are none. -/
def call (rt : Runtime) (run : String) (attrs : Dict) (parts : Parts) : String :=
  match rt.configuration parts.body.finish.code parts.slots parts.templates attrs with
  | some configuration => Runtime.appendArgument run configuration
  | none => run

/-- Lowers the tag of a component around its parts. -/
def lower (rt : Runtime) (tag : Tag) (parts : Lowering Parts) : Lowering Fragment := do
  let d ← tag.strictDescriptor true
  let run ← Text.trim <$> tag.require "run"
  if Text.endsWith ')' run then
    let parts ← Pass.within tag.describe parts
    return .element (call rt run (d.attrs.erase "run") parts) d
  else
    Pass.fail { cause := .notACall run, context := some tag.describe }

/-- Lowers the place of a slot. Its children are not looked at. -/
def lowerSlot (tag : Tag) : Lowering Fragment := do
  let d ← tag.strictDescriptor true
  let name ← tag.require "name"
  return .element (Runtime.slot name) d

/-- Lowers the place of the body. Its children are not looked at. -/
def lowerBody (rt : Runtime) (tag : Tag) : Lowering Fragment := do
  let d ← tag.strictDescriptor true
  return .element rt.body d

end Component

end Stencil
