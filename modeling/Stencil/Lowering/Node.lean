import Stencil.Lowering.Component
import Stencil.Lowering.Switch

/-!
# Lowering of markup trees

A tree is lowered depth first and in source order. What is done at a node is said by functions
that do not recurse (`Element.lower`, `Component.lower`, `Switch.lower`, `Parts.add`,
`Arms.add`); the recursion here only hands them the lowerings of the children. An element with
a loop clause takes its number after its children have taken theirs.
-/

namespace Stencil

/-- What the name of a tag makes of an element. -/
inductive ElementKind where
  | component
  | slot
  | body
  | switch
  | ordinary
deriving DecidableEq, Repr

/-- The kind of element that a tag name stands for. -/
def ElementKind.ofName : String → ElementKind
  | "e" => component
  | "g-slot" => slot
  | "g-body" => body
  | "g-switch" => switch
  | _ => ordinary

namespace Element

/-- Lowers an ordinary element around its children: siblings, or arms if it is a switch. -/
def lower (rt : Runtime) (tag : Tag) (siblings : Lowering Sequence) (arms : Lowering Arms) :
    Lowering Fragment :=
  Pass.within tag.describe do
    let d ← tag.descriptor
    match d.switchTarget with
    | some target => do
      let arms ← arms
      return .element (rt.element d (Runtime.switch target arms.code ++ separator)) d
    | none => do
      let children ← siblings
      return .element (rt.element d children.code) d

end Element

namespace Fragment

/-- Repeats an element by its loop clause, if it has one. -/
def looped : Fragment → Lowering Fragment
  | element code descriptor =>
    match descriptor.loopClause with
    | some clause => do
      let n ← Pass.freshLoop
      return element (Runtime.loop clause code (Runtime.loopName n)) descriptor
    | none => pure (element code descriptor)
  | text code => pure (text code)
  | comment code => pure (comment code)

end Fragment

mutual

/-- Lowers a node. -/
def Node.lower (rt : Runtime) : Node → Lowering Fragment
  | .comment value => pure (.comment (Host.comment value))
  | .text value => pure (.text (Host.segments (Segment.ofText value)))
  | .element tag children => do
    let fragment ←
      match ElementKind.ofName tag.name with
      | .component => Component.lower rt tag (lowerParts rt {} children)
      | .slot => Component.lowerSlot tag
      | .body => Component.lowerBody rt tag
      | .switch => Switch.lower tag (lowerArms rt {} children)
      | .ordinary =>
        Element.lower rt tag (Siblings.finish <$> lowerSiblings rt {} children)
          (lowerArms rt {} children)
    fragment.looped

/-- Lowers the contents of a node as siblings. -/
def Node.lowerContents (rt : Runtime) : Node → Lowering Sequence
  | .element _ children => Siblings.finish <$> lowerSiblings rt {} children
  | .text _ | .comment _ => pure {}

/-- Lowers siblings after those that are done. -/
def lowerSiblings (rt : Runtime) (done : Siblings) : List Node → Lowering Siblings
  | [] => pure done
  | node :: rest => do
    let fragment ← node.lower rt
    let done ← Pass.ofExcept (done.push fragment)
    lowerSiblings rt done rest

/-- Lowers children of a component after those that are done. -/
def lowerParts (rt : Runtime) (done : Parts) : List Node → Lowering Parts
  | [] => pure done
  | node :: rest => do
    let done ← done.add (node.lower rt) (node.lowerContents rt) node
    lowerParts rt done rest

/-- Lowers children of a switch after those that are done. -/
def lowerArms (rt : Runtime) (done : Arms) : List Node → Lowering Arms
  | [] => pure done
  | node :: rest => do
    let done ← done.add (node.lower rt) node
    lowerArms rt done rest

end

/-- Lowers siblings to their code, with a separator after every one but comments. -/
def lowerChildren (rt : Runtime) (nodes : List Node) : Lowering String := do
  let siblings ← lowerSiblings rt {} nodes
  return siblings.finish.code

/-- Lowers the siblings of a block to a list of arguments: the last separator is left out. -/
def lowerBlock (rt : Runtime) (nodes : List Node) : Lowering String := do
  let siblings ← lowerSiblings rt {} nodes
  return siblings.finish.withoutLast

end Stencil
