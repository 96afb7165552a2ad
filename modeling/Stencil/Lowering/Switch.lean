import Stencil.Lowering.Sequence
import Stencil.Lowering.Tag

/-!
# Switches

The children of a switch are its arms: elements for one value each, and at most one for all
other values. White space and comments between them are passed over.
-/

namespace Stencil

/-- The arms of a switch on the way. -/
structure Arms where
  code : String := ""
  hasDefault : Bool := false
deriving DecidableEq, Repr

namespace Arms

/-- Adds an element as an arm. -/
def addElement (arms : Arms) (tag : Tag) (whole : Lowering Fragment) : Lowering Arms := do
  let fragment ← whole
  match fragment.branch? with
  | some (.case value) =>
    return { arms with code := arms.code ++ Runtime.caseArm value fragment.code }
  | some .default =>
    if arms.hasDefault then
      Pass.fail { cause := .repeatedDefault, context := some tag.describe }
    else
      return { code := arms.code ++ Runtime.defaultArm fragment.code, hasDefault := true }
  | _ => Pass.fail { cause := .notAnArm, context := some tag.describe }

/-- Adds a child, given its lowering. -/
def add (arms : Arms) (whole : Lowering Fragment) : Node → Lowering Arms
  | .comment _ => pure arms
  | .text value =>
    if Text.isBlank value then
      pure arms
    else
      Pass.fail { cause := .textInSwitch (Text.trim value) }
  | .element tag _ => arms.addElement tag whole

end Arms

namespace Switch

/-- Lowers the tag of a switch around its arms. -/
def lower (tag : Tag) (arms : Lowering Arms) : Lowering Fragment := do
  let d ← tag.strictDescriptor true
  let target ← tag.require "run"
  let arms ← Pass.within tag.describe arms
  return .element (Runtime.switch target arms.code) d

end Switch

end Stencil
