import Stencil.Proofs.WellFormed

/-!
# Rendering without state

The code of a template, written down as a function of the tree alone. It does not fail, keeps
no count and makes no reports; where it needs the number of a loop it is given one for every
place of the tree. The lowering of a well-formed template is its rendering (see
`Stencil.Proofs.Acceptance`), so that statements about the code need not look at passes.

A `Place` says where a node stands: its index among its siblings, then that of its parent, and
so on outwards.

## Main definitions

* `Node.render`, `renderAll`, `renderParts`: the code of a node, of siblings, and what the
  children of a component contribute to it.
* `Node.loops`, `loopsBelow`: the places of the repeated elements, in post-order.
* `Node.observed`, `observedBelow`: the attributes of the elements, in pre-order.
* `Node.finished` and its companions: of the repeated elements, those whose lowering is over
  when the lowering of the node is over, whether it succeeds or not.
-/

namespace Stencil

/-! ### Children of a component -/

/-- What a child of a component contributes to it. -/
inductive Contribution where
  /-- A function under a name. -/
  | template (name closure : String)
  /-- The content of a slot, with the tag that it comes from. -/
  | slot (name : String) (tag : Tag) (fragment : Fragment)
  /-- A sibling of the body. -/
  | body (fragment : Fragment)

namespace Contribution

/-- The template among the contributions. -/
def template? : Contribution → Option (String × String)
  | template name closure => some (name, closure)
  | slot .. | body _ => none

/-- The content of a slot among the contributions. -/
def slot? : Contribution → Option (String × String)
  | slot name _ fragment => some (name, fragment.code)
  | template .. | body _ => none

/-- The sibling of the body among the contributions. -/
def body? : Contribution → Option Fragment
  | body fragment => some fragment
  | template .. | slot .. => none

end Contribution

/-- What a child of a component contributes, given its code as a node and as a template. -/
def Node.contribution (whole : Fragment) (closure : String) : Node → Contribution
  | .element tag _ =>
      if tag.name = "template" then
        .template ((tag.attr? "name").getD "") closure
      else
        match tag.attr? "slot" with
        | some slot => .slot slot tag whole
        | none => .body whole
  | .text _ | .comment _ => .body whole

/-! ### The code of an element around its children -/

/-- The sequence that siblings make: their items, in order. -/
def Sequence.ofFragments (fragments : List Fragment) : Sequence :=
  ofItems (Item.split (fragments.filter Fragment.isShown)).1

/-- The parts of a component, from what its children contribute. -/
def Parts.ofContributions (contributions : List Contribution) : Parts where
  body := { done := .ofFragments (contributions.filterMap Contribution.body?) }
  slots := Dict.empty.insertAll (contributions.filterMap Contribution.slot?)
  templates := Dict.empty.insertAll (contributions.filterMap Contribution.template?)

/-- The arm of a switch that a child becomes. -/
def Fragment.arm (f : Fragment) : String :=
  match f.branch? with
  | some (.case value) => Runtime.caseArm value f.code
  | some .default => Runtime.defaultArm f.code
  | _ => ""

namespace Tag

/-- The element has a loop clause. -/
def isLoop (tag : Tag) : Bool := tag.described.loopClause.isSome

/-- The code of an element around the code of its children, before it is repeated. -/
def code (rt : Runtime) (tag : Tag) (fragments : List Fragment)
    (contributions : List Contribution) : String :=
  match ElementKind.ofName tag.name with
  | .component =>
      Component.call rt (Text.trim ((tag.attr? "run").getD "")) (tag.described.attrs.erase "run")
        (.ofContributions contributions)
  | .slot => Runtime.slot ((tag.attr? "name").getD "")
  | .body => rt.body
  | .switch =>
      Runtime.switch ((tag.attr? "run").getD "") (String.join (fragments.map Fragment.arm))
  | .ordinary =>
      match tag.described.switchTarget with
      | some target =>
          rt.element tag.described
            (Runtime.switch target (String.join (fragments.map Fragment.arm)) ++ separator)
      | none => rt.element tag.described (Sequence.ofFragments fragments).code

/-- The code repeated by the loop clause of the element, if it has one. -/
def repeated (tag : Tag) (number : Nat) (code : String) : String :=
  match tag.described.loopClause with
  | some clause => Runtime.loop clause code (Runtime.loopName number)
  | none => code

end Tag

/-! ### Places -/

/-- Where a node stands: its index among its siblings, and then the place of its parent. -/
abbrev Place := List Nat

/-- Siblings with their places, from an index on. -/
def withPlaces (here : Place) (i : Nat) : List Node → List (Place × Node)
  | [] => []
  | node :: rest => (i :: here, node) :: withPlaces here (i + 1) rest

/-! ### The code of a tree -/

mutual

/-- The code of a node, with the loop at each place under the number given for it. -/
def Node.render (rt : Runtime) (number : Place → Nat) (here : Place) : Node → Fragment
  | .comment value => .comment (Host.comment value)
  | .text value => .text (Host.segments (Segment.ofText value))
  | .element tag children =>
      .element
        (tag.repeated (number here)
          (tag.code rt (renderAll rt number here 0 children)
            (renderParts rt number here 0 children)))
        tag.described

/-- The function that a template of a component becomes. -/
def Node.renderTemplate (rt : Runtime) (number : Place → Nat) (here : Place) : Node → String
  | .element tag children =>
      Runtime.template ((tag.attr? "types").getD "")
        (Sequence.ofFragments (renderAll rt number here 0 children)).code
  | .text _ | .comment _ => ""

/-- The code of each of a list of siblings. -/
def renderAll (rt : Runtime) (number : Place → Nat) (here : Place) (i : Nat) :
    List Node → List Fragment
  | [] => []
  | node :: rest =>
      node.render rt number (i :: here) :: renderAll rt number here (i + 1) rest

/-- What each of the children of a component contributes. -/
def renderParts (rt : Runtime) (number : Place → Nat) (here : Place) (i : Nat) :
    List Node → List Contribution
  | [] => []
  | node :: rest =>
      node.contribution (node.render rt number (i :: here))
          (node.renderTemplate rt number (i :: here)) ::
        renderParts rt number here (i + 1) rest

end

/-! ### The repeated elements, in post-order -/

mutual

/-- The places of the repeated elements of a tree: those below the node, and then the node
itself. -/
def Node.loops (here : Place) : Node → List Place
  | .text _ | .comment _ => []
  | .element tag children =>
      (if tag.layout = .ignored then [] else loopsBelow here 0 children) ++
        if tag.isLoop then [here] else []

/-- The places of the repeated elements of siblings, in source order. -/
def loopsBelow (here : Place) (i : Nat) : List Node → List Place
  | [] => []
  | node :: rest => node.loops (i :: here) ++ loopsBelow here (i + 1) rest

end

/-! ### The attributes, in pre-order -/

mutual

/-- The attributes of the elements of a tree: those of the node, and then those below it. -/
def Node.observed : Node → List Attribute
  | .text _ | .comment _ => []
  | .element tag children =>
      tag.attributes ++ if tag.layout = .ignored then [] else observedBelow children

/-- The attributes of siblings, in source order. -/
def observedBelow : List Node → List Attribute
  | [] => []
  | node :: rest => node.observed ++ observedBelow rest

end

/-! ### The repeated elements that a lowering finishes -/

/-- Well-formed siblings. -/
def WellFormedSiblings (nodes : List Node) : Prop :=
  SiblingsPlaced nodes ∧ AllWellFormed nodes

/-- Well-formed children of a switch. -/
def WellFormedArms (nodes : List Node) : Prop :=
  ArmsPlaced nodes ∧ AllWellFormed nodes

/-- Well-formed children of a component. -/
def WellFormedParts (nodes : List Node) : Prop :=
  PartsPlaced nodes ∧ PartsWellFormed nodes

instance : DecidablePred WellFormedSiblings := fun _ => inferInstanceAs (Decidable (_ ∧ _))
instance : DecidablePred WellFormedArms := fun _ => inferInstanceAs (Decidable (_ ∧ _))
instance : DecidablePred WellFormedParts := fun _ => inferInstanceAs (Decidable (_ ∧ _))

mutual

/-- Of the repeated elements of a tree, those whose lowering is over when the lowering of the
node is over. The children come into it only if the tag is in order, and the node itself only
if it is well formed. -/
def Node.finished (here : Place) : Node → List Place
  | .text _ | .comment _ => []
  | .element tag children =>
      (if tag.Fits then
        match tag.layout with
        | .siblings => finishedAmong (decide <| WellFormedSiblings ·) here 0 [] children
        | .arms => finishedAmong (decide <| WellFormedArms ·) here 0 [] children
        | .parts => finishedParts here 0 [] children
        | .ignored => []
      else []) ++
        if tag.isLoop ∧ (Node.element tag children).WellFormed then [here] else []

/-- The same for a template of a component, which is not repeated itself. -/
def Node.finishedTemplate (here : Place) : Node → List Place
  | .text _ | .comment _ => []
  | .element tag children =>
      if tag.FitsTemplate then
        finishedAmong (decide <| WellFormedSiblings ·) here 0 [] children
      else []

/-- The same for a list: the members are lowered in order, up to and including the first one
that is not admitted after those before it. -/
def finishedAmong (admitted : List Node → Bool) (here : Place) (i : Nat) (before : List Node) :
    List Node → List Place
  | [] => []
  | node :: rest =>
      node.finished (i :: here) ++
        if admitted (before ++ [node]) then
          finishedAmong admitted here (i + 1) (before ++ [node]) rest
        else []

/-- The same for the children of a component. -/
def finishedParts (here : Place) (i : Nat) (before : List Node) : List Node → List Place
  | [] => []
  | node :: rest =>
      (if node.isTemplate then node.finishedTemplate (i :: here)
        else node.finished (i :: here)) ++
        if WellFormedParts (before ++ [node]) then
          finishedParts here (i + 1) (before ++ [node]) rest
        else []

end

end Stencil
