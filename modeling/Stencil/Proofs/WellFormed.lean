import Stencil.Lowering.Node
import Stencil.Proofs.Descriptor
import Stencil.Proofs.Grouping

/-!
# Well-formed templates

The grammar of templates, apart from how they are lowered. What an element may be and what may
stand below it depends on its tag: the children of an ordinary element are siblings, those of a
switch are its arms, those of a component are its parts, and those of a slot or of a body are
not looked at. For each of the three kinds of list there is a condition on how its members are
placed, and each member has to be well formed itself.

## Main definitions

* `SiblingsPlaced`, `ArmsPlaced`, `PartsPlaced`: how the members of a list may stand.
* `Tag.Fits`, `Tag.FitsTemplate`: what an opening tag may be.
* `Node.WellFormed`, with `AllWellFormed` and `PartsWellFormed` for lists: a template is well
  formed all the way down.

Well-formedness is decidable, by the same recursion.
-/

namespace Stencil

/-! ### Nodes among their siblings -/

namespace Node

/-- The part that a node plays among its siblings. -/
def branch? : Node → Option Branch
  | element tag _ => tag.branches.head?
  | text _ | comment _ => none

/-- A node is shown unless it is a text without segments. -/
def isShown : Node → Bool
  | text value => !(Segment.ofText value).isEmpty
  | element .. | comment _ => true

/-- A child of a switch that can stand there: an arm, a comment, or white space. -/
def fitsSwitch : Node → Bool
  | element tag _ => tag.branches.head?.any Branch.isArm
  | text value => Text.isBlank value
  | comment _ => true

/-- An arm for all other values. -/
def isDefault (node : Node) : Bool := node.branch? == some .default

/-- A template, as a child of a component. -/
def isTemplate : Node → Bool
  | element tag _ => tag.name == "template"
  | text _ | comment _ => false

/-- The name of a template, as a child of a component. -/
def templateName? : Node → Option String
  | element tag _ => if tag.name = "template" then some ((tag.attr? "name").getD "") else none
  | text _ | comment _ => none

/-- The slot that a child of a component is for. -/
def slot? : Node → Option String
  | element tag _ => if tag.name = "template" then none else tag.attr? "slot"
  | text _ | comment _ => none

/-- A child of a component that belongs to the body. -/
def isBody (node : Node) : Bool := !node.isTemplate && node.slot?.isNone

end Node

/-! ### Lists of children -/

/-- Siblings are placed well when, of those that are shown, none is an arm of a switch and every
alternative directly follows a condition or a conditional alternative. -/
def SiblingsPlaced (nodes : List Node) : Prop :=
  Placed false ((nodes.filter Node.isShown).map Node.branch?)

/-- The children of a switch are placed well when every element is an arm, every text is white
space, and at most one arm is for all other values. -/
def ArmsPlaced (nodes : List Node) : Prop :=
  (∀ node ∈ nodes, node.fitsSwitch) ∧ nodes.countP Node.isDefault ≤ 1

/-- The children of a component are placed well when no two templates have one name, no two
contents are for one slot, no content of a slot plays a part among siblings, and the rest are
well placed siblings. -/
structure PartsPlaced (nodes : List Node) : Prop where
  templates : (nodes.filterMap Node.templateName?).Nodup
  slots : (nodes.filterMap Node.slot?).Nodup
  contents : ∀ node ∈ nodes, node.slot?.isSome → node.branch? = none
  body : SiblingsPlaced (nodes.filter Node.isBody)

instance (nodes : List Node) : Decidable (SiblingsPlaced nodes) :=
  inferInstanceAs (Decidable (Placed _ _))

instance (nodes : List Node) : Decidable (ArmsPlaced nodes) :=
  inferInstanceAs (Decidable (_ ∧ _))

instance (nodes : List Node) : Decidable (PartsPlaced nodes) :=
  decidable_of_iff
    ((nodes.filterMap Node.templateName?).Nodup ∧ (nodes.filterMap Node.slot?).Nodup ∧
      (∀ node ∈ nodes, node.slot?.isSome → node.branch? = none) ∧
      SiblingsPlaced (nodes.filter Node.isBody))
    ⟨fun ⟨h₁, h₂, h₃, h₄⟩ => ⟨h₁, h₂, h₃, h₄⟩, fun ⟨h₁, h₂, h₃, h₄⟩ => ⟨h₁, h₂, h₃, h₄⟩⟩

/-! ### Opening tags -/

/-- What the children of an element are to it. -/
inductive Layout where
  /-- Siblings of each other. -/
  | siblings
  /-- The arms of a switch. -/
  | arms
  /-- The parts of a component. -/
  | parts
  /-- Nothing: they are not looked at. -/
  | ignored
deriving DecidableEq, Repr

namespace Tag

/-- What the children of an element are, by its tag. -/
def layout (tag : Tag) : Layout :=
  match ElementKind.ofName tag.name with
  | .component => .parts
  | .slot | .body => .ignored
  | .switch => .arms
  | .ordinary => if tag.described.switchTarget.isSome then .arms else .siblings

/-- The attributes that the kind of an element demands and allows. A component needs a call, a
switch the value that it is over, and the place of a slot a name; only an ordinary element takes
any attribute. -/
def FitsKind (tag : Tag) : ElementKind → Prop
  | .component =>
      tag.Takes true ∧ (tag.attr? "run").any fun run => Text.endsWith ')' (Text.trim run)
  | .slot => tag.Takes true ∧ (tag.attr? "name").isSome
  | .body => tag.Takes true
  | .switch => tag.Takes true ∧ (tag.attr? "run").isSome
  | .ordinary => True

instance (tag : Tag) (kind : ElementKind) : Decidable (tag.FitsKind kind) := by
  cases kind <;> unfold FitsKind <;> infer_instance

/-- An opening tag is in order when at most one of its attributes, counted by occurrence, gives
it a part among its siblings, and its attributes fit its kind. -/
def Fits (tag : Tag) : Prop :=
  tag.branches.length ≤ 1 ∧ tag.FitsKind (ElementKind.ofName tag.name)

/-- The tag of a template in a component takes plain attributes only, among them a name. -/
def FitsTemplate (tag : Tag) : Prop :=
  (tag.branches.length ≤ 1 ∧ tag.Takes false) ∧ (tag.attr? "name").isSome

instance (tag : Tag) : Decidable tag.Fits := inferInstanceAs (Decidable (_ ∧ _))

instance (tag : Tag) : Decidable tag.FitsTemplate := inferInstanceAs (Decidable (_ ∧ _))

end Tag

/-! ### Trees -/

/-- The condition on the children of an element, by what they are to it. -/
def Layout.Demands (layout : Layout) (siblings arms parts : Prop) : Prop :=
  match layout with
  | .siblings => siblings
  | .arms => arms
  | .parts => parts
  | .ignored => True

instance (layout : Layout) (siblings arms parts : Prop) [Decidable siblings] [Decidable arms]
    [Decidable parts] : Decidable (layout.Demands siblings arms parts) := by
  cases layout <;> unfold Layout.Demands <;> infer_instance

mutual

/-- A node is well formed when its tag is in order, its children are placed well for what they
are to it, and they are well formed themselves. -/
def Node.WellFormed : Node → Prop
  | .text _ | .comment _ => True
  | .element tag children =>
      tag.Fits ∧
        tag.layout.Demands
          (SiblingsPlaced children ∧ AllWellFormed children)
          (ArmsPlaced children ∧ AllWellFormed children)
          (PartsPlaced children ∧ PartsWellFormed children)

/-- A template of a component is well formed when its tag is in order and its contents are well
formed siblings. -/
def Node.TemplateWellFormed : Node → Prop
  | .text _ | .comment _ => True
  | .element tag children =>
      tag.FitsTemplate ∧ SiblingsPlaced children ∧ AllWellFormed children

/-- Every node is well formed. -/
def AllWellFormed : List Node → Prop
  | [] => True
  | node :: rest => node.WellFormed ∧ AllWellFormed rest

/-- Every child of a component is well formed, as a template or as a node. -/
def PartsWellFormed : List Node → Prop
  | [] => True
  | node :: rest =>
      (if node.isTemplate then node.TemplateWellFormed else node.WellFormed) ∧
        PartsWellFormed rest

end

mutual

/-- Well-formedness is decided by its own recursion. -/
def Node.decidableWellFormed : (node : Node) → Decidable node.WellFormed
  | .text _ | .comment _ => .isTrue (by simp [Node.WellFormed])
  | .element tag children =>
      have := decidableAllWellFormed children
      have := decidablePartsWellFormed children
      decidable_of_iff
        (tag.Fits ∧
          tag.layout.Demands
            (SiblingsPlaced children ∧ AllWellFormed children)
            (ArmsPlaced children ∧ AllWellFormed children)
            (PartsPlaced children ∧ PartsWellFormed children))
        (by rw [Node.WellFormed])

def Node.decidableTemplateWellFormed : (node : Node) → Decidable node.TemplateWellFormed
  | .text _ | .comment _ => .isTrue (by simp [Node.TemplateWellFormed])
  | .element tag children =>
      have := decidableAllWellFormed children
      decidable_of_iff (tag.FitsTemplate ∧ SiblingsPlaced children ∧ AllWellFormed children)
        (by rw [Node.TemplateWellFormed])

def decidableAllWellFormed : (nodes : List Node) → Decidable (AllWellFormed nodes)
  | [] => .isTrue (by simp [AllWellFormed])
  | node :: rest =>
      have := node.decidableWellFormed
      have := decidableAllWellFormed rest
      decidable_of_iff (node.WellFormed ∧ AllWellFormed rest) (by rw [AllWellFormed])

def decidablePartsWellFormed : (nodes : List Node) → Decidable (PartsWellFormed nodes)
  | [] => .isTrue (by simp [PartsWellFormed])
  | node :: rest =>
      have := node.decidableWellFormed
      have := node.decidableTemplateWellFormed
      have := decidablePartsWellFormed rest
      decidable_of_iff
        ((if node.isTemplate then node.TemplateWellFormed else node.WellFormed) ∧
          PartsWellFormed rest)
        (by rw [PartsWellFormed])

end

instance : DecidablePred Node.WellFormed := Node.decidableWellFormed
instance : DecidablePred Node.TemplateWellFormed := Node.decidableTemplateWellFormed
instance : DecidablePred AllWellFormed := decidableAllWellFormed
instance : DecidablePred PartsWellFormed := decidablePartsWellFormed

/-- A child of a component is well formed, as a template or as a node. -/
def Node.PartWellFormed (node : Node) : Prop :=
  if node.isTemplate then node.TemplateWellFormed else node.WellFormed

instance (node : Node) : Decidable node.PartWellFormed :=
  inferInstanceAs
    (Decidable (if node.isTemplate then node.TemplateWellFormed else node.WellFormed))

theorem allWellFormed_iff {nodes : List Node} :
    AllWellFormed nodes ↔ ∀ node ∈ nodes, node.WellFormed := by
  induction nodes with
  | nil => simp [AllWellFormed]
  | cons node rest ih => simp [AllWellFormed, ih]

theorem partsWellFormed_iff {nodes : List Node} :
    PartsWellFormed nodes ↔ ∀ node ∈ nodes, node.PartWellFormed := by
  induction nodes with
  | nil => simp [PartsWellFormed]
  | cons node rest ih => simp [PartsWellFormed, ih, Node.PartWellFormed]

/-! ### Induction over trees -/

/-- Induction over a tree: an element has the property if all its children have it. -/
@[elab_as_elim, induction_eliminator]
theorem Node.induction {motive : Node → Prop} (text : ∀ value, motive (.text value))
    (comment : ∀ value, motive (.comment value))
    (element : ∀ tag children, (∀ child ∈ children, motive child) →
      motive (.element tag children)) (node : Node) : motive node :=
  @Node.rec motive (fun nodes => ∀ node ∈ nodes, motive node)
    element text comment (fun _ h => absurd h List.not_mem_nil)
    (fun _ _ hnode hrest _ h =>
      (List.mem_cons.mp h).elim (fun heq => heq ▸ hnode) (hrest _))
    node

end Stencil
