import Stencil.Proofs.Acceptance
import Stencil.Proofs.Failure

/-!
# Rules and the elements that break them

Which rule of the grammar an element can break depends on where it stands: on what the list around
it is, and on the nodes before it there. A `Spot` is an element with just that, and `Spot.Breaks`
has one case for each cause of the lowering. On the way out of the tree every element offers itself
as the context of an error that has none yet, so the walks over children are followed with errors of
two kinds: those that name an element below, and those that wait for the element around the list.

## Main results

* `Siblings.blames_of_push`, `Arms.blamesBelow_of_take`, `Parts.blamesBelow_of_take`: what a child
  that cannot be taken in has broken.
* `lowerSiblings_meets`, `lowerArms_meets`, `lowerParts_meets`: **a walk over children that fails
  blames an element among them or below them, or the element around them**.
-/

namespace Stencil

/-! ### Elements with what is around them -/

/-- An element of a template: what the list that it stands in is to the element above, the nodes
before it in that list, its tag and its children. -/
structure Spot where
  among : Layout
  before : List Node
  tag : Tag
  children : List Node

/-- An alternative may follow the siblings: the last of them that is shown is a condition or a
conditional alternative. -/
def opened (siblings : List Node) : Bool :=
  ((siblings.filter Node.isShown).getLast?.bind Node.branch?).any Branch.opens

namespace Spot

variable (s : Spot)

/-- The element itself. -/
def node : Node := .element s.tag s.children

/-- The element is a template of a component. -/
def isTemplate : Bool := s.among == .parts && s.tag.name == "template"

/-- What the children of the element are to it. -/
def contents : Layout := if s.isTemplate then .siblings else s.tag.layout

/-- Which attributes the element takes if it does not take all of them: whether those that place it
among its siblings are among them. -/
def restriction? : Option Bool :=
  if s.isTemplate then some false
  else
    match ElementKind.ofName s.tag.name with
    | .component | .slot | .body | .switch => some true
    | .ordinary => none

/-- The attribute that the element cannot do without. -/
def required? : Option String :=
  if s.isTemplate then some "name"
  else
    match ElementKind.ofName s.tag.name with
    | .component | .switch => some "run"
    | .slot => some "name"
    | .body | .ordinary => none

/-- The siblings before the element, if it stands among siblings. In a component these are the
children that belong to the body. -/
def siblingsBefore? : Option (List Node) :=
  match s.among with
  | .siblings => some s.before
  | .parts => if s.node.isBody then some (s.before.filter Node.isBody) else none
  | .arms | .ignored => none

/-- **The rules that an element can break**, by the cause that is given for it. -/
inductive Breaks : Cause → Prop
  /-- It asks for two parts among its siblings. -/
  | branchConflict {first second : Branch} {more : List Branch}
      (h : s.tag.branches = first :: second :: more) :
      Breaks (.branchConflict s.tag.name first.directive second.directive)
  /-- It has an attribute that it does not take. -/
  | unsupportedAttribute {controlFlow : Bool} {a : Attribute}
      (hrestriction : s.restriction? = some controlFlow)
      (h : s.tag.attributes.find? (fun a => !Tag.accepts controlFlow a) = some a) :
      Breaks (.unsupportedAttribute s.tag.name a.key)
  /-- It has no value for an attribute that it needs. -/
  | missingAttribute {key : String} (hrequired : s.required? = some key)
      (h : s.tag.attr? key = none) : Breaks (.missingAttribute s.tag.name key)
  /-- It is a component, and what it is to run is no call. -/
  | notACall {run : String} (hcontents : s.contents = .parts) (hrun : s.tag.attr? "run" = some run)
      (h : Text.endsWith ')' (Text.trim run) = false) : Breaks (.notACall (Text.trim run))
  /-- It is the content of a slot and asks for a part among siblings. -/
  | branchInSlot {slot : String} (hamong : s.among = .parts) (hslot : s.node.slot? = some slot)
      (h : s.node.branch? ≠ none) : Breaks (.branchInSlot slot)
  /-- It is an arm for all other values, and there is one before it. -/
  | repeatedDefault (hamong : s.among = .arms) (hdefault : s.node.isDefault = true)
      (h : s.before.any Node.isDefault = true) : Breaks .repeatedDefault
  /-- It stands among the arms of a switch and is none. -/
  | notAnArm (hamong : s.among = .arms) (h : s.node.fitsSwitch = false) : Breaks .notAnArm
  /-- It is an alternative, and none may follow the siblings before it. -/
  | orphanBranch {siblings : List Node} {branch : Branch}
      (hsiblings : s.siblingsBefore? = some siblings) (hbranch : s.node.branch? = some branch)
      (hcontinues : branch.continues = true) (h : opened siblings = false) :
      Breaks (.orphanBranch branch.directive)
  /-- It is an arm and stands among siblings. -/
  | orphanCase {siblings : List Node} {branch : Branch}
      (hsiblings : s.siblingsBefore? = some siblings) (hbranch : s.node.branch? = some branch)
      (h : branch.isArm = true) : Breaks (.orphanCase branch.directive)
  /-- It is a component with two contents for one slot. -/
  | repeatedSlot {before after : List Node} {child : Node} {name : String}
      (hcontents : s.contents = .parts) (hchildren : s.children = before ++ child :: after)
      (hname : child.slot? = some name) (h : name ∈ before.filterMap Node.slot?) :
      Breaks (.repeatedSlot name)
  /-- It is a component with two templates of one name. -/
  | repeatedTemplate {before after : List Node} {child : Node} {name : String}
      (hcontents : s.contents = .parts) (hchildren : s.children = before ++ child :: after)
      (hname : child.templateName? = some name) (h : name ∈ before.filterMap Node.templateName?) :
      Breaks (.repeatedTemplate name)
  /-- It is a switch with text between its arms. -/
  | textInSwitch {value : String} (hcontents : s.contents = .arms)
      (hchild : .text value ∈ s.children) (h : Text.isBlank value = false) :
      Breaks (.textInSwitch (Text.trim value))

/-- How an element is shown in an error: by its name and the directive if it is out of place, and
by its opening tag otherwise. -/
def shown : Cause → String
  | .orphanBranch directive | .orphanCase directive =>
      "<" ++ s.tag.name ++ " " ++ directive.key ++ ">"
  | _ => s.tag.describe

/-- The element stands in a list of nodes, or in one below it. Lists that are not looked at do not
count. -/
inductive In : Spot → Layout → List Node → Prop
  | here {among : Layout} {before after : List Node} {tag : Tag} {children : List Node}
      (h : among ≠ .ignored) :
      In ⟨among, before, tag, children⟩ among (before ++ .element tag children :: after)
  | under {outer inner : Spot} {among : Layout} {nodes : List Node} (houter : In outer among nodes)
      (hinner : In inner outer.contents outer.children) : In inner among nodes

/-- An element stands among the children of the one around it. -/
theorem in_children {s : Spot} {among : Layout} (hcontents : s.contents = among)
    (hamong : among ≠ .ignored) {before after : List Node} {tag : Tag} {children : List Node}
    (hchildren : s.children = before ++ .element tag children :: after) :
    In ⟨among, before, tag, children⟩ s.contents s.children := by
  rw [hcontents, hchildren]
  exact .here hamong

/-! ### Errors about an element -/

/-- The error is about the element, and names it. -/
structure Blames (d : Diagnostic) : Prop where
  breaks : s.Breaks d.cause
  context : d.context = some (s.shown d.cause)
  span : d.span = none
  file : d.file = none

/-- The error is about the element, which is yet to be named by its tag. -/
structure Awaits (d : Diagnostic) : Prop where
  breaks : s.Breaks d.cause
  shown : s.shown d.cause = s.tag.describe
  context : d.context = none
  span : d.span = none
  file : d.file = none

end Spot

/-- The error names an element that stands in the list or below it. -/
def BlamesIn (layout : Layout) (nodes : List Node) (d : Diagnostic) : Prop :=
  ∃ s : Spot, s.In layout nodes ∧ s.Blames d

namespace Spot

variable {s : Spot} {d : Diagnostic}

/-- The error names the element or one below it. -/
def BlamesWithin (s : Spot) (d : Diagnostic) : Prop :=
  s.Blames d ∨ BlamesIn s.contents s.children d

/-- The error names an element below, or is yet to name the element itself. -/
def BlamesBelow (s : Spot) (d : Diagnostic) : Prop :=
  s.Awaits d ∨ BlamesIn s.contents s.children d

/-- An element that names itself leaves the errors that name one. -/
theorem Blames.inContext (h : s.Blames d) (context : String) : d.inContext context = d := by
  obtain ⟨cause, known, span, file⟩ := d
  have hknown : known = some (s.shown cause) := h.context
  rw [hknown]
  rfl

theorem Awaits.inContext (h : s.Awaits d) : s.Blames (d.inContext s.tag.describe) := by
  obtain ⟨hbreaks, hshown, hcontext, hspan, hfile⟩ := h
  refine ⟨hbreaks, ?_, hspan, hfile⟩
  show (d.context <|> some s.tag.describe) = some (s.shown d.cause)
  rw [hcontext, hshown]
  rfl

/-- **The element around a list names itself where no element below is named.** -/
theorem BlamesBelow.inContext (h : s.BlamesBelow d) :
    s.BlamesWithin (d.inContext s.tag.describe) := by
  rcases h with h | ⟨inner, hin, h⟩
  · exact .inl h.inContext
  · rw [h.inContext]
    exact .inr ⟨inner, hin, h⟩

theorem BlamesWithin.blamesIn {layout : Layout} {nodes : List Node} (h : s.BlamesWithin d)
    (hin : s.In layout nodes) : BlamesIn layout nodes d := by
  rcases h with h | ⟨inner, hinner, h⟩
  · exact ⟨s, hin, h⟩
  · exact ⟨inner, .under hin hinner, h⟩

/-! ### Opening tags -/

/-- A tag that does not take all attributes is at fault by two parts, or by the first attribute that
it does not take. -/
theorem strictDescriptor_meets {controlFlow : Bool} (h : s.restriction? = some controlFlow) :
    (s.tag.strictDescriptor controlFlow).Meets (· = s.tag.described) s.Blames := by
  have hnamed : ∀ {m : Lowering Descriptor}, m.Meets (· = s.tag.described) s.Awaits →
      (m.within s.tag.describe).Meets (· = s.tag.described) s.Blames :=
    fun hm => hm.within fun d hd => hd.inContext
  refine hnamed ((s.tag.descriptor_meets.mono (fun _ => id) fun d hd => ?_).bind fun d hd => ?_)
  · obtain ⟨first, second, more, hbranches, rfl⟩ := hd
    exact ⟨.branchConflict hbranches, rfl, rfl, rfl, rfl⟩
  · split
    · rename_i a hfind
      exact Pass.meets_fail ⟨.unsupportedAttribute h hfind, rfl, rfl, rfl, rfl⟩
    · exact Pass.meets_pure hd

/-- An attribute that is missing is missed at the tag. -/
theorem require_meets {key : String} (h : s.required? = some key) :
    (s.tag.require key).Meets (fun value => s.tag.attr? key = some value) s.Blames := by
  rw [Tag.require]
  cases hattr : s.tag.attr? key with
  | some value => exact Pass.meets_pure rfl
  | none => exact Pass.meets_fail ⟨.missingAttribute h hattr, rfl, rfl, rfl⟩

end Spot

/-! ### Siblings -/

/-- The fragment is the code of the node. -/
def Node.Renders (node : Node) (f : Fragment) : Prop :=
  node.WellFormed ∧ ∃ rt number here, f = node.render rt number here

theorem Node.Renders.branch? {node : Node} {f : Fragment} (h : node.Renders f) :
    f.branch? = node.branch? := by
  obtain ⟨-, rt, number, here, rfl⟩ := h
  exact node.branch?_render

theorem Node.Renders.isShown {node : Node} {f : Fragment} (h : node.Renders f) :
    f.isShown = node.isShown := by
  obtain ⟨hwell, rt, number, here, rfl⟩ := h
  exact Node.isShown_render hwell

namespace Siblings

variable {siblings t : Siblings} {before : List Node} {f : Fragment} {d : Diagnostic}

/-- A chain is open when an alternative may follow the nodes that are done. -/
theorem isSome_chain_push {node : Node} (hopen : siblings.chain.isSome = opened before)
    (hnode : node.Renders f) (h : siblings.push f = .ok t) :
    t.chain.isSome = opened (before ++ [node]) := by
  rw [opened, List.filter_append]
  cases hshown : node.isShown with
  | false =>
      rw [push_of_not_isShown (hnode.isShown.trans hshown)] at h
      cases h
      rw [List.filter_cons_of_neg (by simp [hshown]), List.filter_nil, List.append_nil]
      exact hopen
  | true =>
      rw [List.filter_cons_of_pos hshown, List.filter_nil, List.getLast?_append,
        isSome_chain_of_push (hnode.isShown.trans hshown) h, hnode.branch?]
      rfl

/-- A text or a comment can always be taken in. -/
theorem exists_element_of_push {node : Node} (hnode : node.Renders f)
    (h : siblings.push f = .error d) : ∃ tag children, node = .element tag children := by
  obtain ⟨-, rt, number, here, rfl⟩ := hnode
  cases node with
  | element tag children => exact ⟨tag, children, rfl⟩
  | text value | comment value =>
      rw [Node.render, push] at h
      split at h <;> cases h

/-- **A sibling that cannot be taken in** is an alternative without a condition before it, or an
arm. -/
theorem blames_of_push {s : Spot} (hsiblings : s.siblingsBefore? = some before)
    (hopen : siblings.chain.isSome = opened before) (hnode : s.node.Renders f)
    (h : siblings.push f = .error d) : s.Blames d := by
  have hshown : f.isShown = true := hnode.isShown
  have hsame : f.branch? = s.node.branch? := hnode.branch?
  obtain ⟨-, rt, number, here, rfl⟩ := hnode
  rw [Spot.node, Node.render] at h hshown hsame
  rw [push_element hshown, pushElement] at h
  rw [Fragment.branch?] at hsame
  cases hbranch : s.tag.described.branch with
  | none =>
      rw [hbranch] at h
      cases h
  | some branch =>
      rw [hbranch] at h hsame
      cases hchain : siblings.chain with
      | none =>
          rw [hchain] at hopen
          cases branch with
          | ifCond condition => cases h
          | elseIf condition | otherwise =>
              simp only [extend, hchain] at h
              cases h
              exact ⟨.orphanBranch hsiblings hsame.symm rfl hopen.symm, rfl, rfl, rfl⟩
          | case value | default =>
              cases h
              exact ⟨.orphanCase hsiblings hsame.symm rfl, rfl, rfl, rfl⟩
      | some arms =>
          cases branch with
          | ifCond condition => cases h
          | elseIf condition | otherwise =>
              simp only [extend, hchain] at h
              cases h
          | case value | default =>
              cases h
              exact ⟨.orphanCase hsiblings hsame.symm rfl, rfl, rfl, rfl⟩

end Siblings

/-! ### Nodes in a list -/

namespace Node

/-- Where the lowering of an element fails, the element or one below it is at fault. -/
def FailsWithin (rt : Runtime) (node : Node) : Prop :=
  ∀ s : Spot, s.node = node → s.isTemplate = false →
    (node.lower rt).Meets (fun _ => True) s.BlamesWithin

/-- What the lowering of a node returns is the code of the node. -/
theorem renders_of_lower {rt : Runtime} {node : Node} {n : Nat} {f : Fragment}
    (h : ((node.lower rt).run n).result = .ok f) : node.Renders f := by
  have hnumbers := numbers_idxOf (nodup_of_pairwise (node.pairwise_loops [])) n
  obtain ⟨hwell, hvalue, -⟩ := (node.lower_ends rt hnumbers).of_ok h
  exact ⟨hwell, rt, _, [], hvalue⟩

/-- The lowering of a node that is no template of a component blames what stands in the list. -/
theorem lower_meets {rt : Runtime} {node : Node} (h : node.FailsWithin rt) (layout : Layout)
    (hlayout : layout ≠ .ignored) (hpart : layout = .parts → node.isTemplate = false)
    (before after : List Node) :
    (node.lower rt).Meets node.Renders (BlamesIn layout (before ++ node :: after)) := by
  refine fun n => ⟨fun f hf => renders_of_lower hf, fun d hd => ?_⟩
  cases node with
  | text value =>
      rw [lower] at hd
      cases hd
  | comment value =>
      rw [lower] at hd
      cases hd
  | element tag children =>
      have htemplate : Spot.isTemplate ⟨layout, before, tag, children⟩ = false := by
        rw [Spot.isTemplate, Bool.and_eq_false_imp]
        intro hparts
        exact hpart (by simpa using hparts)
      have hwithin := (h ⟨layout, before, tag, children⟩ rfl htemplate n).2 d hd
      exact hwithin.blamesIn (.here hlayout)

end Node

/-- **Siblings** blame what stands among them. -/
theorem lowerSiblings_meets {rt : Runtime} {nodes : List Node}
    (h : ∀ node ∈ nodes, node.FailsWithin rt) :
    (lowerSiblings rt {} nodes).Meets (fun _ => True) (BlamesIn .siblings nodes) := by
  rw [lowerSiblings_eq_gather rt [] 0]
  refine (gather_withPlaces_meets (fun before siblings => siblings.chain.isSome = opened before)
    Node.Renders
    (fun before node after hnodes here => ?_) (fun before node after hnodes s f hopen hf => ?_)
    rfl).mono (fun _ _ => trivial) fun _ => id
  · rw [hnodes]
    exact Node.lower_meets (h node (by simp [hnodes])) .siblings (by simp) (by simp) before after
  · refine ⟨fun t ht => Siblings.isSome_chain_push hopen hf ht, fun d hd => ?_⟩
    obtain ⟨tag, children, rfl⟩ := Siblings.exists_element_of_push hf hd
    refine ⟨⟨.siblings, before, tag, children⟩, ?_, Siblings.blames_of_push rfl hopen hf hd⟩
    rw [hnodes]
    exact .here (by simp)

/-! ### Arms of a switch -/

namespace Arms

variable {s : Spot} {before after : List Node} {node : Node} {arms : Arms} {f : Fragment}

/-- Taking in a child keeps account of the arm for all other values. -/
theorem hasDefault_of_take (hdefault : arms.hasDefault = before.any Node.isDefault)
    (hnode : node.Renders f) {t : Arms} (h : arms.take (node, f) = .ok t) :
    t.hasDefault = (before ++ [node]).any Node.isDefault := by
  have hbranch : (node, f).2.branch? = (node, f).1.branch? := hnode.branch?
  obtain ⟨-, -, rfl⟩ := (take_eq_ok hbranch).mp h
  rw [List.any_append, List.any_cons, List.any_nil, Bool.or_false, hdefault]

/-- What is neither a case nor for all other values is no arm. -/
theorem any_isArm_eq_false {branch : Option Branch} (hcase : ∀ value, branch ≠ some (.case value))
    (hdefault : branch ≠ some .default) : branch.any Branch.isArm = false := by
  cases branch with
  | none => rfl
  | some branch =>
      cases branch with
      | ifCond _ | elseIf _ | otherwise => rfl
      | case value => exact absurd rfl (hcase value)
      | default => exact absurd rfl hdefault

/-- **A child of a switch that cannot be taken in** is a second arm for all other values, an element
that is no arm, or text, which is the fault of the switch. -/
theorem blamesBelow_of_take (hcontents : s.contents = .arms)
    (hchildren : s.children = before ++ node :: after)
    (hdefault : arms.hasDefault = before.any Node.isDefault) (hnode : node.Renders f)
    {d : Diagnostic} (h : arms.take (node, f) = .error d) : s.BlamesBelow d := by
  cases node with
  | comment value => cases h
  | text value =>
      rw [take] at h
      simp only at h
      split at h
      · cases h
      · rename_i hblank
        cases h
        refine .inl ⟨.textInSwitch hcontents ?_ (by simpa using hblank), rfl, rfl, rfl, rfl⟩
        rw [hchildren]
        simp
  | element tag children =>
      have hhead : tag.branches.head? = f.branch? := hnode.branch?.symm
      refine .inr ⟨_, Spot.in_children hcontents (by simp) hchildren, ?_⟩
      simp only [take] at h
      split at h
      · cases h
      · rename_i hdefaultArm
        split at h
        · rename_i hagain
          cases h
          refine ⟨.repeatedDefault rfl ?_ (hdefault ▸ hagain), rfl, rfl, rfl⟩
          rw [Spot.node, Node.isDefault, Node.branch?, hhead, hdefaultArm]
          rfl
        · cases h
      · rename_i hcase hother
        cases h
        refine ⟨.notAnArm rfl ?_, rfl, rfl, rfl⟩
        rw [Spot.node, Node.fitsSwitch, hhead]
        exact any_isArm_eq_false hcase hother

end Arms

/-- **The arms of a switch** blame what stands among them, or the switch. -/
theorem lowerArms_meets {rt : Runtime} {s : Spot} (hcontents : s.contents = .arms)
    (h : ∀ node ∈ s.children, node.FailsWithin rt) :
    (lowerArms rt {} s.children).Meets (fun _ => True) s.BlamesBelow := by
  rw [lowerArms_eq_gather rt [] 0]
  refine (gather_withPlaces_meets (fun before arms => arms.hasDefault = before.any Node.isDefault)
    (fun node child => child.1 = node ∧ node.Renders child.2)
    (fun before node after hnodes here => ?_)
    (fun before node after hnodes arms child hinv hf => ?_) rfl).mono (fun _ _ => trivial) fun _ => id
  · have hmeets := Node.lower_meets (h node (by simp [hnodes])) .arms (by simp) (by simp)
      before after
    rw [← hnodes, ← hcontents] at hmeets
    exact (hmeets.mono (fun _ => id) fun d => .inr).map fun f hf => ⟨rfl, hf⟩
  · obtain ⟨other, f⟩ := child
    obtain ⟨rfl, hf⟩ := hf
    exact ⟨fun t ht => Arms.hasDefault_of_take hinv hf ht,
      fun d hd => Arms.blamesBelow_of_take hcontents hnodes hinv hf hd⟩

/-! ### Parts of a component -/

/-- What a child contributes to a component, with the code of the child unless it is a template. -/
def Node.Contributes (node : Node) (c : Contribution) : Prop :=
  ∃ whole closure, (node.isTemplate = false → node.Renders whole) ∧
    c = node.contribution whole closure

namespace Parts

/-- What the parts that are done have from the children that are done. -/
structure Hold (parts : Parts) (before : List Node) : Prop where
  templates : ∀ name, parts.templates.contains name = true ↔
    name ∈ before.filterMap Node.templateName?
  slots : ∀ name, parts.slots.contains name = true ↔ name ∈ before.filterMap Node.slot?
  body : parts.body.chain.isSome = opened (before.filter Node.isBody)

theorem hold_empty : Hold {} [] := ⟨fun _ => by simp; rfl, fun _ => by simp; rfl, rfl⟩

end Parts

/-- The three things that a child of a component can be for. -/
theorem Node.contribution_cases (node : Node) (whole : Fragment) (closure : String) :
    (∃ name, node.templateName? = some name ∧ node.slot? = none ∧ node.isBody = false ∧
      node.contribution whole closure = .template name closure) ∨
    (∃ tag children name, node = .element tag children ∧ node.templateName? = none ∧
      node.slot? = some name ∧ node.isTemplate = false ∧ node.isBody = false ∧
      node.contribution whole closure = .slot name tag whole) ∨
    (node.templateName? = none ∧ node.slot? = none ∧ node.isBody = true ∧
      node.contribution whole closure = .body whole) := by
  cases node with
  | text value => exact .inr (.inr ⟨rfl, rfl, rfl, rfl⟩)
  | comment value => exact .inr (.inr ⟨rfl, rfl, rfl, rfl⟩)
  | element tag children =>
      by_cases hname : tag.name = "template"
      · exact .inl ⟨(tag.attr? "name").getD "", by simp [templateName?, hname],
          by simp [slot?, hname], by simp [isBody, isTemplate, hname],
          by simp [contribution, hname]⟩
      · cases hslot : tag.attr? "slot" with
        | some name =>
            exact .inr (.inl ⟨tag, children, name, rfl, by simp [templateName?, hname],
              by simp [slot?, hname, hslot], by simp [isTemplate, hname],
              by simp [isBody, slot?, hname, hslot], by simp [contribution, hname, hslot]⟩)
        | none =>
            exact .inr (.inr ⟨by simp [templateName?, hname], by simp [slot?, hname, hslot],
              by simp [isBody, isTemplate, slot?, hname, hslot],
              by simp [contribution, hname, hslot]⟩)

namespace Parts

variable {s : Spot} {before after : List Node} {node : Node} {parts t : Parts} {c : Contribution}

/-- Parts that have taken in a child hold what it contributes. -/
theorem hold_of_take (hold : parts.Hold before) (hnode : node.Contributes c)
    (h : parts.take c = .ok t) : t.Hold (before ++ [node]) := by
  obtain ⟨htemplates, hslots, hbody⟩ := hold
  obtain ⟨whole, closure, hwhole, rfl⟩ := hnode
  rcases node.contribution_cases whole closure with
    ⟨name, hname, hslot, hisBody, hc⟩ | ⟨tag, children, name, -, hname, hslot, -, hisBody, hc⟩ |
    ⟨hname, hslot, hisBody, hc⟩
  · rw [hc, take_template] at h
    obtain ⟨-, rfl⟩ := h
    refine ⟨fun other => ?_, fun other => ?_, ?_⟩
    · simp [htemplates, hname, or_comm, eq_comm (a := name)]
    · simp [hslots, hslot]
    · simpa [hisBody] using hbody
  · rw [hc, take_slot] at h
    obtain ⟨-, -, rfl⟩ := h
    refine ⟨fun other => ?_, fun other => ?_, ?_⟩
    · simp [htemplates, hname]
    · simp [hslots, hslot, or_comm, eq_comm (a := name)]
    · simpa [hisBody] using hbody
  · rw [hc, take_body] at h
    obtain ⟨hpush, hsameSlots, hsameTemplates⟩ := h
    refine ⟨fun other => ?_, fun other => ?_, ?_⟩
    · simp [hsameTemplates, htemplates, hname]
    · simp [hsameSlots, hslots, hslot]
    · rw [List.filter_append, List.filter_cons_of_pos hisBody, List.filter_nil]
      exact Siblings.isSome_chain_push hbody (hwhole (Node.isTemplate_of_isBody hisBody)) hpush

/-- **A child of a component that cannot be taken in** is a template or the content of a slot under
a name that is taken, which is the fault of the component, or content of a slot that asks for a part
among siblings, or a sibling of the body that is out of place. -/
theorem blamesBelow_of_take (hcontents : s.contents = .parts)
    (hchildren : s.children = before ++ node :: after) (hold : parts.Hold before)
    (hnode : node.Contributes c) {d : Diagnostic} (h : parts.take c = .error d) :
    s.BlamesBelow d := by
  obtain ⟨htemplates, hslots, hbody⟩ := hold
  obtain ⟨whole, closure, hwhole, rfl⟩ := hnode
  rcases node.contribution_cases whole closure with
    ⟨name, hname, -, -, hc⟩ | ⟨tag, children, name, rfl, -, hslot, htemplate, -, hc⟩ |
    ⟨-, -, hisBody, hc⟩
  · rw [hc, take] at h
    split at h
    · rename_i hagain
      cases h
      exact .inl ⟨.repeatedTemplate hcontents hchildren hname ((htemplates name).mp hagain), rfl,
        rfl, rfl, rfl⟩
    · cases h
  · rw [hc, take] at h
    split at h
    · rename_i hbranch
      cases h
      refine .inr ⟨_, Spot.in_children hcontents (by simp) hchildren, .branchInSlot rfl hslot ?_,
        rfl, rfl, rfl⟩
      rw [(hwhole htemplate).branch?] at hbranch
      exact Option.ne_none_iff_isSome.mpr hbranch
    · split at h
      · rename_i hagain
        cases h
        exact .inl ⟨.repeatedSlot hcontents hchildren hslot ((hslots name).mp hagain), rfl, rfl,
          rfl, rfl⟩
      · cases h
  · rw [hc, take] at h
    have hrenders := hwhole (Node.isTemplate_of_isBody hisBody)
    cases hpush : parts.body.push whole with
    | ok body =>
        rw [hpush] at h
        cases h
    | error e =>
        rw [hpush] at h
        cases h
        obtain ⟨tag, children, rfl⟩ := Siblings.exists_element_of_push hrenders hpush
        have hsiblings : Spot.siblingsBefore? ⟨.parts, before, tag, children⟩ =
            some (before.filter Node.isBody) := if_pos hisBody
        exact .inr ⟨_, Spot.in_children hcontents (by simp) hchildren,
          Siblings.blames_of_push hsiblings hbody hrenders hpush⟩

end Parts

/-- A template of a component blames its tag or what stands among its contents. -/
theorem Node.contribute_template_meets {rt : Runtime} {s : Spot} (htemplate : s.isTemplate = true)
    (h : ∀ node ∈ s.children, node.FailsWithin rt) :
    (s.node.contribute rt).Meets s.node.Contributes s.BlamesWithin := by
  have hname : s.tag.name = "template" := by
    rw [Spot.isTemplate, Bool.and_eq_true] at htemplate
    exact eq_of_beq htemplate.2
  have hrestriction : s.restriction? = some false := if_pos htemplate
  have hrequired : s.required? = some "name" := if_pos htemplate
  have hcontents : s.contents = .siblings := if_pos htemplate
  have hsiblings := lowerSiblings_meets h
  rw [← hcontents] at hsiblings
  rw [Spot.node, contribute, if_pos hname]
  refine ((Spot.strictDescriptor_meets hrestriction).mono (fun _ => id) fun d => .inl).bind
    fun _ _ => ?_
  refine ((Spot.require_meets hrequired).mono (fun _ => id) fun d => .inl).bind
    fun name hattr => ?_
  rw [lowerContents]
  have hlowered : (Siblings.finish <$> lowerSiblings rt {} s.children).Meets (fun _ => True)
      s.BlamesWithin := (hsiblings.mono (fun _ => id) fun d => .inr).map fun _ => id
  refine hlowered.bind fun contents _ => Pass.meets_pure ?_
  refine ⟨.text "", Runtime.template ((s.tag.attr? "types").getD "") contents.code, ?_, ?_⟩
  · simp [isTemplate, hname]
  · simp [contribution, hname, hattr]

/-- A child of a component that is no template blames what the lowering of a node blames. -/
theorem Node.contribute_meets {rt : Runtime} {node : Node} (h : node.FailsWithin rt)
    (htemplate : node.isTemplate = false) (before after : List Node) :
    (node.contribute rt).Meets node.Contributes (BlamesIn .parts (before ++ node :: after)) := by
  have hlower := lower_meets h .parts (by simp) (fun _ => htemplate) before after
  cases node with
  | text value =>
      exact hlower.map fun f hf => ⟨f, "", fun _ => hf, rfl⟩
  | comment value =>
      exact hlower.map fun f hf => ⟨f, "", fun _ => hf, rfl⟩
  | element tag children =>
      have hname : tag.name ≠ "template" := by simpa [isTemplate] using htemplate
      rw [contribute, if_neg hname]
      cases hslot : tag.attr? "slot" with
      | some slot =>
          exact hlower.map fun f hf => ⟨f, "", fun _ => hf, by simp [contribution, hname, hslot]⟩
      | none =>
          exact hlower.map fun f hf => ⟨f, "", fun _ => hf, by simp [contribution, hname, hslot]⟩

/-- **The parts of a component** blame what stands among them, or the component. -/
theorem lowerParts_meets {rt : Runtime} {s : Spot} (hcontents : s.contents = .parts)
    (h : ∀ node ∈ s.children, node.FailsWithin rt)
    (hbelow : ∀ tag children, .element tag children ∈ s.children →
      ∀ node ∈ children, node.FailsWithin rt) :
    (lowerParts rt {} s.children).Meets (fun _ => True) s.BlamesBelow := by
  rw [lowerParts_eq_gather rt [] 0]
  refine (gather_withPlaces_meets (fun before parts => parts.Hold before) Node.Contributes
    (fun before node after hnodes here => ?_) (fun before node after hnodes parts c hold hc => ?_)
    Parts.hold_empty).mono (fun _ _ => trivial) fun _ => id
  · have hmem : node ∈ s.children := by simp [hnodes]
    cases htemplate : node.isTemplate with
    | false =>
        have hmeets := Node.contribute_meets (h node hmem) htemplate before after
        rw [← hnodes, ← hcontents] at hmeets
        exact hmeets.mono (fun _ => id) fun d => .inr
    | true =>
        cases node with
        | text value => cases htemplate
        | comment value => cases htemplate
        | element tag children =>
            have hin := Spot.in_children hcontents (by simp) hnodes
            have hspot : Spot.isTemplate ⟨.parts, before, tag, children⟩ = true := htemplate
            exact (Node.contribute_template_meets hspot (hbelow tag children hmem)).mono
              (fun _ => id) fun d hd => .inr (hd.blamesIn hin)
  · exact ⟨fun t ht => Parts.hold_of_take hold hc ht,
      fun d hd => Parts.blamesBelow_of_take hcontents hnodes hold hc hd⟩

end Stencil
