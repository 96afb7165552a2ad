import Stencil.Proofs.BlankText
import Stencil.Proofs.Containment
import Stencil.Proofs.Observation

/-!
# The calls of a lowering

A block that is accepted has lowered the nodes of its tree one by one. The nodes that are lowered
are listed here with their places and with the numbers that their lowerings start from. The list is
read off the tree, clause for clause as the lowering goes through it, and agrees with the run: the
reports and the numbers of the block are those of its calls taken together, and a call gives the code
that the node has at its place.

Not lowered are the nodes below the place of a slot or of a body, and the comments between the arms
of a switch. A template of a component is lowered to a function, and not to an element.

## Main results

* `Node.nodup_calls`: no place has two calls.
* `Node.tally_calls`: the calls report what the node does, and take as many numbers.
* `Call.code?_eq`: a call gives the code of the node.
* `calls_of_listAt`: **every place of the tree that is looked at has its calls**.
-/

namespace Stencil

/-! ### Nodes in a list -/

/-- The list of children is well formed for what it is. -/
def Layout.Admits (layout : Layout) (nodes : List Node) : Prop :=
  layout.Demands (WellFormedSiblings nodes) (WellFormedArms nodes) (WellFormedParts nodes)

namespace Node

/-- The node is a template of a component. -/
def isTemplateIn (layout : Layout) (node : Node) : Bool := layout == .parts && node.isTemplate

/-- The node is lowered. Among the arms of a switch only the elements are. -/
def isLoweredIn (layout : Layout) : Node → Bool
  | element .. => true
  | text _ | comment _ => layout != .arms

/-- The node is well formed as a member of a list. -/
def WellFormedIn (layout : Layout) (node : Node) : Prop :=
  if node.isTemplateIn layout then node.TemplateWellFormed else node.WellFormed

/-- The code of a node as a member of a list. -/
def codeIn (rt : Runtime) (number : Place → Nat) (layout : Layout) (here : Place) (node : Node) :
    String :=
  if node.isTemplateIn layout then node.renderTemplate rt number here
  else (node.render rt number here).code

theorem wellFormedIn_parts {node : Node} : node.WellFormedIn .parts ↔ node.PartWellFormed :=
  Iff.rfl

theorem wellFormedIn_of_ne_parts {layout : Layout} (h : layout ≠ .parts) {node : Node} :
    node.WellFormedIn layout ↔ node.WellFormed := by
  have hnot : ¬ node.isTemplateIn layout = true := by simp [isTemplateIn, h]
  rw [WellFormedIn, if_neg hnot]

/-- The members of a well-formed list are well formed. -/
theorem wellFormedIn_of_admits {layout : Layout} {nodes : List Node} (h : layout.Admits nodes)
    (hlayout : layout ≠ .ignored) {node : Node} (hnode : node ∈ nodes) :
    node.WellFormedIn layout := by
  cases layout with
  | siblings => exact (wellFormedIn_of_ne_parts (by simp)).mpr (allWellFormed_iff.mp h.2 node hnode)
  | arms => exact (wellFormedIn_of_ne_parts (by simp)).mpr (allWellFormed_iff.mp h.2 node hnode)
  | parts => exact wellFormedIn_parts.mpr (partsWellFormed_iff.mp h.2 node hnode)
  | ignored => exact absurd rfl hlayout

theorem name_of_isTemplateIn {layout : Layout} {tag : Tag} {children : List Node}
    (h : (element tag children).isTemplateIn layout = true) : tag.name = "template" :=
  eq_of_beq (Bool.and_eq_true_iff.mp h).2

/-- The contents of a template that is in order are siblings. -/
theorem layout_of_fitsTemplate {tag : Tag} (hname : tag.name = "template")
    (h : tag.FitsTemplate) : tag.layout = .siblings := by
  have hkind : ElementKind.ofName tag.name = .ordinary := by
    rw [hname]
    rfl
  have hswitch : tag.described.switchTarget = none := by
    simp [Tag.described, Descriptor.extended, Tag.lastFor_eq_none_of_takes h.1.2]
  rw [Tag.layout, hkind, hswitch]
  rfl

/-- The children of a well-formed element are well formed for what they are to it. -/
theorem admits_of_wellFormedIn {layout : Layout} {tag : Tag} {children : List Node}
    (h : (element tag children).WellFormedIn layout) : tag.layout.Admits children := by
  rw [WellFormedIn] at h
  split at h
  · rename_i htemplate
    rw [TemplateWellFormed] at h
    rw [layout_of_fitsTemplate (name_of_isTemplateIn htemplate) h.1]
    exact h.2
  · rw [WellFormed] at h
    exact h.2

/-- In a well-formed list a node with code is lowered, unless it is a comment between arms. -/
theorem isLoweredIn_of_isShown {layout : Layout} {nodes : List Node} {node : Node}
    (hadmits : layout.Admits nodes) (hnode : node ∈ nodes) (hshown : node.isShown = true)
    (hcomment : ¬ (layout = .arms ∧ ∃ value, node = .comment value)) :
    node.isLoweredIn layout = true := by
  cases node with
  | element tag children => rfl
  | comment value =>
      have hlayout : layout ≠ .arms := fun harms => hcomment ⟨harms, value, rfl⟩
      simpa [isLoweredIn] using hlayout
  | text value =>
      by_cases harms : layout = .arms
      · subst harms
        have hblank : Text.isBlank value = true := hadmits.1.1 _ hnode
        rw [isShown, Segment.ofText_of_isBlank hblank] at hshown
        cases hshown
      · simpa [isLoweredIn] using harms

end Node

/-- What a child contributes to a component brings the code of the child. -/
theorem code_contributed (rt : Runtime) (number : Place → Nat) (x : Place × Node) :
    (contributed rt number x).code = x.2.codeIn rt number .parts x.1 := by
  obtain ⟨place, node⟩ := x
  rw [contributed, rendered, Node.codeIn]
  cases node with
  | text value => rfl
  | comment value => rfl
  | element tag children =>
      simp only [Node.contribution, Node.isTemplateIn, Node.isTemplate]
      by_cases hname : tag.name = "template"
      · simp [hname, Contribution.code]
      · cases hslot : tag.attr? "slot" <;> simp [hname, Contribution.code]

/-! ### The calls of a lowering -/

/-- A node that is lowered: its place, what the list that it stands in is, and the number that its
lowering starts from. -/
structure Call where
  place : Place
  among : Layout
  node : Node
  start : Nat

namespace Call

/-- The code that the lowering of the node gives. -/
def code? (rt : Runtime) (c : Call) : Option String :=
  if c.node.isTemplateIn c.among then
    ((c.node.contribute rt).run c.start).result.toOption.map Contribution.code
  else
    ((c.node.lower rt).run c.start).result.toOption.map Fragment.code

/-- The attributes of the node itself. -/
def attributes (c : Call) : List Attribute :=
  match c.node with
  | .element tag _ => tag.attributes
  | .text _ | .comment _ => []

/-- The node itself takes a number. -/
def isLoop (c : Call) : Bool :=
  match c.node with
  | .element tag _ => tag.isLoop
  | .text _ | .comment _ => false

end Call

/-- The next free number after a member of a list. -/
def Node.nextIn (rt : Runtime) (layout : Layout) (n : Nat) (node : Node) : Nat :=
  if layout = .parts then ((node.contribute rt).run n).next else ((node.lower rt).run n).next

mutual

/-- The calls that lowering a member of a list makes: the one for the member, and those for the
nodes below it. -/
def Node.calls (rt : Runtime) (layout : Layout) (here : Place) (n : Nat) : Node → List Call
  | .text value => if layout = .arms then [] else [⟨here, layout, .text value, n⟩]
  | .comment value => if layout = .arms then [] else [⟨here, layout, .comment value, n⟩]
  | .element tag children =>
      ⟨here, layout, .element tag children, n⟩ ::
        if tag.layout = .ignored then [] else callsBelow rt tag.layout here 0 n children

/-- The calls for a list, each member from the number at which the one before left off. -/
def callsBelow (rt : Runtime) (layout : Layout) (here : Place) (i n : Nat) :
    List Node → List Call
  | [] => []
  | node :: rest =>
      node.calls rt layout (i :: here) n ++
        callsBelow rt layout here (i + 1) (node.nextIn rt layout n) rest

end

/-- The calls for a block. -/
def blockCalls (rt : Runtime) (n : Nat) (nodes : List Node) : List Call :=
  callsBelow rt .siblings [] 0 n nodes

section Calls

variable {rt : Runtime}

theorem mem_callsBelow {layout : Layout} {here : Place} {i n : Nat} {nodes : List Node} {c : Call}
    (h : c ∈ callsBelow rt layout here i n nodes) :
    ∃ j node start, i ≤ j ∧ node ∈ nodes ∧ c ∈ node.calls rt layout (j :: here) start := by
  induction nodes generalizing i n with
  | nil =>
      rw [callsBelow] at h
      cases h
  | cons node rest ih =>
      rw [callsBelow, List.mem_append] at h
      rcases h with h | h
      · exact ⟨i, node, n, le_rfl, List.mem_cons_self, h⟩
      · obtain ⟨j, other, start, hj, hmem, hc⟩ := ih h
        exact ⟨j, other, start, by omega, List.mem_cons_of_mem node hmem, hc⟩

/-- The calls for a node are at its place or below it. -/
theorem Node.suffix_of_mem_calls {node : Node} {layout : Layout} {here : Place} {n : Nat}
    {c : Call} (h : c ∈ node.calls rt layout here n) : here <:+ c.place := by
  induction node generalizing layout here n with
  | text value | comment value =>
      rw [calls] at h
      split at h
      · cases h
      · cases List.mem_singleton.mp h
        exact List.suffix_rfl
  | element tag children ih =>
      rw [calls] at h
      rcases List.mem_cons.mp h with rfl | h
      · exact List.suffix_rfl
      · split at h
        · cases h
        · obtain ⟨j, child, start, -, hmem, hc⟩ := mem_callsBelow h
          exact (List.suffix_cons j here).trans (ih child hmem hc)

theorem nodup_callsBelow_of {nodes : List Node}
    (h : ∀ node ∈ nodes, ∀ layout here n, ((node.calls rt layout here n).map Call.place).Nodup)
    (layout : Layout) (here : Place) (i n : Nat) :
    ((callsBelow rt layout here i n nodes).map Call.place).Nodup := by
  induction nodes generalizing i n with
  | nil =>
      rw [callsBelow]
      exact List.nodup_nil
  | cons node rest ih =>
      obtain ⟨hnode, hrest⟩ := List.forall_mem_cons.mp h
      rw [callsBelow, List.map_append]
      refine (hnode layout (i :: here) n).append (ih hrest _ _) ?_
      -- A place of both would lie below two members of one list.
      intro place hfirst hsecond
      obtain ⟨c, hc, rfl⟩ := List.mem_map.mp hfirst
      obtain ⟨c', hc', hplace⟩ := List.mem_map.mp hsecond
      obtain ⟨j, other, start, hj, -, hc'⟩ := mem_callsBelow hc'
      have hother := Node.suffix_of_mem_calls hc'
      rw [hplace] at hother
      have hsame := eq_of_suffix_of_suffix (Node.suffix_of_mem_calls hc) hother
      omega

/-- **No place has two calls.** -/
theorem Node.nodup_calls (node : Node) (layout : Layout) (here : Place) (n : Nat) :
    ((node.calls rt layout here n).map Call.place).Nodup := by
  induction node generalizing layout here n with
  | text value | comment value =>
      rw [calls]
      split
      · exact List.nodup_nil
      · exact List.nodup_singleton _
  | element tag children ih =>
      rw [calls, List.map_cons]
      split
      · exact List.nodup_singleton _
      · -- The places below an element are longer than its own.
        refine List.nodup_cons.mpr ⟨fun hhere => ?_, nodup_callsBelow_of ih _ _ _ _⟩
        obtain ⟨c, hc, hplace⟩ := List.mem_map.mp hhere
        obtain ⟨j, child, start, -, -, hc⟩ := mem_callsBelow hc
        have hplace : c.place = here := hplace
        have hlength := (Node.suffix_of_mem_calls hc).length_le
        rw [hplace, List.length_cons] at hlength
        omega

/-- What the calls for a list report and how many numbers they take, if that is known of each
member. -/
theorem tally_callsBelow_of {nodes : List Node}
    (h : ∀ node ∈ nodes, ∀ layout here n,
      (node.calls rt layout here n).flatMap Call.attributes = node.observed ∧
        (node.calls rt layout here n).countP Call.isLoop = (node.loops here).length)
    (layout : Layout) (here : Place) (i n : Nat) :
    (callsBelow rt layout here i n nodes).flatMap Call.attributes = observedBelow nodes ∧
      (callsBelow rt layout here i n nodes).countP Call.isLoop =
        (loopsBelow here i nodes).length := by
  induction nodes generalizing i n with
  | nil =>
      rw [callsBelow, observedBelow, loopsBelow]
      exact ⟨rfl, rfl⟩
  | cons node rest ih =>
      obtain ⟨hnode, hrest⟩ := List.forall_mem_cons.mp h
      obtain ⟨hobserved, hloops⟩ := hnode layout (i :: here) n
      obtain ⟨hobservedRest, hloopsRest⟩ := ih hrest (i + 1) (node.nextIn rt layout n)
      rw [callsBelow, observedBelow, loopsBelow, List.flatMap_append, List.countP_append,
        List.length_append, hobserved, hobservedRest, hloops, hloopsRest]
      exact ⟨rfl, rfl⟩

/-- **The calls for a node report what the node does, and take as many numbers.** -/
theorem Node.tally_calls (node : Node) (layout : Layout) (here : Place) (n : Nat) :
    (node.calls rt layout here n).flatMap Call.attributes = node.observed ∧
      (node.calls rt layout here n).countP Call.isLoop = (node.loops here).length := by
  induction node generalizing layout here n with
  | text value | comment value =>
      rw [calls, observed, loops]
      split <;> exact ⟨rfl, rfl⟩
  | element tag children ih =>
      have hself : ∀ below : List Call,
          (⟨here, layout, .element tag children, n⟩ :: below).countP Call.isLoop =
            below.countP Call.isLoop + if tag.isLoop then 1 else 0 :=
        fun below => List.countP_cons
      have hown : (if tag.isLoop then [here] else []).length = if tag.isLoop then 1 else 0 := by
        split <;> rfl
      rw [calls, observed, loops, List.flatMap_cons, hself, List.length_append, hown]
      split
      · exact ⟨rfl, rfl⟩
      · obtain ⟨hobserved, hloops⟩ := tally_callsBelow_of ih tag.layout here 0 n
        rw [hobserved, hloops]
        exact ⟨rfl, rfl⟩

/-- A member of a list that is lowered has a call of its own. -/
theorem Node.mem_calls {node : Node} {layout : Layout} (h : node.isLoweredIn layout = true)
    (here : Place) (n : Nat) :
    (⟨here, layout, node, n⟩ : Call) ∈ node.calls rt layout here n := by
  cases node with
  | text value | comment value =>
      have hlayout : layout ≠ .arms := by simpa [isLoweredIn] using h
      rw [calls, if_neg hlayout]
      exact List.mem_singleton_self _
  | element tag children =>
      rw [calls]
      exact List.mem_cons_self

end Calls

/-! ### The numbers that calls start from -/

section Numbered

variable {rt : Runtime} {number : Place → Nat} {layout : Layout}

/-- A well-formed member of a list takes as many numbers as it has loops. -/
theorem Node.nextIn_eq {node : Node} {here : Place} {n : Nat} (hwell : node.WellFormedIn layout)
    (hn : Numbers number n (node.loops here)) :
    node.nextIn rt layout n = n + (node.loops here).length := by
  rw [nextIn]
  split
  · rename_i hparts
    rw [hparts, wellFormedIn_parts] at hwell
    have hreturns := ((node.lowersTo_and_contributesTo rt number).2 here n hn).returns hwell
    rw [hreturns, finishedPart_eq_loops hwell]
  · rename_i hparts
    rw [wellFormedIn_of_ne_parts hparts] at hwell
    have hreturns := (node.lower_ends rt hn).returns hwell
    rw [hreturns, finished_eq_loops hwell]

/-- **A call gives the code of the node.** -/
theorem Call.code?_eq {node : Node} {here : Place} {n : Nat} (hwell : node.WellFormedIn layout)
    (hn : Numbers number n (node.loops here)) :
    Call.code? rt ⟨here, layout, node, n⟩ = some (node.codeIn rt number layout here) := by
  rw [code?, Node.codeIn]
  by_cases htemplate : node.isTemplateIn layout = true
  · obtain ⟨hparts, -⟩ := Bool.and_eq_true_iff.mp htemplate
    obtain rfl := eq_of_beq hparts
    have hcontributes := (node.lowersTo_and_contributesTo rt number).2 here n hn
    have hresult := (hcontributes.returns (Node.wellFormedIn_parts.mp hwell)).result
    simp only [htemplate, if_true, hresult, Except.toOption, Option.map_some]
    rw [code_contributed, Node.codeIn, if_pos htemplate]
  · rw [Node.WellFormedIn, if_neg htemplate] at hwell
    have hresult := ((node.lower_ends rt hn).returns hwell).result
    simp only [htemplate, hresult, Except.toOption, Option.map_some]
    rfl

/-- The calls for a member of a list are among those for the list, from a number at which its loops
begin. -/
theorem calls_subset_callsBelow {nodes : List Node} {here : Place} {i k n : Nat} {node : Node}
    (hwell : ∀ node ∈ nodes, node.WellFormedIn layout)
    (hn : Numbers number n (loopsBelow here i nodes)) (hnode : nodes[k]? = some node) :
    ∃ start, Numbers number start (node.loops ((i + k) :: here)) ∧
      node.calls rt layout ((i + k) :: here) start ⊆ callsBelow rt layout here i n nodes := by
  induction nodes generalizing i k n with
  | nil => cases hnode
  | cons first rest ih =>
      obtain ⟨hfirst, hrest⟩ := List.forall_mem_cons.mp hwell
      rw [loopsBelow, numbers_append] at hn
      rw [callsBelow]
      cases k with
      | zero =>
          cases hnode
          exact ⟨n, hn.1, List.subset_append_left _ _⟩
      | succ k =>
          have hnext := hn.2
          have htaken : first.nextIn rt layout n = n + (first.loops (i :: here)).length :=
            Node.nextIn_eq hfirst hn.1
          rw [← htaken] at hnext
          obtain ⟨start, hstart, hsubset⟩ := ih hrest hnext hnode
          rw [Nat.add_assoc, Nat.add_comm 1 k] at hstart hsubset
          exact ⟨start, hstart, List.subset_append_of_subset_right _ hsubset⟩

end Numbered

/-! ### Places of the tree -/

/-- The children of the node at a place that are looked at, and what they are to it. The nodes of
the whole are at the empty place. -/
def listAt (nodes : List Node) : Place → Layout × List Node
  | [] => (.siblings, nodes)
  | i :: here =>
      match (listAt nodes here).2[i]? with
      | some (.element tag children) =>
          (tag.layout, if tag.layout = .ignored then [] else children)
      | _ => (.ignored, [])

section Places

variable {nodes : List Node} {here : Place} {i : Nat} {node : Node}

/-- A place below another is at an element whose children are looked at. -/
theorem listAt_cons {j : Nat} (h : (listAt nodes (j :: here)).2[i]? = some node) :
    ∃ tag children, (listAt nodes here).2[j]? = some (.element tag children) ∧
      tag.layout ≠ .ignored ∧ listAt nodes (j :: here) = (tag.layout, children) := by
  rw [listAt] at h ⊢
  cases hparent : (listAt nodes here).2[j]? with
  | none =>
      rw [hparent] at h
      cases h
  | some parent =>
      rw [hparent] at h
      cases parent with
      | text value => cases h
      | comment value => cases h
      | element tag children =>
          by_cases hlayout : tag.layout = .ignored
          · simp only [hlayout, if_true] at h
            cases h
          · exact ⟨tag, children, rfl, hlayout, by simp only [if_neg hlayout]⟩

theorem listAt_ne_ignored (h : (listAt nodes here).2[i]? = some node) :
    (listAt nodes here).1 ≠ .ignored := by
  cases here with
  | nil => simp [listAt]
  | cons j here =>
      obtain ⟨tag, children, -, hlayout, hlist⟩ := listAt_cons h
      rw [hlist]
      exact hlayout

/-- The lists of a well-formed tree are well formed for what they are. -/
theorem admits_listAt (hwell : WellFormedSiblings nodes)
    (h : (listAt nodes here).2[i]? = some node) :
    (listAt nodes here).1.Admits (listAt nodes here).2 := by
  induction here generalizing i node with
  | nil => exact hwell
  | cons j here ih =>
      obtain ⟨tag, children, hparent, -, hlist⟩ := listAt_cons h
      rw [hlist]
      exact Node.admits_of_wellFormedIn (Node.wellFormedIn_of_admits (ih hparent)
        (listAt_ne_ignored hparent) (List.mem_of_getElem? hparent))

/-- The nodes of a well-formed tree are well formed where they stand. -/
theorem forall_wellFormedIn_listAt (hwell : WellFormedSiblings nodes)
    (h : (listAt nodes here).2[i]? = some node) :
    ∀ other ∈ (listAt nodes here).2, other.WellFormedIn (listAt nodes here).1 :=
  fun _ => Node.wellFormedIn_of_admits (admits_listAt hwell h) (listAt_ne_ignored h)

/-- **Every place that is looked at has its calls.** -/
theorem calls_of_listAt (rt : Runtime) {number : Place → Nat} {n : Nat}
    (hwell : WellFormedSiblings nodes) (hn : Numbers number n (loopsBelow [] 0 nodes))
    (hnode : (listAt nodes here).2[i]? = some node) :
    ∃ start, Numbers number start (node.loops (i :: here)) ∧
      node.calls rt (listAt nodes here).1 (i :: here) start ⊆ blockCalls rt n nodes := by
  have hmembers := forall_wellFormedIn_listAt hwell hnode
  -- The induction goes inwards: the calls for an element hold those for its children.
  induction here generalizing i node with
  | nil =>
      obtain ⟨start, hstart, hsubset⟩ := calls_subset_callsBelow hmembers hn hnode
      rw [Nat.zero_add] at hstart hsubset
      exact ⟨start, hstart, hsubset⟩
  | cons j here ih =>
      obtain ⟨tag, children, hparent, hlayout, hlist⟩ := listAt_cons hnode
      obtain ⟨outer, houter, hinside⟩ := ih hparent (forall_wellFormedIn_listAt hwell hparent)
      rw [Node.loops, if_neg hlayout, numbers_append] at houter
      rw [Node.calls, if_neg hlayout, List.cons_subset] at hinside
      rw [hlist] at hnode hmembers ⊢
      obtain ⟨start, hstart, hsubset⟩ := calls_subset_callsBelow hmembers houter.1 hnode
      rw [Nat.zero_add] at hstart hsubset
      exact ⟨start, hstart, List.Subset.trans hsubset hinside.2⟩

end Places

end Stencil
