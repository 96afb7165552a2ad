import Stencil.Proofs.Walks

/-!
# Placement of nodes and of their code

The conditions on how children may stand are about nodes, whereas the steps that take children
in look at their code. The two agree: the code of a node plays the part that its tag asks for,
and as long as the node is well formed it has no code only if it is a text without segments.

## Main results

* `Node.branch?_render`, `Node.isShown_render`: what the code of a node shows of the node.
* `wellFormedSiblings_iff`, `wellFormedArms_iff`, `wellFormedParts_iff`: children are well formed
  exactly when each of them is and their code can be taken in.
-/

namespace Stencil

/-! ### Code is never empty -/

namespace Segment

/-- A segment that is left over has code. -/
theorem segment_ne_empty {text : List Char} {s : Segment} (h : s ∈ split text) :
    Host.segment s ≠ "" := by
  have hliteral : ∀ {text : List Char}, s ∈ literals text → Host.segment s ≠ "" := by
    intro text h
    unfold literals at h
    split at h
    · cases h
    · obtain rfl := List.mem_singleton.mp h
      simp only [Host.segment, Host.textLiteral]
      split
      · simp [Host.quote, Host.quoteChars]
      · simp [String.append_eq_empty_iff]
  have hexpr : ∀ {code : List Char}, s ∈ exprs code → Host.segment s ≠ "" := by
    intro code h
    unfold exprs at h
    split at h
    · cases h
    · obtain rfl := List.mem_singleton.mp h
      simp [Host.segment]
  fun_induction split text with
  | case1 text hopen => exact hliteral h
  | case2 text before inner hopen hescaped => exact hliteral h
  | case3 text before inner hopen hescaped hclose => exact hliteral h
  | case4 text before inner hopen hescaped code rest hclose ih =>
      rcases List.mem_append.mp h with h | h
      · rcases List.mem_append.mp h with h | h
        · exact hliteral h
        · exact hexpr h
      · exact ih h

end Segment

/-- Text has no code exactly when it has no segments. -/
theorem Host.segments_ofText_eq_empty {value : String} :
    Host.segments (Segment.ofText value) = "" ↔ Segment.ofText value = [] := by
  constructor
  · intro h
    cases hsegments : Segment.ofText value with
    | nil => rfl
    | cons first rest =>
        have hmem : first ∈ Segment.split value.toList := by
          rw [← Segment.ofText, hsegments]
          exact List.mem_cons_self
        have hfirst : Host.segment first ≠ "" := Segment.segment_ne_empty hmem
        rw [hsegments, Host.segments, List.map_cons] at h
        cases rest with
        | nil => exact absurd (by simpa using h) hfirst
        | cons second more =>
            rw [List.map_cons, String.intercalate_cons_cons, String.append_eq_empty_iff,
              String.append_eq_empty_iff] at h
            exact absurd h.1.1 hfirst
  · intro h
    rw [h]
    rfl

theorem Text.ne_empty_of_endsWith {c : Char} {s : String} (h : Text.endsWith c s = true) :
    s ≠ "" := by
  rintro rfl
  simp [Text.endsWith] at h

namespace Tag

/-- A call has code, with or without one more argument. -/
theorem call_ne_empty {rt : Runtime} {run : String} {attrs : Dict} {parts : Parts}
    (h : Text.endsWith ')' run = true) : Component.call rt run attrs parts ≠ "" := by
  rw [Component.call]
  split
  · rw [Runtime.appendArgument]
    split <;> simp [String.append_eq_empty_iff]
  · exact Text.ne_empty_of_endsWith h

/-- An element whose tag is in order has code. -/
theorem code_ne_empty {rt : Runtime} {tag : Tag} {fragments : List Fragment}
    {contributions : List Contribution} (h : tag.Fits) :
    tag.code rt fragments contributions ≠ "" := by
  obtain ⟨-, hkind⟩ := h
  rw [code]
  split
  · rename_i hname
    rw [hname] at hkind
    obtain ⟨run, hrun, hend⟩ := Option.any_eq_true .. |>.mp hkind.2
    rw [hrun]
    exact call_ne_empty hend
  · simp [Runtime.slot, String.append_eq_empty_iff]
  · simp [Runtime.body, String.append_eq_empty_iff]
  · simp [Runtime.switch, Runtime.selfEvaluating, String.append_eq_empty_iff]
  · split <;> simp [Runtime.element, String.append_eq_empty_iff]

/-- Repeating an element leaves no element without code. -/
theorem repeated_ne_empty {tag : Tag} {number : Nat} {code : String} (h : code ≠ "") :
    tag.repeated number code ≠ "" := by
  rw [repeated]
  split
  · simp [Runtime.loop, Runtime.selfEvaluating, String.append_eq_empty_iff]
  · exact h

end Tag

/-! ### What the code of a node shows -/

namespace Node

variable {rt : Runtime} {number : Place → Nat} {here : Place}

/-- The code of a node plays the part that the node asks for. -/
@[simp] theorem branch?_render (node : Node) :
    (node.render rt number here).branch? = node.branch? := by
  cases node with
  | text value => rw [render]; rfl
  | comment value => rw [render]; rfl
  | element tag children => rw [render]; rfl

/-- The code of a well-formed node is shown if the node is. -/
theorem isShown_render {node : Node} (h : node.WellFormed) :
    (node.render rt number here).isShown = node.isShown := by
  cases node with
  | text value =>
      rw [render, Fragment.isShown, Fragment.code, isShown, Bool.eq_iff_iff]
      simp [Host.segments_ofText_eq_empty]
  | comment value =>
      rw [render]
      simp [Fragment.isShown, Fragment.code, isShown, Host.comment]
  | element tag children =>
      rw [WellFormed] at h
      rw [render]
      simpa [Fragment.isShown, Fragment.code, isShown] using
        Tag.repeated_ne_empty (Tag.code_ne_empty h.1)

end Node

/-! ### What a child contributes -/

namespace Node

variable (node : Node) (whole : Fragment) (closure : String)

@[simp] theorem template?_contribution :
    (node.contribution whole closure).template?.map Prod.fst = node.templateName? := by
  cases node with
  | text value => rfl
  | comment value => rfl
  | element tag children =>
      simp only [contribution, templateName?]
      split
      · rfl
      · cases tag.attr? "slot" <;> rfl

@[simp] theorem slot?_contribution :
    (node.contribution whole closure).slot?.map Prod.fst = node.slot? := by
  cases node with
  | text value => rfl
  | comment value => rfl
  | element tag children =>
      simp only [contribution, slot?]
      split
      · rfl
      · cases tag.attr? "slot" <;> rfl

@[simp] theorem body?_contribution :
    (node.contribution whole closure).body? = if node.isBody then some whole else none := by
  cases node with
  | text value => rfl
  | comment value => rfl
  | element tag children =>
      by_cases hname : tag.name = "template"
      · simp [contribution, isBody, isTemplate, hname, Contribution.body?]
      · have hbody : (element tag children).isBody = (tag.attr? "slot").isNone := by
          simp [isBody, isTemplate, slot?, hname]
        rw [hbody, contribution, if_neg hname]
        cases tag.attr? "slot" <;> rfl

@[simp] theorem isSettled_contribution :
    (node.contribution whole closure).isSettled = true ↔
      (node.slot?.isSome → whole.branch? = none) := by
  cases node with
  | text value => simp [contribution, Contribution.isSettled, slot?]
  | comment value => simp [contribution, Contribution.isSettled, slot?]
  | element tag children =>
      simp only [contribution, slot?]
      by_cases hname : tag.name = "template"
      · simp [hname, Contribution.isSettled]
      · cases tag.attr? "slot" <;> simp [hname, Contribution.isSettled]

/-- A child that belongs to the body is no template. -/
theorem isTemplate_of_isBody {node : Node} (h : node.isBody = true) :
    node.isTemplate = false := by
  rw [isBody, Bool.and_eq_true] at h
  simpa using h.1

end Node

/-! ### Lists of children -/

section Children

variable (rt : Runtime) (number : Place → Nat)

/-- The code of a node at its place. -/
def rendered (x : Place × Node) : Fragment := x.2.render rt number x.1

/-- What a child of a component contributes at its place. -/
def contributed (x : Place × Node) : Contribution :=
  x.2.contribution (rendered rt number x) (x.2.renderTemplate rt number x.1)

theorem renderAll_eq_map (here : Place) (i : Nat) (nodes : List Node) :
    renderAll rt number here i nodes = (withPlaces here i nodes).map (rendered rt number) := by
  induction nodes generalizing i with
  | nil => rw [renderAll, withPlaces, List.map_nil]
  | cons node rest ih => rw [renderAll, withPlaces, List.map_cons, ih, rendered]

theorem renderParts_eq_map (here : Place) (i : Nat) (nodes : List Node) :
    renderParts rt number here i nodes =
      (withPlaces here i nodes).map (contributed rt number) := by
  induction nodes generalizing i with
  | nil => rw [renderParts, withPlaces, List.map_nil]
  | cons node rest ih => rw [renderParts, withPlaces, List.map_cons, ih, contributed, rendered]

@[simp] theorem map_snd_withPlaces (here : Place) (i : Nat) (nodes : List Node) :
    (withPlaces here i nodes).map Prod.snd = nodes := by
  induction nodes generalizing i with
  | nil => rfl
  | cons node rest ih => rw [withPlaces, List.map_cons, ih]

variable {rt number}

/-- The parts played by well-formed siblings are those of their code. -/
theorem map_branch?_rendered {xs : List (Place × Node)} (h : ∀ x ∈ xs, x.2.WellFormed) :
    ((xs.map (rendered rt number)).filter Fragment.isShown).map Fragment.branch? =
      ((xs.map Prod.snd).filter Node.isShown).map Node.branch? := by
  induction xs with
  | nil => rfl
  | cons x rest ih =>
      have hx : (rendered rt number x).isShown = x.2.isShown :=
        Node.isShown_render (h x List.mem_cons_self)
      have hrest := ih fun y hy => h y (List.mem_cons_of_mem x hy)
      rw [List.map_cons, List.map_cons, List.filter_cons, List.filter_cons, hx]
      split
      · rw [List.map_cons, List.map_cons, hrest, rendered, Node.branch?_render]
      · exact hrest

/-- **Siblings are well formed** exactly when each of them is and their code can be taken in. -/
theorem wellFormedSiblings_iff (rt : Runtime) (number : Place → Nat) {xs : List (Place × Node)} :
    WellFormedSiblings (xs.map Prod.snd) ↔
      (∀ x ∈ xs, x.2.WellFormed) ∧
        ∃ t, (xs.map (rendered rt number)).foldlM Siblings.push {} = .ok t := by
  rw [WellFormedSiblings, allWellFormed_iff, List.forall_mem_map, and_comm]
  refine and_congr_right fun h => ?_
  rw [Siblings.foldlM_push_ok_iff, map_branch?_rendered h, SiblingsPlaced]

theorem branch?_beside (rt : Runtime) (number : Place → Nat) (xs : List (Place × Node)) :
    ∀ child ∈ xs.map fun x => (x.2, rendered rt number x),
      child.2.branch? = child.1.branch? := by
  intro child hchild
  obtain ⟨x, -, rfl⟩ := List.mem_map.mp hchild
  exact x.2.branch?_render

/-- **The arms of a switch are well formed** exactly when each of them is and their code can be
taken in. -/
theorem wellFormedArms_iff (rt : Runtime) (number : Place → Nat) {xs : List (Place × Node)} :
    WellFormedArms (xs.map Prod.snd) ↔
      (∀ x ∈ xs, x.2.WellFormed) ∧
        ∃ t, (xs.map fun x => (x.2, rendered rt number x)).foldlM Arms.take {} = .ok t := by
  rw [WellFormedArms, allWellFormed_iff, List.forall_mem_map, and_comm]
  refine and_congr_right fun _ => ?_
  simp only [Arms.foldlM_take_eq_ok (branch?_beside rt number xs), ArmsPlaced, exists_and_left,
    exists_eq, and_true, List.forall_mem_map, List.countP_map, Bool.toNat_false, Nat.zero_add]
  rfl

theorem templates_contributed (xs : List (Place × Node)) :
    ((xs.map (contributed rt number)).filterMap Contribution.template?).map Prod.fst =
      (xs.map Prod.snd).filterMap Node.templateName? := by
  rw [List.map_filterMap, List.filterMap_map, List.filterMap_map]
  exact List.filterMap_congr fun x _ => x.2.template?_contribution _ _

theorem slots_contributed (xs : List (Place × Node)) :
    ((xs.map (contributed rt number)).filterMap Contribution.slot?).map Prod.fst =
      (xs.map Prod.snd).filterMap Node.slot? := by
  rw [List.map_filterMap, List.filterMap_map, List.filterMap_map]
  exact List.filterMap_congr fun x _ => x.2.slot?_contribution _ _

theorem body_contributed (xs : List (Place × Node)) :
    (xs.map (contributed rt number)).filterMap Contribution.body? =
      (xs.filter (·.2.isBody)).map (rendered rt number) := by
  rw [List.filterMap_map, ← List.filterMap_eq_map, ← List.filterMap_eq_filter,
    List.filterMap_filterMap]
  refine List.filterMap_congr fun x _ => ?_
  simp only [Function.comp_apply, contributed, Node.body?_contribution, Option.guard]
  by_cases h : x.2.isBody = true
  · simp [h]
  · simp [h]

/-- **The parts of a component are well formed** exactly when each of them is, as a template or
as a node, and what they contribute can be taken in. -/
theorem wellFormedParts_iff (rt : Runtime) (number : Place → Nat) {xs : List (Place × Node)} :
    WellFormedParts (xs.map Prod.snd) ↔
      (∀ x ∈ xs, x.2.PartWellFormed) ∧
        ∃ t, (xs.map (contributed rt number)).foldlM Parts.take {} = .ok t := by
  rw [WellFormedParts, partsWellFormed_iff, List.forall_mem_map, and_comm]
  refine and_congr_right fun h => ?_
  have hbody : ∀ x ∈ xs.filter (·.2.isBody), x.2.WellFormed := by
    intro x hx
    obtain ⟨hmem, hisBody⟩ := List.mem_filter.mp hx
    have hpart := h x hmem
    rwa [Node.PartWellFormed, Node.isTemplate_of_isBody hisBody, if_neg Bool.false_ne_true]
      at hpart
  have hsettled : (∀ c ∈ xs.map (contributed rt number), c.isSettled = true) ↔
      ∀ node ∈ xs.map Prod.snd, node.slot?.isSome → node.branch? = none := by
    rw [List.forall_mem_map, List.forall_mem_map]
    refine forall₂_congr fun x _ => ?_
    rw [contributed, Node.isSettled_contribution, rendered, Node.branch?_render]
  have hplaced : (∃ b, ((xs.map (contributed rt number)).filterMap Contribution.body?).foldlM
      Siblings.push {} = .ok b) ↔ SiblingsPlaced ((xs.map Prod.snd).filter Node.isBody) := by
    have hnodes : (xs.filter (·.2.isBody)).map Prod.snd =
        (xs.map Prod.snd).filter Node.isBody := by
      rw [List.filter_map]
      rfl
    rw [body_contributed, Siblings.foldlM_push_ok_iff, map_branch?_rendered hbody, hnodes,
      SiblingsPlaced]
  simp only [Parts.foldlM_take_eq_ok, templates_contributed, slots_contributed, Dict.fresh_empty,
    hsettled]
  constructor
  · rintro ⟨htemplates, hslots, hcontents, hnodes⟩
    obtain ⟨body, hfold⟩ := hplaced.mpr hnodes
    exact ⟨⟨body, _, _⟩, htemplates, hslots, hcontents, hfold, rfl, rfl⟩
  · rintro ⟨t, htemplates, hslots, hcontents, hfold, -, -⟩
    exact ⟨htemplates, hslots, hcontents, hplaced.mp ⟨t.body, hfold⟩⟩

end Children

end Stencil
