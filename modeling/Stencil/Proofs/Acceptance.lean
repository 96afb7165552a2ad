import Stencil.Proofs.Numbering

/-!
# What is accepted

Lowering a node, with its loops numbered from the number that the lowering starts from, returns
the rendering of the node if the node is well formed, and fails otherwise. The proof goes over the
tree once and says everything about a lowering at a time: when it returns, what, how many loops it
has numbered and which attributes it has reported.

## Main results

* `Node.lower_ends`: the lowering of a node.
* `lowerSiblings_ends`, `lowerArms_ends`, `lowerParts_ends`: the walks over children.
* `lowerBlock_accepts_iff`: **a block is accepted exactly when its nodes are well-formed
  siblings**.
-/

namespace Stencil

variable {rt : Runtime} {number : Place → Nat}

/-! ### Walks over children at their places -/

/-- A node is lowered to its rendering. -/
def Node.LowersTo (rt : Runtime) (number : Place → Nat) (node : Node) : Prop :=
  ∀ here n, Numbers number n (node.loops here) →
    (node.lower rt).Ends n node.WellFormed (node.render rt number here)
      (node.finished here).length node.observed

/-- A child of a component is lowered to what it contributes. -/
def Node.ContributesTo (rt : Runtime) (number : Place → Nat) (node : Node) : Prop :=
  ∀ here n, Numbers number n (node.loops here) →
    (node.contribute rt).Ends n node.PartWellFormed (contributed rt number (here, node))
      (node.finishedPart here).length node.observed

/-- The numbers taken by a walk are as many as the elements that it finishes. -/
theorem takenAfter_eq_length {finished : Place × Node → List Place} {P : List Node → Prop}
    [DecidablePred P] (before xs : List (Place × Node)) :
    Pass.takenAfter (fun xs => P (xs.map Prod.snd)) (fun x => (finished x).length) before xs =
      (finishedBy finished (decide <| P ·) (before.map Prod.snd) xs).length := by
  induction xs generalizing before with
  | nil => rfl
  | cons x rest ih =>
      rw [Pass.takenAfter, finishedBy, List.length_append, ih]
      simp only [List.map_append, List.map_cons, List.map_nil, decide_eq_true_eq]
      split <;> rfl

theorem flatMap_observed_withPlaces (here : Place) (i : Nat) (nodes : List Node) :
    (withPlaces here i nodes).flatMap (fun x => x.2.observed) = observedBelow nodes := by
  induction nodes generalizing i with
  | nil => rw [withPlaces, observedBelow, List.flatMap_nil]
  | cons node rest ih => rw [withPlaces, observedBelow, List.flatMap_cons, ih]

/-- Children that are each visited as they should be are so one after the other, since a visit
that returns has taken as many numbers as the child has loops. -/
theorem eachEnds_withPlaces {β : Type} {visit : Place × Node → Lowering β}
    {good : Place × Node → Prop} {value : Place × Node → β}
    {finished : Place × Node → List Place} {nodes : List Node}
    (h : ∀ node ∈ nodes, ∀ here n, Numbers number n (node.loops here) →
      (visit (here, node)).Ends n (good (here, node)) (value (here, node))
        (finished (here, node)).length node.observed)
    (hall : ∀ node ∈ nodes, ∀ here, good (here, node) →
      finished (here, node) = node.loops here)
    {here : Place} {i n : Nat} (hn : Numbers number n (loopsBelow here i nodes)) :
    Pass.EachEnds visit good value (fun x => (finished x).length) (fun x => x.2.observed) n
      (withPlaces here i nodes) := by
  induction nodes generalizing i n with
  | nil => trivial
  | cons node rest ih =>
      rw [loopsBelow, numbers_append] at hn
      obtain ⟨hnode, hrest⟩ := hn
      refine ⟨h node List.mem_cons_self (i :: here) n hnode, fun hgood => ih ?_ ?_ ?_⟩
      · exact fun other hother => h other (List.mem_cons_of_mem node hother)
      · exact fun other hother => hall other (List.mem_cons_of_mem node hother)
      · simpa only [hall node List.mem_cons_self (i :: here) hgood] using hrest

/-- **A walk over children at their places.** It returns when the children are admitted as a
list, which means that each visit is good and that the results can be taken in. -/
theorem gather_withPlaces_ends {β σ : Type} (visit : Place × Node → Lowering β)
    {step : σ → β → Except Diagnostic σ} {s₀ : σ} {P : List Node → Prop} [DecidablePred P]
    {good : Place × Node → Prop} {value : Place × Node → β}
    (finished : Place × Node → List Place) {nodes : List Node}
    (hadmitted : ∀ xs : List (Place × Node), P (xs.map Prod.snd) ↔
      (∀ x ∈ xs, good x) ∧ ∃ t, (xs.map value).foldlM step s₀ = .ok t)
    (h : ∀ node ∈ nodes, ∀ here n, Numbers number n (node.loops here) →
      (visit (here, node)).Ends n (good (here, node)) (value (here, node))
        (finished (here, node)).length node.observed)
    (hall : ∀ node ∈ nodes, ∀ here, good (here, node) →
      finished (here, node) = node.loops here)
    {here : Place} {n : Nat} (hn : Numbers number n (loopsBelow here 0 nodes)) :
    (Pass.gather visit step s₀ (withPlaces here 0 nodes)).Ends n (P nodes)
      (Pass.reached step s₀ ((withPlaces here 0 nodes).map value))
      (finishedBy finished (decide <| P ·) [] (withPlaces here 0 nodes)).length
      (observedBelow nodes) := by
  have heach := eachEnds_withPlaces h hall hn
  have hbefore : ∀ x ∈ ([] : List (Place × Node)), good x := by simp
  have hends := Pass.gather_ends hadmitted hbefore rfl heach
  rw [takenAfter_eq_length, flatMap_observed_withPlaces] at hends
  exact hends.congr (by rw [List.nil_append, map_snd_withPlaces]) (fun _ => rfl) rfl

/-- **Siblings** are lowered to the sequence of their items. -/
theorem lowerSiblings_ends {nodes : List Node} (h : ∀ node ∈ nodes, node.LowersTo rt number)
    {here : Place} {n : Nat} (hn : Numbers number n (loopsBelow here 0 nodes)) :
    (Siblings.finish <$> lowerSiblings rt {} nodes).Ends n (WellFormedSiblings nodes)
      (.ofFragments (renderAll rt number here 0 nodes))
      (finishedAmong (decide <| WellFormedSiblings ·) here 0 [] nodes).length
      (observedBelow nodes) := by
  have hends := gather_withPlaces_ends (fun x => x.2.lower rt) (fun x => x.2.finished x.1)
    (fun xs => wellFormedSiblings_iff rt number) h
    (fun node _ here hgood => Node.finished_eq_loops hgood here) hn
  rw [← lowerSiblings_eq_gather, ← renderAll_eq_map, ← finishedAmong_eq] at hends
  refine (hends.map Siblings.finish).congr Iff.rfl (fun hok => ?_) rfl
  rw [← map_snd_withPlaces here 0 nodes] at hok
  obtain ⟨-, t, ht⟩ := (wellFormedSiblings_iff rt number).mp hok
  rw [← renderAll_eq_map] at ht
  rw [Pass.reached_of_foldlM ht, Siblings.finish_of_foldlM_push ht]

/-- **The arms of a switch** are lowered to their code in order. -/
theorem lowerArms_ends {nodes : List Node} (h : ∀ node ∈ nodes, node.LowersTo rt number)
    {here : Place} {n : Nat} (hn : Numbers number n (loopsBelow here 0 nodes)) :
    (lowerArms rt {} nodes).Ends n (WellFormedArms nodes)
      { code := String.join ((renderAll rt number here 0 nodes).map Fragment.arm)
        hasDefault := nodes.any Node.isDefault }
      (finishedAmong (decide <| WellFormedArms ·) here 0 [] nodes).length
      (observedBelow nodes) := by
  have hends := gather_withPlaces_ends (fun x => x.2.lowerBeside rt) (fun x => x.2.finished x.1)
    (fun xs => wellFormedArms_iff rt number)
    (fun node hnode here n hn => (h node hnode here n hn).map (Prod.mk node))
    (fun node _ here hgood => Node.finished_eq_loops hgood here) hn
  rw [← lowerArms_eq_gather, ← finishedAmong_eq] at hends
  refine hends.congr Iff.rfl (fun hok => ?_) rfl
  rw [← map_snd_withPlaces here 0 nodes] at hok
  obtain ⟨-, t, ht⟩ := (wellFormedArms_iff rt number).mp hok
  rw [Pass.reached_of_foldlM ht]
  obtain ⟨-, -, rfl⟩ := (Arms.foldlM_take_eq_ok (branch?_beside rt number _)).mp ht
  have hcode : (renderAll rt number here 0 nodes).map Fragment.arm =
      ((withPlaces here 0 nodes).map fun x => (x.2, rendered rt number x)).map (·.2.arm) := by
    rw [renderAll_eq_map, List.map_map, List.map_map]
    rfl
  have hdefault : nodes.any Node.isDefault =
      ((withPlaces here 0 nodes).map fun x => (x.2, rendered rt number x)).any (·.1.isDefault) := by
    conv => lhs; rw [← map_snd_withPlaces here 0 nodes]
    rw [List.any_map, List.any_map]
    rfl
  rw [hcode, hdefault, Bool.false_or]
  congr 1

/-- The parts of a component are lowered and taken in one after the other. -/
theorem lowerParts_ends {nodes : List Node} (h : ∀ node ∈ nodes, node.ContributesTo rt number)
    {here : Place} {n : Nat} (hn : Numbers number n (loopsBelow here 0 nodes)) :
    (lowerParts rt {} nodes).Ends n (WellFormedParts nodes)
      (Pass.reached Parts.take {} (renderParts rt number here 0 nodes))
      (finishedParts here 0 [] nodes).length (observedBelow nodes) := by
  have hends := gather_withPlaces_ends (fun x => x.2.contribute rt)
    (fun x => x.2.finishedPart x.1) (fun xs => wellFormedParts_iff rt number) h
    (fun node _ here hgood => Node.finishedPart_eq_loops hgood here) hn
  rwa [← lowerParts_eq_gather, ← renderParts_eq_map, ← finishedParts_eq] at hends

/-- **The parts of a component** make the call that their contributions make. -/
theorem call_reached {nodes : List Node} (h : WellFormedParts nodes) (here : Place) (run : String)
    (attrs : Dict) :
    Component.call rt run attrs (Pass.reached Parts.take {} (renderParts rt number here 0 nodes)) =
      Component.call rt run attrs (.ofContributions (renderParts rt number here 0 nodes)) := by
  rw [← map_snd_withPlaces here 0 nodes] at h
  obtain ⟨-, t, ht⟩ := (wellFormedParts_iff rt number).mp h
  rw [← renderParts_eq_map] at ht
  obtain ⟨-, -, -, hbody, hslots, htemplates⟩ := Parts.foldlM_take_eq_ok.mp ht
  rw [Pass.reached_of_foldlM ht, Component.call, Component.call, hslots, htemplates,
    Siblings.finish_of_foldlM_push hbody]
  rfl

/-! ### The tag of an element around its children -/

section Element

variable {tag : Tag} {n t : Nat} {p : Prop} {seen : List Attribute}

/-- A component is called only by what ends like a call. -/
theorem Component.call_ends {parts : Lowering Parts} {value : Parts} (run : String)
    (d : Descriptor) (h : parts.Ends n p value t seen) :
    (if Text.endsWith ')' run then do
        let parts ← Pass.within tag.describe parts
        return .element (Component.call rt run (d.attrs.erase "run") parts) d
      else
        Pass.fail { cause := .notACall run, context := some tag.describe } :
      Lowering Fragment).Ends n (Text.endsWith ')' run ∧ p)
      (.element (Component.call rt run (d.attrs.erase "run") value) d)
      (if Text.endsWith ')' run then t else 0) seen := by
  split
  · rename_i hend
    exact ((h.within tag.describe).bind_pure _).congr (and_iff_right hend) (fun _ => rfl) rfl
  · rename_i hend
    exact ⟨fun hok => absurd hok.1 hend, fun _ => Pass.fails_fail _ n seen⟩

/-- A component whose tag is in order is lowered to its call. -/
theorem Component.lower_ends (hkind : ElementKind.ofName tag.name = .component)
    {parts : Lowering Parts} {value : Parts} (h : parts.Ends n p value t seen) :
    (Component.lower rt tag parts).Ends n (tag.Fits ∧ p)
      (.element (Component.call rt (Text.trim ((tag.attr? "run").getD ""))
        (tag.described.attrs.erase "run") value) tag.described)
      (if tag.Fits then t else 0) (tag.attributes ++ seen) := by
  have hfits : tag.Fits ↔ (tag.branches.length ≤ 1 ∧ tag.Takes true) ∧
      (tag.attr? "run").isSome ∧
      Text.endsWith ')' (Text.trim ((tag.attr? "run").getD "")) := by
    rw [Tag.Fits, hkind, Tag.FitsKind, and_assoc]
    cases tag.attr? "run" <;> simp
  refine Pass.Ends.congr (Pass.Ends.check (tag.strictDescriptor_ends true n) fun _ =>
    Pass.Ends.check ((tag.require_ends "run" n).map Text.trim) fun _ =>
      Component.call_ends _ _ h) ?_ (fun _ => rfl) ?_
  · simp only [hfits, and_assoc]
  · simp only [hfits, ite_and]

/-- The place of a slot whose tag is in order is lowered to the slot. -/
theorem Component.lowerSlot_ends (hkind : ElementKind.ofName tag.name = .slot) :
    (Component.lowerSlot tag).Ends n tag.Fits
      (.element (Runtime.slot ((tag.attr? "name").getD "")) tag.described) 0 tag.attributes := by
  have hfits : tag.Fits ↔
      (tag.branches.length ≤ 1 ∧ tag.Takes true) ∧ (tag.attr? "name").isSome := by
    rw [Tag.Fits, hkind, Tag.FitsKind, and_assoc]
  have hends : (Component.lowerSlot tag).Ends n
      ((tag.branches.length ≤ 1 ∧ tag.Takes true) ∧ (tag.attr? "name").isSome)
      (.element (Runtime.slot ((tag.attr? "name").getD "")) tag.described) _
      (tag.attributes ++ []) :=
    Pass.Ends.check (tag.strictDescriptor_ends true n) fun _ =>
      (tag.require_ends "name" n).bind_pure _
  rw [List.append_nil] at hends
  exact hends.congr hfits (fun _ => rfl) (ite_self 0)

/-- The place of the body whose tag is in order is lowered to the body. -/
theorem Component.lowerBody_ends (hkind : ElementKind.ofName tag.name = .body) :
    (Component.lowerBody rt tag).Ends n tag.Fits (.element rt.body tag.described) 0
      tag.attributes := by
  have hfits : tag.Fits ↔ tag.branches.length ≤ 1 ∧ tag.Takes true := by
    rw [Tag.Fits, hkind, Tag.FitsKind]
  exact ((tag.strictDescriptor_ends true n).bind_pure _).congr hfits (fun _ => rfl) rfl

/-- A switch whose tag is in order is lowered around its arms. -/
theorem Switch.lower_ends (hkind : ElementKind.ofName tag.name = .switch)
    {arms : Lowering Arms} {value : Arms} (h : arms.Ends n p value t seen) :
    (Switch.lower tag arms).Ends n (tag.Fits ∧ p)
      (.element (Runtime.switch ((tag.attr? "run").getD "") value.code) tag.described)
      (if tag.Fits then t else 0) (tag.attributes ++ seen) := by
  have hfits : tag.Fits ↔
      (tag.branches.length ≤ 1 ∧ tag.Takes true) ∧ (tag.attr? "run").isSome := by
    rw [Tag.Fits, hkind, Tag.FitsKind, and_assoc]
  refine Pass.Ends.congr (Pass.Ends.check (tag.strictDescriptor_ends true n) fun _ =>
    Pass.Ends.check (tag.require_ends "run" n) fun _ =>
      (h.within tag.describe).bind_pure _) ?_ (fun _ => rfl) ?_
  · rw [hfits, and_assoc]
  · simp only [hfits, ite_and]

/-- An ordinary element that is no switch is lowered around its siblings. -/
theorem Element.lower_ends_siblings (rt : Runtime) (hkind : ElementKind.ofName tag.name = .ordinary)
    (hswitch : tag.described.switchTarget = none) {siblings : Lowering Sequence}
    {value : Sequence} (h : siblings.Ends n p value t seen) (arms : Lowering Arms) :
    (Element.lower rt tag siblings arms).Ends n (tag.Fits ∧ p)
      (.element (rt.element tag.described value.code) tag.described)
      (if tag.Fits then t else 0) (tag.attributes ++ seen) := by
  have hfits : tag.Fits ↔ tag.branches.length ≤ 1 := by
    rw [Tag.Fits, hkind, Tag.FitsKind, and_true]
  refine Pass.Ends.within _ (Pass.Ends.congr
    (Pass.Ends.check (q := p) (t := t) (tag.descriptor_ends n) fun _ => ?_)
    (by rw [hfits]) (fun _ => rfl) (by simp only [hfits]))
  simp only [hswitch]
  exact h.bind_pure _

/-- An ordinary element that is a switch is lowered around its arms. -/
theorem Element.lower_ends_arms (rt : Runtime) (hkind : ElementKind.ofName tag.name = .ordinary)
    {target : String} (hswitch : tag.described.switchTarget = some target)
    {arms : Lowering Arms} {value : Arms} (h : arms.Ends n p value t seen)
    (siblings : Lowering Sequence) :
    (Element.lower rt tag siblings arms).Ends n (tag.Fits ∧ p)
      (.element (rt.element tag.described (Runtime.switch target value.code ++ separator))
        tag.described)
      (if tag.Fits then t else 0) (tag.attributes ++ seen) := by
  have hfits : tag.Fits ↔ tag.branches.length ≤ 1 := by
    rw [Tag.Fits, hkind, Tag.FitsKind, and_true]
  refine Pass.Ends.within _ (Pass.Ends.congr
    (Pass.Ends.check (q := p) (t := t) (tag.descriptor_ends n) fun _ => ?_)
    (by rw [hfits]) (fun _ => rfl) (by simp only [hfits]))
  simp only [hswitch]
  exact h.bind_pure _

/-- An element is repeated under the next number, if it has a loop clause. -/
theorem Fragment.looped_ends (tag : Tag) (code : String) (n : Nat) :
    (Fragment.element code tag.described).looped.Ends n True
      (.element (tag.repeated n code) tag.described) (if tag.isLoop then 1 else 0) [] := by
  rw [Fragment.looped, Tag.repeated, Tag.isLoop]
  cases tag.described.loopClause with
  | none => exact Pass.ends_pure _ n
  | some clause =>
      exact ⟨fun _ => (Pass.returns_freshLoop n).bind (Pass.returns_pure _ _),
        fun h => absurd trivial h⟩

end Element

/-! ### Trees -/

namespace Element

/-- Lowers an element without repeating it. -/
def lowerOnce (rt : Runtime) (tag : Tag) (children : List Node) : Lowering Fragment :=
  match ElementKind.ofName tag.name with
  | .component => Component.lower rt tag (lowerParts rt {} children)
  | .slot => Component.lowerSlot tag
  | .body => Component.lowerBody rt tag
  | .switch => Switch.lower tag (lowerArms rt {} children)
  | .ordinary =>
      Element.lower rt tag (Siblings.finish <$> lowerSiblings rt {} children)
        (lowerArms rt {} children)

/-- Of the repeated elements below an element, those whose lowering is over when the lowering of
the element is over. -/
def finishedBelow (tag : Tag) (here : Place) (children : List Node) : List Place :=
  if tag.Fits then
    match tag.layout with
    | .siblings => finishedAmong (decide <| WellFormedSiblings ·) here 0 [] children
    | .arms => finishedAmong (decide <| WellFormedArms ·) here 0 [] children
    | .parts => finishedParts here 0 [] children
    | .ignored => []
  else []

end Element

namespace Node

theorem lower_element (rt : Runtime) (tag : Tag) (children : List Node) :
    (element tag children).lower rt =
      Element.lowerOnce rt tag children >>= Fragment.looped := by
  rw [lower, Element.lowerOnce]
  cases ElementKind.ofName tag.name <;> rfl

theorem finished_element (here : Place) (tag : Tag) (children : List Node) :
    (element tag children).finished here =
      Element.finishedBelow tag here children ++
        if tag.isLoop ∧ (element tag children).WellFormed then [here] else [] := by
  rw [finished]
  rfl

/-- Below a well-formed element all is finished. -/
theorem finishedBelow_eq {tag : Tag} {children : List Node}
    (h : (element tag children).WellFormed) (here : Place) :
    Element.finishedBelow tag here children =
      if tag.layout = .ignored then [] else loopsBelow here 0 children := by
  have hall := finished_eq_loops h here
  rw [finished_element, loops] at hall
  simp only [and_iff_left h] at hall
  exact List.append_cancel_right hall

end Node

/-- **An element before it is repeated**: it is lowered if it is well formed, to its code around
its children. -/
theorem Element.lowerOnce_ends {tag : Tag} {children : List Node}
    (h : ∀ child ∈ children, child.LowersTo rt number)
    (h' : ∀ child ∈ children, child.ContributesTo rt number) {here : Place} {n : Nat}
    (hn : Numbers number n (if tag.layout = .ignored then [] else loopsBelow here 0 children)) :
    (Element.lowerOnce rt tag children).Ends n (Node.element tag children).WellFormed
      (.element
        (tag.code rt (renderAll rt number here 0 children) (renderParts rt number here 0 children))
        tag.described)
      (Element.finishedBelow tag here children).length (Node.element tag children).observed := by
  rw [Element.lowerOnce, Element.finishedBelow, apply_ite List.length, Node.observed, Tag.code,
    Node.WellFormed]
  cases hkind : ElementKind.ofName tag.name with
  | component =>
      have hlayout : tag.layout = .parts := by rw [Tag.layout, hkind]
      have hlooked : tag.layout ≠ .ignored := by simp [hlayout]
      rw [if_neg hlooked] at hn
      simp only [hlayout, Layout.Demands, List.length_nil, reduceCtorEq, if_false]
      refine (Component.lower_ends hkind (lowerParts_ends h' hn)).congr Iff.rfl (fun hok => ?_) rfl
      rw [call_reached hok.2]
  | slot =>
      have hlayout : tag.layout = .ignored := by rw [Tag.layout, hkind]
      simpa [hlayout, Layout.Demands] using Component.lowerSlot_ends (n := n) hkind
  | body =>
      have hlayout : tag.layout = .ignored := by rw [Tag.layout, hkind]
      have hbody : (Component.lowerBody rt tag).Ends n _ _ _ _ := Component.lowerBody_ends hkind
      simpa [hlayout, Layout.Demands] using hbody
  | switch =>
      have hlayout : tag.layout = .arms := by rw [Tag.layout, hkind]
      have hlooked : tag.layout ≠ .ignored := by simp [hlayout]
      rw [if_neg hlooked] at hn
      simp only [hlayout, Layout.Demands, List.length_nil, reduceCtorEq, if_false]
      have hends := Switch.lower_ends hkind (lowerArms_ends h hn)
      exact hends
  | ordinary =>
      cases hswitch : tag.described.switchTarget with
      | none =>
          have hlayout : tag.layout = .siblings := by simp [Tag.layout, hkind, hswitch]
          have hlooked : tag.layout ≠ .ignored := by simp [hlayout]
          rw [if_neg hlooked] at hn
          simp only [hlayout, Layout.Demands, List.length_nil, reduceCtorEq, if_false]
          have hends := Element.lower_ends_siblings rt hkind hswitch
            (lowerSiblings_ends h hn) (lowerArms rt {} children)
          exact hends
      | some target =>
          have hlayout : tag.layout = .arms := by simp [Tag.layout, hkind, hswitch]
          have hlooked : tag.layout ≠ .ignored := by simp [hlayout]
          rw [if_neg hlooked] at hn
          simp only [hlayout, Layout.Demands, List.length_nil, reduceCtorEq, if_false]
          have hends := Element.lower_ends_arms rt hkind hswitch (lowerArms_ends h hn)
            (Siblings.finish <$> lowerSiblings rt {} children)
          exact hends

/-- A repeated element is under the number of its place. -/
theorem Tag.repeated_congr {tag : Tag} {m m' : Nat} {code : String} (h : tag.isLoop → m = m') :
    tag.repeated m code = tag.repeated m' code := by
  rw [Tag.isLoop] at h
  rw [Tag.repeated, Tag.repeated]
  cases hclause : tag.described.loopClause with
  | none => rfl
  | some clause => rw [h (by rw [hclause]; rfl)]

namespace Node

/-- An element is lowered to its rendering if its children are. -/
theorem lowersTo_element (tag : Tag) {children : List Node}
    (h : ∀ child ∈ children, child.LowersTo rt number)
    (h' : ∀ child ∈ children, child.ContributesTo rt number) :
    (element tag children).LowersTo rt number := by
  intro here n hn
  rw [loops, numbers_append] at hn
  obtain ⟨hbelow, hself⟩ := hn
  have honce := Element.lowerOnce_ends h h' hbelow
  have hends := honce.bind fun _ => Fragment.looped_ends tag _ _
  rw [← lower_element, List.append_nil] at hends
  refine hends.congr (iff_of_eq (and_true _).symm) (fun hok => ?_) ?_
  · have hnumber : tag.isLoop →
        n + (Element.finishedBelow tag here children).length = number here := by
      intro hloop
      rw [if_pos hloop, numbers_singleton] at hself
      rw [finishedBelow_eq hok.1, hself]
    rw [render, Tag.repeated_congr hnumber]
  · rw [finished_element, List.length_append, ite_and]
    by_cases hwf : (element tag children).WellFormed
    · cases hloop : tag.isLoop <;> simp [hwf]
    · simp [hwf]

/-- Text is lowered to its rendering. -/
theorem lowersTo_text (value : String) : (text value).LowersTo rt number := by
  intro here n _
  rw [lower, render, finished, observed]
  exact (Pass.ends_pure _ n).congr (by rw [WellFormed]) (fun _ => rfl) rfl

/-- A comment is lowered to its rendering. -/
theorem lowersTo_comment (value : String) : (comment value).LowersTo rt number := by
  intro here n _
  rw [lower, render, finished, observed]
  exact (Pass.ends_pure _ n).congr (by rw [WellFormed]) (fun _ => rfl) rfl

/-- A child of a component that is no template contributes what it is lowered to. -/
theorem contributesTo_of_not_template {node : Node} (h : node.LowersTo rt number)
    (htemplate : node.isTemplate = false) : node.ContributesTo rt number := by
  intro here n hn
  have hends := h here n hn
  rw [PartWellFormed, finishedPart, htemplate]
  simp only [Bool.false_eq_true, if_false]
  cases node with
  | text value => exact hends.map Contribution.body
  | comment value => exact hends.map Contribution.body
  | element tag children =>
      have hname : tag.name ≠ "template" := by simpa [isTemplate] using htemplate
      simp only [contribute, contributed, contribution, if_neg hname]
      cases tag.attr? "slot" with
      | none => exact hends.map Contribution.body
      | some slot => exact hends.map (Contribution.slot slot tag)

/-- A template of a component contributes the function around its contents. -/
theorem contributesTo_of_template {tag : Tag} {children : List Node}
    (h : ∀ child ∈ children, child.LowersTo rt number) (hname : tag.name = "template") :
    (element tag children).ContributesTo rt number := by
  intro here n hn
  have htemplate : (element tag children).isTemplate = true := by simp [isTemplate, hname]
  have hlayout := Tag.layout_ne_ignored_of_template hname
  have hfits : tag.FitsTemplate ↔
      (tag.branches.length ≤ 1 ∧ tag.Takes false) ∧ (tag.attr? "name").isSome := Iff.rfl
  rw [loops, numbers_append, if_neg hlayout] at hn
  have hcontents := lowerSiblings_ends h hn.1
  rw [PartWellFormed, finishedPart, htemplate]
  simp only [if_true, contribute, contributed, contribution, if_pos hname]
  rw [TemplateWellFormed, finishedTemplate, observed, if_neg hlayout, lowerContents,
    renderTemplate]
  refine Pass.Ends.congr (Pass.Ends.check (tag.strictDescriptor_ends false n) fun _ =>
    Pass.Ends.check (tag.require_ends "name" n) fun _ => hcontents.bind_pure _) ?_
    (fun _ => rfl) ?_
  · rw [hfits, and_assoc]
    rfl
  · rw [apply_ite List.length, List.length_nil]
    simp only [hfits, ite_and]

/-- **Every node is lowered to its rendering, and every child of a component to what it
contributes.** -/
theorem lowersTo_and_contributesTo (rt : Runtime) (number : Place → Nat) (node : Node) :
    node.LowersTo rt number ∧ node.ContributesTo rt number := by
  induction node with
  | text value =>
      exact ⟨lowersTo_text value, contributesTo_of_not_template (lowersTo_text value) rfl⟩
  | comment value =>
      exact ⟨lowersTo_comment value, contributesTo_of_not_template (lowersTo_comment value) rfl⟩
  | element tag children ih =>
      have hlowers := lowersTo_element tag (fun child hchild => (ih child hchild).1)
        fun child hchild => (ih child hchild).2
      refine ⟨hlowers, ?_⟩
      by_cases hname : tag.name = "template"
      · exact contributesTo_of_template (fun child hchild => (ih child hchild).1) hname
      · exact contributesTo_of_not_template hlowers (by simpa [isTemplate] using hname)

/-- **The lowering of a node** with its loops numbered from where it starts. -/
theorem lower_ends (rt : Runtime) {number : Place → Nat} {node : Node} {here : Place} {n : Nat}
    (hn : Numbers number n (node.loops here)) :
    (node.lower rt).Ends n node.WellFormed (node.render rt number here)
      (node.finished here).length node.observed :=
  (node.lowersTo_and_contributesTo rt number).1 here n hn

end Node

/-! ### Blocks -/

/-- The lowering of siblings with their loops numbered from where it starts. -/
theorem lowerSiblings_ends_numbered (rt : Runtime) {number : Place → Nat} {nodes : List Node}
    {here : Place} {n : Nat} (hn : Numbers number n (loopsBelow here 0 nodes)) :
    (Siblings.finish <$> lowerSiblings rt {} nodes).Ends n (WellFormedSiblings nodes)
      (.ofFragments (renderAll rt number here 0 nodes))
      (finishedAmong (decide <| WellFormedSiblings ·) here 0 [] nodes).length
      (observedBelow nodes) :=
  lowerSiblings_ends (fun node _ => (node.lowersTo_and_contributesTo rt number).1) hn

/-- The lowering of a block is that of its siblings, and so is the lowering of children. -/
theorem lowerBlock_eq_map (rt : Runtime) (nodes : List Node) :
    lowerBlock rt nodes =
      Sequence.withoutLast <$> (Siblings.finish <$> lowerSiblings rt {} nodes) := by
  rw [lowerBlock, map_eq_pure_bind, map_eq_pure_bind, bind_assoc]
  simp only [pure_bind]

theorem lowerChildren_eq_map (rt : Runtime) (nodes : List Node) :
    lowerChildren rt nodes =
      Sequence.code <$> (Siblings.finish <$> lowerSiblings rt {} nodes) := by
  rw [lowerChildren, map_eq_pure_bind, map_eq_pure_bind, bind_assoc]
  simp only [pure_bind]

/-- **A block is accepted exactly when its nodes are well-formed siblings**, whatever the package
of the runtime is and whatever number its loops start from. -/
theorem lowerBlock_accepts_iff (rt : Runtime) (nodes : List Node) (n : Nat) :
    (∃ code, ((lowerBlock rt nodes).run n).result = .ok code) ↔ WellFormedSiblings nodes := by
  have hnumbers := numbers_idxOf (nodup_of_pairwise (pairwise_loopsBelow [] 0 nodes)) n
  have hends := (lowerSiblings_ends_numbered rt hnumbers).map Sequence.withoutLast
  rw [← lowerBlock_eq_map] at hends
  exact hends.result_iff

end Stencil
