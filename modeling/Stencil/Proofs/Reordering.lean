import Stencil.Proofs.Containment

/-!
# The order of the parts of a component

Templates and contents of slots may stand anywhere among the children of a component. They are
taken out into dictionaries, which list their entries by key, and the body is what is left. So only
the order of the body counts; a template between a condition and its alternative changes nothing.

Loops are numbered in source order, and a number is written into the code. Where no element below a
component is repeated the code of a child does not depend on where it stands.

## Main results

* `Node.contributed_of_unrepeated`: a child without loops contributes the same at every place.
* `Dict.insertAll_perm`: a dictionary with fresh keys does not depend on the order of filling.
* `wellFormedParts_perm`, `Parts.ofContributions_perm`: the conditions on the children of a
  component, and the parts that they make, depend on the order of the body only.
* `component_order_independent`: **a component is lowered to the same call wherever its templates
  and the contents of its slots stand.**
-/

namespace Stencil

/-! ### Code without loops -/

section Unrepeated

theorem loopsBelow_eq_map_of {nodes : List Node}
    (h : ∀ node ∈ nodes, ∀ here, node.loops here = (node.loops []).map (· ++ here))
    (here : Place) (i : Nat) :
    loopsBelow here i nodes = (loopsBelow [] i nodes).map (· ++ here) := by
  induction nodes generalizing i with
  | nil => rfl
  | cons node rest ih =>
      obtain ⟨hnode, hrest⟩ := List.forall_mem_cons.mp h
      rw [loopsBelow, loopsBelow, List.map_append, ← ih hrest, hnode (i :: here), hnode [i],
        List.map_map]
      simp [Function.comp_def]

/-- The places of a tree are relative to the place of its root. -/
theorem Node.loops_eq_map (node : Node) (here : Place) :
    node.loops here = (node.loops []).map (· ++ here) := by
  induction node generalizing here with
  | text value => rfl
  | comment value => rfl
  | element tag children ih =>
      rw [loops, loops, List.map_append]
      congr 1
      · split
        · rfl
        · exact loopsBelow_eq_map_of ih here 0
      · split <;> rfl

/-- No element among siblings and below is repeated if none is in the tree of each of them. -/
theorem loopsBelow_eq_nil_iff {here : Place} {i : Nat} {nodes : List Node} :
    loopsBelow here i nodes = [] ↔ ∀ node ∈ nodes, node.loops [] = [] := by
  induction nodes generalizing i with
  | nil => simp [loopsBelow]
  | cons node rest ih =>
      rw [loopsBelow, List.append_eq_nil_iff, ih, node.loops_eq_map, List.map_eq_nil_iff,
        List.forall_mem_cons]

variable {rt : Runtime} {number number' : Place → Nat}

/-- What does not depend on the places of siblings depends on the siblings only. -/
theorem map_withPlaces {β : Type} {g : Place × Node → β} {f : Node → β} {nodes : List Node}
    (h : ∀ node ∈ nodes, ∀ here, g (here, node) = f node) (here : Place) (i : Nat) :
    (withPlaces here i nodes).map g = nodes.map f := by
  induction nodes generalizing i with
  | nil => rfl
  | cons node rest ih =>
      obtain ⟨hnode, hrest⟩ := List.forall_mem_cons.mp h
      rw [withPlaces, List.map_cons, List.map_cons, hnode, ih hrest]

/-- The code of an element does not depend on the children that are not looked at. -/
theorem Tag.code_of_ignored {tag : Tag} (h : tag.layout = .ignored) {fragments fragments' : List Fragment}
    {contributions contributions' : List Contribution} :
    tag.code rt fragments contributions = tag.code rt fragments' contributions' := by
  rw [layout] at h
  rw [code, code]
  cases hkind : ElementKind.ofName tag.name with
  | slot => rfl
  | body => rfl
  | component | switch => simp [hkind] at h
  | ordinary =>
      rw [hkind] at h
      cases hswitch : tag.described.switchTarget <;> simp [hswitch] at h

/-- The numbering that numbers nothing. -/
def unnumbered : Place → Nat := fun _ => 0

/-- **A tree without loops has the same code at every place**, as a node and as a child of a
component, whatever the numbering is. -/
theorem Node.contributed_of_unrepeated {node : Node} (h : node.loops [] = [])
    (number : Place → Nat) (here : Place) :
    node.render rt number here = node.render rt unnumbered [] ∧
      contributed rt number (here, node) = contributed rt unnumbered ([], node) := by
  induction node generalizing number here with
  | text value => exact ⟨rfl, rfl⟩
  | comment value => exact ⟨rfl, rfl⟩
  | element tag children ih =>
      rw [loops, List.append_eq_nil_iff] at h
      obtain ⟨hbelow, hself⟩ := h
      have hloop : tag.isLoop → number here = unnumbered [] := by
        intro hloop
        rw [if_pos hloop] at hself
        cases hself
      by_cases hlayout : tag.layout = .ignored
      · have hname : tag.name ≠ "template" := by
          intro hname
          rw [Tag.layout, hname] at hlayout
          cases hswitch : tag.described.switchTarget <;>
            simp [hswitch, ElementKind.ofName] at hlayout
        have hrender : (element tag children).render rt number here =
            (element tag children).render rt unnumbered [] := by
          rw [render, render, Tag.code_of_ignored hlayout, Tag.repeated_congr hloop]
        refine ⟨hrender, ?_⟩
        rw [contributed, contributed, rendered, rendered, hrender, contribution, contribution,
          if_neg hname, if_neg hname]
      · rw [if_neg hlayout, loopsBelow_eq_nil_iff] at hbelow
        have hfragments : ∀ (number : Place → Nat) (here : Place),
            renderAll rt number here 0 children =
              children.map fun child => child.render rt unnumbered [] := by
          intro number here
          rw [renderAll_eq_map]
          exact map_withPlaces (fun child hchild place =>
            (ih child hchild (hbelow child hchild) number place).1) here 0
        have hcontributions : ∀ (number : Place → Nat) (here : Place),
            renderParts rt number here 0 children =
              children.map fun child => contributed rt unnumbered ([], child) := by
          intro number here
          rw [renderParts_eq_map]
          exact map_withPlaces (fun child hchild place =>
            (ih child hchild (hbelow child hchild) number place).2) here 0
        have hrender : (element tag children).render rt number here =
            (element tag children).render rt unnumbered [] := by
          rw [render, render, hfragments, hfragments, hcontributions, hcontributions,
            Tag.repeated_congr hloop]
        have htemplate : (element tag children).renderTemplate rt number here =
            (element tag children).renderTemplate rt unnumbered [] := by
          rw [renderTemplate, renderTemplate, hfragments, hfragments]
        refine ⟨hrender, ?_⟩
        rw [contributed, contributed, rendered, rendered, hrender, htemplate]

/-- What the children of a component contribute, where nothing below them is repeated. -/
theorem renderParts_of_unrepeated {nodes : List Node} (h : loopsBelow [] 0 nodes = [])
    (number : Place → Nat) (here : Place) :
    renderParts rt number here 0 nodes =
      (nodes.map (Prod.mk [])).map (contributed rt unnumbered) := by
  rw [loopsBelow_eq_nil_iff] at h
  rw [renderParts_eq_map, List.map_map]
  exact map_withPlaces (fun node hnode place =>
    (Node.contributed_of_unrepeated (h node hnode) number place).2) here 0

end Unrepeated

/-! ### Dictionaries that are filled in another order -/

namespace Dict

/-- A dictionary is known by its entries, in whatever order they are listed. -/
theorem ext_mem {d e : Dict} (h : ∀ entry, entry ∈ d.entries ↔ entry ∈ e.entries) : d = e := by
  have hnodup : ∀ d : Dict, d.entries.Nodup := fun d => d.nodup_keys.of_map
  refine Dict.ext (List.Perm.eq_of_pairwise (fun a b _ _ hab hba => ?_) d.sorted e.sorted
    ((List.perm_ext_iff_of_nodup (hnodup d) (hnodup e)).mpr h))
  exact absurd (String.lt_trans hab hba) (String.lt_irrefl _)

/-- Of pairs with different keys all are entries, and nothing else is. -/
theorem mem_insertAll_empty {pairs : List (String × String)} (h : (pairs.map Prod.fst).Nodup)
    {entry : String × String} : entry ∈ (empty.insertAll pairs).entries ↔ entry ∈ pairs :=
  ⟨mem_of_mem_insertAll, fun hmem => mem_insertAll_of_fresh (fresh_empty.mpr h) (.inl hmem)⟩

/-- **Pairs with different keys may be put in in any order.** -/
theorem insertAll_perm {pairs pairs' : List (String × String)} (h : pairs.Perm pairs')
    (hnodup : (pairs.map Prod.fst).Nodup) : empty.insertAll pairs = empty.insertAll pairs' := by
  refine ext_mem fun entry => ?_
  rw [mem_insertAll_empty hnodup, mem_insertAll_empty ((h.map Prod.fst).nodup_iff.mp hnodup),
    h.mem_iff]

end Dict

/-! ### Components -/

section Component

variable {rt : Runtime} {children children' : List Node}

/-- The parts of a component depend on the order of the contributions to its body only. -/
theorem Parts.ofContributions_perm {contributions contributions' : List Contribution}
    (h : contributions.Perm contributions')
    (hbody : contributions.filterMap Contribution.body? =
      contributions'.filterMap Contribution.body?)
    (hslots : ((contributions.filterMap Contribution.slot?).map Prod.fst).Nodup)
    (htemplates : ((contributions.filterMap Contribution.template?).map Prod.fst).Nodup) :
    ofContributions contributions = ofContributions contributions' := by
  rw [ofContributions, ofContributions, hbody,
    Dict.insertAll_perm (h.filterMap Contribution.slot?) hslots,
    Dict.insertAll_perm (h.filterMap Contribution.template?) htemplates]

/-- So does whether the children of a component are well formed. -/
theorem wellFormedParts_perm (h : children.Perm children')
    (hbody : children.filter Node.isBody = children'.filter Node.isBody) :
    WellFormedParts children ↔ WellFormedParts children' := by
  have hof : ∀ {nodes nodes' : List Node}, nodes.Perm nodes' →
      nodes.filter Node.isBody = nodes'.filter Node.isBody →
      WellFormedParts nodes → WellFormedParts nodes' := by
    rintro nodes nodes' h hbody ⟨hplaced, hwell⟩
    refine ⟨⟨?_, ?_, ?_, ?_⟩, ?_⟩
    · exact (h.filterMap Node.templateName?).nodup_iff.mp hplaced.templates
    · exact (h.filterMap Node.slot?).nodup_iff.mp hplaced.slots
    · exact fun node hnode => hplaced.contents node (h.mem_iff.mpr hnode)
    · exact hbody ▸ hplaced.body
    · exact partsWellFormed_iff.mpr fun node hnode =>
        partsWellFormed_iff.mp hwell node (h.mem_iff.mpr hnode)
  exact ⟨hof h hbody, hof h.symm hbody.symm⟩

/-- The children of a component contribute the same parts to it in another order. -/
theorem ofContributions_renderParts_perm (hloops : loopsBelow [] 0 children = [])
    (h : children.Perm children')
    (hbody : children.filter Node.isBody = children'.filter Node.isBody)
    (hwell : WellFormedParts children) (number : Place → Nat) :
    Parts.ofContributions (renderParts rt number [] 0 children) =
      .ofContributions (renderParts rt number [] 0 children') := by
  have hloops' : loopsBelow [] 0 children' = [] := by
    rw [loopsBelow_eq_nil_iff] at hloops ⊢
    exact fun node hnode => hloops node (h.mem_iff.mpr hnode)
  have hnodes : (children.map (Prod.mk ([] : Place))).map Prod.snd = children := by
    simp [Function.comp_def]
  rw [renderParts_of_unrepeated hloops, renderParts_of_unrepeated hloops']
  refine Parts.ofContributions_perm ((h.map _).map _) ?_ ?_ ?_
  · have hfilter : ∀ nodes : List Node, (nodes.map (Prod.mk ([] : Place))).filter (·.2.isBody) =
        (nodes.filter Node.isBody).map (Prod.mk []) := fun nodes => List.filter_map
    rw [body_contributed, body_contributed, hfilter, hfilter, hbody]
  · rw [slots_contributed, hnodes]
    exact hwell.1.slots
  · rw [templates_contributed, hnodes]
    exact hwell.1.templates

/-- What a component is lowered to, where nothing below it is repeated. -/
theorem Component.lower_eq_ok_iff {tag : Tag} (hkind : ElementKind.ofName tag.name = .component)
    (hloops : loopsBelow [] 0 children = []) (n : Nat) {f : Fragment} :
    ((Component.lower rt tag (lowerParts rt {} children)).run n).result = .ok f ↔
      (tag.Fits ∧ WellFormedParts children) ∧
        f = .element (tag.code rt [] (renderParts rt unnumbered [] 0 children)) tag.described := by
  have hn : Numbers unnumbered n (loopsBelow [] 0 children) := by
    rw [hloops]
    rfl
  have hends : (Component.lower rt tag (lowerParts rt {} children)).Ends n _ _ _ _ :=
    Component.lower_ends hkind
      (lowerParts_ends (fun node _ => (node.lowersTo_and_contributesTo rt unnumbered).2) hn)
  have hcode : WellFormedParts children →
      tag.code rt [] (renderParts rt unnumbered [] 0 children) =
        Component.call rt (Text.trim ((tag.attr? "run").getD ""))
          (tag.described.attrs.erase "run")
          (Pass.reached Parts.take {} (renderParts rt unnumbered [] 0 children)) := by
    intro hwell
    rw [call_reached hwell, Tag.code, hkind]
  constructor
  · intro h
    obtain ⟨hok, rfl, -⟩ := hends.of_ok h
    exact ⟨hok, by rw [hcode hok.2]⟩
  · rintro ⟨hok, rfl⟩
    rw [hcode hok.2]
    exact (hends.returns hok).result

end Component

/-- **The templates of a component and the contents of its slots may stand anywhere among its
children.** Where no element below a component is repeated, and the children that belong to the body
stand in the same order, the component is lowered in both orders or in none, and to the same call. -/
theorem component_order_independent (rt : Runtime) (attributes : List Attribute)
    {children children' : List Node} (hloops : loopsBelow [] 0 children = [])
    (h : children.Perm children')
    (hbody : children.filter Node.isBody = children'.filter Node.isBody) (n : Nat)
    (f : Fragment) :
    ((Component.lower rt { name := "e", attributes } (lowerParts rt {} children)).run n).result =
        .ok f ↔
      ((Component.lower rt { name := "e", attributes } (lowerParts rt {} children')).run n).result =
        .ok f := by
  have hloops' : loopsBelow [] 0 children' = [] := by
    rw [loopsBelow_eq_nil_iff] at hloops ⊢
    exact fun node hnode => hloops node (h.mem_iff.mpr hnode)
  rw [Component.lower_eq_ok_iff rfl hloops, Component.lower_eq_ok_iff rfl hloops',
    wellFormedParts_perm h hbody]
  refine and_congr_right fun hok => ?_
  have hwell : WellFormedParts children := (wellFormedParts_perm h hbody).mpr hok.2
  have hcode : ({ name := "e", attributes } : Tag).code rt []
        (renderParts rt unnumbered [] 0 children) =
      ({ name := "e", attributes } : Tag).code rt []
        (renderParts rt unnumbered [] 0 children') := by
    rw [Tag.code, Tag.code, ofContributions_renderParts_perm hloops h hbody hwell]
  rw [hcode]

/-- A chain in the body of a component, with a template and two contents of slots, all at the end. -/
def partsAtEnd : List Node :=
  [.element { name := "p", attributes := [⟨"g-if", "a"⟩] } [],
    .element { name := "p", attributes := [⟨"g-else", ""⟩] } [.text "b"],
    .element { name := "template", attributes := [⟨"name", "t"⟩] } [.comment "c"],
    .element { name := "q", attributes := [⟨"slot", "s"⟩] } [],
    .element { name := "q", attributes := [⟨"slot", "r"⟩] } []]

/-- The same with the template and a content inside the chain, and the other content before it. -/
def partsInside : List Node :=
  [.element { name := "q", attributes := [⟨"slot", "r"⟩] } [],
    .element { name := "p", attributes := [⟨"g-if", "a"⟩] } [],
    .element { name := "q", attributes := [⟨"slot", "s"⟩] } [],
    .element { name := "template", attributes := [⟨"name", "t"⟩] } [.comment "c"],
    .element { name := "p", attributes := [⟨"g-else", ""⟩] } [.text "b"]]

/-- A template and a content between a condition and its alternative do not break the chain. -/
theorem component_with_parts_inside_chain :
    ∃ f, ((Component.lower ⟨"g"⟩ { name := "e", attributes := [⟨"run", "F()"⟩] }
        (lowerParts ⟨"g"⟩ {} partsAtEnd)).run 0).result = .ok f ∧
      ((Component.lower ⟨"g"⟩ { name := "e", attributes := [⟨"run", "F()"⟩] }
        (lowerParts ⟨"g"⟩ {} partsInside)).run 0).result = .ok f := by
  obtain ⟨f, hf⟩ : ∃ f, ((Component.lower ⟨"g"⟩ { name := "e", attributes := [⟨"run", "F()"⟩] }
      (lowerParts ⟨"g"⟩ {} partsAtEnd)).run 0).result = .ok f := by decide +kernel
  refine ⟨f, hf, (component_order_independent ⟨"g"⟩ _ ?_ ?_ ?_ 0 f).mp hf⟩
  · decide +kernel
  · have hrotated : (partsAtEnd.take 4 ++ partsAtEnd.drop 4).Perm
        (partsAtEnd.drop 4 ++ partsAtEnd.take 4) := List.perm_append_comm
    exact hrotated.trans (((List.reverse_perm _).symm.cons _).cons _)
  · rfl

end Stencil
