import Stencil.Proofs.Calls

/-!
# Nothing that is written disappears

The code of each node that is lowered stands in the output of the block. This is followed from the
outside in: the code of a child stands in the code of the element around it, whatever that makes of
its children, and the code of the nodes of a block stands in the output but for its last separator.

## Main results

* `standsIn_codeIn`: the code of a child stands in that of the element around it.
* `standsIn_block`: the code of a node stands in that of the block.
* `markup_stays_in_output`: **every node is lowered once, and its code stands in the output**.
* `markup_lost`: what this statement leaves out does get lost.
-/

namespace Stencil

/-! ### The code of a child in that of the element around it -/

theorem getElem?_withPlaces (here : Place) (i : Nat) (nodes : List Node) (k : Nat) :
    (withPlaces here i nodes)[k]? = nodes[k]?.map fun node => ((i + k) :: here, node) := by
  induction nodes generalizing i k with
  | nil => rfl
  | cons node rest ih =>
      rw [withPlaces]
      cases k with
      | zero => rfl
      | succ k =>
          rw [List.getElem?_cons_succ, List.getElem?_cons_succ, ih, Nat.add_assoc, Nat.add_comm 1 k]

namespace Tag

variable {rt : Runtime} {tag : Tag} {fragments : List Fragment} {contributions : List Contribution}

theorem standsIn_code_siblings (h : tag.layout = .siblings) :
    StandsIn (Sequence.ofFragments fragments).code (tag.code rt fragments contributions) := by
  rw [layout] at h
  rw [code]
  cases hkind : ElementKind.ofName tag.name with
  | component | slot | body | switch =>
      rw [hkind] at h
      cases h
  | ordinary =>
      rw [hkind] at h
      cases htarget : tag.described.switchTarget with
      | none => exact rt.standsIn_element _ _
      | some target =>
          rw [htarget] at h
          cases h

theorem standsIn_code_arms (h : tag.layout = .arms) :
    StandsIn (String.join (fragments.map Fragment.arm))
      (tag.code rt fragments contributions) := by
  rw [layout] at h
  rw [code]
  cases hkind : ElementKind.ofName tag.name with
  | component | slot | body =>
      rw [hkind] at h
      cases h
  | switch => exact Runtime.standsIn_switch _ _
  | ordinary =>
      rw [hkind] at h
      cases htarget : tag.described.switchTarget with
      | none =>
          rw [htarget] at h
          cases h
      | some target =>
          exact ((Runtime.standsIn_switch target _).append_right _).trans (rt.standsIn_element _ _)

theorem standsIn_code_parts (h : tag.layout = .parts) {t : Parts}
    (htake : contributions.foldlM Parts.take {} = .ok t) {c : Contribution}
    (hc : c ∈ contributions) : StandsIn c.code (tag.code rt fragments contributions) := by
  rw [layout] at h
  rw [code]
  cases hkind : ElementKind.ofName tag.name with
  | slot | body | switch =>
      rw [hkind] at h
      cases h
  | component => exact Component.standsIn_call_of_take rt _ _ htake hc
  | ordinary =>
      rw [hkind] at h
      cases htarget : tag.described.switchTarget with
      | none =>
          rw [htarget] at h
          cases h
      | some target =>
          rw [htarget] at h
          cases h

theorem standsIn_repeated (tag : Tag) (number : Nat) (code : String) :
    StandsIn code (tag.repeated number code) := by
  rw [repeated]
  split
  · exact Runtime.standsIn_loop _ code _
  · exact .refl code

end Tag

section Children

variable {rt : Runtime} {number : Place → Nat} {here : Place} {tag : Tag} {children : List Node}
  {i : Nat} {child : Node}

theorem mem_withPlaces (h : children[i]? = some child) :
    (i :: here, child) ∈ withPlaces here 0 children := by
  refine List.mem_of_getElem? (i := i) ?_
  rw [getElem?_withPlaces, h, Nat.zero_add, Option.map_some]

theorem getElem?_renderAll (h : children[i]? = some child) :
    (renderAll rt number here 0 children)[i]? = some (child.render rt number (i :: here)) := by
  rw [renderAll_eq_map, List.getElem?_map, getElem?_withPlaces, h, Nat.zero_add]
  rfl

variable (rt number here) in
/-- Well-formed siblings are all taken in. -/
theorem exists_foldlM_push (h : WellFormedSiblings children) :
    ∃ t, (renderAll rt number here 0 children).foldlM Siblings.push {} = .ok t ∧
      t.finish = .ofFragments (renderAll rt number here 0 children) := by
  rw [← map_snd_withPlaces here 0 children] at h
  obtain ⟨-, t, ht⟩ := (wellFormedSiblings_iff rt number).mp h
  rw [← renderAll_eq_map] at ht
  exact ⟨t, ht, Siblings.finish_of_foldlM_push ht⟩

/-- The code of a sibling stands in the code of all of them. -/
theorem standsIn_siblings (h : WellFormedSiblings children) (hchild : children[i]? = some child) :
    StandsIn (child.render rt number (i :: here)).code
      (Sequence.ofFragments (renderAll rt number here 0 children)).code := by
  obtain ⟨t, ht, hfinish⟩ := exists_foldlM_push rt number here h
  rw [← hfinish]
  exact Siblings.standsIn_finish ht (List.mem_of_getElem? (getElem?_renderAll hchild))

/-- The code of an arm stands in the code of all arms. -/
theorem standsIn_arms (h : WellFormedArms children) (hchild : children[i]? = some child)
    (hlowered : child.isLoweredIn .arms = true) :
    StandsIn (child.render rt number (i :: here)).code
      (String.join ((renderAll rt number here 0 children).map Fragment.arm)) := by
  have hfits := h.1.1 child (List.mem_of_getElem? hchild)
  refine standsIn_join_arms (List.mem_of_getElem? (getElem?_renderAll hchild)) ?_
  rw [Node.branch?_render]
  cases child with
  | text value => cases hlowered
  | comment value => cases hlowered
  | element tag children => exact hfits

/-- **The code of a child stands in that of the element around it.** -/
theorem standsIn_codeIn {layout : Layout} (hwell : (Node.element tag children).WellFormedIn layout)
    (hlayout : tag.layout ≠ .ignored) (hchild : children[i]? = some child)
    (hlowered : child.isLoweredIn tag.layout = true) :
    StandsIn (child.codeIn rt number tag.layout (i :: here))
      ((Node.element tag children).codeIn rt number layout here) := by
  have hadmits := Node.admits_of_wellFormedIn hwell
  rw [Node.codeIn.eq_def rt number layout]
  split
  · rename_i htemplate
    rw [Node.WellFormedIn, if_pos htemplate, Node.TemplateWellFormed] at hwell
    rw [Node.layout_of_fitsTemplate (Node.name_of_isTemplateIn htemplate) hwell.1,
      Node.renderTemplate]
    exact (standsIn_siblings hwell.2 hchild).trans (Runtime.standsIn_template _ _)
  · rw [Node.render]
    refine StandsIn.trans ?_ (tag.standsIn_repeated _ _)
    cases hkind : tag.layout with
    | siblings =>
        rw [hkind] at hadmits
        exact (standsIn_siblings hadmits hchild).trans (Tag.standsIn_code_siblings hkind)
    | arms =>
        rw [hkind] at hadmits hlowered
        exact (standsIn_arms hadmits hchild hlowered).trans (Tag.standsIn_code_arms hkind)
    | parts =>
        rw [hkind, Layout.Admits, ← map_snd_withPlaces here 0 children] at hadmits
        obtain ⟨-, t, ht⟩ := (wellFormedParts_iff rt number).mp hadmits
        rw [renderParts_eq_map, ← code_contributed rt number ((i :: here), child)]
        exact Tag.standsIn_code_parts hkind ht (List.mem_map_of_mem (mem_withPlaces hchild))
    | ignored => exact absurd hkind hlayout

end Children

/-! ### The output of a block -/

section Output

variable {rt : Runtime} {number : Place → Nat} {nodes : List Node}

theorem Tag.endsFinal_repeated (tag : Tag) (n : Nat) {code : String} (h : endsFinal code = true) :
    endsFinal (tag.repeated n code) = true := by
  rw [repeated]
  split
  · exact endsFinal_append _ rfl
  · exact h

/-- Only a text can end in a separator. -/
theorem Node.exists_text_of_endsSeparated {node : Node} (hwell : node.WellFormed) {here : Place}
    (hquiet : ¬ (node.render rt number here).IsQuiet)
    (hends : Sequence.endsSeparated (node.render rt number here).code = true) :
    ∃ value, node = .text value := by
  cases node with
  | text value => exact ⟨value, rfl⟩
  | comment value =>
      rw [render] at hquiet
      exact absurd (.inr ⟨_, rfl⟩) hquiet
  | element tag children =>
      rw [WellFormed] at hwell
      rw [render] at hends
      have hfinal : endsFinal (tag.code rt (renderAll rt number here 0 children)
          (renderParts rt number here 0 children)) = true := Tag.endsFinal_code hwell.1
      rw [Fragment.code, endsSeparated_of_endsFinal (tag.endsFinal_repeated _ hfinal)] at hends
      cases hends

/-- The code of a node that is no comment and is shown brings a separator. -/
theorem Node.isComment_of_isQuiet {node : Node} (hwell : node.WellFormed) {here : Place}
    (hquiet : (node.render rt number here).IsQuiet) (hshown : node.isShown = true) :
    ∃ value, node = .comment value := by
  rcases hquiet with hnot | ⟨code, hcode⟩
  · rw [isShown_render hwell, hshown] at hnot
    cases hnot
  · cases node with
    | text value =>
        rw [render] at hcode
        cases hcode
    | comment value => exact ⟨value, rfl⟩
    | element tag children =>
        rw [render] at hcode
        cases hcode

/-- The node at an index is a text that ends in a separator, of the nodes after it only comments
are shown, and its code stands in that of the block without the separator. -/
structure EndsBlock (nodes : List Node) (i : Nat) (node : Node) (fragment code : String) :
    Prop where
  text : ∃ value, node = .text value
  last : ∀ later ∈ nodes.drop (i + 1), later.isShown = true → ∃ value, later = .comment value
  separated : Sequence.endsSeparated fragment = true
  stands : StandsIn (withoutSeparator fragment) code

variable (rt number) in
/-- **The code of a node of a block stands in that of the block**, but for the last separator. -/
theorem standsIn_block_of_top (hwell : WellFormedSiblings nodes) {i : Nat} {node : Node}
    (hnode : nodes[i]? = some node) :
    StandsIn (node.render rt number [i]).code
        (Sequence.ofFragments (renderAll rt number [] 0 nodes)).withoutLast ∨
      EndsBlock nodes i node (node.render rt number [i]).code
        (Sequence.ofFragments (renderAll rt number [] 0 nodes)).withoutLast := by
  have hall := allWellFormed_iff.mp hwell.2
  have hfragment : (renderAll rt number [] 0 nodes)[i]? = some (node.render rt number [i]) :=
    getElem?_renderAll hnode
  obtain ⟨hi, hget⟩ := List.getElem?_eq_some_iff.mp hfragment
  have hsplit : renderAll rt number [] 0 nodes =
      (renderAll rt number [] 0 nodes).take i ++ node.render rt number [i] ::
        (renderAll rt number [] 0 nodes).drop (i + 1) := by
    rw [← hget, ← List.drop_eq_getElem_cons, List.take_append_drop]
  obtain ⟨t, ht, hfinish⟩ := exists_foldlM_push rt number [] hwell
  rw [← hfinish]
  rw [hsplit] at ht
  rcases Siblings.standsIn_withoutLast ht with hstands | ⟨hquiet, -, hends, hafter, hstands⟩
  · exact .inl hstands
  · refine .inr ⟨Node.exists_text_of_endsSeparated (hall node (List.mem_of_getElem? hnode)) hquiet
      hends, fun later hlater hshown => ?_, hends, hstands⟩
    obtain ⟨k, hk⟩ := List.mem_iff_getElem?.mp hlater
    rw [List.getElem?_drop] at hk
    have hmem : later.render rt number [i + 1 + k] ∈
        (renderAll rt number [] 0 nodes).drop (i + 1) := by
      refine List.mem_of_getElem? (i := k) ?_
      rw [List.getElem?_drop, getElem?_renderAll hk]
    exact Node.isComment_of_isQuiet (hall later (List.mem_of_getElem? hk)) (hafter _ hmem) hshown

/-- **The code of a node stands in that of the block**, wherever the node is looked at. -/
theorem standsIn_block (hwell : WellFormedSiblings nodes) {here : Place} {i : Nat} {node : Node}
    (hnode : (listAt nodes here).2[i]? = some node)
    (hlowered : node.isLoweredIn (listAt nodes here).1 = true) :
    StandsIn (node.codeIn rt number (listAt nodes here).1 (i :: here))
        (Sequence.ofFragments (renderAll rt number [] 0 nodes)).withoutLast ∨
      here = [] ∧ EndsBlock nodes i node (node.codeIn rt number (listAt nodes here).1 (i :: here))
        (Sequence.ofFragments (renderAll rt number [] 0 nodes)).withoutLast := by
  induction here generalizing i node with
  | nil =>
      rcases standsIn_block_of_top rt number hwell hnode with hstands | hends
      · exact .inl hstands
      · exact .inr ⟨rfl, hends⟩
  | cons j here ih =>
      -- The element around the node is no text, so it loses no separator.
      left
      obtain ⟨tag, children, hparent, hlayout, hlist⟩ := listAt_cons hnode
      have hparentWell := forall_wellFormedIn_listAt hwell hparent _ (List.mem_of_getElem? hparent)
      rw [hlist] at hnode hlowered ⊢
      refine (standsIn_codeIn hparentWell hlayout hnode hlowered).trans ?_
      rcases ih hparent rfl with hstands | ⟨-, hends⟩
      · exact hstands
      · obtain ⟨value, hvalue⟩ := hends.text
        cases hvalue

/-- A block that is accepted is well formed; its output is the code of its siblings but for the last
separator, and it takes a number for each of its loops. -/
theorem lowerBlock_of_ok (rt : Runtime) {n : Nat} {code : String}
    (h : ((lowerBlock rt nodes).run n).result = .ok code) :
    ∃ number, Numbers number n (loopsBelow [] 0 nodes) ∧ WellFormedSiblings nodes ∧
      code = (Sequence.ofFragments (renderAll rt number [] 0 nodes)).withoutLast ∧
      ((lowerBlock rt nodes).run n).next = n + (loopsBelow [] 0 nodes).length ∧
      ((lowerBlock rt nodes).run n).observed = observedBelow nodes := by
  have hnumbers := numbers_idxOf (nodup_of_pairwise (pairwise_loopsBelow [] 0 nodes)) n
  have hends := (lowerSiblings_ends_numbered rt hnumbers).map Sequence.withoutLast
  rw [← lowerBlock_eq_map] at hends
  obtain ⟨hwell, hcode, hnext⟩ := hends.of_ok h
  rw [finishedAmong_eq_loopsBelow hwell] at hnext
  exact ⟨_, hnumbers, hwell, hcode, hnext, hends.observed_of_ok h⟩

end Output

/-- **Nothing that is written disappears.** In a block that is accepted no node is lowered twice,
and its reports and numbers are those of the nodes that are lowered. They are all the nodes that
have code and are not below the place of a slot or of a body, but for comments between the arms of a
switch; and the code that lowering such a node gave stands in the output in one piece, but for the
last separator of the block. -/
theorem markup_stays_in_output (rt : Runtime) (nodes : List Node) (n : Nat) (code : String)
    (h : ((lowerBlock rt nodes).run n).result = .ok code) :
    ((blockCalls rt n nodes).map Call.place).Nodup ∧
    ((lowerBlock rt nodes).run n).observed = (blockCalls rt n nodes).flatMap Call.attributes ∧
    ((lowerBlock rt nodes).run n).next = n + (blockCalls rt n nodes).countP Call.isLoop ∧
    ∀ here i node, (listAt nodes here).2[i]? = some node → node.isShown = true →
      ¬ ((listAt nodes here).1 = .arms ∧ ∃ value, node = .comment value) →
      ∃ c ∈ blockCalls rt n nodes,
        c.place = i :: here ∧ c.node = node ∧ c.among = (listAt nodes here).1 ∧
        ∃ fragment, c.code? rt = some fragment ∧
          (StandsIn fragment code ∨ here = [] ∧ EndsBlock nodes i node fragment code) := by
  obtain ⟨number, hnumbers, hwell, rfl, hnext, hobserved⟩ := lowerBlock_of_ok rt h
  obtain ⟨hattributes, hloops⟩ :=
    tally_callsBelow_of (fun node _ => node.tally_calls) .siblings [] 0 n
  refine ⟨nodup_callsBelow_of (fun node _ => node.nodup_calls) .siblings [] 0 n,
    hobserved.trans hattributes.symm, hnext.trans (congrArg (n + ·) hloops.symm), ?_⟩
  intro here i node hnode hshown hcomment
  have hmem := List.mem_of_getElem? hnode
  have hlowered := Node.isLoweredIn_of_isShown (admits_listAt hwell hnode) hmem hshown hcomment
  obtain ⟨start, hstart, hcalls⟩ := calls_of_listAt rt hwell hnumbers hnode
  exact ⟨_, hcalls (Node.mem_calls hlowered (i :: here) start), rfl, rfl, rfl, _,
    Call.code?_eq (forall_wellFormedIn_listAt hwell hnode node hmem) hstart,
    standsIn_block hwell hnode hlowered⟩

/-- A template with a text in it. -/
def textTemplate : Node :=
  .element { name := "template", attributes := [⟨"name", "t"⟩] } [.text "a"]

/-- A component with that template. -/
def templated : List Node :=
  [.element { name := "e", attributes := [⟨"run", "F()"⟩] } [textTemplate]]

/-- The text in a template of a component is lowered, and its code stands in the call. -/
theorem markup_of_template :
    ∃ code, ((lowerBlock ⟨"g"⟩ templated).run 0).result = .ok code ∧
      ∃ c ∈ blockCalls ⟨"g"⟩ 0 templated, c.place = [0, 0, 0] ∧ c.node = .text "a" ∧
        ∃ fragment, c.code? ⟨"g"⟩ = some fragment ∧ StandsIn fragment code := by
  obtain ⟨code, hcode⟩ : ∃ code, ((lowerBlock ⟨"g"⟩ templated).run 0).result = .ok code := by
    decide +kernel
  obtain ⟨-, -, -, hplaces⟩ := markup_stays_in_output _ _ _ _ hcode
  obtain ⟨c, hc, hplace, hnode, -, fragment, hfragment, hstands | ⟨hhere, -⟩⟩ :=
    hplaces [0, 0] 0 (.text "a") rfl (by decide +kernel) (by simp)
  · exact ⟨code, hcode, c, hc, hplace, hnode, fragment, hfragment, hstands⟩
  · cases hhere

/-- The place of a slot, with a text in it. -/
def filledSlot : List Node :=
  [.element { name := "g-slot", attributes := [⟨"name", "s"⟩] } [.text "lost"]]

/-- What stands in the place of a slot is not lowered and is not in the output; the last separator
of a block is dropped even if it is that of a text; and a template of a component is not put out as
the element that it is. -/
theorem markup_lost :
    (((lowerBlock ⟨"g"⟩ filledSlot).run 0).result = .ok "e.Slots[\"s\"]" ∧
      (blockCalls ⟨"g"⟩ 0 filledSlot).map Call.place = [[0]] ∧
      (Node.text "lost").isShown = true ∧
      (((Node.text "lost").lower ⟨"g"⟩).run 0).result.map Fragment.code = .ok "`lost`" ∧
      ¬ StandsIn "`lost`" "e.Slots[\"s\"]") ∧
    (((lowerBlock ⟨"g"⟩ [.text "\x7b\x7ba,\x7d\x7d"]).run 0).result = .ok "a" ∧
      (((Node.text "\x7b\x7ba,\x7d\x7d").lower ⟨"g"⟩).run 0).result.map Fragment.code = .ok "a," ∧
      ¬ StandsIn "a," "a") ∧
    ∃ code fragment, ((lowerBlock ⟨"g"⟩ templated).run 0).result = .ok code ∧
      ((textTemplate.lower ⟨"g"⟩).run 0).result.map Fragment.code = .ok fragment ∧
      ¬ StandsIn fragment code := by
  refine ⟨by decide +kernel, by decide +kernel,
    "F(g.External\x7bTemplates: map[string]g.Template\x7b\"t\": " ++
      "func(values ...interface\x7b\x7d) []interface\x7b\x7d \x7b\n\n" ++
      "return []interface\x7b\x7d\x7b`a`,\x7d \x7d,\x7d,\x7d)",
    "g.NE(&g.E\x7bTag:\"template\", " ++
      "Attrs: func() g.Map \x7b return g.Map\x7b\"name\": \"t\",\x7d \x7d,\x7d,`a`,)",
    by decide +kernel, by decide +kernel, fun hstands => ?_⟩
  -- The element takes a reference and the call does not.
  have hmem : '&' ∈ _ := hstands.subset (by decide +kernel)
  exact absurd hmem (by decide +kernel)

end Stencil
