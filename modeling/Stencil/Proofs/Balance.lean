import Stencil.Proofs.Accumulators
import Stencil.Proofs.SiblingBalance

/-!
# The code of a template is balanced

A template brings code of its own into the code that it becomes: conditions, calls, expressions.
`Node.rawCode` lists what of it is put in as it stands. Everything else is fixed, or is text that
is put into a literal or a comment. If all the code that is brought in is balanced, the code of
the whole template is balanced, whatever the tags, keys, values, texts and comments are.

## Main definitions

* `Node.rawCode`, `rawCodeAll`, `rawCodeParts`: the code that a node, siblings or the children of
  a component bring in.

## Main results

* `Tag.balanced_code`: one element, around children whose code is balanced.
* `Node.rendersBalanced`: a tree, by induction.
* `lowered_code_balanced`: **what the lowering returns is balanced** if all code brought in is.
-/

namespace Stencil

open Host

/-! ### The code that a template brings in -/

/-- The code that a tag puts in as it stands. -/
def Tag.rawCode (tag : Tag) : List String :=
  tag.described.loopClause.toList ++
    match ElementKind.ofName tag.name with
    | .component => ((tag.attr? "run").map Text.trim).toList
    | .slot | .body => []
    | .switch => (tag.attr? "run").toList
    | .ordinary =>
        tag.described.handlers.entries.map Prod.snd ++ tag.described.binds.entries.map Prod.snd ++
          tag.described.rawHtml.toList ++ tag.described.switchTarget.toList

/-- The code that the part of a node among its siblings puts in. It stands around the node, and not
in its own code. -/
def Node.branchCode (node : Node) : List String :=
  node.branch?.toList.flatMap Branch.rawCode

mutual

/-- The code that a node puts in as it stands. -/
def Node.rawCode : Node → List String
  | .comment _ => []
  | .text value => (Segment.ofText value).flatMap Segment.rawCode
  | .element tag children =>
      tag.rawCode ++
        match tag.layout with
        | .siblings | .arms => rawCodeAll children
        | .parts => rawCodeParts children
        | .ignored => []

/-- The code that a template of a component puts in as it stands: its preamble, and that of its
contents. -/
def Node.rawCodeTemplate : Node → List String
  | .element tag children => (tag.attr? "types").toList ++ rawCodeAll children
  | .text _ | .comment _ => []

/-- The code that siblings put in as it stands. -/
def rawCodeAll : List Node → List String
  | [] => []
  | node :: rest => node.branchCode ++ node.rawCode ++ rawCodeAll rest

/-- The code that the children of a component put in as it stands. -/
def rawCodeParts : List Node → List String
  | [] => []
  | node :: rest =>
      (if node.isTemplate then node.rawCodeTemplate else node.branchCode ++ node.rawCode) ++
        rawCodeParts rest

end

theorem mem_rawCodeAll {nodes : List Node} {node : Node} (hnode : node ∈ nodes) {code : String}
    (h : code ∈ node.branchCode ++ node.rawCode) : code ∈ rawCodeAll nodes := by
  induction nodes with
  | nil => cases hnode
  | cons first rest ih =>
      rw [rawCodeAll, List.mem_append]
      rcases List.mem_cons.mp hnode with rfl | hrest
      · exact .inl h
      · exact .inr (ih hrest)

theorem mem_rawCodeParts {nodes : List Node} {node : Node} (hnode : node ∈ nodes) {code : String}
    (h : code ∈ if node.isTemplate then node.rawCodeTemplate else node.branchCode ++ node.rawCode) :
    code ∈ rawCodeParts nodes := by
  induction nodes with
  | nil => cases hnode
  | cons first rest ih =>
      rw [rawCodeParts, List.mem_append]
      rcases List.mem_cons.mp hnode with rfl | hrest
      · exact .inl h
      · exact .inr (ih hrest)

/-! ### What children contribute -/

/-- What a child contributes to a component is balanced. -/
def Contribution.IsBalanced : Contribution → Prop
  | template _ closure => Balanced closure
  | slot _ _ fragment | body fragment => fragment.IsBalanced

/-- An entry of a dictionary that is filled from a list was there before or is in the list. -/
theorem Dict.mem_insertAll {d : Dict} {pairs : List (String × String)} {entry : String × String}
    (h : entry ∈ (d.insertAll pairs).entries) : entry ∈ d.entries ∨ entry ∈ pairs := by
  induction pairs generalizing d with
  | nil => exact .inl h
  | cons pair rest ih =>
      have hstep : entry ∈ ((d.insert pair.1 pair.2).insertAll rest).entries := h
      rcases ih hstep with hfirst | hrest
      · rcases mem_insertEntry hfirst with rfl | hold
        · exact .inr List.mem_cons_self
        · exact .inl hold
      · exact .inr (List.mem_cons_of_mem pair hrest)

theorem Dict.mem_of_mem_insertAll {pairs : List (String × String)} {entry : String × String}
    (h : entry ∈ (empty.insertAll pairs).entries) : entry ∈ pairs :=
  (mem_insertAll h).resolve_left List.not_mem_nil

/-- The parts of a component are balanced if the contributions of its children are. -/
theorem balanced_ofContributions {contributions : List Contribution}
    (h : ∀ c ∈ contributions, c.IsBalanced) :
    Balanced (Parts.ofContributions contributions).body.finish.code ∧
      (∀ entry ∈ (Parts.ofContributions contributions).slots.entries, Balanced entry.2) ∧
      ∀ entry ∈ (Parts.ofContributions contributions).templates.entries, Balanced entry.2 := by
  refine ⟨?_, fun entry hentry => ?_, fun entry hentry => ?_⟩
  · refine (isBalanced_ofFragments fun f hf => ?_).code
    obtain ⟨c, hc, hbody⟩ := List.mem_filterMap.mp hf
    cases c with
    | template name closure => cases hbody
    | slot name tag fragment => cases hbody
    | body fragment =>
        cases hbody
        exact h _ hc
  · obtain ⟨c, hc, hslot⟩ := List.mem_filterMap.mp (Dict.mem_of_mem_insertAll hentry)
    cases c with
    | template name closure => cases hslot
    | slot name tag fragment =>
        cases hslot
        exact (h _ hc).code.balanced
    | body fragment => cases hslot
  · obtain ⟨c, hc, htemplate⟩ := List.mem_filterMap.mp (Dict.mem_of_mem_insertAll hentry)
    cases c with
    | template name closure =>
        cases htemplate
        exact h _ hc
    | slot name tag fragment => cases htemplate
    | body fragment => cases htemplate

/-- The arms of a switch are balanced if the fragments that they come from are. -/
theorem balanced_join_arms {fragments : List Fragment} (h : ∀ f ∈ fragments, f.IsBalanced) :
    Balanced (String.join (fragments.map Fragment.arm)) := by
  refine balanced_join fun piece hpiece => ?_
  obtain ⟨f, hf, rfl⟩ := List.mem_map.mp hpiece
  have hcode := (h f hf).code.balanced
  rw [Fragment.arm]
  split
  · rename_i value hbranch
    have hvalue : Balanced value := (h f hf).branch _ hbranch value (by simp [Branch.rawCode])
    exact Runtime.balanced_caseArm hvalue hcode
  · exact Runtime.balanced_defaultArm hcode
  · exact balanced_empty

/-! ### One element around its children -/

/-- The call to a component ends in the bracket of the call as given, or in that of the one with
one more argument. -/
theorem Component.endsFinal_call {rt : Runtime} {run : String}
    (h : Text.endsWith ')' run = true) (attrs : Dict) (parts : Parts) :
    endsFinal (call rt run attrs parts) = true := by
  rw [call]
  split
  · rw [Runtime.appendArgument]
    split <;> exact endsFinal_append _ rfl
  · exact endsFinal_of_endsWith h

namespace Tag

variable {rt : Runtime} {tag : Tag} {fragments : List Fragment} {contributions : List Contribution}

/-- The call of a component that fits its kind ends in a closing bracket. -/
theorem endsWith_run (hfits : tag.Fits) (hkind : ElementKind.ofName tag.name = .component) :
    ∃ run, tag.attr? "run" = some run ∧ Text.endsWith ')' (Text.trim run) = true := by
  have hcall : (tag.attr? "run").any fun run => Text.endsWith ')' (Text.trim run) := by
    have hkindFits := hfits.2
    rw [hkind] at hkindFits
    exact hkindFits.2
  exact (Option.any_eq_true _ _).mp hcall

/-- **The code of an element ends in a bracket**, so that it is followed by a separator of its
own. -/
theorem endsFinal_code (hfits : tag.Fits) :
    endsFinal (tag.code rt fragments contributions) = true := by
  rw [code]
  cases hkind : ElementKind.ofName tag.name with
  | component =>
      obtain ⟨run, hrun, hlast⟩ := endsWith_run hfits hkind
      rw [hrun]
      exact Component.endsFinal_call hlast _ _
  | slot => exact endsFinal_append _ rfl
  | body => exact endsFinal_append _ rfl
  | switch => exact endsFinal_append _ rfl
  | ordinary => cases tag.described.switchTarget <;> exact endsFinal_append _ rfl

/-- **The code of an element is balanced** if the code of its tag is and its children are. -/
theorem balanced_code (hname : IsName rt.package) (hfits : tag.Fits)
    (hraw : ∀ code ∈ tag.rawCode, Balanced code)
    (hfragments : tag.layout = .siblings ∨ tag.layout = .arms → ∀ f ∈ fragments, f.IsBalanced)
    (hparts : tag.layout = .parts → ∀ c ∈ contributions, c.IsBalanced) :
    Balanced (tag.code rt fragments contributions) := by
  rw [rawCode] at hraw
  rw [layout] at hfragments hparts
  rw [code]
  cases hkind : ElementKind.ofName tag.name with
  | component =>
      rw [hkind] at hraw hparts
      obtain ⟨run, hrun, hlast⟩ := endsWith_run hfits hkind
      obtain ⟨hbody, hslots, htemplates⟩ := balanced_ofContributions (hparts rfl)
      rw [hrun] at hraw ⊢
      have hcall : Balanced (Text.trim run) := hraw _ (by simp)
      exact Runtime.balanced_call hname _ hcall hlast hbody hslots htemplates
  | slot => exact Runtime.balanced_slot _
  | body => exact Runtime.balanced_body hname
  | switch =>
      rw [hkind] at hraw hfragments
      have htarget : Balanced ((tag.attr? "run").getD "") := by
        cases hrun : tag.attr? "run" with
        | none => exact balanced_empty
        | some run => exact hraw run (by simp [hrun])
      exact Runtime.balanced_switch htarget (balanced_join_arms (hfragments (.inr rfl)))
  | ordinary =>
      rw [hkind] at hraw hfragments
      simp only [List.forall_mem_append, List.forall_mem_map] at hraw
      obtain ⟨-, ⟨⟨hhandlers, hbinds⟩, hhtml⟩, htarget⟩ := hraw
      have hexpr : ∀ expr ∈ tag.described.rawHtml, Balanced expr :=
        fun expr hexpr => hhtml expr (Option.mem_toList.mpr hexpr)
      cases hswitch : tag.described.switchTarget with
      | none =>
          rw [hswitch] at hfragments
          exact Runtime.balanced_element hname hhandlers hbinds hexpr
            (isBalanced_ofFragments (hfragments (.inl rfl))).code
      | some target =>
          rw [hswitch] at hfragments htarget
          have harms := balanced_join_arms (hfragments (.inr rfl))
          have hchildren := Runtime.balanced_switch (htarget target (by simp)) harms
          exact Runtime.balanced_element hname hhandlers hbinds hexpr (hchildren.append rfl)

/-- An element that is repeated stays balanced. -/
theorem separable_repeated (hraw : ∀ code ∈ tag.rawCode, Balanced code) (number : Nat)
    {code : String} (hcode : Balanced code) (hfinal : endsFinal code = true) :
    Separable (tag.repeated number code) := by
  rw [repeated]
  cases hclause : tag.described.loopClause with
  | none => exact separable_of_endsFinal hcode hfinal
  | some clause =>
      have hbalanced : Balanced clause := hraw clause (by simp [rawCode, hclause])
      exact separable_of_endsFinal
        (Runtime.balanced_loop hbalanced hcode (Runtime.balanced_loopName number))
        (endsFinal_append _ rfl)

end Tag

/-! ### Trees -/

namespace Node

variable {rt : Runtime} {number : Place → Nat}

/-- The code of a node is balanced wherever it stands, if the code that it brings in is. -/
def RendersBalanced (rt : Runtime) (number : Place → Nat) (node : Node) : Prop :=
  node.WellFormed → (∀ code ∈ node.rawCode, Balanced code) →
    ∀ here, Separable (node.render rt number here).code

/-- The same for the node as a template of a component. -/
def TemplateRendersBalanced (rt : Runtime) (number : Place → Nat) (node : Node) : Prop :=
  node.TemplateWellFormed → (∀ code ∈ node.rawCodeTemplate, Balanced code) →
    ∀ here, Balanced (node.renderTemplate rt number here)

/-- A node is balanced as a sibling if its condition is, too. -/
theorem RendersBalanced.isBalanced {node : Node} (h : node.RendersBalanced rt number)
    (hwf : node.WellFormed) (hraw : ∀ code ∈ node.branchCode ++ node.rawCode, Balanced code)
    (here : Place) : (node.render rt number here).IsBalanced := by
  rw [List.forall_mem_append] at hraw
  refine ⟨h hwf hraw.2 here, fun branch hbranch code hcode => hraw.1 code ?_⟩
  rw [branch?_render] at hbranch
  exact List.mem_flatMap.mpr ⟨branch, Option.mem_toList.mpr hbranch, hcode⟩

/-- What a child contributes is balanced if the form of its code that counts is. -/
theorem isBalanced_contribution {node : Node} {whole : Fragment} {closure : String}
    (hwhole : node.isTemplate = false → whole.IsBalanced)
    (hclosure : node.isTemplate = true → Balanced closure) :
    (node.contribution whole closure).IsBalanced := by
  cases node with
  | text value => exact hwhole rfl
  | comment value => exact hwhole rfl
  | element tag children =>
      rw [contribution]
      by_cases hname : tag.name = "template"
      · rw [if_pos hname]
        exact hclosure (by simp [isTemplate, hname])
      · have hfragment := hwhole (by simp [isTemplate, hname])
        rw [if_neg hname]
        cases tag.attr? "slot" <;> exact hfragment

end Node

/-- The code of siblings is balanced, if that of each of them is. -/
theorem isBalanced_of_mem_renderAll {rt : Runtime} {number : Place → Nat} {nodes : List Node}
    (h : ∀ node ∈ nodes, node.RendersBalanced rt number) (hwf : AllWellFormed nodes)
    (hraw : ∀ code ∈ rawCodeAll nodes, Balanced code) (here : Place) :
    ∀ f ∈ renderAll rt number here 0 nodes, f.IsBalanced := by
  intro f hf
  rw [renderAll_eq_map] at hf
  obtain ⟨x, hx, rfl⟩ := List.mem_map.mp hf
  have hnode : x.2 ∈ nodes := map_snd_withPlaces here 0 nodes ▸ List.mem_map_of_mem hx
  exact (h x.2 hnode).isBalanced (allWellFormed_iff.mp hwf x.2 hnode)
    (fun code hcode => hraw code (mem_rawCodeAll hnode hcode)) x.1

/-- What the children of a component contribute is balanced, if the code of each of them is. -/
theorem isBalanced_of_mem_renderParts {rt : Runtime} {number : Place → Nat} {nodes : List Node}
    (h : ∀ node ∈ nodes, node.RendersBalanced rt number ∧ node.TemplateRendersBalanced rt number)
    (hwf : PartsWellFormed nodes) (hraw : ∀ code ∈ rawCodeParts nodes, Balanced code)
    (here : Place) : ∀ c ∈ renderParts rt number here 0 nodes, c.IsBalanced := by
  intro c hc
  rw [renderParts_eq_map] at hc
  obtain ⟨x, hx, rfl⟩ := List.mem_map.mp hc
  have hnode : x.2 ∈ nodes := map_snd_withPlaces here 0 nodes ▸ List.mem_map_of_mem hx
  have hpart := partsWellFormed_iff.mp hwf x.2 hnode
  have hcode : ∀ code ∈ if x.2.isTemplate then x.2.rawCodeTemplate
      else x.2.branchCode ++ x.2.rawCode, Balanced code :=
    fun code hcode => hraw code (mem_rawCodeParts hnode hcode)
  refine Node.isBalanced_contribution (fun htemplate => ?_) fun htemplate => ?_
  · rw [Node.PartWellFormed, htemplate] at hpart
    rw [htemplate] at hcode
    exact (h x.2 hnode).1.isBalanced hpart hcode x.1
  · rw [Node.PartWellFormed, htemplate] at hpart
    rw [htemplate] at hcode
    exact (h x.2 hnode).2 hpart hcode x.1

namespace Node

variable {rt : Runtime} {number : Place → Nat}

/-- An element around its children. -/
theorem rendersBalanced_element (hname : IsName rt.package) (tag : Tag) {children : List Node}
    (h : ∀ child ∈ children,
      child.RendersBalanced rt number ∧ child.TemplateRendersBalanced rt number) :
    (element tag children).RendersBalanced rt number := by
  intro hwf hraw here
  rw [WellFormed] at hwf
  obtain ⟨hfits, hdemands⟩ := hwf
  rw [rawCode, List.forall_mem_append] at hraw
  obtain ⟨htag, hbelow⟩ := hraw
  have hsiblings := fun child hchild => (h child hchild).1
  -- The layout decides which of the two lists the code of the element is made of.
  have hcode : Balanced (tag.code rt (renderAll rt number here 0 children)
      (renderParts rt number here 0 children)) := by
    refine Tag.balanced_code hname hfits htag ?_ fun hlayout => ?_
    · rintro (hlayout | hlayout)
      all_goals
        rw [hlayout] at hdemands hbelow
        exact isBalanced_of_mem_renderAll hsiblings hdemands.2 hbelow here
    · rw [hlayout] at hdemands hbelow
      exact isBalanced_of_mem_renderParts h hdemands.2 hbelow here
  rw [render]
  exact Tag.separable_repeated htag (number here) hcode (Tag.endsFinal_code hfits)

/-- A template of a component around its contents. -/
theorem templateRendersBalanced_element (tag : Tag) {children : List Node}
    (h : ∀ child ∈ children, child.RendersBalanced rt number) :
    (element tag children).TemplateRendersBalanced rt number := by
  intro hwf hraw here
  rw [TemplateWellFormed] at hwf
  rw [rawCodeTemplate, List.forall_mem_append] at hraw
  have hpreamble : Balanced ((tag.attr? "types").getD "") := by
    cases htypes : tag.attr? "types" with
    | none => exact balanced_empty
    | some types => exact hraw.1 types (by simp [htypes])
  have hcontents := isBalanced_of_mem_renderAll h hwf.2.2 hraw.2 here
  rw [renderTemplate]
  exact Runtime.balanced_template hpreamble (isBalanced_ofFragments hcontents).code

/-- **Every tree is balanced if the code that it brings in is**, as a node and as a template of a
component. -/
theorem rendersBalanced (hname : IsName rt.package) (number : Place → Nat) (node : Node) :
    node.RendersBalanced rt number ∧ node.TemplateRendersBalanced rt number := by
  induction node with
  | text value =>
      refine ⟨fun _ hraw here => ?_, fun _ _ here => ?_⟩
      · rw [render]
        rw [rawCode] at hraw
        exact separable_segments hraw
      · rw [renderTemplate]
        exact balanced_empty
  | comment value =>
      refine ⟨fun _ _ here => ?_, fun _ _ here => ?_⟩
      · rw [render]
        exact separable_of_endsFinal (balanced_comment value) (endsFinal_comment value)
      · rw [renderTemplate]
        exact balanced_empty
  | element tag children ih =>
      exact ⟨rendersBalanced_element hname tag ih,
        templateRendersBalanced_element tag fun child hchild => (ih child hchild).1⟩

end Node

/-- Well-formed siblings are balanced if the code that they bring in is. -/
theorem isBalanced_renderAll {rt : Runtime} (hname : IsName rt.package) {nodes : List Node}
    (hwf : WellFormedSiblings nodes) (hraw : ∀ code ∈ rawCodeAll nodes, Balanced code)
    (number : Place → Nat) (here : Place) :
    (Sequence.ofFragments (renderAll rt number here 0 nodes)).IsBalanced :=
  isBalanced_ofFragments (isBalanced_of_mem_renderAll
    (fun node _ => (node.rendersBalanced hname number).1) hwf.2 hraw here)

/-- What the lowering of siblings returns is balanced, with the last separator and without. -/
theorem isBalanced_of_lowerSiblings {rt : Runtime} (hname : IsName rt.package) {nodes : List Node}
    (hraw : ∀ code ∈ rawCodeAll nodes, Balanced code) {write : Sequence → String} {n : Nat}
    {code : String}
    (h : ((write <$> (Siblings.finish <$> lowerSiblings rt {} nodes)).run n).result = .ok code) :
    ∃ s : Sequence, s.IsBalanced ∧ code = write s := by
  have hnumbers := numbers_idxOf (nodup_of_pairwise (pairwise_loopsBelow [] 0 nodes)) n
  obtain ⟨hwf, hcode, -⟩ := ((lowerSiblings_ends_numbered rt hnumbers).map write).of_ok h
  exact ⟨_, isBalanced_renderAll hname hwf hraw _ [], hcode⟩

/-! ### Blocks -/

/-- The code that a block puts in as it stands. A block that is not markup is code as a whole. -/
def Block.rawCode (b : Block) : List String :=
  match BlockKind.ofName b.name with
  | .markup | .function => rawCodeAll b.nodes
  | .verbatim => [Text.trim b.value]

/-- The code of a block is balanced if the code that it brings in is. -/
theorem Block.balanced_render {rt : Runtime} (hname : IsName rt.package) {b : Block}
    (hwf : WellFormedSiblings b.nodes) (hraw : ∀ code ∈ b.rawCode, Balanced code)
    (number : Place → Nat) (here : Place) : Balanced (b.render rt number here) := by
  rw [rawCode] at hraw
  rw [render]
  cases hkind : BlockKind.ofName b.name with
  | markup =>
      rw [hkind] at hraw
      exact (isBalanced_renderAll hname hwf hraw number here).withoutLast
  | function =>
      rw [hkind] at hraw
      exact Runtime.balanced_elementFunction hname
        (isBalanced_renderAll hname hwf hraw number here).withoutLast
  | verbatim =>
      rw [hkind] at hraw
      exact hraw _ List.mem_cons_self

/-- **The code that a template becomes is balanced** if every piece of code that it brings in is:
no tag, key, value, text or comment breaks out of its literal, and every bracket is closed. This
holds for a node, for siblings, for a block with its last separator left out, for the function
around a block, and whatever number the loops start from. -/
theorem lowered_code_balanced (rt : Runtime) (hname : IsName rt.package) (n : Nat) :
    (∀ (node : Node) (f : Fragment), ((node.lower rt).run n).result = .ok f →
      (∀ raw ∈ node.rawCode, Balanced raw) → Balanced f.code) ∧
    (∀ (nodes : List Node) (code : String), ((lowerChildren rt nodes).run n).result = .ok code →
      (∀ raw ∈ rawCodeAll nodes, Balanced raw) → Balanced code) ∧
    (∀ (nodes : List Node) (code : String), ((lowerBlock rt nodes).run n).result = .ok code →
      (∀ raw ∈ rawCodeAll nodes, Balanced raw) →
        Balanced code ∧ Balanced (rt.elementFunction code)) ∧
    (∀ (b : Block) (code : String), ((b.compile rt).run n).result = .ok code →
      (∀ raw ∈ b.rawCode, Balanced raw) → Balanced code) := by
  refine ⟨?_, ?_, ?_, ?_⟩
  · intro node f hf hraw
    have hnumbers := numbers_idxOf (nodup_of_pairwise (node.pairwise_loops [])) n
    obtain ⟨hwf, rfl, -⟩ := (node.lower_ends rt hnumbers).of_ok hf
    exact ((node.rendersBalanced hname _).1 hwf hraw []).balanced
  · intro nodes code hcode hraw
    rw [lowerChildren_eq_map] at hcode
    obtain ⟨s, hs, rfl⟩ := isBalanced_of_lowerSiblings hname hraw hcode
    exact hs.code
  · intro nodes code hcode hraw
    rw [lowerBlock_eq_map] at hcode
    obtain ⟨s, hs, rfl⟩ := isBalanced_of_lowerSiblings hname hraw hcode
    exact ⟨hs.withoutLast, Runtime.balanced_elementFunction hname hs.withoutLast⟩
  · intro b code hcode hraw
    have hnumbers := numbers_idxOf (nodup_of_pairwise (pairwise_loopsBelow [] 0 b.nodes)) n
    obtain ⟨hwf, rfl, -⟩ := (b.compile_ends rt hnumbers).of_ok hcode
    exact b.balanced_render hname hwf hraw _ []

/-- Siblings whose texts, keys, values and comments hold what ends the literals, comments and
brackets around them. The last separator stands in an expression, before a comment. -/
def hostileSiblings : List Node :=
  [.comment "*/ \x7b",
    .element { name := "a\"b", attributes :=
      [⟨"title", "\x60)\"\\"⟩, ⟨"@click", "f(\")\")"⟩, ⟨"g-for", "xs"⟩] }
      [.text "\x7d\x60 \x7b\x7b x \x7d\x7d"],
    .element { name := "e", attributes := [⟨"run", " C(\"(\") "⟩] }
      [.element { name := "b", attributes := [⟨"slot", "s]"⟩] } []],
    .text "( \x7b\x7b g(\"\x7d\"), \x7d\x7d",
    .comment "\x7d"]

/-- Siblings that are made to break out of their literals are balanced, too. -/
theorem lowered_code_balanced_hostile :
    ∃ code, ((lowerBlock ⟨"g"⟩ hostileSiblings).run 3).result = .ok code ∧ Balanced code ∧
      Balanced (Runtime.elementFunction ⟨"g"⟩ code) := by
  obtain ⟨-, -, hblock, -⟩ := lowered_code_balanced ⟨"g"⟩ (by decide) 3
  obtain ⟨code, hcode⟩ : ∃ code, ((lowerBlock ⟨"g"⟩ hostileSiblings).run 3).result = .ok code := by
    decide +kernel
  exact ⟨code, hcode, hblock _ code hcode (by decide +kernel)⟩

end Stencil
