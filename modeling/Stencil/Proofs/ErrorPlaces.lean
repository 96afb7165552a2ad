import Stencil.Proofs.Blame
import Stencil.Proofs.Splicing

/-!
# The places of errors

An error in a host file is about one block, and in the block about one element. The element is found
by induction over the tree, from the passes over an opening tag and the walks over children; the
block is the one at which the walk over the blocks of the file stops.

## Main results

* `Node.failsWithin`: the lowering of an element fails by it or by an element below it.
* `error_names_element`: **an error names the first block that fails, and the innermost element
  around the broken rule**.
-/

namespace Stencil

/-! ### Elements -/

section Elements

variable {rt : Runtime} {s : Spot}

/-- What an element that is no template takes and needs, by its kind. -/
theorem Spot.ofKind (htemplate : s.isTemplate = false) :
    s.contents = s.tag.layout ∧
    (s.restriction? = match ElementKind.ofName s.tag.name with
      | .component | .slot | .body | .switch => some true
      | .ordinary => none) ∧
    s.required? = match ElementKind.ofName s.tag.name with
      | .component | .switch => some "run"
      | .slot => some "name"
      | .body | .ordinary => none := by
  have hnot : ¬ s.isTemplate = true := by simp [htemplate]
  exact ⟨if_neg hnot, if_neg hnot, if_neg hnot⟩

theorem Component.lower_meets (htemplate : s.isTemplate = false)
    (hkind : ElementKind.ofName s.tag.name = .component) {parts : Lowering Parts}
    (h : s.contents = .parts → parts.Meets (fun _ => True) s.BlamesBelow) :
    (Component.lower rt s.tag parts).Meets (fun _ => True) s.BlamesWithin := by
  obtain ⟨hcontents, hrestriction, hrequired⟩ := s.ofKind htemplate
  rw [hkind] at hrestriction hrequired
  have hparts : s.contents = .parts := by rw [hcontents, Tag.layout, hkind]
  refine ((Spot.strictDescriptor_meets hrestriction).mono (fun _ => id) fun d => .inl).bind
    fun d _ => ?_
  have hrun : (Text.trim <$> s.tag.require "run").Meets
      (fun run => ∃ value, s.tag.attr? "run" = some value ∧ run = Text.trim value)
      s.BlamesWithin :=
    ((Spot.require_meets hrequired).mono (fun _ => id) fun d => .inl).map
      fun value hvalue => ⟨value, hvalue, rfl⟩
  refine hrun.bind fun run hrun => ?_
  obtain ⟨value, hvalue, rfl⟩ := hrun
  split
  · exact ((h hparts).within fun d hd => hd.inContext).bind fun _ _ => Pass.meets_pure trivial
  · rename_i hcall
    exact Pass.meets_fail
      (.inl ⟨.notACall hparts hvalue (by simpa using hcall), rfl, rfl, rfl⟩)

theorem Component.lowerSlot_meets (htemplate : s.isTemplate = false)
    (hkind : ElementKind.ofName s.tag.name = .slot) :
    (Component.lowerSlot s.tag).Meets (fun _ => True) s.BlamesWithin := by
  obtain ⟨-, hrestriction, hrequired⟩ := s.ofKind htemplate
  rw [hkind] at hrestriction hrequired
  refine ((Spot.strictDescriptor_meets hrestriction).mono (fun _ => id) fun d => .inl).bind
    fun d _ => ?_
  exact ((Spot.require_meets hrequired).mono (fun _ => id) fun d => .inl).bind
    fun name _ => Pass.meets_pure trivial

theorem Component.lowerBody_meets (htemplate : s.isTemplate = false)
    (hkind : ElementKind.ofName s.tag.name = .body) :
    (Component.lowerBody rt s.tag).Meets (fun _ => True) s.BlamesWithin := by
  obtain ⟨-, hrestriction, -⟩ := s.ofKind htemplate
  rw [hkind] at hrestriction
  exact ((Spot.strictDescriptor_meets hrestriction).mono (fun _ => id) fun d => .inl).bind
    fun d _ => Pass.meets_pure trivial

theorem Switch.lower_meets (htemplate : s.isTemplate = false)
    (hkind : ElementKind.ofName s.tag.name = .switch) {arms : Lowering Arms}
    (h : s.contents = .arms → arms.Meets (fun _ => True) s.BlamesBelow) :
    (Switch.lower s.tag arms).Meets (fun _ => True) s.BlamesWithin := by
  obtain ⟨hcontents, hrestriction, hrequired⟩ := s.ofKind htemplate
  rw [hkind] at hrestriction hrequired
  have harms : s.contents = .arms := by rw [hcontents, Tag.layout, hkind]
  refine ((Spot.strictDescriptor_meets hrestriction).mono (fun _ => id) fun d => .inl).bind
    fun d _ => ?_
  refine ((Spot.require_meets hrequired).mono (fun _ => id) fun d => .inl).bind fun target _ => ?_
  exact ((h harms).within fun d hd => hd.inContext).bind fun _ _ => Pass.meets_pure trivial

theorem Element.lower_meets (htemplate : s.isTemplate = false)
    (hkind : ElementKind.ofName s.tag.name = .ordinary) {siblings : Lowering Sequence}
    {arms : Lowering Arms}
    (hsiblings : s.contents = .siblings →
      siblings.Meets (fun _ => True) (BlamesIn s.contents s.children))
    (harms : s.contents = .arms → arms.Meets (fun _ => True) s.BlamesBelow) :
    (Element.lower rt s.tag siblings arms).Meets (fun _ => True) s.BlamesWithin := by
  obtain ⟨hcontents, -, -⟩ := s.ofKind htemplate
  rw [Tag.layout, hkind] at hcontents
  refine Pass.Meets.within (s.tag.descriptor_meets.mono (fun _ => id) (fun d hd => ?_) |>.bind
    fun d hd => ?_) fun d hd => Spot.BlamesBelow.inContext hd
  · obtain ⟨first, second, more, hbranches, rfl⟩ := hd
    exact .inl ⟨.branchConflict hbranches, rfl, rfl, rfl, rfl⟩
  · rw [hd]
    cases htarget : s.tag.described.switchTarget with
    | some target =>
        rw [htarget] at hcontents
        exact (harms hcontents).bind fun _ _ => Pass.meets_pure trivial
    | none =>
        rw [htarget] at hcontents
        exact ((hsiblings hcontents).mono (fun _ => id) fun d => .inr).bind
          fun _ _ => Pass.meets_pure trivial

/-- Repeating an element does not fail. -/
theorem Fragment.looped_meets (f : Fragment) (bad : Diagnostic → Prop) :
    f.looped.Meets (fun _ => True) bad := by
  refine fun n => ⟨fun _ _ => trivial, fun d hd => ?_⟩
  cases f with
  | text code => cases hd
  | comment code => cases hd
  | element code descriptor =>
      rw [Fragment.looped] at hd
      cases hclause : descriptor.loopClause with
      | some clause =>
          rw [hclause] at hd
          cases hd
      | none =>
          rw [hclause] at hd
          cases hd

end Elements

/-- **The lowering of an element fails by it or by an element below it.** The contents of a template
are lowered by the component around it, so the children of children come into it. -/
theorem Node.failsWithin (rt : Runtime) (node : Node) :
    node.FailsWithin rt ∧ ∀ tag children, node = .element tag children →
      ∀ child ∈ children, child.FailsWithin rt := by
  induction node with
  | text value => exact ⟨fun s hs => (by cases hs), fun _ _ h => (by cases h)⟩
  | comment value => exact ⟨fun s hs => (by cases hs), fun _ _ h => (by cases h)⟩
  | element tag children ih =>
      have hchildren : ∀ child ∈ children, child.FailsWithin rt :=
        fun child hchild => (ih child hchild).1
      refine ⟨fun s hs htemplate => ?_, fun _ _ h => by cases h; exact hchildren⟩
      obtain ⟨rfl, rfl⟩ : s.tag = tag ∧ s.children = children := by simpa [Spot.node] using hs
      have harms := fun hcontents => lowerArms_meets (s := s) hcontents hchildren
      have honce : (Element.lowerOnce rt s.tag s.children).Meets (fun _ => True)
          s.BlamesWithin := by
        rw [Element.lowerOnce]
        cases hkind : ElementKind.ofName s.tag.name with
        | component =>
            refine Component.lower_meets htemplate hkind fun hcontents =>
              lowerParts_meets hcontents hchildren fun tag children hmem => ?_
            exact (ih _ hmem).2 tag children rfl
        | slot => exact Component.lowerSlot_meets htemplate hkind
        | body => exact Component.lowerBody_meets htemplate hkind
        | switch => exact Switch.lower_meets htemplate hkind harms
        | ordinary =>
            refine Element.lower_meets htemplate hkind (fun hcontents => ?_) harms
            rw [hcontents]
            exact (lowerSiblings_meets hchildren).map fun _ => id
      rw [lower_element]
      exact honce.bind fun f _ => f.looped_meets _

/-! ### Blocks and host files -/

/-- The codes of the errors that lowering makes. -/
def Code.lowering : List Code :=
  [missingAttribute, orphanBranch, orphanCase, directiveConflict, switchChild, duplicateKey,
    componentCall, tagDirective]

/-- An element out of place is an error of control flow, and the others are of structure. -/
theorem Code.category_of_lowering : ∀ code ∈ lowering,
    code.category =
      if code = orphanBranch ∨ code = orphanCase then .controlFlow else .structural := by
  decide

theorem Spot.Breaks.code_mem {s : Spot} {cause : Cause} (h : s.Breaks cause) :
    cause.code ∈ Code.lowering := by
  cases h <;> simp [Cause.code, Code.lowering]

/-- The error is about an element of the block, and has the block as its place. -/
def Block.Blames (b : Block) (d : Diagnostic) : Prop :=
  d.span = some { block := b.name, start := b.start, stop := b.stop } ∧ d.file = b.file ∧
    ∃ s : Spot, s.In .siblings (Markup.parse b.value) ∧ s.Breaks d.cause ∧
      d.context = some (s.shown d.cause)

/-- The markup of a block blames an element of the block. -/
theorem Block.arguments_meets (rt : Runtime) (b : Block) :
    (b.arguments rt).Meets (fun _ => True) b.Blames := by
  have hnodes : (lowerBlock rt (Markup.parse b.value)).Meets (fun _ => True)
      (BlamesIn .siblings (Markup.parse b.value)) :=
    (lowerSiblings_meets fun node _ => (node.failsWithin rt).1).bind
      fun _ _ => Pass.meets_pure trivial
  refine hnodes.located fun d hd => ?_
  obtain ⟨s, hin, hbreaks, hcontext, hspan, hfile⟩ := hd
  obtain ⟨cause, context, span, file⟩ := d
  cases hspan
  cases hfile
  rw [Block.place]
  cases hb : b.file with
  | none => exact ⟨rfl, hb.symm, s, hin, hbreaks, hcontext⟩
  | some path => exact ⟨rfl, hb.symm, s, hin, hbreaks, hcontext⟩

/-- A block that fails is one of markup. -/
theorem Block.compile_meets (rt : Runtime) (b : Block) :
    (b.compile rt).Meets (fun _ => True) fun d =>
      b.name ∈ ["html", "htmlEl", "htmlF"] ∧ b.Blames d := by
  by_cases hname : b.name ∈ ["html", "htmlEl", "htmlF"]
  · have hblames := (b.arguments_meets rt).mono (fun _ => id) fun d hd => And.intro hname hd
    rw [Block.compile]
    split
    · exact hblames
    · exact hblames.map fun _ => id
    · exact Pass.meets_pure trivial
  · rw [Block.compile, BlockKind.ofName_eq_verbatim hname]
    exact Pass.meets_pure trivial

namespace Document

theorem file_of_mem_blocksOf {file : Option String} {offset : Nat} {xs : List Token} {b : Block}
    (h : b ∈ blocksOf file offset xs) : b.file = file := by
  induction xs generalizing offset with
  | nil => cases h
  | cons x xs ih =>
      rcases List.mem_cons.mp h with rfl | hrest
      · rfl
      · exact ih hrest

/-- **An error in a host file names the first block that fails, and in it the innermost element
around the broken rule.** The blocks before that one are compiled, one after the other and with one
numbering of loops; the file and the range of the block are those of the error. Its code is one of
lowering, and its context is the opening tag of the element that breaks a rule, or the name and the
directive of that element if it is out of place. -/
theorem error_names_element (rt : Runtime) (path text : String) (d : Diagnostic)
    (h : compiled rt path text = .error d) :
    (∃! k, ∃ b e, Pass.StopsAt (Block.compile rt) (blocks (some path) text) 0 k b e) ∧
    ∃ k b, Pass.StopsAt (Block.compile rt) (blocks (some path) text) 0 k b d ∧
      b.name ∈ ["html", "htmlEl", "htmlF"] ∧
      d.file = some path ∧
      d.span = some { block := b.name, start := b.start, stop := b.stop } ∧
      d.code ∈ Code.lowering ∧
      (d.code.category =
        if d.code = .orphanBranch ∨ d.code = .orphanCase then .controlFlow else .structural) ∧
      ∃ s : Spot, s.In .siblings (Markup.parse b.value) ∧ s.Breaks d.cause ∧
        d.context = some (s.shown d.cause) := by
  have hfails : (((blocks (some path) text).mapM (Block.compile rt)).run 0).result = .error d := by
    rw [compiled_eq] at h
    cases hcodes : (((blocks (some path) text).mapM (Block.compile rt)).run 0).result with
    | ok codes =>
        rw [hcodes] at h
        cases h
    | error e =>
        rw [hcodes] at h
        cases h
        rfl
  obtain ⟨k, b, hstops⟩ := Pass.exists_stopsAt hfails
  refine ⟨⟨k, ⟨b, d, hstops⟩, fun k' ⟨b', e, hstops'⟩ => hstops'.unique hstops⟩, k, b, hstops, ?_⟩
  obtain ⟨codes, m, seen, -, hb, hd⟩ := hstops
  obtain ⟨hname, hspan, hfile, s, hin, hbreaks, hcontext⟩ := (b.compile_meets rt m).2 d hd
  have hpath : b.file = some path := by
    have hmem := List.mem_of_getElem? hb
    rw [blocks_eq_blocksOf] at hmem
    exact file_of_mem_blocksOf hmem
  rw [hpath] at hfile
  exact ⟨hname, hfile, hspan, hbreaks.code_mem, Code.category_of_lowering _ hbreaks.code_mem, s,
    hin, hbreaks, hcontext⟩

/-- A block of style rules, one of markup, and one in which the last alternative of a chain stands
after a comment, two elements down. -/
def orphanInList : String :=
  "$css\x7b x \x7d$ $html\x7b<i g-for=\"xs\"/>\x7d$ " ++
    "$htmlF\x7b<ul><li><b g-if=\"a\"></b><!-- c --><b g-else></b></li></ul>\x7d$"

/-- The error is in the third block, and is about the element out of place and none around it. -/
theorem error_names_orphan :
    compiled ⟨"g"⟩ "a.gox" orphanInList =
      .error
        { cause := .orphanBranch .otherwise
          context := some "<b g-else>"
          span := some { block := "htmlF", start := 35, stop := 102 }
          file := some "a.gox" } ∧
    ∃ k b d, Pass.StopsAt (Block.compile ⟨"g"⟩) (blocks (some "a.gox") orphanInList) 0 k b d ∧
      ∃ s : Spot, s.In .siblings (Markup.parse b.value) ∧ s.Breaks (.orphanBranch .otherwise) := by
  have hcompiled : compiled ⟨"g"⟩ "a.gox" orphanInList =
      .error
        { cause := .orphanBranch .otherwise
          context := some "<b g-else>"
          span := some { block := "htmlF", start := 35, stop := 102 }
          file := some "a.gox" } := by decide +kernel
  obtain ⟨-, k, b, hstops, -, -, -, -, -, s, hin, hbreaks, -⟩ :=
    error_names_element ⟨"g"⟩ "a.gox" orphanInList _ hcompiled
  exact ⟨hcompiled, k, b, _, hstops, s, hin, hbreaks⟩

end Document

end Stencil
