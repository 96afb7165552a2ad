import Stencil.Document
import Stencil.Proofs.Acceptance

/-!
# The accumulators of loops

Every repeated element gathers its turns in an accumulator, whose name holds the number that the
element has taken. The lowering threads these numbers through the whole file; here they are read
off the trees alone: an element has the number that its place has in post-order.

The blocks of a file stand in a row. The place of a block is its index among the parts of the
file, and the places of its nodes are below that.

## Main results

* `Runtime.loopName_injective`: different numbers give different names.
* `Document.compileParts_ends`: a file is compiled to its rendering, with the loops of all blocks
  numbered in a row.
* `accumulators_in_postorder`: **the accumulators are numbered in post-order and never repeat in
  a file**.
-/

namespace Stencil

/-- Different loops have different accumulators. -/
theorem Runtime.loopName_injective : Function.Injective Runtime.loopName := by
  intro m n h
  have hrepr : (toString m).toList = (toString n).toList :=
    congrArg String.toList ((String.append_right_inj "loop").mp h)
  have hdigits : Nat.toDigits 10 m = Nat.toDigits 10 n := by
    simpa [toString, Nat.toList_repr] using hrepr
  rw [← Nat.ofDigitChars_ten_toDigits (n := m), hdigits, Nat.ofDigitChars_ten_toDigits]

/-! ### Blocks -/

namespace Block

/-- The nodes of a block, if it is markup. -/
def nodes (b : Block) : List Node :=
  match BlockKind.ofName b.name with
  | .markup | .function => Markup.parse b.value
  | .verbatim => []

/-- The repeated elements of a block, in post-order. -/
def loops (here : Place) (b : Block) : List Place := loopsBelow here 0 b.nodes

/-- Of the repeated elements of a block, those whose lowering is over when the block is. -/
def finished (here : Place) (b : Block) : List Place :=
  finishedAmong (decide <| WellFormedSiblings ·) here 0 [] b.nodes

/-- The code of a block, with the loop at each place under the number given for it. -/
def render (rt : Runtime) (number : Place → Nat) (here : Place) (b : Block) : String :=
  match BlockKind.ofName b.name with
  | .markup => (Sequence.ofFragments (renderAll rt number here 0 b.nodes)).withoutLast
  | .function =>
      rt.elementFunction
        (Sequence.ofFragments (renderAll rt number here 0 b.nodes)).withoutLast
  | .verbatim => Text.trim b.value

/-- A block is compiled to its rendering if its nodes are well-formed siblings. -/
theorem compile_ends (rt : Runtime) {number : Place → Nat} {b : Block} {here : Place} {n : Nat}
    (hn : Numbers number n (b.loops here)) :
    (b.compile rt).Ends n (WellFormedSiblings b.nodes) (b.render rt number here)
      (b.finished here).length (observedBelow b.nodes) := by
  have harguments : ∀ nodes, b.nodes = nodes → Markup.parse b.value = nodes →
      (b.arguments rt).Ends n (WellFormedSiblings b.nodes)
        (Sequence.ofFragments (renderAll rt number here 0 b.nodes)).withoutLast
        (b.finished here).length (observedBelow b.nodes) := by
    intro nodes hnodes hparse
    rw [arguments, hparse, ← hnodes, lowerBlock_eq_map]
    exact ((lowerSiblings_ends_numbered rt hn).map Sequence.withoutLast).located b.place
  rw [compile, render]
  cases hkind : BlockKind.ofName b.name with
  | markup => exact harguments _ (by rw [nodes, hkind]) rfl
  | function => exact (harguments _ (by rw [nodes, hkind]) rfl).map rt.elementFunction
  | verbatim =>
      have hnodes : b.nodes = [] := by rw [nodes, hkind]
      rw [hnodes, finished, hnodes, finishedAmong, observedBelow]
      refine (Pass.ends_pure _ n).congr ⟨fun _ => trivial, fun _ => ?_⟩ (fun _ => rfl) rfl
      decide

end Block

/-! ### Files -/

namespace Document

/-- The repeated elements of the blocks among the parts, in order; the first part has index
`i`. -/
def loopsFrom (i : Nat) : List Part → List Place
  | [] => []
  | .text _ :: rest => loopsFrom (i + 1) rest
  | .block b :: rest => b.loops [i] ++ loopsFrom (i + 1) rest

/-- The code of the parts, with the loop at each place under the number given for it. -/
def renderFrom (rt : Runtime) (number : Place → Nat) (i : Nat) : List Part → String
  | [] => ""
  | .text value :: rest => value ++ renderFrom rt number (i + 1) rest
  | .block b :: rest => b.render rt number [i] ++ renderFrom rt number (i + 1) rest

/-- Of the repeated elements of the parts, those whose lowering is over when the file is: those of
the blocks up to and including the first one that is not well formed. -/
def finishedFrom (i : Nat) : List Part → List Place
  | [] => []
  | .text _ :: rest => finishedFrom (i + 1) rest
  | .block b :: rest =>
      b.finished [i] ++ if WellFormedSiblings b.nodes then finishedFrom (i + 1) rest else []

/-- The attributes of the parts, each with its block. -/
def observedOf (parts : List Part) : List (Attribute × Block) :=
  parts.flatMap fun
    | .text _ => []
    | .block b => (observedBelow b.nodes).map fun a => (a, b)

/-- Every block among the parts is well formed. -/
def WellFormedBlocks (parts : List Part) : Prop :=
  ∀ b, .block b ∈ parts → WellFormedSiblings b.nodes

/-- **A file is compiled to its rendering if its blocks are well formed**, with the loops of all
blocks numbered in a row. -/
theorem compileParts_ends (rt : Runtime) {number : Place → Nat} {parts : List Part} {i n : Nat}
    (hn : Numbers number n (loopsFrom i parts)) :
    (compileParts rt parts).Ends n (WellFormedBlocks parts) (renderFrom rt number i parts)
      (finishedFrom i parts).length (observedOf parts) := by
  induction parts generalizing i n with
  | nil =>
      refine (Pass.ends_pure "" n).congr ⟨fun _ => trivial, fun _ b hb => ?_⟩ (fun _ => rfl) rfl
      cases hb
  | cons part rest ih =>
      cases part with
      | text value =>
          rw [loopsFrom] at hn
          rw [compileParts, renderFrom, finishedFrom]
          refine ((ih hn).bind_pure (value ++ ·)).congr ?_ (fun _ => rfl) rfl
          simp [WellFormedBlocks]
      | block b =>
          rw [loopsFrom, numbers_append] at hn
          obtain ⟨hblock, hrest⟩ := hn
          have hfirst := (b.compile_ends rt hblock).mapObserved fun a => (a, b)
          rw [compileParts, renderFrom, finishedFrom]
          refine Pass.Ends.congr (Pass.Ends.bind hfirst fun hwf =>
            (ih (i := i + 1) ?_).bind_pure _) ?_ (fun _ => rfl) ?_
          · rw [Block.finished, finishedAmong_eq_loopsBelow hwf]
            exact hrest
          · simp [WellFormedBlocks]
          · rw [List.length_append]
            split <;> rfl

/-- What is finished of a file is a beginning of its post-order. -/
theorem finishedFrom_prefix_loopsFrom (i : Nat) (parts : List Part) :
    finishedFrom i parts <+: loopsFrom i parts := by
  induction parts generalizing i with
  | nil => exact List.nil_prefix
  | cons part rest ih =>
      cases part with
      | text value => exact ih (i + 1)
      | block b =>
          rw [finishedFrom, loopsFrom]
          split
          · rename_i hwf
            rw [Block.finished, finishedAmong_eq_loopsBelow hwf]
            exact (List.prefix_append_right_inj _).mpr (ih (i + 1))
          · rw [List.append_nil]
            exact (finishedAmong_prefix_loopsBelow b.nodes [i]).trans (List.prefix_append _ _)

/-- The repeated elements of a block stand below the place of the block. -/
theorem suffix_of_mem_loopsFrom {i : Nat} {parts : List Part} {place : Place}
    (h : place ∈ loopsFrom i parts) : ∃ j, i ≤ j ∧ [j] <:+ place := by
  induction parts generalizing i with
  | nil => cases h
  | cons part rest ih =>
      cases part with
      | text value =>
          obtain ⟨j, hj, hsuffix⟩ := ih h
          exact ⟨j, by omega, hsuffix⟩
      | block b =>
          rw [loopsFrom, List.mem_append] at h
          rcases h with h | h
          · obtain ⟨j, -, hsuffix⟩ := suffix_of_mem_loopsBelow h
            exact ⟨i, le_rfl, (List.suffix_cons j [i]).trans hsuffix⟩
          · obtain ⟨j, hj, hsuffix⟩ := ih h
            exact ⟨j, by omega, hsuffix⟩

/-- In a file, too, an element comes after those below it. -/
theorem pairwise_loopsFrom (i : Nat) (parts : List Part) :
    (loopsFrom i parts).Pairwise fun a b => ¬ a <:+ b := by
  induction parts generalizing i with
  | nil => exact List.Pairwise.nil
  | cons part rest ih =>
      cases part with
      | text value => exact ih (i + 1)
      | block b =>
          rw [loopsFrom, List.pairwise_append]
          refine ⟨pairwise_loopsBelow [i] 0 b.nodes, ih (i + 1), ?_⟩
          intro outer houter inner hinner hsuffix
          obtain ⟨j, -, hj⟩ := suffix_of_mem_loopsBelow houter
          obtain ⟨k, hk, hk'⟩ := suffix_of_mem_loopsFrom hinner
          have hi : [i] <:+ inner := ((List.suffix_cons j [i]).trans hj).trans hsuffix
          have := eq_of_suffix_of_suffix hi hk'
          omega

/-- All is finished of a file whose blocks are well formed. -/
theorem finishedFrom_eq_loopsFrom {parts : List Part} (h : WellFormedBlocks parts) (i : Nat) :
    finishedFrom i parts = loopsFrom i parts := by
  induction parts generalizing i with
  | nil => rfl
  | cons part rest ih =>
      have hrest := ih fun b hb => h b (List.mem_cons_of_mem part hb)
      cases part with
      | text value => exact hrest (i + 1)
      | block b =>
          have hb := h b List.mem_cons_self
          rw [finishedFrom, loopsFrom, if_pos hb, hrest (i + 1), Block.finished,
            finishedAmong_eq_loopsBelow hb, Block.loops]

/-- The repeated elements of a file. -/
def loops (path text : String) : List Place := loopsFrom 0 (parts (some path) text)

/-- Of the repeated elements of a file, those whose lowering is over when the file is. -/
def finished (path text : String) : List Place := finishedFrom 0 (parts (some path) text)

/-- The code of a file, with the loop at each place under the number given for it. -/
def render (rt : Runtime) (number : Place → Nat) (path text : String) : String :=
  renderFrom rt number 0 (parts (some path) text)

end Document

/-! ### Accumulators -/

/-- A pass that takes as many numbers as it finishes elements: when it returns and all are
finished, and when it fails. -/
theorem Pass.Ends.numbered {ω α : Type} {m : Pass ω α} {n : Nat} {p : Prop} {a : α}
    {seen : List ω} {finished loops : List Place} (h : m.Ends n p a finished.length seen)
    (hall : p → finished = loops) (hbegin : finished <+: loops) :
    (∀ b, (m.run n).result = .ok b → b = a ∧ (m.run n).next = n + loops.length) ∧
      (∀ d, (m.run n).result = .error d →
        (m.run n).next = n + finished.length ∧ finished <+: loops) := by
  constructor
  · intro b hb
    obtain ⟨hp, heq, hnext⟩ := h.of_ok hb
    rw [hall hp] at hnext
    exact ⟨heq, hnext⟩
  · intro d hd
    exact ⟨h.of_error hd, hbegin⟩

/-- Numbering the places of a list in order gives each its own name. -/
theorem existsUnique_loopName {places : List Place} (h : places.Nodup) {i : Nat}
    (hi : i < places.length) :
    ∃! place, place ∈ places ∧
      Runtime.loopName (places.idxOf place) = Runtime.loopName i := by
  refine ⟨places.get ⟨i, hi⟩, ⟨List.get_mem _ _, ?_⟩, ?_⟩
  · rw [List.get_eq_getElem, h.idxOf_getElem i hi]
  · rintro place ⟨hmem, hname⟩
    have hidx : places.idxOf place = i := Runtime.loopName_injective hname
    subst hidx
    rw [List.get_eq_getElem, List.getElem_idxOf]

/-- The names of the places of a list, numbered in order. -/
theorem map_loopName_idxOf {places : List Place} (h : places.Nodup) :
    places.map (fun place => Runtime.loopName (places.idxOf place)) =
      (List.range places.length).map Runtime.loopName := by
  have hnumbers := numbers_idxOf h 0
  simp only [Numbers, Nat.zero_add] at hnumbers
  rw [List.range_eq_range', ← hnumbers, List.map_map]
  rfl

/-- **The accumulators are numbered in post-order and never repeat in a file.** A node or a block
that is lowered from `n` is its rendering with the `i`-th repeated element under the number
`n + i`, and as many numbers are taken as there are repeated elements; a failure has taken as many
as it has finished. In a file the numbering runs through all blocks: the names are those of the
numbers below the count of repeated elements, each belongs to one element, and a nested element
has the smaller number. -/
theorem accumulators_in_postorder (rt : Runtime) :
    (∀ (node : Node) (here : Place) (n : Nat),
      (∀ fragment, ((node.lower rt).run n).result = .ok fragment →
        fragment = node.render rt (fun place => n + (node.loops here).idxOf place) here ∧
          ((node.lower rt).run n).next = n + (node.loops here).length) ∧
      (∀ d, ((node.lower rt).run n).result = .error d →
        ((node.lower rt).run n).next = n + (node.finished here).length ∧
          node.finished here <+: node.loops here)) ∧
    (∀ (nodes : List Node) (here : Place) (n : Nat),
      (∀ code, ((lowerBlock rt nodes).run n).result = .ok code →
        code = (Sequence.ofFragments (renderAll rt
            (fun place => n + (loopsBelow here 0 nodes).idxOf place) here 0 nodes)).withoutLast ∧
          ((lowerBlock rt nodes).run n).next = n + (loopsBelow here 0 nodes).length) ∧
      (∀ d, ((lowerBlock rt nodes).run n).result = .error d →
        ((lowerBlock rt nodes).run n).next =
            n + (finishedAmong (decide <| WellFormedSiblings ·) here 0 [] nodes).length ∧
          finishedAmong (decide <| WellFormedSiblings ·) here 0 [] nodes <+:
            loopsBelow here 0 nodes)) ∧
    (∀ path text : String,
      (∀ code, Document.compiled rt path text = .ok code →
        code = Document.render rt (Document.loops path text).idxOf path text ∧
          ((Document.compile rt path text).run 0).next = (Document.loops path text).length) ∧
      (∀ d, Document.compiled rt path text = .error d →
        ((Document.compile rt path text).run 0).next = (Document.finished path text).length ∧
          Document.finished path text <+: Document.loops path text) ∧
      (Document.loops path text).map
          (fun place => Runtime.loopName ((Document.loops path text).idxOf place)) =
        (List.range (Document.loops path text).length).map Runtime.loopName ∧
      (∀ i < (Document.loops path text).length, ∃! place, place ∈ Document.loops path text ∧
        Runtime.loopName ((Document.loops path text).idxOf place) = Runtime.loopName i) ∧
      (∀ outer ∈ Document.loops path text, ∀ inner ∈ Document.loops path text,
        outer <:+ inner → outer ≠ inner →
        (Document.loops path text).idxOf inner < (Document.loops path text).idxOf outer)) := by
  refine ⟨fun node here n => ?_, fun nodes here n => ?_, fun path text => ?_⟩
  · have hnodup := nodup_of_pairwise (node.pairwise_loops here)
    exact (Node.lower_ends rt (numbers_idxOf hnodup n)).numbered
      (fun hwf => Node.finished_eq_loops hwf here) (node.finished_prefix_loops here)
  · have hnodup := nodup_of_pairwise (pairwise_loopsBelow here 0 nodes)
    have hends := (lowerSiblings_ends_numbered rt (numbers_idxOf hnodup n)).map
      Sequence.withoutLast
    rw [← lowerBlock_eq_map] at hends
    exact hends.numbered (fun hwf => finishedAmong_eq_loopsBelow hwf here)
      (finishedAmong_prefix_loopsBelow nodes here)
  · have hpairwise : (Document.loops path text).Pairwise fun a b => ¬ a <:+ b :=
      Document.pairwise_loopsFrom 0 _
    have hnodup := nodup_of_pairwise hpairwise
    have hnumbers : Numbers (Document.loops path text).idxOf 0 (Document.loops path text) := by
      simpa using numbers_idxOf hnodup 0
    obtain ⟨hok, herror⟩ := (Document.compileParts_ends rt hnumbers).numbered
      (fun hwf => Document.finishedFrom_eq_loopsFrom hwf 0)
      (Document.finishedFrom_prefix_loopsFrom 0 _)
    rw [Nat.zero_add] at hok herror
    exact ⟨hok, herror, map_loopName_idxOf hnodup, fun i hi => existsUnique_loopName hnodup hi,
      fun outer houter inner hinner => idxOf_lt_of_suffix hpairwise houter hinner⟩

/-- Of two loops, one in the other, the inner one has the first accumulator; and a switch that
breaks off has numbered the loops in the arms that were in order. -/
theorem accumulators_of_nested_loops :
    Document.loops "p" "$html\x7b<ul g-for='xs'><li g-for='ys'></li></ul>\x7d$" =
        [[0, 0, 0], [0, 0]] ∧
      ((Document.compile ⟨"g"⟩ "p"
        "$html\x7b<ul g-for='xs'><li g-for='ys'></li></ul>\x7d$").run 0).next = 2 ∧
      ((Node.element { name := "g-switch", attributes := [⟨"run", "x"⟩] }
        [.element { name := "p", attributes := [⟨"g-case", "1"⟩, ⟨"g-for", "xs"⟩] } [],
          .text "stray"]).lower ⟨"g"⟩ |>.run 5).next = 6 := by
  obtain ⟨hnode, -, hfile⟩ := accumulators_in_postorder ⟨"g"⟩
  have hloops : Document.loops "p" "$html\x7b<ul g-for='xs'><li g-for='ys'></li></ul>\x7d$" =
      [[0, 0, 0], [0, 0]] := by decide +kernel
  obtain ⟨code, hcode⟩ : ∃ code, Document.compiled ⟨"g"⟩ "p"
      "$html\x7b<ul g-for='xs'><li g-for='ys'></li></ul>\x7d$" = .ok code := by
    decide +kernel
  have hnext := ((hfile _ _).1 code hcode).2
  rw [hloops] at hnext
  exact ⟨hloops, hnext, ((hnode _ [] 5).2 _ rfl).1⟩

end Stencil
