import Stencil.Proofs.Placement
import Mathlib.Data.List.Nodup
import Mathlib.Data.List.Range

/-!
# The numbering of loops

The repeated elements of a tree have a place each, and post-order lists these places. A numbering
`Numbers` a list of places from `n` on when it gives them the numbers `n`, `n + 1`, … in order.

A lowering that fails has finished some of the repeated elements, those of `Node.finished`; they
are the beginning of the post-order, and all of it when the node is well formed.

## Main results

* `Node.pairwise_loops`, `pairwise_loopsBelow`: an element comes after those below it. So no place
  is listed twice (`nodup_of_pairwise`), there is a numbering from every `n` (`numbers_idxOf`),
  and a nested element has the smaller number (`idxOf_lt_of_suffix`).
* `Node.finished_prefix_loops`: what is finished is a beginning of the post-order.
* `Node.finished_eq_loops`: all is finished when the node is well formed.
-/

namespace Stencil

/-! ### Numberings -/

/-- The places are numbered one after the other, from `n` on. -/
def Numbers (number : Place → Nat) (n : Nat) (places : List Place) : Prop :=
  places.map number = List.range' n places.length

section Numbers

variable {number : Place → Nat} {n : Nat}

/-- Two lists of places are numbered one after the other. -/
theorem numbers_append {first second : List Place} :
    Numbers number n (first ++ second) ↔
      Numbers number n first ∧ Numbers number (n + first.length) second := by
  have hlength : (first.map number).length = (List.range' n first.length).length := by simp
  rw [Numbers, List.map_append, List.length_append, ← List.range'_append_1]
  constructor
  · intro h
    exact List.append_inj h hlength
  · rintro ⟨hfirst, hsecond⟩
    rw [hfirst, hsecond]

theorem numbers_singleton {place : Place} : Numbers number n [place] ↔ number place = n := by
  simp [Numbers]

/-- Places that are all different can be numbered, by where they stand in their list. -/
theorem numbers_idxOf {places : List Place} (h : places.Nodup) (n : Nat) :
    Numbers (fun place => n + places.idxOf place) n places := by
  refine List.ext_getElem (by simp) fun i hi hi' => ?_
  have hlt : i < places.length := by simpa using hi
  rw [List.getElem_map, List.getElem_range', h.idxOf_getElem i hlt, Nat.one_mul]

end Numbers

/-! ### Places below a node -/

theorem mem_loopsBelow {here place : Place} {i : Nat} {nodes : List Node}
    (h : place ∈ loopsBelow here i nodes) :
    ∃ j node, i ≤ j ∧ node ∈ nodes ∧ place ∈ node.loops (j :: here) := by
  induction nodes generalizing i with
  | nil => simp [loopsBelow] at h
  | cons node rest ih =>
      rw [loopsBelow, List.mem_append] at h
      rcases h with h | h
      · exact ⟨i, node, le_rfl, List.mem_cons_self, h⟩
      · obtain ⟨j, other, hj, hmem, hplace⟩ := ih h
        exact ⟨j, other, by omega, List.mem_cons_of_mem node hmem, hplace⟩

/-- The repeated elements of a tree stand at the node or below it. -/
theorem Node.suffix_of_mem_loops {node : Node} {here place : Place}
    (h : place ∈ node.loops here) : here <:+ place := by
  induction node generalizing here with
  | text value => simp [loops] at h
  | comment value => simp [loops] at h
  | element tag children ih =>
      rw [loops, List.mem_append] at h
      rcases h with h | h
      · split at h
        · cases h
        · obtain ⟨j, child, -, hmem, hplace⟩ := mem_loopsBelow h
          exact (List.suffix_cons j here).trans (ih child hmem hplace)
      · split at h
        · obtain rfl := List.mem_singleton.mp h
          exact List.suffix_rfl
        · cases h

/-- The repeated elements among the children of a place stand below it. -/
theorem suffix_of_mem_loopsBelow {here place : Place} {i : Nat} {nodes : List Node}
    (h : place ∈ loopsBelow here i nodes) : ∃ j, i ≤ j ∧ (j :: here) <:+ place := by
  obtain ⟨j, node, hj, -, hplace⟩ := mem_loopsBelow h
  exact ⟨j, hj, Node.suffix_of_mem_loops hplace⟩

/-- Below two different children there is no common place. -/
theorem eq_of_suffix_of_suffix {here place : Place} {i j : Nat} (hi : (i :: here) <:+ place)
    (hj : (j :: here) <:+ place) : i = j := by
  have hsame := List.suffix_of_suffix_length_le hi hj (by simp)
  exact (List.cons.inj (hsame.eq_of_length (by simp))).1

theorem pairwise_loopsBelow_of {nodes : List Node}
    (h : ∀ node ∈ nodes, ∀ here, (node.loops here).Pairwise fun a b => ¬ a <:+ b)
    (here : Place) (i : Nat) :
    (loopsBelow here i nodes).Pairwise fun a b => ¬ a <:+ b := by
  induction nodes generalizing i with
  | nil => simp [loopsBelow]
  | cons node rest ih =>
      have hrest := ih fun other hother => h other (List.mem_cons_of_mem node hother)
      rw [loopsBelow, List.pairwise_append]
      refine ⟨h node List.mem_cons_self _, hrest (i + 1), ?_⟩
      intro a ha b hb hab
      have hi := (Node.suffix_of_mem_loops ha).trans hab
      obtain ⟨j, hj, hsuffix⟩ := suffix_of_mem_loopsBelow hb
      have := eq_of_suffix_of_suffix hi hsuffix
      omega

/-- **An element comes after those below it**: no place in post-order is followed by one at it or
below it. -/
theorem Node.pairwise_loops (node : Node) (here : Place) :
    (node.loops here).Pairwise fun a b => ¬ a <:+ b := by
  induction node generalizing here with
  | text value => simp [loops]
  | comment value => simp [loops]
  | element tag children ih =>
      have hbelow : (if tag.layout = .ignored then []
          else loopsBelow here 0 children).Pairwise fun a b => ¬ a <:+ b := by
        split
        · exact List.Pairwise.nil
        · exact pairwise_loopsBelow_of ih here 0
      have hself : (if tag.isLoop then [here] else []).Pairwise fun a b => ¬ a <:+ b := by
        split
        · exact List.pairwise_singleton _ here
        · exact List.Pairwise.nil
      rw [loops, List.pairwise_append]
      refine ⟨hbelow, hself, ?_⟩
      intro a ha b hb hab
      have hhere : b = here := by
        split at hb
        · exact List.mem_singleton.mp hb
        · cases hb
      split at ha
      · cases ha
      · obtain ⟨j, -, hsuffix⟩ := suffix_of_mem_loopsBelow ha
        have hlength := (hsuffix.trans hab).length_le
        rw [hhere, List.length_cons] at hlength
        omega

theorem pairwise_loopsBelow (here : Place) (i : Nat) (nodes : List Node) :
    (loopsBelow here i nodes).Pairwise fun a b => ¬ a <:+ b :=
  pairwise_loopsBelow_of (fun node _ => node.pairwise_loops) here i

section Postorder

variable {places : List Place} (h : places.Pairwise fun a b => ¬ a <:+ b)
include h

/-- **No place is listed twice.** -/
theorem nodup_of_pairwise : places.Nodup := by
  refine h.imp ?_
  rintro a b hnot rfl
  exact hnot List.suffix_rfl

/-- **A nested element comes first.** -/
theorem idxOf_lt_of_suffix {outer inner : Place} (houter : outer ∈ places)
    (hinner : inner ∈ places) (hsuffix : outer <:+ inner) (hne : outer ≠ inner) :
    places.idxOf inner < places.idxOf outer := by
  have ho := List.idxOf_lt_length_of_mem houter
  have hi := List.idxOf_lt_length_of_mem hinner
  rcases Nat.lt_trichotomy (places.idxOf inner) (places.idxOf outer) with hlt | heq | hgt
  · exact hlt
  · exact absurd ((List.idxOf_inj houter).mp heq.symm) hne
  · have hnot := List.pairwise_iff_getElem.mp h _ _ ho hi hgt
    rw [List.getElem_idxOf, List.getElem_idxOf] at hnot
    exact absurd hsuffix hnot

end Postorder

/-! ### Beginnings of well-formed lists -/

/-- Well-placed siblings begin with well-placed siblings. -/
theorem SiblingsPlaced.of_append {before rest : List Node}
    (h : SiblingsPlaced (before ++ rest)) : SiblingsPlaced before := by
  rw [SiblingsPlaced, List.filter_append, List.map_append] at h
  refine ⟨fun role hrole => h.noArm role (List.mem_append_left _ hrole), ?_, ?_⟩
  · intro role hrole
    exact h.first role (by rw [List.head?_append, hrole]; rfl)
  · exact h.follows.left_of_append

theorem ArmsPlaced.of_append {before rest : List Node} (h : ArmsPlaced (before ++ rest)) :
    ArmsPlaced before := by
  obtain ⟨hfits, hcount⟩ := h
  rw [List.countP_append] at hcount
  exact ⟨fun node hnode => hfits node (List.mem_append_left _ hnode), by omega⟩

theorem PartsPlaced.of_append {before rest : List Node} (h : PartsPlaced (before ++ rest)) :
    PartsPlaced before := by
  obtain ⟨htemplates, hslots, hcontents, hbody⟩ := h
  rw [List.filterMap_append] at htemplates hslots
  rw [List.filter_append] at hbody
  exact ⟨htemplates.of_append_left, hslots.of_append_left,
    fun node hnode => hcontents node (List.mem_append_left _ hnode), hbody.of_append⟩

theorem WellFormedSiblings.of_append {before rest : List Node}
    (h : WellFormedSiblings (before ++ rest)) : WellFormedSiblings before :=
  ⟨h.1.of_append, allWellFormed_iff.mpr fun node hnode =>
    allWellFormed_iff.mp h.2 node (List.mem_append_left _ hnode)⟩

theorem WellFormedArms.of_append {before rest : List Node}
    (h : WellFormedArms (before ++ rest)) : WellFormedArms before :=
  ⟨h.1.of_append, allWellFormed_iff.mpr fun node hnode =>
    allWellFormed_iff.mp h.2 node (List.mem_append_left _ hnode)⟩

theorem WellFormedParts.of_append {before rest : List Node}
    (h : WellFormedParts (before ++ rest)) : WellFormedParts before :=
  ⟨h.1.of_append, partsWellFormed_iff.mpr fun node hnode =>
    partsWellFormed_iff.mp h.2 node (List.mem_append_left _ hnode)⟩

/-! ### What a lowering finishes -/

/-- Of the repeated elements of a child of a component, those whose lowering is over when the
lowering of the child is over. -/
def Node.finishedPart (here : Place) (node : Node) : List Place :=
  if node.isTemplate then node.finishedTemplate here else node.finished here

section Finished

variable (finished : Place × Node → List Place) (admitted : List Node → Bool)

/-- What is finished of a list: that of its members up to and including the first one that is not
admitted after those before it. -/
def finishedBy (before : List Node) : List (Place × Node) → List Place
  | [] => []
  | x :: rest =>
      finished x ++ if admitted (before ++ [x.2]) then finishedBy (before ++ [x.2]) rest else []

theorem finishedAmong_eq (here : Place) (i : Nat) (before nodes : List Node) :
    finishedAmong admitted here i before nodes =
      finishedBy (fun x => x.2.finished x.1) admitted before (withPlaces here i nodes) := by
  induction nodes generalizing i before with
  | nil => rw [finishedAmong, withPlaces, finishedBy]
  | cons node rest ih => rw [finishedAmong, withPlaces, finishedBy, ih]

theorem finishedParts_eq (here : Place) (i : Nat) (before nodes : List Node) :
    finishedParts here i before nodes =
      finishedBy (fun x => x.2.finishedPart x.1) (decide <| WellFormedParts ·) before
        (withPlaces here i nodes) := by
  induction nodes generalizing i before with
  | nil => rw [finishedParts, withPlaces, finishedBy]
  | cons node rest ih =>
      rw [finishedParts, withPlaces, finishedBy, ih]
      simp only [Node.finishedPart, decide_eq_true_eq]

variable {finished admitted}

/-- All is finished of a list that is admitted with all its beginnings. -/
theorem finishedBy_eq_loopsBelow (hbegin : ∀ a b, admitted (a ++ b) → admitted a)
    {nodes : List Node} (hall : ∀ node ∈ nodes, ∀ here, finished (here, node) = node.loops here)
    {before : List Node} (h : admitted (before ++ nodes)) (here : Place) (i : Nat) :
    finishedBy finished admitted before (withPlaces here i nodes) = loopsBelow here i nodes := by
  induction nodes generalizing before i with
  | nil => rw [withPlaces, finishedBy, loopsBelow]
  | cons node rest ih =>
      rw [← List.singleton_append, ← List.append_assoc] at h
      rw [withPlaces, finishedBy, loopsBelow, hall node List.mem_cons_self,
        if_pos (hbegin _ _ h)]
      rw [ih (fun other hother => hall other (List.mem_cons_of_mem node hother)) h]

/-- What is finished of a list is a beginning of its post-order. -/
theorem finishedBy_prefix {nodes : List Node}
    (hbegin : ∀ node ∈ nodes, ∀ here, finished (here, node) <+: node.loops here)
    (hall : ∀ node ∈ nodes, ∀ before here, admitted (before ++ [node]) →
      finished (here, node) = node.loops here)
    (before : List Node) (here : Place) (i : Nat) :
    finishedBy finished admitted before (withPlaces here i nodes) <+:
      loopsBelow here i nodes := by
  induction nodes generalizing before i with
  | nil => exact List.nil_prefix
  | cons node rest ih =>
      rw [withPlaces, finishedBy, loopsBelow]
      split
      · rename_i hadmitted
        rw [hall node List.mem_cons_self before (i :: here) hadmitted]
        refine (List.prefix_append_right_inj _).mpr (ih ?_ ?_ _ _)
        · exact fun other hother => hbegin other (List.mem_cons_of_mem node hother)
        · exact fun other hother => hall other (List.mem_cons_of_mem node hother)
      · rw [List.append_nil]
        exact (hbegin node List.mem_cons_self _).trans (List.prefix_append _ _)

end Finished

/-- All is finished of a list of nodes that is admitted with all its beginnings. -/
theorem finishedAmong_eq_of {P : List Node → Prop} [DecidablePred P]
    (hbegin : ∀ a b, P (a ++ b) → P a) {nodes : List Node}
    (hall : ∀ node ∈ nodes, ∀ here, node.finished here = node.loops here) (h : P nodes)
    (here : Place) :
    finishedAmong (decide <| P ·) here 0 [] nodes = loopsBelow here 0 nodes := by
  rw [finishedAmong_eq]
  refine finishedBy_eq_loopsBelow (fun a b hab => ?_) hall ?_ here 0
  · exact decide_eq_true (hbegin a b (of_decide_eq_true hab))
  · exact decide_eq_true h

/-- The same for well-formed children of a component. -/
theorem finishedParts_eq_of {nodes : List Node}
    (hall : ∀ node ∈ nodes, ∀ here, node.finishedPart here = node.loops here)
    (h : WellFormedParts nodes) (here : Place) :
    finishedParts here 0 [] nodes = loopsBelow here 0 nodes := by
  rw [finishedParts_eq]
  refine finishedBy_eq_loopsBelow (fun a b hab => ?_) hall ?_ here 0
  · exact decide_eq_true (of_decide_eq_true hab).of_append
  · exact decide_eq_true h

/-- A tag that takes plain attributes only gives no value to a directive. -/
theorem Tag.lastFor_eq_none_of_takes {tag : Tag} (h : tag.Takes false) (directive : Directive) :
    lastFor directive tag.attributes = none := by
  have hlast : tag.attributes.filterMap (Attribute.valueFor? directive) = [] := by
    rw [List.filterMap_eq_nil_iff]
    intro a ha
    have haccepts := h a ha
    rw [Attribute.valueFor?, if_neg]
    intro hrole
    simp [accepts, hrole] at haccepts
  rw [lastFor, hlast, List.getLast?_nil]

/-- The tag of a template has no loop clause. -/
theorem Tag.isLoop_eq_false_of_takes {tag : Tag} (h : tag.Takes false) : tag.isLoop = false := by
  simp [isLoop, described, Descriptor.extended, lastFor_eq_none_of_takes h]

/-- The contents of a template are looked at. -/
theorem Tag.layout_ne_ignored_of_template {tag : Tag} (h : tag.name = "template") :
    tag.layout ≠ .ignored := by
  have hkind : ElementKind.ofName "template" = .ordinary := by decide
  simp only [layout, h, hkind]
  split <;> simp

namespace Node

/-- A child of a component is finished as a template or as a node. -/
theorem finishedPart_eq_of {node : Node} {here : Place}
    (hnode : node.WellFormed → node.finished here = node.loops here)
    (htemplate : node.isTemplate → node.TemplateWellFormed →
      node.finishedTemplate here = node.loops here) (h : node.PartWellFormed) :
    node.finishedPart here = node.loops here := by
  rw [PartWellFormed] at h
  rw [finishedPart]
  split at h
  · rename_i his
    rw [if_pos his, htemplate his h]
  · rename_i his
    rw [if_neg his, hnode h]

/-- All repeated elements of a well-formed node are finished, and likewise those of a well-formed
template. -/
theorem finished_eq_loops_and (node : Node) (here : Place) :
    (node.WellFormed → node.finished here = node.loops here) ∧
      (node.isTemplate → node.TemplateWellFormed →
        node.finishedTemplate here = node.loops here) := by
  induction node generalizing here with
  | text value => exact ⟨fun _ => by rw [finished, loops], fun h => by cases h⟩
  | comment value => exact ⟨fun _ => by rw [finished, loops], fun h => by cases h⟩
  | element tag children ih =>
      have hamong : ∀ {P : List Node → Prop} [DecidablePred P],
          (∀ a b, P (a ++ b) → P a) → P children → AllWellFormed children →
          finishedAmong (decide <| P ·) here 0 [] children = loopsBelow here 0 children :=
        fun hbegin hP hall => finishedAmong_eq_of hbegin (fun child hchild here =>
          (ih child hchild here).1 (allWellFormed_iff.mp hall child hchild)) hP here
      have hparts : WellFormedParts children →
          finishedParts here 0 [] children = loopsBelow here 0 children := by
        intro h
        refine finishedParts_eq_of (fun child hchild here => ?_) h here
        obtain ⟨hnode, htemplate⟩ := ih child hchild here
        exact finishedPart_eq_of hnode htemplate (partsWellFormed_iff.mp h.2 child hchild)
      constructor
      · intro h
        have hself : (tag.isLoop ∧ (element tag children).WellFormed) ↔ tag.isLoop :=
          and_iff_left h
        rw [finished, loops]
        simp only [hself]
        rw [WellFormed] at h
        obtain ⟨hfits, hdemands⟩ := h
        rw [if_pos hfits]
        congr 1
        cases hlayout : tag.layout with
        | siblings =>
            rw [hlayout] at hdemands
            simpa using hamong (fun a b => WellFormedSiblings.of_append) hdemands hdemands.2
        | arms =>
            rw [hlayout] at hdemands
            simpa using hamong (fun a b => WellFormedArms.of_append) hdemands hdemands.2
        | parts =>
            rw [hlayout] at hdemands
            simpa using hparts hdemands
        | ignored => rfl
      · intro htemplate h
        have hname : tag.name = "template" := by simpa [isTemplate] using htemplate
        rw [TemplateWellFormed] at h
        obtain ⟨hfits, hchildren⟩ := h
        rw [finishedTemplate, loops, if_pos hfits,
          hamong (fun a b => WellFormedSiblings.of_append) hchildren hchildren.2,
          if_neg (Tag.layout_ne_ignored_of_template hname),
          Tag.isLoop_eq_false_of_takes hfits.1.2]
        simp

/-- **All repeated elements of a well-formed node are finished.** -/
theorem finished_eq_loops {node : Node} (h : node.WellFormed) (here : Place) :
    node.finished here = node.loops here :=
  (node.finished_eq_loops_and here).1 h

/-- All repeated elements of a well-formed child of a component are finished. -/
theorem finishedPart_eq_loops {node : Node} (h : node.PartWellFormed) (here : Place) :
    node.finishedPart here = node.loops here := by
  obtain ⟨hnode, htemplate⟩ := node.finished_eq_loops_and here
  exact finishedPart_eq_of hnode htemplate h

end Node

/-- What is finished of a list of nodes is a beginning of its post-order, since all but the last
of those that are looked at are well formed. -/
theorem finishedAmong_prefix_of {P : List Node → Prop} [DecidablePred P]
    (hall : ∀ nodes, P nodes → AllWellFormed nodes) {nodes : List Node}
    (hbegin : ∀ node ∈ nodes, ∀ here, node.finished here <+: node.loops here) (here : Place) :
    finishedAmong (decide <| P ·) here 0 [] nodes <+: loopsBelow here 0 nodes := by
  rw [finishedAmong_eq]
  refine finishedBy_prefix hbegin (fun node _ before here hP => ?_) [] here 0
  have hwf := allWellFormed_iff.mp (hall _ (of_decide_eq_true hP))
  exact Node.finished_eq_loops (hwf node (by simp)) here

namespace Node

/-- What is finished of a node, or of a template, is a beginning of its post-order. -/
theorem finished_prefix_loops_and (node : Node) (here : Place) :
    node.finished here <+: node.loops here ∧
      (node.isTemplate → node.finishedTemplate here <+: node.loops here) := by
  induction node generalizing here with
  | text value => exact ⟨by rw [finished]; exact List.nil_prefix, fun h => by cases h⟩
  | comment value => exact ⟨by rw [finished]; exact List.nil_prefix, fun h => by cases h⟩
  | element tag children ih =>
      have hamong : ∀ {P : List Node → Prop} [DecidablePred P],
          (∀ nodes, P nodes → AllWellFormed nodes) →
          finishedAmong (decide <| P ·) here 0 [] children <+: loopsBelow here 0 children :=
        fun hall => finishedAmong_prefix_of hall
          (fun child hchild here => (ih child hchild here).1) here
      have hparts : finishedParts here 0 [] children <+: loopsBelow here 0 children := by
        rw [finishedParts_eq]
        refine finishedBy_prefix (fun child hchild here => ?_) ?_ [] here 0
        · simp only [finishedPart]
          split
          · exact (ih child hchild here).2 ‹_›
          · exact (ih child hchild here).1
        · intro child hchild before here hP
          refine finishedPart_eq_loops ?_ here
          exact partsWellFormed_iff.mp (of_decide_eq_true hP).2 child (by simp)
      constructor
      · -- A node that is not well formed has not taken its own number: only the children count.
        by_cases h : (element tag children).WellFormed
        · have heq := finished_eq_loops h here
          exact heq ▸ List.prefix_rfl
        · have hself : ¬ (tag.isLoop ∧ (element tag children).WellFormed) := fun hand => h hand.2
          rw [finished, loops, if_neg hself, List.append_nil]
          refine List.IsPrefix.trans ?_ (List.prefix_append _ _)
          split
          · cases tag.layout with
            | siblings => simpa using hamong fun nodes hnodes => hnodes.2
            | arms => simpa using hamong fun nodes hnodes => hnodes.2
            | parts => simpa using hparts
            | ignored => exact List.nil_prefix
          · exact List.nil_prefix
      · intro htemplate
        have hname : tag.name = "template" := by simpa [isTemplate] using htemplate
        rw [finishedTemplate, loops, if_neg (Tag.layout_ne_ignored_of_template hname)]
        refine List.IsPrefix.trans ?_ (List.prefix_append _ _)
        split
        · exact hamong fun nodes hnodes => hnodes.2
        · exact List.nil_prefix

/-- **What is finished is a beginning of the post-order.** -/
theorem finished_prefix_loops (node : Node) (here : Place) :
    node.finished here <+: node.loops here :=
  (node.finished_prefix_loops_and here).1

end Node

/-- All is finished of well-formed siblings. -/
theorem finishedAmong_eq_loopsBelow {nodes : List Node} (h : WellFormedSiblings nodes)
    (here : Place) :
    finishedAmong (decide <| WellFormedSiblings ·) here 0 [] nodes = loopsBelow here 0 nodes :=
  finishedAmong_eq_of (fun _ _ => WellFormedSiblings.of_append) (fun node hnode =>
    Node.finished_eq_loops (allWellFormed_iff.mp h.2 node hnode)) h here

/-- What is finished of siblings is a beginning of their post-order. -/
theorem finishedAmong_prefix_loopsBelow (nodes : List Node) (here : Place) :
    finishedAmong (decide <| WellFormedSiblings ·) here 0 [] nodes <+: loopsBelow here 0 nodes :=
  finishedAmong_prefix_of (fun _ hnodes => hnodes.2) (fun node _ => node.finished_prefix_loops) here

end Stencil
