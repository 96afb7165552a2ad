import Stencil.Proofs.Acceptance

/-!
# What is reported

Every attribute that a lowering meets is reported. The tree itself says which attributes these
are: list its elements in pre-order, each with the tags around it, and leave out those that stand
below the place of a slot or of a body, whose children no lowering looks at. The reports are the
attributes of what is left, tag by tag.

## Main results

* `observedBelow_eq_visited`: the list by its own recursion is the list of the visited elements.
* `observations_in_preorder`: **a block reports the attributes of the visited elements in
  pre-order**, and a block that fails has reported a beginning of them.
-/

namespace Stencil

/-! ### Elements and what is around them -/

/-- The tag marks the place of a slot or of a body. -/
def Tag.isPlaceholder (tag : Tag) : Bool := tag.name = "g-slot" || tag.name = "g-body"

mutual

/-- The elements of a tree in pre-order, each with the tags around it, the innermost first. -/
def Node.elements (around : List Tag) : Node → List (List Tag × Tag)
  | .text _ | .comment _ => []
  | .element tag children => (around, tag) :: elementsAmong (tag :: around) children

/-- The elements of siblings, in source order. -/
def elementsAmong (around : List Tag) : List Node → List (List Tag × Tag)
  | [] => []
  | node :: rest => node.elements around ++ elementsAmong around rest

end

/-- An element is visited unless it stands below the place of a slot or of a body. -/
def isVisited (element : List Tag × Tag) : Bool := !element.1.any Tag.isPlaceholder

/-- The attributes of the visited elements among those listed, tag by tag. -/
def visitedAttributes (elements : List (List Tag × Tag)) : List Attribute :=
  (elements.filter isVisited).flatMap fun element => element.2.attributes

theorem visitedAttributes_append (xs ys : List (List Tag × Tag)) :
    visitedAttributes (xs ++ ys) = visitedAttributes xs ++ visitedAttributes ys := by
  rw [visitedAttributes, List.filter_append, List.flatMap_append]
  rfl

theorem visitedAttributes_cons (around : List Tag) (tag : Tag) (rest : List (List Tag × Tag)) :
    visitedAttributes ((around, tag) :: rest) =
      (if around.any Tag.isPlaceholder then [] else tag.attributes) ++ visitedAttributes rest := by
  simp only [visitedAttributes, List.filter_cons, isVisited]
  by_cases h : around.any Tag.isPlaceholder <;> simp [h]

/-- The children that are not looked at are those of the place of a slot or of a body. -/
theorem Tag.layout_eq_ignored_iff (tag : Tag) : tag.layout = .ignored ↔ tag.isPlaceholder := by
  rw [layout, isPlaceholder]
  fun_cases ElementKind.ofName tag.name
  all_goals simp_all
  split <;> simp

/-! ### The reports of a tree -/

/-- Of a tree below the given tags nothing is visited, or all that its own recursion lists. -/
theorem Node.visitedAttributes_elements (node : Node) (around : List Tag) :
    visitedAttributes (node.elements around) =
      if around.any Tag.isPlaceholder then [] else node.observed := by
  induction node generalizing around with
  | text value => simp [elements, observed, visitedAttributes]
  | comment value => simp [elements, observed, visitedAttributes]
  | element tag children ih =>
      have hbelow : ∀ nodes, (∀ child ∈ nodes, child ∈ children) →
          visitedAttributes (elementsAmong (tag :: around) nodes) =
            if (tag :: around).any Tag.isPlaceholder then [] else observedBelow nodes := by
        intro nodes hnodes
        induction nodes with
        | nil => simp [elementsAmong, observedBelow, visitedAttributes]
        | cons child rest ihrest =>
            obtain ⟨hchild, hrest⟩ := List.forall_mem_cons.mp hnodes
            rw [elementsAmong, observedBelow, visitedAttributes_append, ih child hchild,
              ihrest hrest]
            split <;> simp
      rw [elements, observed, visitedAttributes_cons, hbelow children fun _ h => h]
      simp only [List.any_cons, Tag.layout_eq_ignored_iff]
      by_cases habove : around.any Tag.isPlaceholder
      · simp [habove]
      · simp [habove]

/-- **What a list of siblings reports is what its visited elements hold.** -/
theorem observedBelow_eq_visited (nodes : List Node) :
    observedBelow nodes = visitedAttributes (elementsAmong [] nodes) := by
  induction nodes with
  | nil => rfl
  | cons node rest ih =>
      rw [observedBelow, elementsAmong, visitedAttributes_append, ← ih,
        node.visitedAttributes_elements []]
      simp

/-! ### The reports of a block -/

/-- A pass that returns has made all its reports. -/
theorem Pass.Ends.observed_of_ok {ω α : Type} {m : Pass ω α} {n t : Nat} {p : Prop} {a b : α}
    {seen : List ω} (h : m.Ends n p a t seen) (hb : (m.run n).result = .ok b) :
    (m.run n).observed = seen := by
  have hp : p := h.result_iff.mp ⟨b, hb⟩
  rw [h.returns hp]

/-- A pass that fails has made the first of its reports. -/
theorem Pass.Ends.observed_of_error {ω α : Type} {m : Pass ω α} {n t : Nat} {p : Prop} {a : α}
    {d : Diagnostic} {seen : List ω} (h : m.Ends n p a t seen)
    (hd : (m.run n).result = .error d) : (m.run n).observed <+: seen := by
  have hp : ¬ p := by
    intro hp
    rw [(h.returns hp).result] at hd
    cases hd
  obtain ⟨e, reported, hrun, hprefix⟩ := h.fails hp
  rw [hrun]
  exact hprefix

/-- **A block reports the attributes of its visited elements in pre-order**: all of them, each
once, when it is lowered, and a beginning of them when it fails. Visited are the elements that do
not stand below the place of a slot or of a body. -/
theorem observations_in_preorder (rt : Runtime) (nodes : List Node) (n : Nat) :
    (∀ code, ((lowerBlock rt nodes).run n).result = .ok code →
      ((lowerBlock rt nodes).run n).observed = visitedAttributes (elementsAmong [] nodes)) ∧
    (∀ d, ((lowerBlock rt nodes).run n).result = .error d →
      ((lowerBlock rt nodes).run n).observed <+: visitedAttributes (elementsAmong [] nodes)) := by
  have hnumbers := numbers_idxOf (nodup_of_pairwise (pairwise_loopsBelow [] 0 nodes)) n
  have hends := (lowerSiblings_ends_numbered rt hnumbers).map Sequence.withoutLast
  rw [← lowerBlock_eq_map, observedBelow_eq_visited] at hends
  exact ⟨fun _ hcode => hends.observed_of_ok hcode, fun _ hd => hends.observed_of_error hd⟩

/-- The children of a component are reported where they stand, and nothing below the place of a
slot is; a second branch directive ends the reports after itself. -/
theorem observations_of_component :
    ((lowerBlock ⟨"g"⟩ [.element { name := "e", attributes := [⟨"run", "F()"⟩] }
      [.element { name := "p", attributes := [⟨"id", "a"⟩] } [],
        .element { name := "template", attributes := [⟨"name", "t"⟩] }
          [.element { name := "g-slot", attributes := [⟨"name", "s"⟩] }
            [.element { name := "i", attributes := [⟨"id", "b"⟩] } []]],
        .element { name := "q", attributes := [⟨"slot", "s"⟩] } []]]).run 3).observed =
      [⟨"run", "F()"⟩, ⟨"id", "a"⟩, ⟨"name", "t"⟩, ⟨"name", "s"⟩, ⟨"slot", "s"⟩] ∧
    ((lowerBlock ⟨"g"⟩ [.element { name := "p", attributes :=
      [⟨"g-if", "x"⟩, ⟨"g-else", ""⟩, ⟨"id", "a"⟩] } []]).run 3).observed <+:
      [⟨"g-if", "x"⟩, ⟨"g-else", ""⟩, ⟨"id", "a"⟩] := by
  constructor
  · refine Exists.elim ?_ fun code hcode =>
      ((observations_in_preorder _ _ 3).1 code hcode).trans ?_
    · decide +kernel
    · decide
  · exact (observations_in_preorder _ _ 3).2 _ rfl

end Stencil
