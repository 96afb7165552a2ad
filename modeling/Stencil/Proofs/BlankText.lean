import Stencil.Lowering.Node
import Stencil.Proofs.Folding
import Stencil.Proofs.Grouping
import Stencil.Proofs.Substring
import Stencil.Proofs.WellFormed

/-!
# Blank text

Text of white space only stands between nodes for the eye. Three places decide by themselves that
it is passed over: interpolation leaves no segment of it, so that siblings and the body of a
component find a fragment without code, and a switch looks at the text itself. Here the three are
shown to agree at every depth.

## Main results

* `Segment.ofText_of_isBlank`: blank text has no segments.
* `walk_withoutBlank`: a walk over children that passes over blank text, and sees of a child only
  what blank text below it does not change, is not changed by blank text either.
* `blank_text_plays_no_part`: **a block is lowered to the same outcome without its blank texts**,
  in code or diagnostic, in reports and in the next free loop number.
-/

namespace Stencil

/-! ### Blank text is not interpolated -/

namespace Chars

/-- A pattern does not occur where its first character does not. -/
theorem cut_eq_none_of_not_mem {c : Char} {pattern s : List Char} (h : c ∉ s) :
    cut (c :: pattern) s = none :=
  cut_eq_none_iff.mpr fun hstands => h (hstands.mem List.mem_cons_self)

end Chars

/-- **Blank text has no segments.** -/
theorem Segment.ofText_of_isBlank {value : String} (h : Text.isBlank value = true) :
    Segment.ofText value = [] := by
  have hbrace : '\x7b' ∉ value.toList := by
    intro hmem
    have hspace : Chars.isSpace '\x7b' = true := List.all_eq_true.mp h _ hmem
    exact absurd hspace (by decide)
  have hcut : Chars.cut opening value.toList = none := Chars.cut_eq_none_of_not_mem hbrace
  rw [ofText, split]
  split
  · rw [literals, Chars.fold_eq_nil_iff.mpr h]
  · rename_i hsome
    rw [hcut] at hsome
    cases hsome

/-! ### Trees without blank text -/

mutual

/-- The node without the blank texts below it. -/
def Node.withoutBlank : Node → Node
  | .element tag children => .element tag (withoutBlank children)
  | .text value => .text value
  | .comment value => .comment value

/-- Siblings without blank texts, among them and below them. -/
def withoutBlank : List Node → List Node
  | [] => []
  | node :: rest =>
      if node.isBlank then withoutBlank rest else node.withoutBlank :: withoutBlank rest

end

/-- **A walk over children without blank text.** The walk goes from child to child by `step`; blank
text is no step, and a step does not see the blank text below a child. -/
theorem walk_withoutBlank {σ : Type} {walk : σ → List Node → Lowering σ}
    (step : σ → Node → Lowering σ)
    (hcons : ∀ s node rest, walk s (node :: rest) = step s node >>= fun s => walk s rest)
    (hblank : ∀ s value, Text.isBlank value = true → step s (.text value) = pure s)
    {nodes : List Node} (hstep : ∀ node ∈ nodes, ∀ s, step s node.withoutBlank = step s node)
    (s : σ) : walk s (withoutBlank nodes) = walk s nodes := by
  induction nodes generalizing s with
  | nil => rw [withoutBlank]
  | cons node rest ih =>
      obtain ⟨hnode, hrest⟩ := List.forall_mem_cons.mp hstep
      rw [withoutBlank, hcons]
      split
      · rename_i hisBlank
        cases node with
        | text value => rw [hblank s value hisBlank, pure_bind, ih hrest]
        | comment value => cases hisBlank
        | element tag children => cases hisBlank
      · rw [hcons, hnode]
        congr 1
        funext s'
        exact ih hrest s'

/-! ### The three walks -/

section Walks

variable {rt : Runtime} {nodes : List Node}

/-- Blank text is lowered to a fragment without code. -/
theorem Node.lower_of_isBlank {value : String} (h : Text.isBlank value = true) :
    (Node.text value).lower rt = pure (.text "") := by
  rw [Node.lower, Segment.ofText_of_isBlank h]
  rfl

theorem lowerSiblings_withoutBlank
    (h : ∀ node ∈ nodes, node.withoutBlank.lower rt = node.lower rt) (done : Siblings) :
    lowerSiblings rt done (withoutBlank nodes) = lowerSiblings rt done nodes := by
  refine walk_withoutBlank
    (fun done node => node.lower rt >>= fun f => Pass.ofExcept (done.push f))
    (fun s node rest => ?_) (fun s value hblank => ?_) (fun node hnode s => ?_) done
  · rw [lowerSiblings, bind_assoc]
  · rw [Node.lower_of_isBlank hblank, pure_bind, Siblings.push_of_not_isShown rfl]
    rfl
  · rw [h node hnode]

theorem lowerArms_withoutBlank
    (h : ∀ node ∈ nodes, node.withoutBlank.lower rt = node.lower rt) (done : Arms) :
    lowerArms rt done (withoutBlank nodes) = lowerArms rt done nodes := by
  refine walk_withoutBlank (fun done node => done.add (node.lower rt) node)
    (fun s node rest => ?_) (fun s value hblank => ?_) (fun node hnode s => ?_) done
  · rw [lowerArms]
  · simp only [Arms.add, hblank, if_true]
  · rw [h node hnode]
    cases node with
    | text value => rw [Node.withoutBlank]
    | comment value => rw [Node.withoutBlank]
    | element tag children => rw [Node.withoutBlank, Arms.add, Arms.add]

theorem lowerParts_withoutBlank
    (h : ∀ node ∈ nodes, node.withoutBlank.lower rt = node.lower rt)
    (h' : ∀ node ∈ nodes, node.withoutBlank.lowerContents rt = node.lowerContents rt)
    (done : Parts) : lowerParts rt done (withoutBlank nodes) = lowerParts rt done nodes := by
  refine walk_withoutBlank
    (fun done node => done.add (node.lower rt) (node.lowerContents rt) node)
    (fun s node rest => ?_) (fun s value hblank => ?_) (fun node hnode s => ?_) done
  · rw [lowerParts]
  · simp only [Parts.add, Parts.addBody, Node.lower_of_isBlank hblank, pure_bind,
      Siblings.push_of_not_isShown (f := .text "") rfl]
    rfl
  · rw [h node hnode, h' node hnode]
    cases node with
    | text value => rw [Node.withoutBlank]
    | comment value => rw [Node.withoutBlank]
    | element tag children => rw [Node.withoutBlank, Parts.add, Parts.add]

/-- **A node is lowered as it is without the blank texts below it**, and so are its contents. -/
theorem Node.lower_withoutBlank (node : Node) :
    node.withoutBlank.lower rt = node.lower rt ∧
      node.withoutBlank.lowerContents rt = node.lowerContents rt := by
  induction node with
  | text value => rw [withoutBlank]; exact ⟨rfl, rfl⟩
  | comment value => rw [withoutBlank]; exact ⟨rfl, rfl⟩
  | element tag children ih =>
      have hlower := fun child hchild => (ih child hchild).1
      have hcontents := fun child hchild => (ih child hchild).2
      rw [withoutBlank, lower, lower, lowerContents, lowerContents,
        lowerSiblings_withoutBlank hlower, lowerArms_withoutBlank hlower,
        lowerParts_withoutBlank hlower hcontents]
      exact ⟨rfl, rfl⟩

end Walks

/-- **A block is lowered to the same outcome without its blank texts**: to the same code or the same
diagnostic, with the same reports and the same next free loop number. -/
theorem blank_text_plays_no_part (rt : Runtime) (nodes : List Node) (n : Nat) :
    (lowerBlock rt (withoutBlank nodes)).run n = (lowerBlock rt nodes).run n := by
  rw [lowerBlock, lowerBlock, lowerSiblings_withoutBlank fun node _ => node.lower_withoutBlank.1]

/-- Blank text goes wherever it stands: in a chain, in a switch, and below an element. -/
example :
    withoutBlank
      [.element { name := "p", attributes := [⟨"g-if", "a"⟩] } [.text "\u2003"], .text " \n",
        .element { name := "g-switch", attributes := [⟨"g-else", ""⟩, ⟨"run", "x"⟩] }
          [.text "\t", .comment " ", .element { name := "i", attributes := [⟨"g-default", ""⟩] }
            [.text " a "]]] =
      [.element { name := "p", attributes := [⟨"g-if", "a"⟩] } [],
        .element { name := "g-switch", attributes := [⟨"g-else", ""⟩, ⟨"run", "x"⟩] }
          [.comment " ", .element { name := "i", attributes := [⟨"g-default", ""⟩] }
            [.text " a "]]] := by
  rfl

end Stencil
