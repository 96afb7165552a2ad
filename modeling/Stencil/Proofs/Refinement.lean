import Stencil.Proofs.Placement

/-!
# Siblings are lowered to their items

The walk over siblings keeps the chain of alternatives that is open and writes it out when
something ends it. Here the nodes are first lowered one after the other, without looking at how
they stand; what the walk then returns is read off the list of their fragments, split into items.

The body of a component is what its children leave over once the templates and the contents of
slots are taken out of them, wherever these stand; also in the middle of a chain.

## Main results

* `lowerSiblings_of_mapM`: the walk returns the items of the fragments, or fails when they do not
  make up the whole list.
* `lowerChildren_refines_items`: **the lowering of siblings and of the body of a component is the
  code of their items**.
-/

namespace Stencil

/-- The items of a list of fragments, without those that have no code. -/
def itemsOf (fragments : List Fragment) : List Item :=
  (Item.split (fragments.filter Fragment.isShown)).1

theorem Sequence.code_ofFragments (fragments : List Fragment) :
    (Sequence.ofFragments fragments).code = String.join ((itemsOf fragments).map Item.code) :=
  Sequence.code_ofItems _

/-- Visiting nodes at their places is visiting the nodes. -/
theorem mapM_withPlaces {β : Type} (visit : Node → Lowering β) (here : Place) (i : Nat)
    (nodes : List Node) :
    (withPlaces here i nodes).mapM (fun x => visit x.2) = nodes.mapM visit := by
  conv => rhs; rw [← map_snd_withPlaces here i nodes]
  rw [List.mapM_map]
  rfl

/-! ### Siblings -/

/-- **The walk over siblings does what their items say.** -/
theorem lowerSiblings_of_mapM {rt : Runtime} {nodes : List Node} {fragments : List Fragment}
    {n next : Nat} {seen : List Attribute}
    (h : (nodes.mapM (Node.lower rt)).Returns n fragments next seen) :
    (Item.Covers (fragments.filter Fragment.isShown) →
      ∃ t, (lowerSiblings rt {} nodes).Returns n t next seen ∧ t.finish = .ofFragments fragments) ∧
    (¬ Item.Covers (fragments.filter Fragment.isShown) →
      ∃ stopped, (lowerSiblings rt {} nodes).Fails n stopped seen) := by
  rw [← mapM_withPlaces _ [] 0] at h
  obtain ⟨hok, herror⟩ := Pass.gather_of_mapM Siblings.push h {}
  rw [← lowerSiblings_eq_gather] at hok herror
  rw [← Siblings.foldlM_push_ok_iff_covers]
  constructor
  · rintro ⟨t, ht⟩
    exact ⟨t, hok t ht, Siblings.finish_of_foldlM_push ht⟩
  · intro hnot
    cases hfold : fragments.foldlM Siblings.push {} with
    | ok t => exact absurd ⟨t, hfold⟩ hnot
    | error d => exact herror d hfold

/-- The lowering of siblings to their code, when their items make up the whole list and when they
do not. -/
theorem lowerChildren_of_mapM {rt : Runtime} {nodes : List Node} {fragments : List Fragment}
    {n next : Nat} {seen : List Attribute}
    (h : (nodes.mapM (Node.lower rt)).Returns n fragments next seen) :
    (Item.Covers (fragments.filter Fragment.isShown) →
      (lowerChildren rt nodes).Returns n (String.join ((itemsOf fragments).map Item.code)) next
        seen) ∧
    (¬ Item.Covers (fragments.filter Fragment.isShown) →
      ∃ stopped, (lowerChildren rt nodes).Fails n stopped seen) := by
  obtain ⟨hcovers, hnot⟩ := lowerSiblings_of_mapM h
  constructor
  · intro hc
    obtain ⟨t, ht, hfinish⟩ := hcovers hc
    rw [← Sequence.code_ofFragments, ← hfinish, ← List.append_nil seen]
    exact ht.bind (Pass.returns_pure _ next)
  · intro hc
    obtain ⟨stopped, hfails⟩ := hnot hc
    refine ⟨stopped, ?_⟩
    rw [← List.append_nil seen]
    exact hfails.bind []

/-! ### The body of a component -/

/-- A child contributes to the body exactly when it is neither a template nor for a slot. -/
theorem isSome_body?_of_contribute {rt : Runtime} {node : Node} {c : Contribution} {n next : Nat}
    {seen : List Attribute} (h : (node.contribute rt).Returns n c next seen) :
    c.body?.isSome = node.isBody := by
  cases node with
  | text value =>
      obtain ⟨f, -, rfl⟩ := Pass.Returns.of_map h
      rfl
  | comment value =>
      obtain ⟨f, -, rfl⟩ := Pass.Returns.of_map h
      rfl
  | element tag children =>
      simp only [Node.contribute] at h
      by_cases hname : tag.name = "template"
      · rw [if_pos hname] at h
        obtain ⟨d, k, first, more, -, hrest, -⟩ := h.of_bind
        obtain ⟨name, k', first', more', -, hrest, -⟩ := hrest.of_bind
        obtain ⟨contents, k'', first'', more'', -, hlast, -⟩ := hrest.of_bind
        cases hlast
        simp [Contribution.body?, Node.isBody, Node.isTemplate, hname]
      · have hbody : (Node.element tag children).isBody = (tag.attr? "slot").isNone := by
          simp [Node.isBody, Node.isTemplate, Node.slot?, hname]
        rw [if_neg hname] at h
        rw [hbody]
        cases hslot : tag.attr? "slot" with
        | none =>
            rw [hslot] at h
            obtain ⟨f, -, rfl⟩ := Pass.Returns.of_map h
            rfl
        | some slot =>
            rw [hslot] at h
            obtain ⟨f, -, rfl⟩ := Pass.Returns.of_map h
            rfl

theorem map_isSome_body?_of_mapM {rt : Runtime} {nodes : List Node}
    {contributions : List Contribution} {n next : Nat} {seen : List Attribute}
    (h : (nodes.mapM (Node.contribute rt)).Returns n contributions next seen) :
    contributions.map (·.body?.isSome) = nodes.map Node.isBody := by
  induction nodes generalizing contributions n seen with
  | nil =>
      rw [List.mapM_nil] at h
      cases h
      rfl
  | cons node rest ih =>
      rw [List.mapM_cons] at h
      obtain ⟨c, k, first, more, hnode, hmore, -⟩ := h.of_bind
      obtain ⟨cs, k', second, third, hrest, hlast, -⟩ := hmore.of_bind
      cases hlast
      rw [List.map_cons, List.map_cons, isSome_body?_of_contribute hnode, ih hrest]

/-- The walk over the children of a component, when what they contribute can be taken in and when
it cannot. -/
theorem lowerParts_of_mapM {rt : Runtime} {nodes : List Node}
    {contributions : List Contribution} {n next : Nat} {seen : List Attribute}
    (h : (nodes.mapM (Node.contribute rt)).Returns n contributions next seen) (parts : Parts) :
    ((lowerParts rt {} nodes).run n).result = .ok parts ↔
      contributions.foldlM Parts.take {} = .ok parts := by
  rw [← mapM_withPlaces _ [] 0] at h
  obtain ⟨hok, herror⟩ := Pass.gather_of_mapM Parts.take h {}
  rw [← lowerParts_eq_gather] at hok herror
  constructor
  · intro hresult
    cases hfold : contributions.foldlM Parts.take {} with
    | ok t =>
        have hreturns := (hok t hfold).result
        rw [hresult] at hreturns
        exact hreturns.symm
    | error d =>
        obtain ⟨stopped, hfails⟩ := herror d hfold
        exact absurd hresult (hfails.result_ne parts)
  · intro hfold
    exact (hok parts hfold).result

/-- **The lowering of siblings is the code of their items.** When the nodes can be lowered one
after the other, their lowering as siblings succeeds exactly when the items of the fragments make
up the whole list, and then it is the code of the items, each with its separator. The body of a
component is obtained in the same way from the children that are neither templates nor for a slot;
the component as a whole also needs names that do not repeat, and contents of slots that play no
part among siblings. -/
theorem lowerChildren_refines_items (rt : Runtime) (nodes : List Node) (n next : Nat)
    (seen : List Attribute) :
    (∀ fragments, (nodes.mapM (Node.lower rt)).Returns n fragments next seen →
      ((∃ code, ((lowerChildren rt nodes).run n).result = .ok code) ↔
        Item.Covers (fragments.filter Fragment.isShown)) ∧
      (Item.Covers (fragments.filter Fragment.isShown) →
        (lowerChildren rt nodes).Returns n (String.join ((itemsOf fragments).map Item.code)) next
          seen)) ∧
    (∀ contributions, (nodes.mapM (Node.contribute rt)).Returns n contributions next seen →
      contributions.map (·.body?.isSome) = nodes.map Node.isBody ∧
      ((∃ parts, ((lowerParts rt {} nodes).run n).result = .ok parts) ↔
        Item.Covers ((contributions.filterMap Contribution.body?).filter Fragment.isShown) ∧
        ((contributions.filterMap Contribution.template?).map Prod.fst).Nodup ∧
        ((contributions.filterMap Contribution.slot?).map Prod.fst).Nodup ∧
        ∀ c ∈ contributions, c.isSettled = true) ∧
      ∀ parts, ((lowerParts rt {} nodes).run n).result = .ok parts →
        parts.body.finish.code = String.join
          ((itemsOf (contributions.filterMap Contribution.body?)).map Item.code)) := by
  constructor
  · intro fragments h
    obtain ⟨hcovers, hnot⟩ := lowerChildren_of_mapM h
    refine ⟨⟨?_, fun hc => ⟨_, (hcovers hc).result⟩⟩, hcovers⟩
    rintro ⟨code, hcode⟩
    by_contra hc
    obtain ⟨stopped, hfails⟩ := hnot hc
    exact hfails.result_ne code hcode
  · intro contributions h
    have hparts := lowerParts_of_mapM h
    refine ⟨map_isSome_body?_of_mapM h, ⟨?_, ?_⟩, ?_⟩
    · rintro ⟨parts, hresult⟩
      obtain ⟨htemplates, hslots, hsettled, hbody, -, -⟩ :=
        Parts.foldlM_take_eq_ok.mp ((hparts parts).mp hresult)
      exact ⟨Siblings.foldlM_push_ok_iff_covers.mp ⟨_, hbody⟩, htemplates.1, hslots.1, hsettled⟩
    · rintro ⟨hc, htemplates, hslots, hsettled⟩
      obtain ⟨body, hbody⟩ := Siblings.foldlM_push_ok_iff_covers.mpr hc
      exact ⟨⟨body, _, _⟩, (hparts _).mpr (Parts.foldlM_take_eq_ok.mpr
        ⟨Dict.fresh_empty.mpr htemplates, Dict.fresh_empty.mpr hslots, hsettled, hbody, rfl, rfl⟩)⟩
    · intro parts hresult
      obtain ⟨-, -, -, hbody, -, -⟩ := Parts.foldlM_take_eq_ok.mp ((hparts parts).mp hresult)
      rw [Siblings.finish_of_foldlM_push hbody, Sequence.code_ofFragments]

/-- The content of a slot ends a chain among siblings, but not in the body of a component. -/
theorem lowerChildren_chain_around_slot :
    (¬ ∃ code, ((lowerChildren ⟨"g"⟩
      [.element { name := "p", attributes := [⟨"g-if", "a"⟩, ⟨"g-for", "xs"⟩] } [],
        .element { name := "b", attributes := [⟨"slot", "s"⟩] } [],
        .element { name := "p", attributes := [⟨"g-else", ""⟩] } []]).run 3).result = .ok code) ∧
    ∃ parts, ((lowerParts ⟨"g"⟩ {}
      [.element { name := "p", attributes := [⟨"g-if", "a"⟩, ⟨"g-for", "xs"⟩] } [],
        .element { name := "b", attributes := [⟨"slot", "s"⟩] } [],
        .element { name := "p", attributes := [⟨"g-else", ""⟩] } []]).run 3).result =
          .ok parts := by
  obtain ⟨hsiblings, hparts⟩ := lowerChildren_refines_items ⟨"g"⟩
    [.element { name := "p", attributes := [⟨"g-if", "a"⟩, ⟨"g-for", "xs"⟩] } [],
      .element { name := "b", attributes := [⟨"slot", "s"⟩] } [],
      .element { name := "p", attributes := [⟨"g-else", ""⟩] } []] 3 4
    [⟨"g-if", "a"⟩, ⟨"g-for", "xs"⟩, ⟨"slot", "s"⟩, ⟨"g-else", ""⟩]
  constructor
  · rw [(hsiblings _ rfl).1, ← Siblings.foldlM_push_ok_iff_covers]
    rintro ⟨t, ht⟩
    cases ht
  · refine (hparts _ rfl).2.1.mpr ⟨Siblings.foldlM_push_ok_iff_covers.mp ⟨_, rfl⟩, ?_, ?_, ?_⟩
    · decide
    · decide
    · decide

end Stencil
