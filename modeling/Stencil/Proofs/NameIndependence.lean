import Stencil.Proofs.Placement

/-!
# Names do not matter to how a lowering ends

The runtime package and the loop numbers are written into the code, and the lowering of siblings
looks at code that is done: it passes over a node without code, and it adds no separator to code
that ends in one. So that names matter to nothing but the code is a statement about two lowerings
of one tree, side by side. They are `Alike`: both return or both fail with one diagnostic, they
take as many numbers and make the same reports.

What two lowerings hold at the same point differs in code only. The relations between fragments,
siblings, arms and parts say what is still the same: the descriptors, whether a node has code at
all, whether a chain is open, whether a default arm is there, and which names are taken.

## Main results

* `Alike.bind`, `gather_alike`: passes that are alike, put together.
* `Siblings.push_alike`, `Arms.take_alike`, `Parts.take_alike`: a step keeps states alike.
* `Node.lower_alike`: **the lowerings of a tree with other names are alike.**
* `ending_independent_of_names`: how the lowering of a block ends.
-/

namespace Stencil

/-! ### Two passes side by side -/

/-- Both results are there and in relation, or both are the same diagnostic. -/
def ResultsAlike {α β : Type} (rel : α → β → Prop) :
    Except Diagnostic α → Except Diagnostic β → Prop
  | .ok a, .ok b => rel a b
  | .error d, .error e => d = e
  | _, _ => False

/-- The ways in which results can be alike. -/
theorem ResultsAlike.cases {α β : Type} {rel : α → β → Prop} {r : Except Diagnostic α}
    {r' : Except Diagnostic β} (h : ResultsAlike rel r r') :
    (∃ a b, r = .ok a ∧ r' = .ok b ∧ rel a b) ∨ ∃ d, r = .error d ∧ r' = .error d := by
  cases r with
  | ok a =>
      cases r' with
      | ok b => exact .inl ⟨a, b, rfl, rfl, h⟩
      | error e => exact h.elim
  | error d =>
      cases r' with
      | ok b => exact h.elim
      | error e => exact .inr ⟨d, rfl, congrArg Except.error (Eq.symm h)⟩

/-- Two passes, from `n` and from `m`, have ended in the same way. -/
structure Outcome.Alike {ω α β : Type} (rel : α → β → Prop) (n m : Nat) (o : Outcome ω α)
    (p : Outcome ω β) : Prop where
  result : ResultsAlike rel o.result p.result
  next : ∃ taken, o.next = n + taken ∧ p.next = m + taken
  observed : o.observed = p.observed

namespace Pass

variable {ω α α' β β' σ ν : Type} {rel : α → α' → Prop} {rel' : β → β' → Prop}
  {m : Pass ω α} {m' : Pass ω α'}

/-- Two passes end in the same way, whatever numbers they start from. -/
def Alike (rel : α → α' → Prop) (m : Pass ω α) (m' : Pass ω α') : Prop :=
  ∀ n n', Outcome.Alike rel n n' (m.run n) (m'.run n')

theorem alike_pure {a : α} {a' : α'} (h : rel a a') :
    (pure a : Pass ω α).Alike rel (pure a') :=
  fun _ _ => ⟨h, ⟨0, rfl, rfl⟩, rfl⟩

theorem alike_fail (d : Diagnostic) : (fail d : Pass ω α).Alike rel (fail d : Pass ω α') :=
  fun _ _ => ⟨rfl, ⟨0, rfl, rfl⟩, rfl⟩

theorem alike_observe (a : ω) : (observe a).Alike Eq (observe a) :=
  fun _ _ => ⟨rfl, ⟨0, rfl, rfl⟩, rfl⟩

theorem alike_ofExcept {r : Except Diagnostic α} {r' : Except Diagnostic α'}
    (h : ResultsAlike rel r r') : (ofExcept r : Pass ω α).Alike rel (ofExcept r') :=
  fun _ _ => ⟨h, ⟨0, rfl, rfl⟩, rfl⟩

/-- The numbers that are taken differ, but one is taken on either side. -/
theorem alike_freshLoop : (freshLoop : Pass ω Nat).Alike (fun _ _ => True) freshLoop :=
  fun _ _ => ⟨trivial, ⟨1, rfl, rfl⟩, rfl⟩

/-- **Passes one after the other.** The second ones have to be alike for values in relation. -/
theorem Alike.bind {f : α → Pass ω β} {f' : α' → Pass ω β'} (h : m.Alike rel m')
    (hf : ∀ a a', rel a a' → (f a).Alike rel' (f' a')) : (m >>= f).Alike rel' (m' >>= f') := by
  intro n n'
  obtain ⟨hresult, ⟨taken, hnext, hnext'⟩, hobserved⟩ := h n n'
  rcases hrun : m n with ⟨result, k, seen⟩
  rcases hrun' : m' n' with ⟨result', k', seen'⟩
  simp only [run, hrun, hrun'] at hresult hnext hnext' hobserved
  subst hnext hnext' hobserved
  rcases hresult.cases with ⟨a, a', rfl, rfl, ha⟩ | ⟨d, rfl, rfl⟩
  · obtain ⟨hlast, ⟨more, hmore, hmore'⟩, hreports⟩ := hf a a' ha (n + taken) (n' + taken)
    simp only [run] at hlast hmore hmore' hreports
    simp only [run, bind_apply_ok hrun, bind_apply_ok hrun']
    refine ⟨hlast, ⟨taken + more, ?_, ?_⟩, congrArg (seen ++ ·) hreports⟩
    · rw [hmore, Nat.add_assoc]
    · rw [hmore', Nat.add_assoc]
  · simp only [run, bind_apply_error hrun, bind_apply_error hrun']
    exact ⟨rfl, ⟨taken, rfl, rfl⟩, rfl⟩

theorem Alike.map {f : α → β} {f' : α' → β'} (h : m.Alike rel m')
    (hf : ∀ a a', rel a a' → rel' (f a) (f' a')) : (f <$> m).Alike rel' (f' <$> m') := by
  rw [map_eq_pure_bind, map_eq_pure_bind]
  exact h.bind fun a a' ha => alike_pure (hf a a' ha)

/-- The diagnostic of a failure gets the same context on both sides. -/
theorem Alike.within (context : String) (h : m.Alike rel m') :
    (m.within context).Alike rel (m'.within context) := by
  intro n n'
  obtain ⟨hresult, hnext, hobserved⟩ := h n n'
  refine ⟨?_, hnext, hobserved⟩
  simp only [run, Pass.within, Pass.located] at hresult ⊢
  rcases hresult.cases with ⟨a, a', hok, hok', ha⟩ | ⟨d, herror, herror'⟩
  · rw [hok, hok']
    exact ha
  · rw [herror, herror']
    exact rfl

/-- **Walks over a list.** Visits that are alike and steps that keep the states alike make walks
that are alike. -/
theorem gather_alike (rel : α → α' → Prop) {visit : ν → Pass ω α} {visit' : ν → Pass ω α'}
    {step : σ → α → Except Diagnostic σ} {step' : σ → α' → Except Diagnostic σ}
    {same : σ → σ → Prop} {xs : List ν}
    (hvisit : ∀ x ∈ xs, (visit x).Alike rel (visit' x))
    (hstep : ∀ s s' a a', same s s' → rel a a' → ResultsAlike same (step s a) (step' s' a'))
    {s s' : σ} (hs : same s s') :
    (gather visit step s xs).Alike same (gather visit' step' s' xs) := by
  induction xs generalizing s s' with
  | nil => exact alike_pure hs
  | cons x rest ih =>
      have hrest := fun y hy => hvisit y (List.mem_cons_of_mem x hy)
      refine (hvisit x List.mem_cons_self).bind fun a a' ha => ?_
      exact (alike_ofExcept (hstep s s' a a' hs ha)).bind fun t t' ht => ih hrest ht

end Pass

/-! ### Opening tags -/

namespace Tag

theorem collect_alike (d : Descriptor) (attributes : List Attribute) :
    (collect d attributes).Alike Eq (collect d attributes) := by
  induction attributes generalizing d with
  | nil => exact Pass.alike_pure rfl
  | cons a rest ih =>
      refine (Pass.alike_observe a).bind fun _ _ _ => ?_
      cases d.add a with
      | ok d => exact ih d
      | error cause => exact Pass.alike_fail _

theorem strictDescriptor_alike (tag : Tag) (controlFlow : Bool) :
    (tag.strictDescriptor controlFlow).Alike Eq (tag.strictDescriptor controlFlow) := by
  refine Pass.Alike.within _ ((collect_alike _ _).bind fun d d' hd => ?_)
  subst hd
  cases tag.attributes.find? fun a => !accepts controlFlow a with
  | some a => exact Pass.alike_fail _
  | none => exact Pass.alike_pure rfl

theorem require_alike (tag : Tag) (key : String) :
    (tag.require key).Alike Eq (tag.require key) := by
  unfold require
  cases tag.attr? key with
  | some value => exact Pass.alike_pure rfl
  | none => exact Pass.alike_fail _

end Tag

/-! ### What two lowerings hold -/

/-- Fragments of one node. The code of an element may differ, but is never missing. -/
def Fragment.Alike : Fragment → Fragment → Prop
  | .text code, .text code' => code = code'
  | .comment code, .comment code' => code = code'
  | .element code d, .element code' d' => code ≠ "" ∧ code' ≠ "" ∧ d = d'
  | _, _ => False

/-- The ways in which fragments can be alike. -/
theorem Fragment.Alike.cases {f f' : Fragment} (h : f.Alike f') :
    (∃ code, f = .text code ∧ f' = .text code) ∨
      (∃ code, f = .comment code ∧ f' = .comment code) ∨
      ∃ code code' d, f = .element code d ∧ f' = .element code' d ∧ code ≠ "" ∧ code' ≠ "" := by
  cases f with
  | text code =>
      cases f' with
      | text code' => exact .inl ⟨code, rfl, congrArg Fragment.text (Eq.symm h)⟩
      | comment _ | element _ _ => exact h.elim
  | comment code =>
      cases f' with
      | comment code' => exact .inr (.inl ⟨code, rfl, congrArg Fragment.comment (Eq.symm h)⟩)
      | text _ | element _ _ => exact h.elim
  | element code d =>
      cases f' with
      | element code' d' =>
          obtain ⟨hcode, hcode', hd⟩ := h
          exact .inr (.inr ⟨code, code', d, rfl, by rw [hd], hcode, hcode'⟩)
      | text _ | comment _ => exact h.elim

theorem Fragment.Alike.branch? {f f' : Fragment} (h : f.Alike f') : f.branch? = f'.branch? := by
  rcases h.cases with ⟨_, rfl, rfl⟩ | ⟨_, rfl, rfl⟩ | ⟨_, _, _, rfl, rfl, -, -⟩ <;> rfl

namespace Siblings

/-- A chain is open on both sides or on neither. -/
def Alike (s s' : Siblings) : Prop := s.chain.isSome = s'.chain.isSome

theorem extend_alike {s s' : Siblings} (h : s.Alike s') (d : Descriptor) (branch : Branch)
    (arm arm' : String) :
    ResultsAlike Alike (s.extend d branch arm) (s'.extend d branch arm') := by
  obtain ⟨done, chain⟩ := s
  obtain ⟨done', chain'⟩ := s'
  match chain, chain', h with
  | none, none, _ => exact rfl
  | some _, some _, _ => exact rfl

theorem pushElement_alike {s s' : Siblings} (h : s.Alike s') (code code' : String)
    (d : Descriptor) : ResultsAlike Alike (s.pushElement code d) (s'.pushElement code' d) := by
  unfold pushElement
  cases d.branch with
  | none => exact rfl
  | some branch =>
      cases branch with
      | ifCond condition => exact rfl
      | elseIf condition => exact extend_alike h d _ _ _
      | otherwise =>
          have hextend := extend_alike h d .otherwise (Runtime.elseArm code) (Runtime.elseArm code')
          dsimp only
          rcases hextend.cases with ⟨t, t', hok, hok', -⟩ | ⟨cause, herror, herror'⟩
          · rw [hok, hok']
            exact rfl
          · rw [herror, herror']
            exact rfl
      | case value => exact rfl
      | default => exact rfl

/-- **The next sibling is taken in on both sides or on neither.** -/
theorem push_alike {s s' : Siblings} {f f' : Fragment} (h : s.Alike s') (hf : f.Alike f') :
    ResultsAlike Alike (s.push f) (s'.push f') := by
  rcases hf.cases with ⟨code, rfl, rfl⟩ | ⟨code, rfl, rfl⟩ |
    ⟨code, code', d, rfl, rfl, hcode, hcode'⟩
  · by_cases hcode : code = "" <;> simp only [push, Fragment.code, hcode, ↓reduceIte]
    · exact h
    · exact rfl
  · by_cases hcode : code = "" <;> simp only [push, Fragment.code, hcode, ↓reduceIte]
    · exact h
    · exact rfl
  · simp only [push, Fragment.code, hcode, hcode', ↓reduceIte]
    exact pushElement_alike h code code' d

end Siblings

namespace Arms

/-- A default arm is there on both sides or on neither. -/
def Alike (arms arms' : Arms) : Prop := arms.hasDefault = arms'.hasDefault

/-- **A child of a switch is taken in on both sides or on neither.** -/
theorem take_alike {arms arms' : Arms} {node : Node} {f f' : Fragment} (h : arms.Alike arms')
    (hf : f.Alike f') : ResultsAlike Alike (arms.take (node, f)) (arms'.take (node, f')) := by
  unfold take
  cases node with
  | comment value => exact h
  | text value =>
      by_cases hblank : Text.isBlank value = true <;> simp only [hblank, ↓reduceIte]
      · exact h
      · exact rfl
  | element tag children =>
      simp only [← hf.branch?]
      cases f.branch? with
      | none => exact rfl
      | some branch =>
          cases branch with
          | ifCond _ | elseIf _ | otherwise => exact rfl
          | case value => exact h
          | default =>
              simp only [← show arms.hasDefault = arms'.hasDefault from h]
              cases arms.hasDefault <;> exact rfl

end Arms

/-- What two lowerings of one child contribute. -/
def Contribution.Alike : Contribution → Contribution → Prop
  | .template name _, .template name' _ => name = name'
  | .slot name tag f, .slot name' tag' f' => name = name' ∧ tag = tag' ∧ f.Alike f'
  | .body f, .body f' => f.Alike f'
  | _, _ => False

/-- The ways in which contributions can be alike. -/
theorem Contribution.Alike.cases {c c' : Contribution} (h : c.Alike c') :
    (∃ name code code', c = .template name code ∧ c' = .template name code') ∨
      (∃ name tag f f', c = .slot name tag f ∧ c' = .slot name tag f' ∧ f.Alike f') ∨
      ∃ f f', c = .body f ∧ c' = .body f' ∧ f.Alike f' := by
  cases c with
  | template name code =>
      cases c' with
      | template name' code' =>
          have hname : name = name' := h
          exact .inl ⟨name, code, code', rfl, by rw [hname]⟩
      | slot _ _ _ | body _ => exact h.elim
  | slot name tag f =>
      cases c' with
      | slot name' tag' f' =>
          obtain ⟨hname, htag, hf⟩ := h
          exact .inr (.inl ⟨name, tag, f, f', rfl, by rw [hname, htag], hf⟩)
      | template _ _ | body _ => exact h.elim
  | body f =>
      cases c' with
      | body f' => exact .inr (.inr ⟨f, f', rfl, rfl, h⟩)
      | template _ _ | slot _ _ _ => exact h.elim

namespace Parts

/-- The bodies are alike, and the same names are taken. -/
structure Alike (parts parts' : Parts) : Prop where
  body : parts.body.Alike parts'.body
  slots : ∀ name, parts.slots.contains name = parts'.slots.contains name
  templates : ∀ name, parts.templates.contains name = parts'.templates.contains name

theorem alike_refl (parts : Parts) : parts.Alike parts := ⟨rfl, fun _ => rfl, fun _ => rfl⟩

/-- **What a child of a component contributes is taken in on both sides or on neither.** -/
theorem take_alike {parts parts' : Parts} {c c' : Contribution} (h : parts.Alike parts')
    (hc : c.Alike c') : ResultsAlike Alike (parts.take c) (parts'.take c') := by
  rcases hc.cases with ⟨name, _, _, rfl, rfl⟩ | ⟨name, tag, f, f', rfl, rfl, hf⟩ |
    ⟨f, f', rfl, rfl, hf⟩
  · simp only [take, ← h.templates name]
    cases parts.templates.contains name with
    | true => exact rfl
    | false => exact ⟨h.body, h.slots, fun other => by simp [h.templates]⟩
  · simp only [take, ← hf.branch?, ← h.slots name]
    cases f.branch?.isSome with
    | true => exact rfl
    | false =>
        cases parts.slots.contains name with
        | true => exact rfl
        | false => exact ⟨h.body, fun other => by simp [h.slots], h.templates⟩
  · have hpush := Siblings.push_alike h.body hf
    simp only [take]
    rcases hpush.cases with ⟨body, body', hok, hok', hbody⟩ | ⟨d, herror, herror'⟩
    · rw [hok, hok']
      exact ⟨hbody, h.slots, h.templates⟩
    · rw [herror, herror']
      exact rfl

end Parts

/-! ### Elements around their children -/

section Element

variable (rt rt' : Runtime) (tag : Tag)

theorem Component.lower_alike {parts parts' : Lowering Parts} (h : parts.Alike Parts.Alike parts') :
    (Component.lower rt tag parts).Alike Fragment.Alike (Component.lower rt' tag parts') := by
  unfold Component.lower
  refine (tag.strictDescriptor_alike true).bind fun d d' hd => ?_
  subst hd
  refine ((tag.require_alike "run").map fun _ _ => congrArg Text.trim).bind fun run run' hrun => ?_
  subst hrun
  by_cases hcall : Text.endsWith ')' run = true
  · simp only [if_pos hcall]
    refine (h.within tag.describe).bind fun parts parts' _ => Pass.alike_pure ?_
    exact ⟨Tag.call_ne_empty hcall, Tag.call_ne_empty hcall, rfl⟩
  · simp only [if_neg hcall]
    exact Pass.alike_fail _

theorem Component.lowerSlot_alike :
    (Component.lowerSlot tag).Alike Fragment.Alike (Component.lowerSlot tag) := by
  unfold Component.lowerSlot
  refine (tag.strictDescriptor_alike true).bind fun d d' hd => ?_
  refine (tag.require_alike "name").bind fun name name' hname => Pass.alike_pure ?_
  refine ⟨?_, ?_, hd⟩ <;> simp [Runtime.slot, String.append_eq_empty_iff]

theorem Component.lowerBody_alike :
    (Component.lowerBody rt tag).Alike Fragment.Alike (Component.lowerBody rt' tag) := by
  unfold Component.lowerBody
  refine (tag.strictDescriptor_alike true).bind fun d d' hd => Pass.alike_pure ?_
  refine ⟨?_, ?_, hd⟩ <;> simp [Runtime.body, String.append_eq_empty_iff]

theorem Switch.lower_alike {arms arms' : Lowering Arms} (h : arms.Alike Arms.Alike arms') :
    (Switch.lower tag arms).Alike Fragment.Alike (Switch.lower tag arms') := by
  unfold Switch.lower
  refine (tag.strictDescriptor_alike true).bind fun d d' hd => ?_
  refine (tag.require_alike "run").bind fun target target' _ => ?_
  refine (h.within tag.describe).bind fun arms arms' _ => Pass.alike_pure ?_
  refine ⟨?_, ?_, hd⟩ <;>
    simp [Runtime.switch, Runtime.selfEvaluating, String.append_eq_empty_iff]

theorem Element.lower_alike {siblings siblings' : Lowering Sequence} {arms arms' : Lowering Arms}
    (hsiblings : siblings.Alike (fun _ _ => True) siblings') (harms : arms.Alike Arms.Alike arms') :
    (Element.lower rt tag siblings arms).Alike Fragment.Alike
      (Element.lower rt' tag siblings' arms') := by
  have hcode (rt : Runtime) (d : Descriptor) (children : String) : rt.element d children ≠ "" := by
    simp [Runtime.element, String.append_eq_empty_iff]
  refine Pass.Alike.within _ ((Tag.collect_alike _ _).bind fun d d' hd => ?_)
  subst hd
  cases d.switchTarget with
  | some target => exact harms.bind fun _ _ _ => Pass.alike_pure ⟨hcode _ _ _, hcode _ _ _, rfl⟩
  | none => exact hsiblings.bind fun _ _ _ => Pass.alike_pure ⟨hcode _ _ _, hcode _ _ _, rfl⟩

/-- The name of the loop is in the code only. -/
theorem Fragment.looped_alike {f f' : Fragment} (h : f.Alike f') :
    f.looped.Alike Fragment.Alike f'.looped := by
  rcases h.cases with ⟨code, rfl, rfl⟩ | ⟨code, rfl, rfl⟩ |
    ⟨code, code', d, rfl, rfl, hcode, hcode'⟩
  · exact Pass.alike_pure rfl
  · exact Pass.alike_pure rfl
  · have hloop (clause code name : String) : Runtime.loop clause code name ≠ "" := by
      simp [Runtime.loop, Runtime.selfEvaluating, String.append_eq_empty_iff]
    simp only [looped]
    cases d.loopClause with
    | none => exact Pass.alike_pure ⟨hcode, hcode', rfl⟩
    | some clause =>
        exact Pass.alike_freshLoop.bind fun _ _ _ =>
          Pass.alike_pure ⟨hloop _ _ _, hloop _ _ _, rfl⟩

end Element

/-! ### Trees -/

section Trees

variable {rt rt' : Runtime}

/-- The lowerings of a node and of its contents are alike. -/
def Node.LowersAlike (rt rt' : Runtime) (node : Node) : Prop :=
  (node.lower rt).Alike Fragment.Alike (node.lower rt') ∧
    (node.lowerContents rt).Alike (fun _ _ => True) (node.lowerContents rt')

variable {nodes : List Node}

theorem mem_of_mem_withPlaces {here : Place} {i : Nat} {x : Place × Node}
    (h : x ∈ withPlaces here i nodes) : x.2 ∈ nodes := by
  rw [← map_snd_withPlaces here i nodes]
  exact List.mem_map_of_mem h

theorem lowerSiblings_alike (h : ∀ node ∈ nodes, node.LowersAlike rt rt') :
    (lowerSiblings rt {} nodes).Alike Siblings.Alike (lowerSiblings rt' {} nodes) := by
  rw [lowerSiblings_eq_gather rt [] 0, lowerSiblings_eq_gather rt' [] 0]
  refine Pass.gather_alike Fragment.Alike (fun x hx => ?_) ?_ rfl
  · exact (h x.2 (mem_of_mem_withPlaces hx)).1
  · exact fun s s' f f' hs hf => Siblings.push_alike hs hf

theorem lowerArms_alike (h : ∀ node ∈ nodes, node.LowersAlike rt rt') :
    (lowerArms rt {} nodes).Alike Arms.Alike (lowerArms rt' {} nodes) := by
  rw [lowerArms_eq_gather rt [] 0, lowerArms_eq_gather rt' [] 0]
  refine Pass.gather_alike (fun c c' => c.1 = c'.1 ∧ c.2.Alike c'.2) (fun x hx => ?_) ?_ rfl
  · exact (h x.2 (mem_of_mem_withPlaces hx)).1.map fun _ _ hf => ⟨rfl, hf⟩
  · rintro s s' ⟨node, f⟩ ⟨_, f'⟩ hs ⟨rfl, hf⟩
    exact Arms.take_alike hs hf

theorem Node.contribute_alike {node : Node} (h : node.LowersAlike rt rt') :
    (node.contribute rt).Alike Contribution.Alike (node.contribute rt') := by
  have hbody : (Contribution.body <$> node.lower rt).Alike Contribution.Alike
      (Contribution.body <$> node.lower rt') := h.1.map fun _ _ hf => hf
  cases node with
  | text value => exact hbody
  | comment value => exact hbody
  | element tag children =>
      unfold contribute
      by_cases htemplate : tag.name = "template"
      · simp only [if_pos htemplate]
        refine (tag.strictDescriptor_alike false).bind fun _ _ _ => ?_
        refine (tag.require_alike "name").bind fun name name' hname => ?_
        exact h.2.bind fun _ _ _ => Pass.alike_pure hname
      · simp only [if_neg htemplate]
        cases tag.attr? "slot" with
        | none => exact hbody
        | some slot => exact h.1.map fun _ _ hf => ⟨rfl, rfl, hf⟩

theorem lowerParts_alike (h : ∀ node ∈ nodes, node.LowersAlike rt rt') :
    (lowerParts rt {} nodes).Alike Parts.Alike (lowerParts rt' {} nodes) := by
  rw [lowerParts_eq_gather rt [] 0, lowerParts_eq_gather rt' [] 0]
  refine Pass.gather_alike Contribution.Alike (fun x hx => ?_) ?_ (Parts.alike_refl {})
  · exact Node.contribute_alike (h x.2 (mem_of_mem_withPlaces hx))
  · exact fun s s' c c' hs hc => Parts.take_alike hs hc

/-- **The lowerings of a tree with other names are alike.** -/
theorem Node.lower_alike (rt rt' : Runtime) (node : Node) : node.LowersAlike rt rt' := by
  induction node with
  | text value =>
      rw [LowersAlike, lower, lower, lowerContents, lowerContents]
      exact ⟨Pass.alike_pure rfl, Pass.alike_pure trivial⟩
  | comment value =>
      rw [LowersAlike, lower, lower, lowerContents, lowerContents]
      exact ⟨Pass.alike_pure rfl, Pass.alike_pure trivial⟩
  | element tag children ih =>
      have hsiblings : (Siblings.finish <$> lowerSiblings rt {} children).Alike (fun _ _ => True)
          (Siblings.finish <$> lowerSiblings rt' {} children) :=
        (lowerSiblings_alike ih).map fun _ _ _ => trivial
      rw [LowersAlike, lower, lower, lowerContents, lowerContents]
      refine ⟨?_, hsiblings⟩
      cases ElementKind.ofName tag.name with
      | component =>
          exact (Component.lower_alike rt rt' tag (lowerParts_alike ih)).bind
            fun _ _ => Fragment.looped_alike
      | slot => exact (Component.lowerSlot_alike tag).bind fun _ _ => Fragment.looped_alike
      | body => exact (Component.lowerBody_alike rt rt' tag).bind fun _ _ => Fragment.looped_alike
      | switch =>
          exact (Switch.lower_alike tag (lowerArms_alike ih)).bind
            fun _ _ => Fragment.looped_alike
      | ordinary =>
          exact (Element.lower_alike rt rt' tag hsiblings (lowerArms_alike ih)).bind
            fun _ _ => Fragment.looped_alike

end Trees

/-- **How the lowering of a block ends does not depend on names.** With other runtimes and from
other loop numbers, both lowerings return or both fail, in all respects with the same diagnostic;
both report the same attributes in the same order, and both take as many numbers. -/
theorem ending_independent_of_names (nodes : List Node) (rt rt' : Runtime) (n n' : Nat) :
    ((∃ code, ((lowerBlock rt nodes).run n).result = .ok code) ↔
      ∃ code, ((lowerBlock rt' nodes).run n').result = .ok code) ∧
    (∀ d, ((lowerBlock rt nodes).run n).result = .error d ↔
      ((lowerBlock rt' nodes).run n').result = .error d) ∧
    ((lowerBlock rt nodes).run n).observed = ((lowerBlock rt' nodes).run n').observed ∧
    ∃ taken, ((lowerBlock rt nodes).run n).next = n + taken ∧
      ((lowerBlock rt' nodes).run n').next = n' + taken := by
  have halike : (lowerBlock rt nodes).Alike (fun _ _ => True) (lowerBlock rt' nodes) :=
    (lowerSiblings_alike fun node _ => node.lower_alike rt rt').bind
      fun _ _ _ => Pass.alike_pure trivial
  obtain ⟨hresult, hnext, hobserved⟩ := halike n n'
  rcases hresult.cases with ⟨code, code', hok, hok', -⟩ | ⟨d, herror, herror'⟩
  · rw [hok, hok']
    exact ⟨by simp, by simp, hobserved, hnext⟩
  · rw [herror, herror']
    exact ⟨by simp, by simp, hobserved, hnext⟩

end Stencil
