import Stencil.Proofs.NameIndependence

/-!
# Siblings in two stretches

A list of siblings may be cut in two anywhere and lowered stretch by stretch. What goes over the
cut is little: the next loop number, and the chain of alternatives that is open there. A failure
before the cut is the failure of the whole, whatever stands behind it. Otherwise the code of the
whole is that of the first stretch and then that of the second, unless the second begins with an
alternative: only an alternative has to do with the chain that is open at the cut.

The two lowerings of the second stretch, behind the first and by itself, are followed side by side.
They mark their separators in different places, so they are compared by their code.

## Main results

* `lowerSiblings_append`: the second stretch goes on from the state that the first has left.
* `Siblings.Follows.push`: a step keeps two states in relation that differ by code written before.
* `lowerChildren_append`: **siblings are lowered stretch by stretch, and fail with the first.**
-/

namespace Stencil

/-- The second stretch goes on from the state that the first has left. -/
theorem lowerSiblings_append (rt : Runtime) (done : Siblings) (xs ys : List Node) :
    lowerSiblings rt done (xs ++ ys) =
      lowerSiblings rt done xs >>= fun done => lowerSiblings rt done ys := by
  induction xs generalizing done with
  | nil => rw [List.nil_append, lowerSiblings, pure_bind]
  | cons node rest ih =>
      rw [List.cons_append, lowerSiblings, lowerSiblings]
      simp only [ih, bind_assoc]

/-! ### States that differ by code written before -/

namespace Siblings

/-- The first state has written some code, and then what the second has written. One chain is open
in both, or none. -/
structure Follows (code : String) (s t : Siblings) : Prop where
  done : s.done.code = code ++ t.done.code
  chain : s.chain = t.chain

section Follows

variable {code : String} {s t : Siblings}

/-- Every state follows the beginning, behind what it has written, if no chain is open in it. -/
theorem follows_nil (done : Sequence) : Follows done.code { done } {} :=
  ⟨String.append_empty.symm, rfl⟩

/-- The open chain is written behind the same code. -/
theorem Follows.finish (h : s.Follows code t) : s.finish.code = code ++ t.finish.code := by
  rw [Siblings.finish, Siblings.finish, h.chain]
  cases t.chain with
  | none => exact h.done
  | some arms =>
      simp only [Sequence.code_pushSeparated, h.done, String.append_assoc]

/-- An item is written after the open chain. -/
theorem Follows.write (h : s.Follows code t) (item : Item) :
    Follows code { done := item.write s.finish } { done := item.write t.finish } := by
  refine ⟨?_, rfl⟩
  simp only [Item.code_write, h.finish, String.append_assoc]

/-- An alternative extends the open chain, or finds none, in both states. -/
theorem Follows.extend (h : s.Follows code t) (d : Descriptor) (branch : Branch) (arm : String) :
    ResultsAlike (Follows code) (s.extend d branch arm) (t.extend d branch arm) := by
  rw [Siblings.extend, Siblings.extend, h.chain]
  cases t.chain with
  | none => exact rfl
  | some arms => exact ⟨h.done, rfl⟩

/-- **Taking in a sibling does not depend on what is written before.** -/
theorem Follows.push (h : s.Follows code t) (f : Fragment) :
    ResultsAlike (Follows code) (s.push f) (t.push f) := by
  cases hshown : f.isShown with
  | false =>
      rw [push_of_not_isShown hshown, push_of_not_isShown hshown]
      exact h
  | true =>
      cases f with
      | text own =>
          rw [push_text hshown, push_text hshown]
          exact h.write (.plain own)
      | comment own =>
          rw [push_comment hshown, push_comment hshown]
          exact h.write (.comment own)
      | element own d =>
          rw [push_element hshown, push_element hshown, pushElement, pushElement]
          cases d.branch with
          | none => exact h.write (.plain own)
          | some branch =>
              cases branch with
              | ifCond condition => exact ⟨h.finish, rfl⟩
              | elseIf condition => exact h.extend d _ _
              | otherwise =>
                  obtain ⟨s', t', hs, ht, h'⟩ | ⟨d', hs, ht⟩ :=
                    (h.extend d .otherwise (Runtime.elseArm own)).cases
                  · simp only [hs, ht]
                    exact ⟨h'.finish, rfl⟩
                  · simp only [hs, ht]
                    exact rfl
              | case value => exact rfl
              | default => exact rfl

end Follows

end Siblings

/-- The rest of a list of siblings is lowered to the same code behind what is written before. -/
theorem code_lowerSiblings_of_follows (rt : Runtime) {code : String} {s t : Siblings}
    (h : s.Follows code t) (nodes : List Node) :
    (fun s : Siblings => s.finish.code) <$> lowerSiblings rt s nodes =
      (fun t : Siblings => code ++ t.finish.code) <$> lowerSiblings rt t nodes := by
  induction nodes generalizing s t with
  | nil =>
      rw [lowerSiblings, lowerSiblings, map_pure, map_pure, h.finish]
  | cons node rest ih =>
      rw [lowerSiblings, lowerSiblings, map_bind, map_bind]
      refine bind_congr fun f => ?_
      obtain ⟨s', t', hs, ht, h'⟩ | ⟨d, hs, ht⟩ := (h.push f).cases
      · rw [hs, ht]
        exact ih h'
      · rw [hs, ht]
        rfl

/-! ### The cut -/

/-- The first fragment with code that nodes are lowered to, one after the other from a number. -/
def firstShown (rt : Runtime) (n : Nat) : List Node → Option Fragment
  | [] => none
  | node :: rest =>
      match (node.lower rt).run n with
      | { result := .ok f, next, .. } => if f.isShown then some f else firstShown rt next rest
      | { result := .error _, .. } => none

/-- A fragment that does not go on with a chain is neither kind of alternative. -/
theorem Fragment.no_alternative {f : Fragment} (h : ¬ f.branch?.any Branch.continues) :
    f.elseIf? = none ∧ f.else? = none := by
  cases f with
  | text own => exact ⟨rfl, rfl⟩
  | comment own => exact ⟨rfl, rfl⟩
  | element own d =>
      rw [branch?] at h
      rw [elseIf?, else?]
      cases hbranch : d.branch with
      | none => exact ⟨rfl, rfl⟩
      | some branch =>
          rw [hbranch] at h
          cases branch with
          | elseIf condition => exact absurd rfl h
          | otherwise => exact absurd rfl h
          | ifCond _ | case _ | default => exact ⟨rfl, rfl⟩

/-- The second stretch is lowered to the code that it has by itself, behind that of the first with
the open chain written out, unless an alternative comes first in it. -/
theorem code_lowerSiblings_of_finish (rt : Runtime) (s : Siblings) (nodes : List Node) (n : Nat)
    (h : ∀ f ∈ firstShown rt n nodes, ¬ f.branch?.any Branch.continues) :
    ((fun s : Siblings => s.finish.code) <$> lowerSiblings rt s nodes).run n =
      ((fun t : Siblings => s.finish.code ++ t.finish.code) <$> lowerSiblings rt {} nodes).run n := by
  induction nodes generalizing n with
  | nil =>
      rw [lowerSiblings, lowerSiblings, map_pure, map_pure]
      exact congrArg (fun code => (pure code : Lowering String).run n) String.append_empty.symm
  | cons node rest ih =>
      rw [firstShown] at h
      rw [lowerSiblings, lowerSiblings, map_bind, map_bind]
      rcases hlower : (node.lower rt).run n with ⟨result, next, observed⟩
      rw [hlower] at h
      cases result with
      | error d => exact (Pass.bind_apply_error hlower).trans (Pass.bind_apply_error hlower).symm
      | ok f =>
          refine (Pass.bind_apply_ok hlower).trans (Eq.trans ?_ (Pass.bind_apply_ok hlower).symm)
          refine congrArg (fun o : Outcome Attribute String =>
            { o with observed := observed ++ o.observed }) ?_
          cases hshown : f.isShown with
          | false =>
              -- Nothing is written yet, and the chain is still open.
              simp only [hshown] at h
              rw [Siblings.push_of_not_isShown hshown, Siblings.push_of_not_isShown hshown]
              exact ih next h
          | true =>
              simp only [hshown] at h
              obtain ⟨helseIf, helse⟩ := Fragment.no_alternative (h f rfl)
              rw [Siblings.push_settled helseIf helse hshown s]
              obtain ⟨s', t', hs, ht, h'⟩ | ⟨d, hs, ht⟩ :=
                ((Siblings.follows_nil s.finish).push f).cases
              · rw [hs, ht]
                exact congrArg (fun m : Lowering String => m.run next)
                  (code_lowerSiblings_of_follows rt h' rest)
              · rw [hs, ht]
                rfl

theorem lowerChildren_eq_code (rt : Runtime) (nodes : List Node) :
    lowerChildren rt nodes =
      (fun s : Siblings => s.finish.code) <$> lowerSiblings rt {} nodes := by
  rw [lowerChildren, map_eq_pure_bind]

/-- **Siblings are lowered stretch by stretch.** If the first stretch fails, the whole list fails in
the same way: with its diagnostic, its reports and its next free number. If the first stretch
succeeds, and the first node of the second that has code is no alternative, then the whole list is
the first stretch and behind it the second, lowered from the number that the first has left; the
reports are put together, and a failure of the second is that of the whole. -/
theorem lowerChildren_append (rt : Runtime) (xs ys : List Node) (n : Nat) :
    (∀ d, ((lowerChildren rt xs).run n).result = .error d →
      (lowerChildren rt (xs ++ ys)).run n = (lowerChildren rt xs).run n) ∧
    ∀ code, ((lowerChildren rt xs).run n).result = .ok code →
      (∀ f ∈ firstShown rt ((lowerChildren rt xs).run n).next ys,
        ¬ f.branch?.any Branch.continues) →
      (lowerChildren rt (xs ++ ys)).run n =
        let first := (lowerChildren rt xs).run n
        let second := (lowerChildren rt ys).run first.next
        { result := second.result.map (code ++ ·)
          next := second.next
          observed := first.observed ++ second.observed } := by
  have hwhole : lowerChildren rt (xs ++ ys) =
      lowerSiblings rt {} xs >>= fun s =>
        (fun s : Siblings => s.finish.code) <$> lowerSiblings rt s ys := by
    rw [lowerChildren_eq_code, lowerSiblings_append, map_bind]
  rcases hxs : (lowerSiblings rt {} xs).run n with ⟨result, next, observed⟩
  cases result with
  | error d =>
      have hfirst : (lowerChildren rt xs).run n = { result := .error d, next, observed } :=
        Pass.bind_apply_error hxs
      rw [hfirst, hwhole]
      exact ⟨fun _ _ => Pass.bind_apply_error hxs, fun code hcode => (by cases hcode)⟩
  | ok s =>
      have hfirst : (lowerChildren rt xs).run n =
          { result := .ok s.finish.code, next, observed := observed ++ [] } :=
        Pass.bind_apply_ok hxs
      rw [hfirst, List.append_nil]
      refine ⟨fun d hd => (by cases hd), fun code hcode hys => ?_⟩
      obtain rfl := Except.ok.inj hcode
      have hsecond : ((fun s : Siblings => s.finish.code) <$> lowerSiblings rt s ys).run next =
          { (lowerChildren rt ys).run next with
            result := ((lowerChildren rt ys).run next).result.map (s.finish.code ++ ·) } := by
        rw [code_lowerSiblings_of_finish rt s ys next hys, lowerChildren_eq_code, ← Pass.run_map,
          Functor.map_map]
      rw [hwhole]
      refine (Pass.bind_apply_ok hxs).trans ?_
      exact congrArg (fun o : Outcome Attribute String =>
        { o with observed := observed ++ o.observed }) hsecond

/-- A chain with a loop in it. -/
def chainOfLoops : List Node :=
  [.element { name := "p", attributes := [⟨"g-if", "a"⟩, ⟨"g-for", "xs"⟩] } [],
    .element { name := "p", attributes := [⟨"g-else-if", "b"⟩] } []]

/-- Blank text, a second chain, and an alternative that has lost its chain to a comment. -/
def brokenChain : List Node :=
  [.text " ", .element { name := "q", attributes := [⟨"g-if", "c"⟩, ⟨"g-for", "ys"⟩] } [],
    .comment "", .element { name := "r", attributes := [⟨"g-else", ""⟩] } []]

/-- A chain that is open at the cut is written there, and the loop behind the cut takes the next
number. The failure of the second chain is that of the whole, on either side of the cut. -/
theorem lowerChildren_append_chains :
    (∃ code, ((lowerChildren ⟨"g"⟩ chainOfLoops).run 0).result = .ok code ∧
      (lowerChildren ⟨"g"⟩ (chainOfLoops ++ brokenChain.take 3)).run 0 =
        let second := (lowerChildren ⟨"g"⟩ (brokenChain.take 3)).run 1
        { second with
          result := second.result.map (code ++ ·)
          observed := observedBelow chainOfLoops ++ second.observed }) ∧
    ∃ d, ((lowerChildren ⟨"g"⟩ brokenChain).run 1).result = .error d ∧
      ((lowerChildren ⟨"g"⟩ (chainOfLoops ++ brokenChain)).run 0).result = .error d ∧
      (lowerChildren ⟨"g"⟩ (brokenChain ++ chainOfLoops)).run 1 =
        (lowerChildren ⟨"g"⟩ brokenChain).run 1 := by
  obtain ⟨code, hcode⟩ : ∃ code, ((lowerChildren ⟨"g"⟩ chainOfLoops).run 0).result = .ok code := by
    decide +kernel
  have hnext : ((lowerChildren ⟨"g"⟩ chainOfLoops).run 0).next = 1 := by decide +kernel
  have hseen : ((lowerChildren ⟨"g"⟩ chainOfLoops).run 0).observed = observedBelow chainOfLoops := by
    decide +kernel
  have hd : ((lowerChildren ⟨"g"⟩ brokenChain).run 1).result =
      .error { cause := .orphanBranch .otherwise, context := some "<r g-else>" } := by
    decide +kernel
  refine ⟨⟨code, hcode, ?_⟩, _, hd, ?_, (lowerChildren_append ⟨"g"⟩ brokenChain _ 1).1 _ hd⟩
  · rw [(lowerChildren_append ⟨"g"⟩ chainOfLoops _ 0).2 code hcode
      (by rw [hnext]; decide +kernel)]
    simp only [hnext, hseen]
  · rw [(lowerChildren_append ⟨"g"⟩ chainOfLoops _ 0).2 code hcode
      (by rw [hnext]; decide +kernel)]
    simp only [hnext, hd]
    rfl

end Stencil
