import Stencil.Lowering.Sequence
import Mathlib.Data.List.Chain
import Mathlib.Data.List.DropRight

/-!
# Siblings as items

Siblings are taken in one after the other, with the chain of alternatives that is open at the
moment as the state. Seen as a whole, a list of siblings is a list of items: a comment, a plain
node, or a chain, which is a condition, further alternatives and perhaps a last one. A chain is
as long as it can be. Fragments without code play no part.

## Main results

* `code_write`: an item adds its own code to what is written, and nothing else.
* `finish_foldlM_push`: **taking in the siblings writes their items** when the items make up
  the whole list, and fails otherwise.
* `foldlM_push_iff`: the siblings can be taken in exactly when no arm of a switch is among
  them and every alternative directly follows a condition or another conditional alternative.
-/

namespace Stencil

/-! ### Items -/

/-- What siblings come to. -/
inductive Item where
  | comment (code : String)
  | plain (code : String)
  /-- A condition with its code, further ones, and the code for when none of them holds. -/
  | chain (first : String × String) (more : List (String × String)) (last : Option String)
deriving DecidableEq, Repr

namespace Item

/-- The arms of a chain, in order. -/
def arms (first : String × String) (more : List (String × String)) (last : Option String) :
    String :=
  Runtime.ifArm first.1 first.2 ++
    String.join (more.map fun arm => Runtime.elseIfArm arm.1 arm.2) ++
    (last.map Runtime.elseArm).getD ""

/-- The code of an item with the separator that follows it. -/
def code : Item → String
  | comment code => code
  | plain code => if Sequence.endsSeparated code then code else code ++ separator
  | chain first more last => Runtime.chain (arms first more last) ++ separator

/-- Writes an item after what is written, and marks its separator. -/
def write (s : Sequence) : Item → Sequence
  | comment code => s.pushBare code
  | plain code => s.push code
  | chain first more last => s.pushSeparated (Runtime.chain (arms first more last))

end Item

namespace Sequence

/-- The sequence that a list of items makes. -/
def ofItems (items : List Item) : Sequence :=
  items.foldl Item.write {}

end Sequence

/-! ### The split into items -/

namespace Fragment

/-- A further alternative: its condition and its code. -/
def elseIf? : Fragment → Option (String × String)
  | .element code descriptor =>
      match descriptor.branch with
      | some (.elseIf condition) => some (condition, code)
      | _ => none
  | .text _ | .comment _ => none

/-- The last alternative: its code. -/
def else? : Fragment → Option String
  | .element code descriptor =>
      match descriptor.branch with
      | some .otherwise => some code
      | _ => none
  | .text _ | .comment _ => none

/-- The fragment has code. -/
def isShown (f : Fragment) : Bool := f.code != ""

end Fragment

namespace Item

/-- The longest run of further alternatives, and what follows it. -/
def takeAlternatives : List Fragment → List (String × String) × List Fragment
  | [] => ([], [])
  | f :: rest =>
      match f.elseIf? with
      | some arm => (arm :: (takeAlternatives rest).1, (takeAlternatives rest).2)
      | none => ([], f :: rest)

/-- A last alternative, if it comes next, and what follows it. -/
def takeElse : List Fragment → Option String × List Fragment
  | [] => (none, [])
  | f :: rest =>
      match f.else? with
      | some code => (some code, rest)
      | none => (none, f :: rest)

/-- The first item of a list of fragments, and what follows it. An alternative or an arm of a
switch begins no item. -/
def first? : List Fragment → Option (Item × List Fragment)
  | [] => none
  | .comment code :: rest => some (comment code, rest)
  | .text code :: rest => some (plain code, rest)
  | .element code descriptor :: rest =>
      match descriptor.branch with
      | none => some (plain code, rest)
      | some (.ifCond condition) =>
          let more := takeAlternatives rest
          let last := takeElse more.2
          some (chain (condition, code) more.1 last.1, last.2)
      | some _ => none

theorem length_takeAlternatives_le (fs : List Fragment) :
    (takeAlternatives fs).2.length ≤ fs.length := by
  induction fs with
  | nil => simp [takeAlternatives]
  | cons f rest ih =>
      rw [takeAlternatives]
      split
      · simp only [List.length_cons]
        omega
      · simp

theorem length_takeElse_le (fs : List Fragment) : (takeElse fs).2.length ≤ fs.length := by
  unfold takeElse
  split
  · simp
  · split <;> simp

theorem length_of_first? {fs rest : List Fragment} {item : Item}
    (h : first? fs = some (item, rest)) : rest.length < fs.length := by
  unfold first? at h
  split at h
  · cases h
  · cases h
    simp
  · cases h
    simp
  · rename_i code descriptor rest'
    split at h
    · cases h
      simp
    · cases h
      have hmore := length_takeAlternatives_le rest'
      have hlast := length_takeElse_le (takeAlternatives rest').2
      simp only [List.length_cons]
      omega
    · cases h

/-- The items of a list of fragments, each as long as it can be, and what is left where no item
begins. -/
def split (fs : List Fragment) : List Item × List Fragment :=
  match _ : first? fs with
  | none => ([], fs)
  | some (item, rest) => (item :: (split rest).1, (split rest).2)
termination_by fs.length
decreasing_by all_goals exact length_of_first? ‹_›

/-- The items make up the whole list. -/
def Covers (fs : List Fragment) : Prop := (split fs).2 = []

instance (fs : List Fragment) : Decidable (Covers fs) :=
  inferInstanceAs (Decidable (_ = _))

theorem split_of_first?_none {fs : List Fragment} (h : first? fs = none) :
    split fs = ([], fs) := by
  rw [split]
  split
  · rfl
  · rename_i h'
    rw [h] at h'
    cases h'

theorem split_of_first? {fs rest : List Fragment} {item : Item}
    (h : first? fs = some (item, rest)) :
    split fs = (item :: (split rest).1, (split rest).2) := by
  rw [split]
  split
  · rename_i h'
    rw [h] at h'
    cases h'
  · rename_i h'
    rw [h] at h'
    cases h'
    rfl

end Item

/-! ### The code of items -/

namespace Sequence

@[simp] theorem code_pushBare (s : Sequence) (code : String) :
    (s.pushBare code).code = s.code ++ code := by
  rcases s with ⟨before, _ | after⟩
  · rfl
  · simp only [pushBare, Sequence.code, String.append_assoc]

@[simp] theorem code_pushSeparated (s : Sequence) (code : String) :
    (s.pushSeparated code).code = s.code ++ (code ++ separator) := by
  show s.code ++ code ++ separator ++ "" = _
  rw [String.append_empty, String.append_assoc]

/-- Code that ends in a separator is that separator between what stands before it and white
space. -/
theorem eq_of_endsSeparated {code : String} (h : endsSeparated code = true) :
    Text.dropLast (Text.trimEnd code) ++ separator ++
      String.ofList (code.toList.drop (Text.trimEnd code).length) = code := by
  have hlast : ',' ∈ (Text.trimEnd code).toList.getLast? := by
    simpa [endsSeparated, Text.endsWith] using h
  have hkept : (Text.trimEnd code).toList <+: code.toList := by
    rw [Text.toList_trimEnd]
    exact List.rdropWhile_prefix Chars.isSpace code.toList
  have hseparator : separator.toList = [','] := by decide
  apply String.ext
  rw [String.toList_append, String.toList_append, Text.toList_dropLast, hseparator,
    List.dropLast_append_getLast? ',' hlast, String.toList_ofList, ← String.length_toList]
  obtain ⟨rest, hrest⟩ := hkept
  rw [← hrest, List.drop_left]

@[simp] theorem code_pushEnded {s : Sequence} {code : String} (h : endsSeparated code = true) :
    (s.pushEnded code).code = s.code ++ code := by
  show s.code ++ Text.dropLast (Text.trimEnd code) ++ separator ++
    String.ofList (code.toList.drop (Text.trimEnd code).length) = _
  conv => rhs; rw [← eq_of_endsSeparated h]
  simp only [String.append_assoc]

end Sequence

namespace Item

/-- An item adds its own code to what is written, and nothing else. -/
theorem code_write (s : Sequence) (item : Item) :
    (item.write s).code = s.code ++ item.code := by
  cases item with
  | comment code => exact s.code_pushBare code
  | plain code =>
      rw [write, Sequence.push, Item.code]
      split
      · exact Sequence.code_pushEnded ‹_›
      · exact s.code_pushSeparated code
  | chain first more last => exact s.code_pushSeparated _

end Item

/-- The code of a list of items is that of its members, one after the other. -/
theorem Sequence.code_ofItems (items : List Item) :
    (ofItems items).code = String.join (items.map Item.code) := by
  have hfold : ∀ (items : List Item) (s : Sequence),
      (items.foldl Item.write s).code = s.code ++ String.join (items.map Item.code) := by
    intro items
    induction items with
    | nil =>
        intro s
        exact String.append_empty.symm
    | cons item rest ih =>
        intro s
        rw [List.foldl_cons, ih, Item.code_write, List.map_cons, String.join_cons,
          String.append_assoc]
  exact (hfold items {}).trans String.empty_append

/-! ### Taking in one sibling after the other -/

namespace Siblings

/-- A fragment without code is passed over. -/
theorem push_of_not_isShown {f : Fragment} (h : f.isShown = false) (s : Siblings) :
    s.push f = .ok s := by
  have hcode : f.code = "" := by simpa [Fragment.isShown] using h
  unfold push
  rw [if_pos hcode]

/-- Text with code is a sibling of its own. -/
theorem push_text {code : String} (h : (Fragment.text code).isShown = true) (s : Siblings) :
    s.push (.text code) = .ok { done := s.finish.push code } := by
  have hcode : code ≠ "" := by simpa [Fragment.isShown, Fragment.code] using h
  exact if_neg hcode

/-- A comment is written without a separator. -/
theorem push_comment {code : String} (h : (Fragment.comment code).isShown = true)
    (s : Siblings) : s.push (.comment code) = .ok { done := s.finish.pushBare code } := by
  have hcode : code ≠ "" := by simpa [Fragment.isShown, Fragment.code] using h
  exact if_neg hcode

/-- An element with code is taken in by the part that it plays. -/
theorem push_element {code : String} {descriptor : Descriptor}
    (h : (Fragment.element code descriptor).isShown = true) (s : Siblings) :
    s.push (.element code descriptor) = s.pushElement code descriptor := by
  have hcode : code ≠ "" := by simpa [Fragment.isShown, Fragment.code] using h
  exact if_neg hcode

/-- Only the fragments with code play a part. -/
theorem foldlM_push_filter (fs : List Fragment) (s : Siblings) :
    (fs.filter Fragment.isShown).foldlM push s = fs.foldlM push s := by
  induction fs generalizing s with
  | nil => rfl
  | cons f rest ih =>
      cases hshown : f.isShown with
      | false =>
          rw [List.filter_cons_of_neg (by simp [hshown]), ih, List.foldlM_cons,
            push_of_not_isShown hshown]
          rfl
      | true =>
          rw [List.filter_cons_of_pos hshown, List.foldlM_cons, List.foldlM_cons]
          cases s.push f with
          | error d => rfl
          | ok s' => exact ih s'

/-- A further alternative extends the open chain. -/
theorem push_elseIf {f : Fragment} {arm : String × String} (hshown : f.isShown = true)
    (h : f.elseIf? = some arm) (done : Sequence) (arms : String) :
    push { done, chain := some arms } f =
      .ok { done, chain := some (arms ++ Runtime.elseIfArm arm.1 arm.2) } := by
  cases f with
  | text code => cases h
  | comment code => cases h
  | element code descriptor =>
      rw [push_element hshown]
      simp only [Fragment.elseIf?] at h
      split at h
      · rename_i condition hbranch
        cases h
        simp only [pushElement, hbranch, extend]
      · cases h

/-- A last alternative closes the open chain and writes it. -/
theorem push_else {f : Fragment} {code : String} (hshown : f.isShown = true)
    (h : f.else? = some code) (done : Sequence) (arms : String) :
    push { done, chain := some arms } f =
      .ok { done := done.pushSeparated (Runtime.chain (arms ++ Runtime.elseArm code)) } := by
  cases f with
  | text code => cases h
  | comment code => cases h
  | element code descriptor =>
      rw [push_element hshown]
      simp only [Fragment.else?] at h
      split at h
      · rename_i hbranch
        cases h
        simp only [pushElement, hbranch, extend]
        rfl
      · cases h

/-- A sibling that is no alternative finds the open chain written. -/
theorem push_settled {f : Fragment} (helseIf : f.elseIf? = none) (helse : f.else? = none)
    (hshown : f.isShown = true) (s : Siblings) : s.push f = push { done := s.finish } f := by
  cases f with
  | text code => rw [push_text hshown, push_text hshown]; rfl
  | comment code => rw [push_comment hshown, push_comment hshown]; rfl
  | element code descriptor =>
      rw [push_element hshown, push_element hshown]
      simp only [Fragment.elseIf?, Fragment.else?] at helseIf helse
      simp only [pushElement]
      split
      · rfl
      · rfl
      · rename_i hbranch
        rw [hbranch] at helseIf
        cases helseIf
      · rename_i hbranch
        rw [hbranch] at helse
        cases helse
      · rfl
      · rfl

/-- Siblings that begin with no alternative find the open chain written. -/
theorem foldlM_settled {fs : List Fragment} (hshown : ∀ f ∈ fs, f.isShown = true)
    (hhead : ∀ f ∈ fs.head?, f.elseIf? = none ∧ f.else? = none) (s : Siblings) :
    finish <$> fs.foldlM push s = finish <$> fs.foldlM push { done := s.finish } := by
  cases fs with
  | nil => rfl
  | cons f rest =>
      obtain ⟨helseIf, helse⟩ := hhead f rfl
      rw [List.foldlM_cons, List.foldlM_cons,
        push_settled helseIf helse (hshown f List.mem_cons_self) s]

/-- The run of further alternatives is added to the open chain. -/
theorem foldlM_takeAlternatives {fs : List Fragment} (hshown : ∀ f ∈ fs, f.isShown = true)
    (done : Sequence) (arms : String) :
    fs.foldlM push { done, chain := some arms } =
      (Item.takeAlternatives fs).2.foldlM push
        { done
          chain := some (arms ++ String.join ((Item.takeAlternatives fs).1.map fun arm =>
            Runtime.elseIfArm arm.1 arm.2)) } := by
  induction fs generalizing arms with
  | nil => simp [Item.takeAlternatives]
  | cons f rest ih =>
      rw [Item.takeAlternatives]
      split
      · rename_i arm harm
        rw [List.foldlM_cons, push_elseIf (hshown f List.mem_cons_self) harm, List.map_cons,
          String.join_cons, ← String.append_assoc]
        exact ih (fun g hg => hshown g (List.mem_cons_of_mem f hg)) _
      · simp

/-- The last alternative, if there is one, ends the open chain. -/
theorem foldlM_takeElse {fs : List Fragment} (hshown : ∀ f ∈ fs, f.isShown = true)
    (hhead : ∀ f ∈ fs.head?, f.elseIf? = none) (done : Sequence) (arms : String) :
    finish <$> fs.foldlM push { done, chain := some arms } =
      finish <$> (Item.takeElse fs).2.foldlM push
        { done := done.pushSeparated
            (Runtime.chain (arms ++ ((Item.takeElse fs).1.map Runtime.elseArm).getD "")) } := by
  cases fs with
  | nil => simp [Item.takeElse, finish]
  | cons f rest =>
      rw [Item.takeElse]
      split
      · rename_i code hcode
        rw [List.foldlM_cons, push_else (hshown f List.mem_cons_self) hcode]
        rfl
      · rename_i helse
        have hsettled := foldlM_settled hshown
          (fun g hg => ⟨hhead g hg, by cases hg; exact helse⟩) { done, chain := some arms }
        simpa [finish] using hsettled

end Siblings

/-- What follows the longest run of alternatives does not begin with one. -/
theorem Item.head?_takeAlternatives (fs : List Fragment) :
    ∀ f ∈ (takeAlternatives fs).2.head?, f.elseIf? = none := by
  induction fs with
  | nil => simp [takeAlternatives]
  | cons f rest ih =>
      rw [takeAlternatives]
      split
      · exact ih
      · rename_i hnone
        intro g hg
        cases hg
        exact hnone

/-- What follows the longest run of alternatives is the end of the list. -/
theorem Item.takeAlternatives_suffix (fs : List Fragment) : (takeAlternatives fs).2 <:+ fs := by
  induction fs with
  | nil => exact List.suffix_rfl
  | cons f rest ih =>
      rw [takeAlternatives]
      split
      · exact ih.trans (List.suffix_cons f rest)
      · exact List.suffix_rfl

/-- What follows the last alternative is the end of the list. -/
theorem Item.takeElse_suffix (fs : List Fragment) : (takeElse fs).2 <:+ fs := by
  unfold takeElse
  split
  · exact List.suffix_rfl
  · split
    · exact List.suffix_cons _ _
    · exact List.suffix_rfl

/-- What follows the first item is the end of the list. -/
theorem Item.suffix_of_first? {fs rest : List Fragment} {item : Item}
    (h : first? fs = some (item, rest)) : rest <:+ fs := by
  unfold first? at h
  split at h
  · cases h
  · cases h
    exact List.suffix_cons _ _
  · cases h
    exact List.suffix_cons _ _
  · split at h
    · cases h
      exact List.suffix_cons _ _
    · cases h
      exact ((takeElse_suffix _).trans (takeAlternatives_suffix _)).trans
        (List.suffix_cons _ _)
    · cases h

namespace Siblings

/-- **The first item of a list is taken in as a whole.** -/
theorem foldlM_first? {fs rest : List Fragment} {item : Item}
    (hshown : ∀ f ∈ fs, f.isShown = true) (h : Item.first? fs = some (item, rest))
    (done : Sequence) :
    finish <$> fs.foldlM push { done } =
      finish <$> rest.foldlM push { done := item.write done } := by
  unfold Item.first? at h
  split at h
  · cases h
  · cases h
    rw [List.foldlM_cons, push_comment (hshown _ List.mem_cons_self)]
    rfl
  · cases h
    rw [List.foldlM_cons, push_text (hshown _ List.mem_cons_self)]
    rfl
  · rename_i code descriptor rest'
    rw [List.foldlM_cons, push_element (hshown _ List.mem_cons_self)]
    split at h
    · rename_i hbranch
      cases h
      simp only [pushElement, hbranch]
      rfl
    · rename_i condition hbranch
      cases h
      have hrest : ∀ f ∈ rest', f.isShown = true :=
        fun f hf => hshown f (List.mem_cons_of_mem _ hf)
      have hmore : ∀ f ∈ (Item.takeAlternatives rest').2, f.isShown = true :=
        fun f hf => hrest f ((Item.takeAlternatives_suffix rest').subset hf)
      simp only [pushElement, hbranch]
      show finish <$> rest'.foldlM push
        { done, chain := some (Runtime.ifArm condition code) } = _
      rw [foldlM_takeAlternatives hrest,
        foldlM_takeElse hmore (Item.head?_takeAlternatives rest')]
      rfl
    · cases h

/-- Where no item begins, the next sibling cannot be taken in. -/
theorem foldlM_of_first?_none {fs : List Fragment} (hshown : ∀ f ∈ fs, f.isShown = true)
    (h : Item.first? fs = none) (hne : fs ≠ []) (done : Sequence) :
    ∃ d, fs.foldlM push { done } = .error d := by
  unfold Item.first? at h
  split at h
  · exact absurd rfl hne
  · cases h
  · cases h
  · rename_i code descriptor rest'
    rw [List.foldlM_cons, push_element (hshown _ List.mem_cons_self)]
    split at h
    · cases h
    · cases h
    · rename_i branch hnot hbranch
      simp only [pushElement, hbranch, extend]
      cases branch with
      | ifCond condition => exact absurd rfl (hnot condition)
      | elseIf _ | otherwise | case _ | default => exact ⟨_, rfl⟩

/-- **Taking in siblings writes their items.** It works when the items make up the whole list,
and what is then written are the items in order; otherwise it fails. -/
theorem finish_foldlM_push {fs : List Fragment} (hshown : ∀ f ∈ fs, f.isShown = true)
    (done : Sequence) :
    (Item.Covers fs →
      finish <$> fs.foldlM push { done } = .ok ((Item.split fs).1.foldl Item.write done)) ∧
    (¬ Item.Covers fs → ∃ d, fs.foldlM push { done } = .error d) := by
  -- The items are found from the left, so the induction follows the split.
  fun_induction Item.split fs generalizing done with
  | case1 fs hfirst =>
      rw [Item.Covers, Item.split_of_first?_none hfirst]
      constructor
      · rintro rfl
        rfl
      · intro hne
        exact foldlM_of_first?_none hshown hfirst hne done
  | case2 fs item rest hfirst ih =>
      have hrest : ∀ f ∈ rest, f.isShown = true :=
        fun f hf => hshown f ((Item.suffix_of_first? hfirst).subset hf)
      obtain ⟨hcovers, hnot⟩ := ih hrest (item.write done)
      have hstep := foldlM_first? hshown hfirst done
      rw [Item.Covers, Item.split_of_first? hfirst]
      constructor
      · intro hok
        rw [hstep, hcovers hok]
        rfl
      · intro hbad
        obtain ⟨d, hd⟩ := hnot hbad
        rw [hd] at hstep
        cases hfold : fs.foldlM push { done } with
        | error e => exact ⟨e, rfl⟩
        | ok s =>
            rw [hfold] at hstep
            cases hstep

end Siblings

/-! ### Which siblings can be taken in -/

namespace Branch

/-- Alternatives that need a condition before them. -/
def continues : Branch → Bool
  | elseIf _ | otherwise => true
  | ifCond _ | case _ | default => false

/-- Parts that an alternative may follow. -/
def opens : Branch → Bool
  | ifCond _ | elseIf _ => true
  | otherwise | case _ | default => false

/-- Arms of a switch. -/
def isArm : Branch → Bool
  | case _ | default => true
  | ifCond _ | elseIf _ | otherwise => false

end Branch

/-- The parts of siblings are well placed: none is an arm of a switch, and every alternative
directly follows a condition or a conditional alternative. `isOpen` tells whether one of these
stands before the first sibling. -/
structure Placed (isOpen : Bool) (roles : List (Option Branch)) : Prop where
  noArm : ∀ role ∈ roles, ¬ role.any Branch.isArm
  first : ∀ role ∈ roles.head?, role.any Branch.continues → isOpen
  follows : roles.IsChain fun previous role =>
    role.any Branch.continues → previous.any Branch.opens

theorem placed_nil (isOpen : Bool) : Placed isOpen [] :=
  ⟨by simp, by simp, List.IsChain.nil⟩

/-- Placing siblings one by one. -/
theorem placed_cons {isOpen : Bool} {role : Option Branch} {roles : List (Option Branch)} :
    Placed isOpen (role :: roles) ↔
      ¬ role.any Branch.isArm ∧ (role.any Branch.continues → isOpen) ∧
        Placed (role.any Branch.opens) roles := by
  constructor
  · rintro ⟨hnoArm, hfirst, hfollows⟩
    refine ⟨hnoArm role List.mem_cons_self, hfirst role rfl, ?_, ?_, hfollows.tail⟩
    · exact fun other hother => hnoArm other (List.mem_cons_of_mem role hother)
    · intro other hother
      cases roles with
      | nil => cases hother
      | cons next rest =>
          cases hother
          exact (List.isChain_cons_cons.mp hfollows).1
  · rintro ⟨hnoArm, hfirst, hrest⟩
    refine ⟨?_, fun other hother => ?_, ?_⟩
    · intro other hother
      rcases List.mem_cons.mp hother with rfl | hother
      · exact hnoArm
      · exact hrest.noArm other hother
    · cases hother
      exact hfirst
    · cases roles with
      | nil => exact List.IsChain.singleton role
      | cons next rest => exact List.isChain_cons_cons.mpr ⟨hrest.first next rfl, hrest.follows⟩

instance (isOpen : Bool) (roles : List (Option Branch)) : Decidable (Placed isOpen roles) :=
  decidable_of_iff
    ((∀ role ∈ roles, ¬ role.any Branch.isArm) ∧
      (∀ role ∈ roles.head?, role.any Branch.continues → isOpen) ∧
      roles.IsChain fun previous role => role.any Branch.continues → previous.any Branch.opens)
    ⟨fun ⟨h₁, h₂, h₃⟩ => ⟨h₁, h₂, h₃⟩, fun ⟨h₁, h₂, h₃⟩ => ⟨h₁, h₂, h₃⟩⟩

namespace Siblings

/-- The next sibling can be taken in exactly when it is well placed, and it then leaves a chain
open exactly when an alternative may follow it. -/
theorem push_iff {f : Fragment} (hshown : f.isShown = true) (s : Siblings) :
    (∃ t, s.push f = .ok t) ↔
      ¬ f.branch?.any Branch.isArm ∧ (f.branch?.any Branch.continues → s.chain.isSome) := by
  cases f with
  | text code => simp [push_text hshown, Fragment.branch?]
  | comment code => simp [push_comment hshown, Fragment.branch?]
  | element code descriptor =>
      rw [push_element hshown, pushElement, Fragment.branch?]
      cases hchain : s.chain with
      | none =>
          rcases descriptor.branch with _ | branch
          · simp
          · cases branch <;> simp [extend, hchain, Branch.isArm, Branch.continues]
      | some arms =>
          rcases descriptor.branch with _ | branch
          · simp
          · cases branch <;> simp [extend, hchain, Branch.isArm, Branch.continues]

theorem isSome_chain_of_push {f : Fragment} (hshown : f.isShown = true) {s t : Siblings}
    (h : s.push f = .ok t) : t.chain.isSome = f.branch?.any Branch.opens := by
  cases f with
  | text code =>
      rw [push_text hshown] at h
      rw [← Except.ok.inj h]
      rfl
  | comment code =>
      rw [push_comment hshown] at h
      rw [← Except.ok.inj h]
      rfl
  | element code descriptor =>
      rw [push_element hshown, pushElement] at h
      rw [Fragment.branch?]
      rcases hbranch : descriptor.branch with _ | branch
      · rw [hbranch] at h
        rw [← Except.ok.inj h]
        rfl
      · rw [hbranch] at h
        cases branch with
        | ifCond condition =>
            rw [← Except.ok.inj h]
            rfl
        | elseIf condition =>
            simp only [extend] at h
            split at h
            · rw [← Except.ok.inj h]
              rfl
            · cases h
        | otherwise =>
            simp only [extend] at h
            split at h
            · rw [← Except.ok.inj h]
              rfl
            · cases h
        | case value => cases h
        | default => cases h

/-- **Siblings can be taken in exactly when they are well placed.** -/
theorem foldlM_push_iff {fs : List Fragment} (hshown : ∀ f ∈ fs, f.isShown = true)
    (s : Siblings) :
    (∃ t, fs.foldlM push s = .ok t) ↔ Placed s.chain.isSome (fs.map Fragment.branch?) := by
  induction fs generalizing s with
  | nil => exact ⟨fun _ => placed_nil _, fun _ => ⟨s, rfl⟩⟩
  | cons f rest ih =>
      have hf := hshown f List.mem_cons_self
      have hrest : ∀ g ∈ rest, g.isShown = true :=
        fun g hg => hshown g (List.mem_cons_of_mem f hg)
      rw [List.map_cons, placed_cons, ← and_assoc, ← push_iff hf, List.foldlM_cons]
      constructor
      · rintro ⟨t, ht⟩
        cases hpush : s.push f with
        | error d =>
            rw [hpush] at ht
            cases ht
        | ok s' =>
            rw [hpush] at ht
            refine ⟨⟨s', rfl⟩, ?_⟩
            rw [← isSome_chain_of_push hf hpush]
            exact (ih hrest s').mp ⟨t, ht⟩
      · rintro ⟨⟨s', hpush⟩, hplaced⟩
        rw [hpush]
        rw [← isSome_chain_of_push hf hpush] at hplaced
        exact (ih hrest s').mpr hplaced

end Siblings

end Stencil
