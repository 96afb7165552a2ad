import Stencil.Proofs.Rendering
import Stencil.Proofs.Templates

/-!
# The code of siblings is balanced

Siblings are put one after the other with separators between them, and a block leaves the last
separator out again. That separator may stand inside the code of a sibling: a text whose last
expression ends in a comma brings its own. So the code of a sibling has to be balanced in two
forms, as it stands and without the separator that it ends in.

## Main results

* `separable_segments`: **the code of a text is balanced in both forms** if the code that stands
  in it is.
* `isBalanced_ofFragments`: **siblings are balanced, with their last separator and without**, if
  each of them is, and the conditions of the chains among them are.
-/

namespace Stencil

open Host

/-! ### Separators at the end -/

/-- The code ends in a character that is neither white space nor a separator. -/
def endsFinal (code : String) : Bool :=
  code.toList.getLast?.any fun c => !Chars.isSpace c && c != ','

/-- The last character of a part is that of the whole. -/
theorem mem_getLast?_append (lead : String) {code : String} {c : Char}
    (h : c ∈ code.toList.getLast?) : c ∈ (lead ++ code).toList.getLast? := by
  rw [String.toList_append, List.getLast?_append, Option.mem_def.mp h]
  rfl

theorem endsFinal_append (lead : String) {code : String} (h : endsFinal code = true) :
    endsFinal (lead ++ code) = true := by
  rw [endsFinal, Option.any_eq_true] at h ⊢
  obtain ⟨c, hc, hfinal⟩ := h
  exact ⟨c, mem_getLast?_append lead hc, hfinal⟩

theorem endsFinal_of_endsWith {code : String} (h : Text.endsWith ')' code = true) :
    endsFinal code = true := by
  have hlast : code.toList.getLast? = some ')' := by simpa [Text.endsWith] using h
  rw [endsFinal, hlast]
  rfl

/-- Code that does not end in white space is not trimmed. -/
theorem trimEnd_eq_self {code : String} {c : Char} (hlast : c ∈ code.toList.getLast?)
    (hspace : Chars.isSpace c = false) : Text.trimEnd code = code := by
  have hkept : Chars.trimEnd code.toList = code.toList := by
    refine List.rdropWhile_eq_self_iff.mpr fun hne => ?_
    rw [List.getLast?_eq_some_getLast hne, Option.mem_some] at hlast
    rw [hlast, hspace]
    decide
  rw [Text.trimEnd, hkept, String.ofList_toList]

/-- Code that ends in another character does not end in a separator. -/
theorem endsSeparated_of_endsFinal {code : String} (h : endsFinal code = true) :
    Sequence.endsSeparated code = false := by
  rw [endsFinal, Option.any_eq_true] at h
  obtain ⟨c, hc, hfinal⟩ := h
  rw [Bool.and_eq_true, Bool.not_eq_true', bne_iff_ne] at hfinal
  rw [Sequence.endsSeparated, trimEnd_eq_self hc hfinal.1, Text.endsWith, hc]
  simpa using hfinal.2

/-- Code ends in a separator if its last part, which does not end in white space, does. -/
theorem endsSeparated_append (lead : String) {code : String} {c : Char}
    (hlast : c ∈ code.toList.getLast?) (hspace : Chars.isSpace c = false) :
    Sequence.endsSeparated (lead ++ code) = Text.endsWith ',' code := by
  have hwhole := mem_getLast?_append lead hlast
  rw [Sequence.endsSeparated, trimEnd_eq_self hwhole hspace, Text.endsWith, Text.endsWith, hlast,
    hwhole]

/-- Code without the separator that it ends in. What follows the separator is white space. -/
def withoutSeparator (code : String) : String :=
  Text.dropLast (Text.trimEnd code) ++
    String.ofList (code.toList.drop (Text.trimEnd code).length)

theorem withoutSeparator_append (lead : String) {code : String} {c : Char}
    (hlast : c ∈ code.toList.getLast?) (hspace : Chars.isSpace c = false) :
    withoutSeparator (lead ++ code) = lead ++ Text.dropLast code := by
  have hne : code.toList ≠ [] := by
    intro hnil
    rw [hnil] at hlast
    cases hlast
  have hkept : Text.trimEnd (lead ++ code) = lead ++ code :=
    trimEnd_eq_self (mem_getLast?_append lead hlast) hspace
  apply String.ext
  rw [withoutSeparator, hkept, ← String.length_toList, List.drop_length, String.ofList_nil,
    String.append_empty, Text.toList_dropLast, String.toList_append, String.toList_append,
    Text.toList_dropLast, List.dropLast_append_of_ne_nil hne]

/-- The code of a sibling is balanced, also without the separator that it may end in. -/
structure Separable (code : String) : Prop where
  balanced : Balanced code
  withoutSeparator : Sequence.endsSeparated code = true → Balanced (withoutSeparator code)

theorem separable_of_endsFinal {code : String} (h : Balanced code)
    (hfinal : endsFinal code = true) : Separable code :=
  ⟨h, fun hends => absurd hends (by simp [endsSeparated_of_endsFinal hfinal])⟩

/-! ### Texts -/

namespace Segment

/-- The code without its last character, if that is a comma. -/
def withoutComma (code : String) : String :=
  if Text.endsWith ',' code then Text.dropLast code else code

/-- The code that a segment puts in as it stands. Where the segment ends a block, it is put in
without a final comma. -/
def rawCode : Segment → List String
  | literal _ => []
  | expr code => [code, withoutComma code]

/-- The code of an expression segment does not end in white space. -/
theorem getLast?_of_mem_exprs {code : String} {text : List Char} (h : expr code ∈ exprs text) :
    ∃ c ∈ code.toList.getLast?, Chars.isSpace c = false := by
  rw [exprs] at h
  split at h
  · cases h
  · rename_i first rest htrim
    obtain rfl : code = String.ofList (first :: rest) := by simpa using h
    rw [String.toList_ofList, ← htrim]
    have hne : Chars.trim text ≠ [] := by simp [htrim]
    refine ⟨_, List.getLast?_eq_some_getLast hne, ?_⟩
    exact Bool.eq_false_iff.mpr (List.rdropWhile_last_not Chars.isSpace _ hne)

/-- An expression of a text does not end in white space. -/
theorem getLast?_of_mem_split {code : String} {text : List Char} (h : expr code ∈ split text) :
    ∃ c ∈ code.toList.getLast?, Chars.isSpace c = false := by
  have hliterals : ∀ text, expr code ∉ literals text := by
    intro text
    rw [literals]
    split <;> simp
  fun_induction split text with
  | case1 text hopen => exact absurd h (hliterals _)
  | case2 text before inner hopen hescape => exact absurd h (hliterals _)
  | case3 text before inner hopen hescape hclose => exact absurd h (hliterals _)
  | case4 text before inner hopen hescape code' rest hclose ih =>
      rw [List.mem_append, List.mem_append] at h
      rcases h with (hbefore | hexpr) | hrest
      · exact absurd hbefore (hliterals _)
      · exact getLast?_of_mem_exprs hexpr
      · exact ih hrest

end Segment

theorem endsFinal_textLiteral (text : String) : endsFinal (Host.textLiteral text) = true := by
  rw [Host.textLiteral]
  split
  · rw [endsFinal, Host.toList_quote, Host.quoteChars, List.getLast?_concat]
    rfl
  · exact endsFinal_append _ rfl

theorem endsFinal_comment (text : String) : endsFinal (Host.comment text) = true := by
  rw [endsFinal, Host.toList_comment, List.getLast?_append]
  rfl

/-- **The code of a text is balanced**, with the separator that it may end in and without, if the
code in it is. -/
theorem separable_segments {value : String}
    (h : ∀ code ∈ (Segment.ofText value).flatMap Segment.rawCode, Balanced code) :
    Separable (Host.segments (Segment.ofText value)) := by
  have hraw : ∀ code, .expr code ∈ Segment.ofText value →
      Balanced code ∧ Balanced (Segment.withoutComma code) := by
    intro code hcode
    exact ⟨h _ (List.mem_flatMap.mpr ⟨_, hcode, by simp [Segment.rawCode]⟩),
      h _ (List.mem_flatMap.mpr ⟨_, hcode, by simp [Segment.rawCode]⟩)⟩
  by_cases hne : Segment.ofText value = []
  · rw [hne]
    exact ⟨balanced_empty, fun hends => by cases hends⟩
  obtain ⟨lead, last, hlead, hlast, heq⟩ :=
    segments_eq_append hne fun code hcode => (hraw code hcode).1
  rw [heq]
  cases last with
  | literal text =>
      exact separable_of_endsFinal (hlead.append (balanced_textLiteral text))
        (endsFinal_append lead (endsFinal_textLiteral text))
  | expr code =>
      refine ⟨hlead.append (hraw code hlast).1, fun hends => ?_⟩
      -- The expression is trimmed, so that the separator is its last character.
      obtain ⟨c, hc, hspace⟩ := Segment.getLast?_of_mem_split hlast
      rw [Host.segment, endsSeparated_append lead hc hspace] at hends
      have hcode := (hraw code hlast).2
      rw [Segment.withoutComma, if_pos hends] at hcode
      rw [Host.segment, withoutSeparator_append lead hc hspace]
      exact hlead.append hcode

/-! ### Siblings -/

namespace Sequence

theorem withoutLast_pushBare (s : Sequence) (code : String) :
    (s.pushBare code).withoutLast = s.withoutLast ++ code := by
  rcases s with ⟨before, _ | after⟩
  · simp [pushBare, withoutLast]
  · simp [pushBare, withoutLast, String.append_assoc]

theorem withoutLast_pushSeparated (s : Sequence) (code : String) :
    (s.pushSeparated code).withoutLast = s.code ++ code :=
  String.append_empty

/-- The separator that is left out stands inside the code. -/
theorem withoutLast_pushEnded (s : Sequence) (code : String) :
    (s.pushEnded code).withoutLast = s.code ++ withoutSeparator code := by
  rw [withoutSeparator, ← String.append_assoc]
  rfl

end Sequence

/-- Code that is balanced as it stands and without its last separator. -/
structure Sequence.IsBalanced (s : Sequence) : Prop where
  code : Balanced s.code
  withoutLast : Balanced s.withoutLast

namespace Sequence.IsBalanced

variable {s : Sequence} {code : String}

theorem pushBare (h : s.IsBalanced) (hcode : Balanced code) : (s.pushBare code).IsBalanced := by
  refine ⟨?_, ?_⟩
  · rw [code_pushBare]
    exact h.code.append hcode
  · rw [withoutLast_pushBare]
    exact h.withoutLast.append hcode

theorem pushSeparated (h : s.IsBalanced) (hcode : Balanced code) :
    (s.pushSeparated code).IsBalanced := by
  refine ⟨?_, ?_⟩
  · rw [code_pushSeparated]
    exact h.code.append (Balanced.append hcode rfl)
  · rw [withoutLast_pushSeparated]
    exact h.code.append hcode

theorem push (h : s.IsBalanced) (hcode : Separable code) : (s.push code).IsBalanced := by
  rw [Sequence.push]
  split
  · rename_i hends
    refine ⟨?_, ?_⟩
    · rw [code_pushEnded hends]
      exact h.code.append hcode.balanced
    · rw [withoutLast_pushEnded]
      exact h.code.append (hcode.withoutSeparator hends)
  · exact h.pushSeparated hcode.balanced

end Sequence.IsBalanced

/-- An item whose code is balanced. -/
def Item.IsBalanced : Item → Prop
  | .comment code => Balanced code
  | .plain code => Separable code
  | .chain first more last => Balanced (Item.arms first more last)

/-- Balanced items make a balanced sequence. -/
theorem isBalanced_ofItems {items : List Item} (h : ∀ item ∈ items, item.IsBalanced) :
    (Sequence.ofItems items).IsBalanced := by
  refine List.foldlRecOn items Item.write (motive := Sequence.IsBalanced)
    ⟨balanced_empty, balanced_empty⟩ fun s hs item hitem => ?_
  have hbalanced := h item hitem
  cases item with
  | comment code => exact hs.pushBare hbalanced
  | plain code => exact hs.push hbalanced
  | chain first more last => exact hs.pushSeparated (Runtime.balanced_chain hbalanced)

/-- The code that a part among siblings puts in as it stands. -/
def Branch.rawCode : Branch → List String
  | ifCond code | elseIf code | case code => [code]
  | otherwise | default => []

/-- A fragment whose code and whose condition are balanced. -/
structure Fragment.IsBalanced (f : Fragment) : Prop where
  code : Separable f.code
  branch : ∀ branch ∈ f.branch?, ∀ code ∈ branch.rawCode, Balanced code

namespace Fragment

/-- A further alternative is an element with a condition. -/
theorem branch?_of_elseIf? {f : Fragment} {arm : String × String} (h : f.elseIf? = some arm) :
    f.branch? = some (.elseIf arm.1) ∧ f.code = arm.2 := by
  cases f with
  | text code => cases h
  | comment code => cases h
  | element code descriptor =>
      rw [elseIf?] at h
      split at h
      · rename_i condition hbranch
        cases h
        exact ⟨hbranch, rfl⟩
      · cases h

/-- A last alternative gives the code of the fragment. -/
theorem code_of_else? {f : Fragment} {code : String} (h : f.else? = some code) :
    f.code = code := by
  cases f with
  | text code => cases h
  | comment code => cases h
  | element code descriptor =>
      rw [else?] at h
      split at h
      · cases h
        rfl
      · cases h

end Fragment

namespace Item

/-- The further alternatives of balanced fragments are balanced. -/
theorem balanced_takeAlternatives {fs : List Fragment} (h : ∀ f ∈ fs, f.IsBalanced) :
    ∀ arm ∈ (takeAlternatives fs).1, Balanced arm.1 ∧ Balanced arm.2 := by
  induction fs with
  | nil =>
      intro arm harm
      cases harm
  | cons f rest ih =>
      rw [takeAlternatives]
      split
      · rename_i arm helseIf
        have hf := h f List.mem_cons_self
        obtain ⟨hbranch, hcode⟩ := Fragment.branch?_of_elseIf? helseIf
        have hcondition : Balanced arm.1 := hf.branch _ hbranch _ (by simp [Branch.rawCode])
        refine List.forall_mem_cons.mpr ⟨⟨hcondition, hcode ▸ hf.code.balanced⟩, ?_⟩
        exact ih fun g hg => h g (List.mem_cons_of_mem f hg)
      · intro arm harm
        cases harm

/-- The last alternative of balanced fragments is balanced. -/
theorem balanced_takeElse {fs : List Fragment} (h : ∀ f ∈ fs, f.IsBalanced) :
    ∀ code ∈ (takeElse fs).1, Balanced code := by
  intro code hcode
  cases fs with
  | nil => cases hcode
  | cons f rest =>
      rw [takeElse] at hcode
      split at hcode
      · rename_i helse
        cases hcode
        exact Fragment.code_of_else? helse ▸ (h f List.mem_cons_self).code.balanced
      · cases hcode

/-- The arms of a chain are balanced if their conditions and their code are. -/
theorem balanced_arms {first : String × String} {more : List (String × String)}
    {last : Option String} (hfirst : Balanced first.1 ∧ Balanced first.2)
    (hmore : ∀ arm ∈ more, Balanced arm.1 ∧ Balanced arm.2) (hlast : ∀ code ∈ last, Balanced code) :
    Balanced (arms first more last) := by
  have halternatives :
      Balanced (String.join (more.map fun arm => Runtime.elseIfArm arm.1 arm.2)) := by
    refine balanced_join fun piece hpiece => ?_
    obtain ⟨arm, harm, rfl⟩ := List.mem_map.mp hpiece
    exact Runtime.balanced_elseIfArm (hmore arm harm).1 (hmore arm harm).2
  have helse : Balanced ((last.map Runtime.elseArm).getD "") := by
    cases last with
    | none => exact balanced_empty
    | some code => exact Runtime.balanced_elseArm (hlast code rfl)
  exact ((Runtime.balanced_ifArm hfirst.1 hfirst.2).append halternatives).append helse

/-- The first item of balanced fragments is balanced. -/
theorem isBalanced_of_first? {fs rest : List Fragment} {item : Item}
    (h : ∀ f ∈ fs, f.IsBalanced) (hfirst : first? fs = some (item, rest)) :
    item.IsBalanced := by
  unfold first? at hfirst
  split at hfirst
  · cases hfirst
  · cases hfirst
    exact (h _ List.mem_cons_self).code.balanced
  · cases hfirst
    exact (h _ List.mem_cons_self).code
  · rename_i code descriptor others
    have hf := h _ List.mem_cons_self
    have hothers : ∀ f ∈ others, f.IsBalanced := fun f hf => h f (List.mem_cons_of_mem _ hf)
    split at hfirst
    · cases hfirst
      exact hf.code
    · rename_i condition hbranch
      cases hfirst
      have hcondition : Balanced condition :=
        hf.branch _ hbranch condition (by simp [Branch.rawCode])
      refine balanced_arms ⟨hcondition, hf.code.balanced⟩ (balanced_takeAlternatives hothers) ?_
      exact balanced_takeElse fun f hf => hothers f ((takeAlternatives_suffix others).mem hf)
    · cases hfirst

/-- The items of balanced fragments are balanced. -/
theorem isBalanced_of_mem_split {fs : List Fragment} (h : ∀ f ∈ fs, f.IsBalanced) :
    ∀ item ∈ (split fs).1, item.IsBalanced := by
  fun_induction split fs with
  | case1 fs hfirst =>
      intro item hitem
      cases hitem
  | case2 fs item rest hfirst ih =>
      refine List.forall_mem_cons.mpr ⟨isBalanced_of_first? h hfirst, ?_⟩
      exact ih fun f hf => h f ((suffix_of_first? hfirst).mem hf)

end Item

/-- **Balanced fragments make a balanced sequence of siblings.** -/
theorem isBalanced_ofFragments {fragments : List Fragment}
    (h : ∀ f ∈ fragments, f.IsBalanced) : (Sequence.ofFragments fragments).IsBalanced :=
  isBalanced_ofItems (Item.isBalanced_of_mem_split fun f hf => h f (List.mem_of_mem_filter hf))

end Stencil
