import Stencil.Text
import Mathlib.Data.List.Infix

/-!
# The first occurrence of a pattern

A pattern occurs in a text if it is a stretch of it, and `Chars.cut` finds the first occurrence. In
a text in which the pattern is written out, the first occurrence is the one that is written, unless
the pattern occurs earlier, and an earlier one may reach into the written one. Whether it does can
be seen without the text after it, since it ends before the last character of the written one.

## Main results

* `contains_iff`, `cut_eq_none_iff`: what it means that a pattern occurs.
* `Text.contains_char_iff`: a text holds a pattern of one character if that character is in it.
* `cut_append`: **a written pattern is found where it is written** if it does not occur earlier.
* `not_infix_of_cut`: what is found is the first occurrence.
* `pair_not_infix_concat`: two equal characters in a row do not occur earlier if they do not occur
  in what stands before and that does not end in one of them.
-/

namespace Stencil.Chars

variable {pattern s : List Char}

/-- **A pattern occurs in a text if it is a stretch of it.** -/
theorem contains_iff : contains pattern s = true ↔ pattern <:+: s := by
  induction s with
  | nil => cases pattern <;> simp [contains, cut]
  | cons c rest ih =>
      rw [contains, cut, List.infix_cons_iff, ← ih, contains]
      cases hprefix : pattern.isPrefixOf (c :: rest) with
      | true => simp [List.isPrefixOf_iff_prefix.mp hprefix]
      | false =>
          have hnot : ¬ pattern <+: c :: rest := by
            rw [← List.isPrefixOf_iff_prefix, hprefix]
            exact Bool.false_ne_true
          simp [hnot]

theorem cut_eq_none_iff : cut pattern s = none ↔ ¬ pattern <:+: s := by
  rw [← contains_iff, contains, Bool.not_eq_true, Option.isSome_eq_false_iff,
    Option.isNone_iff_eq_none]

/-- **A written pattern is found where it is written**, unless it occurs earlier. -/
theorem cut_append {before : List Char} (h : ¬ pattern <:+: before ++ pattern.dropLast)
    (after : List Char) : cut pattern (before ++ pattern ++ after) = some (before, after) := by
  have hne : pattern ≠ [] := by
    rintro rfl
    exact h (List.nil_infix)
  induction before with
  | nil =>
      obtain ⟨c, rest, rfl⟩ := List.exists_cons_of_ne_nil hne
      have hprefix : (c :: rest).isPrefixOf (c :: (rest ++ after)) = true :=
        List.isPrefixOf_iff_prefix.mpr (List.prefix_append (c :: rest) after)
      rw [List.nil_append, List.cons_append, cut, if_pos hprefix]
      simp
  | cons c before ih =>
      -- A pattern that began here would end before the last character of the written one.
      have hprefix : pattern.isPrefixOf (c :: (before ++ pattern ++ after)) = false := by
        rw [← Bool.not_eq_true, List.isPrefixOf_iff_prefix]
        intro hbegin
        have hwhole : c :: before ++ pattern.dropLast <+: c :: (before ++ pattern ++ after) := by
          rw [List.cons_append, List.cons_prefix_cons, List.append_assoc,
            List.prefix_append_right_inj]
          exact ⟨rfl, (List.dropLast_prefix pattern).trans (List.prefix_append _ _)⟩
        have hlength : pattern.length ≤ (c :: before ++ pattern.dropLast).length := by
          simp only [List.length_append, List.length_cons, List.length_dropLast]
          omega
        exact h (List.prefix_of_prefix_length_le hbegin hwhole hlength).isInfix
      have hrest : ¬ pattern <:+: before ++ pattern.dropLast :=
        fun hstands => h (hstands.trans (List.suffix_cons c _).isInfix)
      rw [List.cons_append, List.cons_append, cut, hprefix, ih hrest]
      rfl

/-- **What is found is the first occurrence.** -/
theorem not_infix_of_cut {before after : List Char} (hne : pattern ≠ [])
    (h : cut pattern s = some (before, after)) : ¬ pattern <:+: before ++ pattern.dropLast := by
  have hshort : pattern.dropLast.length < pattern.length := by
    have hpos := List.length_pos_iff.mpr hne
    rw [List.length_dropLast]
    omega
  induction s generalizing before with
  | nil =>
      rw [cut, if_neg (by simpa using hne)] at h
      cases h
  | cons c rest ih =>
      rw [cut] at h
      split at h
      · cases h
        exact fun hstands => Nat.not_lt.mpr hstands.length_le hshort
      · rename_i hprefix
        obtain ⟨⟨inner, behind⟩, hcut, hparts⟩ := Option.map_eq_some_iff.mp h
        cases hparts
        rw [List.cons_append, List.infix_cons_iff]
        rintro (hbegins | hstands)
        · -- What begins here would have been found here.
          refine hprefix (List.isPrefixOf_iff_prefix.mpr (hbegins.trans ?_))
          rw [eq_of_cut hcut, List.append_assoc, List.cons_prefix_cons,
            List.prefix_append_right_inj]
          exact ⟨rfl, (List.dropLast_prefix pattern).trans (List.prefix_append _ _)⟩
        · exact ih hcut hstands

/-- A character that is no last character of the pattern makes no occurrence where it is added. -/
theorem not_infix_concat {d : Char} (h : ¬ pattern <:+: s) (hlast : pattern.getLast? ≠ some d) :
    ¬ pattern <:+: s ++ [d] := by
  rw [List.infix_concat_iff, List.suffix_concat_iff]
  rintro ((rfl | ⟨t, rfl, -⟩) | hstands)
  · exact h List.nil_infix
  · exact hlast List.getLast?_concat
  · exact h hstands

/-- A character that is added makes no pair of a character, unless it is that character and is added
to one. -/
theorem pair_not_infix_concat {c d : Char} (h : ¬ [c, c] <:+: s)
    (hlast : d = c → s.getLast? ≠ some c) : ¬ [c, c] <:+: s ++ [d] := by
  rw [List.infix_concat_iff, List.suffix_concat_iff]
  rintro ((hnil | ⟨t, ht, hsuffix⟩) | hstands)
  · cases hnil
  · obtain ⟨rfl, rfl⟩ : t = [c] ∧ d = c := by
      have hpair : [c] ++ [c] = t ++ [d] := ht
      obtain ⟨rfl, hd⟩ := List.append_singleton_inj.mp hpair
      exact ⟨rfl, hd.symm⟩
    obtain ⟨lead, rfl⟩ := hsuffix
    exact hlast rfl List.getLast?_concat
  · exact h hstands

/-- A pattern whose first character does not stand in a text is not made by writing the text before
another. -/
theorem infix_append_iff {c : Char} {rest lead : List Char} (h : c ∉ lead) :
    c :: rest <:+: lead ++ s ↔ c :: rest <:+: s := by
  induction lead with
  | nil => rfl
  | cons d lead ih =>
      have hprefix : ¬ c :: rest <+: d :: (lead ++ s) := fun hbegins =>
        List.ne_of_not_mem_cons h (List.cons_prefix_cons.mp hbegins).1
      rw [List.cons_append, List.infix_cons_iff, or_iff_right hprefix,
        ih (List.not_mem_of_not_mem_cons h)]

end Stencil.Chars

namespace Stencil.Text

variable {pattern s : String}

theorem contains_iff : contains pattern s = true ↔ pattern.toList <:+: s.toList :=
  Chars.contains_iff

theorem cut_eq_none_iff : cut pattern s = none ↔ ¬ pattern.toList <:+: s.toList := by
  rw [cut, Option.map_eq_none_iff, Chars.cut_eq_none_iff]

theorem cut_eq_some_iff {before after : String} : cut pattern s = some (before, after) ↔
    Chars.cut pattern.toList s.toList = some (before.toList, after.toList) := by
  rw [cut, Option.map_eq_some_iff]
  constructor
  · rintro ⟨⟨before', after'⟩, hcut, hparts⟩
    cases hparts
    rw [hcut, String.toList_ofList, String.toList_ofList]
  · intro hcut
    refine ⟨_, hcut, ?_⟩
    simp only [String.ofList_toList]

/-- A text holds a pattern of one character if that character is in it. -/
theorem contains_char_iff {c : Char} (h : pattern.toList = [c]) :
    contains pattern s = true ↔ c ∈ s.toList := by
  rw [contains_iff, h, List.singleton_infix_iff]

end Stencil.Text
