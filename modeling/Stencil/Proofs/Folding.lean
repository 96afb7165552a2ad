import Stencil.Text
import Mathlib.Data.List.DropRight
import Mathlib.Data.List.TakeWhile

/-!
# Trimming and folding

Trimming takes white space away at the two ends of a text, and once that is done there is nothing
left to take away. Folding puts a text on one line: it is cut into lines, each of them is trimmed,
those that are empty then are left out, and the others are joined by blanks. Every one of these
steps takes away white space or adds it, and none touches another character, so that the other
characters are those of the text, in their order.

A line that is left is trimmed and not empty, so the joined lines are trimmed. On one line that is
trimmed folding has nothing to do, and for a text whose visible part stands on one line it is
trimming.

## Main results

* `trim_infix`, `trim_trim`: the trimmed text is a stretch of the text, and it is trimmed.
* `visible_fold`: **folding keeps the characters that are not white space**, in their order.
* `mem_fold_iff`: so a character that is not white space stands in the one text if it does in the
  other.
* `newline_not_mem_fold`, `trim_fold`: what is folded stands on one line and is trimmed.
* `fold_eq_nil_iff`: only of blank text nothing is left.
* `fold_eq_trim_iff`: when folding is trimming.
* `Text.folding_loses_only_space`: **all of this about a text, and that folding twice is folding
  once**.
-/

namespace Stencil.Chars

/-! ### Trimming -/

/-- The trimmed text is a stretch of the text. -/
theorem trim_infix (s : List Char) : trim s <:+: s := by
  have hend : trim s <+: trimStart s := List.rdropWhile_prefix isSpace (trimStart s)
  have hstart : trimStart s <:+ s := List.dropWhile_suffix isSpace
  exact hend.isInfix.trans hstart.isInfix

/-- Text that is trimmed does not begin with white space. -/
theorem trimStart_trim (s : List Char) : trimStart (trim s) = trim s := by
  refine List.dropWhile_eq_self_iff.mpr fun hpos => ?_
  have hkept : trim s <+: trimStart s := List.rdropWhile_prefix isSpace (trimStart s)
  have hstart : 0 < (trimStart s).length := Nat.lt_of_lt_of_le hpos hkept.length_le
  have hfixed : trimStart (trimStart s) = trimStart s := List.dropWhile_idempotent isSpace s
  rw [hkept.getElem hpos]
  exact List.dropWhile_eq_self_iff.mp hfixed hstart

/-- Trimming twice is trimming once. -/
theorem trim_trim (s : List Char) : trim (trim s) = trim s := by
  have hend : trimEnd (trim s) = trim s := List.rdropWhile_idempotent isSpace (trimStart s)
  conv => lhs; rw [trim, trimStart_trim, hend]

/-- Blank text before a text is trimmed off. -/
theorem trim_append_left {lead : List Char} (h : isBlank lead = true) (s : List Char) :
    trim (lead ++ s) = trim s := by
  rw [trim, trim, trimStart, trimStart, List.dropWhile_append_of_pos (List.all_eq_true.mp h)]

/-- Blank text behind a text is trimmed off. -/
theorem trim_append_right (s : List Char) {tail : List Char} (h : isBlank tail = true) :
    trim (s ++ tail) = trim s := by
  have hspace : ∀ c ∈ tail, isSpace c = true := List.all_eq_true.mp h
  rw [trim, trim, trimStart, trimStart, List.dropWhile_append]
  split
  · rename_i hempty
    rw [List.isEmpty_iff.mp hempty, List.dropWhile_eq_nil_iff.mpr hspace]
  · rw [trimEnd, trimEnd, List.reverse_append, List.dropWhile_append_of_pos (by simpa using hspace)]

/-- What trimming takes away stands around what it leaves, and is blank. -/
theorem exists_eq_append_trim (s : List Char) :
    ∃ lead tail, isBlank lead = true ∧ isBlank tail = true ∧ s = lead ++ (trim s ++ tail) := by
  refine ⟨s.takeWhile isSpace, (trimStart s).rtakeWhile isSpace, List.all_takeWhile, ?_, ?_⟩
  · exact List.all_eq_true.mpr fun _ hc => List.mem_rtakeWhile_imp hc
  · have hend : trim s ++ (trimStart s).rtakeWhile isSpace = trimStart s :=
      List.rdropWhile_append_rtakeWhile
    rw [hend, trimStart, List.takeWhile_append_dropWhile]

/-- A text is trimmed if it neither begins nor ends with white space. -/
theorem trim_eq_self_iff {s : List Char} :
    trim s = s ↔ s.head?.any isSpace = false ∧ s.getLast?.any isSpace = false := by
  cases s with
  | nil => simp
  | cons c rest =>
      have hne : c :: rest ≠ [] := List.cons_ne_nil c rest
      have hstart : trimStart (c :: rest) = c :: rest ↔ isSpace c = false := by
        rw [trimStart, List.dropWhile_eq_self_iff]
        simp
      have hend : trimEnd (c :: rest) = c :: rest ↔ isSpace ((c :: rest).getLast hne) = false := by
        refine List.rdropWhile_eq_self_iff.trans ?_
        simp
      rw [List.head?_cons, Option.any_some, List.getLast?_eq_some_getLast hne, Option.any_some,
        ← hstart, ← hend]
      constructor
      · intro h
        have hfirst : trimStart (c :: rest) = c :: rest := by rw [← h, trimStart_trim]
        rw [trim, hfirst] at h
        exact ⟨hfirst, h⟩
      · rintro ⟨hfirst, hlast⟩
        rw [trim, hfirst, hlast]

/-- A text is trimmed if it begins as one text and ends as another, without white space there. -/
theorem trim_append_eq_self {a b : List Char} (ha : a ≠ []) (hfirst : a.head?.any isSpace = false)
    (hb : b ≠ []) (hlast : b.getLast?.any isSpace = false) : trim (a ++ b) = a ++ b := by
  rw [trim_eq_self_iff, List.head?_append_of_ne_nil _ ha, List.getLast?_append_of_ne_nil _ hb]
  exact ⟨hfirst, hlast⟩

/-! ### What is not white space -/

/-- The characters of a text that are not white space, in order. -/
def visible (s : List Char) : List Char := s.filter fun c => !isSpace c

@[simp] theorem visible_nil : visible [] = [] := rfl

@[simp] theorem visible_append (s s' : List Char) : visible (s ++ s') = visible s ++ visible s' :=
  List.filter_append ..

@[simp] theorem visible_reverse (s : List Char) : visible s.reverse = (visible s).reverse :=
  List.filter_reverse

theorem mem_visible_iff {c : Char} {s : List Char} :
    c ∈ visible s ↔ c ∈ s ∧ isSpace c = false := by
  rw [visible, List.mem_filter, Bool.not_eq_true']

theorem visible_eq_nil_iff {s : List Char} : visible s = [] ↔ isBlank s = true := by
  rw [visible, List.filter_eq_nil_iff, isBlank, List.all_eq_true]
  simp only [Bool.not_eq_true', Bool.not_eq_false]

/-! ### The steps of folding -/

theorem visible_trimStart (s : List Char) : visible (trimStart s) = visible s := by
  have hlead : visible (s.takeWhile isSpace) = [] :=
    visible_eq_nil_iff.mpr (List.all_eq_true.mpr fun _ hc => List.mem_takeWhile_imp hc)
  calc visible (trimStart s)
      = visible (s.takeWhile isSpace) ++ visible (s.dropWhile isSpace) := by
        rw [hlead, List.nil_append, trimStart]
    _ = visible s := by rw [← visible_append, List.takeWhile_append_dropWhile]

theorem visible_trimEnd (s : List Char) : visible (trimEnd s) = visible s := by
  rw [trimEnd, visible_reverse, ← trimStart, visible_trimStart, visible_reverse,
    List.reverse_reverse]

theorem visible_trim (s : List Char) : visible (trim s) = visible s := by
  rw [trim, visible_trimEnd, visible_trimStart]

theorem mem_trim_iff {c : Char} (hc : isSpace c = false) {s : List Char} : c ∈ trim s ↔ c ∈ s := by
  have hmem : c ∈ visible (trim s) ↔ c ∈ visible s := by rw [visible_trim]
  simpa only [mem_visible_iff, hc, and_true] using hmem

/-- Of blank text, and of no other, nothing is left by trimming. -/
theorem trim_eq_nil_iff {s : List Char} : trim s = [] ↔ isBlank s = true := by
  rw [← visible_eq_nil_iff, ← visible_trim s]
  constructor
  · intro h
    rw [h, visible_nil]
  · intro h
    have hstart : trimStart (trim s) = [] := by
      rw [trimStart, List.dropWhile_eq_nil_iff]
      exact List.all_eq_true.mp (visible_eq_nil_iff.mp h)
    rw [← trimStart_trim, hstart]

/-- Lines lose the line feeds between them, which are white space. -/
theorem visible_lines (s : List Char) : (lines s).flatMap visible = visible s := by
  induction s with
  | nil => rfl
  | cons c rest ih =>
      have hcons : visible (c :: rest) = visible [c] ++ visible rest := visible_append [c] rest
      rw [hcons, ← ih, lines]
      split
      · rename_i hfeed
        subst hfeed
        rfl
      · split
        · rename_i hlines
          rw [hlines, List.flatMap_singleton, List.flatMap_nil, List.append_nil]
        · rename_i line more hlines
          have hline : visible (c :: line) = visible [c] ++ visible line := visible_append [c] line
          rw [hlines, List.flatMap_cons, List.flatMap_cons, hline, List.append_assoc]

theorem visible_intercalate (parts : List (List Char)) :
    visible ([' '].intercalate parts) = parts.flatMap visible := by
  induction parts with
  | nil => rfl
  | cons part rest ih =>
      cases rest with
      | nil => rw [List.intercalate_singleton, List.flatMap_singleton]
      | cons next more =>
          have hblank : visible [' '] = [] := by decide
          rw [List.intercalate_cons_cons, visible_append, visible_append, hblank, List.append_nil,
            ih]
          exact List.flatMap_cons.symm

/-- Parts that are empty add nothing. -/
theorem flatMap_visible_filter (parts : List (List Char)) :
    (parts.filter fun part => !part.isEmpty).flatMap visible = parts.flatMap visible := by
  induction parts with
  | nil => rfl
  | cons part rest ih =>
      cases part with
      | nil => exact ih
      | cons c part => rw [List.filter_cons_of_pos rfl, List.flatMap_cons, List.flatMap_cons, ih]

/-! ### Folding -/

/-- **Folding keeps the characters that are not white space**, in their order. -/
theorem visible_fold (s : List Char) : visible (fold s) = visible s := by
  calc visible (fold s)
      = ((lines s).map trim).flatMap visible := by
        rw [fold, visible_intercalate, flatMap_visible_filter]
    _ = (lines s).flatMap visible := by
        simp only [List.flatMap_map, visible_trim]
    _ = visible s := visible_lines s

theorem mem_fold_iff {c : Char} (hc : isSpace c = false) {s : List Char} : c ∈ fold s ↔ c ∈ s := by
  have hmem : c ∈ visible (fold s) ↔ c ∈ visible s := by rw [visible_fold]
  simpa only [mem_visible_iff, hc, and_true] using hmem

/-! ### The line that is left -/

/-- What stands between joined parts is a blank. -/
theorem mem_intercalate {c : Char} {parts : List (List Char)}
    (h : c ∈ [' '].intercalate parts) : c = ' ' ∨ ∃ part ∈ parts, c ∈ part := by
  induction parts with
  | nil => cases h
  | cons part rest ih =>
      cases rest with
      | nil =>
          rw [List.intercalate_singleton] at h
          exact .inr ⟨part, List.mem_singleton_self part, h⟩
      | cons next more =>
          rw [List.intercalate_cons_cons, List.mem_append, List.mem_append, List.mem_singleton] at h
          rcases h with (hpart | hblank) | hrest
          · exact .inr ⟨part, List.mem_cons_self, hpart⟩
          · exact .inl hblank
          · exact (ih hrest).imp_right fun ⟨other, hother, hc⟩ =>
              ⟨other, List.mem_cons_of_mem part hother, hc⟩

/-- Joined parts begin with the first of them. -/
theorem prefix_intercalate (part : List Char) (rest : List (List Char)) :
    part <+: [' '].intercalate (part :: rest) := by
  cases rest with
  | nil => simp only [List.intercalate_singleton, List.prefix_rfl]
  | cons next more =>
      rw [List.intercalate_cons_cons, List.append_assoc]
      exact List.prefix_append part _

/-- Parts that are trimmed and not empty make a trimmed text. -/
theorem trim_intercalate {parts : List (List Char)}
    (h : ∀ part ∈ parts, part ≠ [] ∧ trim part = part) :
    trim ([' '].intercalate parts) = [' '].intercalate parts := by
  induction parts with
  | nil => rfl
  | cons part rest ih =>
      obtain ⟨⟨hne, hpart⟩, hrest⟩ := List.forall_mem_cons.mp h
      cases rest with
      | nil => rwa [List.intercalate_singleton]
      | cons next more =>
          have hnext : [' '].intercalate (next :: more) ≠ [] := fun hnil =>
            (hrest next List.mem_cons_self).1
              (List.prefix_nil.mp (hnil ▸ prefix_intercalate next more))
          obtain ⟨hfirst, -⟩ := trim_eq_self_iff.mp hpart
          obtain ⟨-, hlast⟩ := trim_eq_self_iff.mp (ih hrest)
          rw [List.intercalate_cons_cons]
          refine trim_append_eq_self (List.append_ne_nil_of_left_ne_nil hne _) ?_ hnext hlast
          rwa [List.head?_append_of_ne_nil _ hne]

/-- A line holds no line feed. -/
theorem newline_not_mem_of_mem_lines {s line : List Char} (h : line ∈ lines s) : '\n' ∉ line := by
  induction s generalizing line with
  | nil => cases h
  | cons c rest ih =>
      rw [lines] at h
      split at h
      · rcases List.mem_cons.mp h with rfl | hmore
        · exact List.not_mem_nil
        · exact ih hmore
      · rename_i hfeed
        split at h
        · obtain rfl := List.mem_singleton.mp h
          exact fun hmem => hfeed (List.mem_singleton.mp hmem).symm
        · rename_i first more hlines
          rw [hlines] at ih
          rcases List.mem_cons.mp h with rfl | hmore
          · exact fun hmem => (List.mem_cons.mp hmem).elim (Ne.symm hfeed) (ih List.mem_cons_self)
          · exact ih (List.mem_cons_of_mem first hmore)

/-- **What is folded stands on one line.** -/
theorem newline_not_mem_fold (s : List Char) : '\n' ∉ fold s := by
  intro h
  rcases mem_intercalate h with hblank | ⟨part, hpart, hmem⟩
  · exact absurd hblank (by decide)
  · obtain ⟨line, hline, rfl⟩ := List.mem_map.mp (List.mem_of_mem_filter hpart)
    have hinner : trim line <:+: line := trim_infix line
    exact newline_not_mem_of_mem_lines hline (hinner.subset hmem)

/-- **What is folded is trimmed.** -/
theorem trim_fold (s : List Char) : trim (fold s) = fold s := by
  refine trim_intercalate fun part hpart => ?_
  obtain ⟨hmem, hne⟩ := List.mem_filter.mp hpart
  obtain ⟨line, -, rfl⟩ := List.mem_map.mp hmem
  exact ⟨by simpa using hne, trim_trim line⟩

/-- **Only of blank text nothing is left.** -/
theorem fold_eq_nil_iff {s : List Char} : fold s = [] ↔ isBlank s = true := by
  rw [← trim_fold, trim_eq_nil_iff, ← visible_eq_nil_iff, visible_fold, visible_eq_nil_iff]

/-! ### Folding a single line -/

/-- Text without line feeds is the beginning of a first line. -/
theorem lines_append {s : List Char} (hfeed : '\n' ∉ s) (hne : s ≠ []) (rest : List Char) :
    lines (s ++ rest) = (s ++ (lines rest).headD []) :: (lines rest).tail := by
  induction s with
  | nil => exact absurd rfl hne
  | cons c s ih =>
      have hc : c ≠ '\n' := Ne.symm (List.ne_of_not_mem_cons hfeed)
      rw [List.cons_append, lines, if_neg hc]
      by_cases hnil : s = []
      · subst hnil
        cases hrest : lines rest <;> simp [hrest]
      · rw [ih (List.not_mem_of_not_mem_cons hfeed) hnil]
        rfl

/-- The lines of blank text are blank. -/
theorem isBlank_of_mem_lines {s line : List Char} (h : isBlank s = true) (hline : line ∈ lines s) :
    isBlank line = true := by
  have hnone : (lines s).flatMap visible = [] := by
    rw [visible_lines, visible_eq_nil_iff.mpr h]
  exact visible_eq_nil_iff.mp (List.flatMap_eq_nil_iff.mp hnone line hline)

/-- Blank text before a text is not seen by folding. -/
theorem fold_append_left {lead : List Char} (h : isBlank lead = true) (s : List Char) :
    fold (lead ++ s) = fold s := by
  induction lead with
  | nil => rfl
  | cons c lead ih =>
      rw [isBlank_cons, Bool.and_eq_true] at h
      obtain ⟨hc, hlead⟩ := h
      have hblank : isBlank [c] = true := by rw [isBlank_cons, hc, isBlank_nil]; rfl
      rw [List.cons_append, ← ih hlead, fold, lines]
      split
      · rfl
      · cases hlines : lines (lead ++ s) with
        | nil =>
            rw [fold, hlines, List.map_singleton, trim_eq_nil_iff.mpr hblank]
            rfl
        | cons line more =>
            have hline : trim (c :: line) = trim line := trim_append_left hblank line
            rw [fold, hlines, List.map_cons, hline, List.map_cons]

/-- A single line is trimmed, and blank text behind it is not seen by folding. -/
theorem fold_append_right {s : List Char} (hfeed : '\n' ∉ s) (hne : s ≠ []) {tail : List Char}
    (h : isBlank tail = true) : fold (s ++ tail) = trim s := by
  have hlines : ∀ line ∈ lines tail, isBlank line = true := fun _ => isBlank_of_mem_lines h
  have hfirst : isBlank ((lines tail).headD []) = true := by
    cases hbehind : lines tail with
    | nil => rfl
    | cons line more => exact hlines line (by rw [hbehind]; exact List.mem_cons_self)
  have hmore : (((lines tail).tail).map trim).filter (fun line => !line.isEmpty) = [] := by
    rw [List.filter_eq_nil_iff]
    intro part hpart
    obtain ⟨line, hline, rfl⟩ := List.mem_map.mp hpart
    rw [trim_eq_nil_iff.mpr (hlines line (List.mem_of_mem_tail hline))]
    decide
  rw [fold, lines_append hfeed hne, List.map_cons, trim_append_right s hfirst]
  by_cases hnil : trim s = []
  · rw [hnil, List.filter_cons_of_neg (by decide), hmore, List.intercalate_nil]
  · rw [List.filter_cons_of_pos (by simpa using hnil), hmore, List.intercalate_singleton]

/-- **When folding is trimming**: the trimmed text stands on one line. -/
theorem fold_eq_trim_iff {s : List Char} : fold s = trim s ↔ '\n' ∉ trim s := by
  constructor
  · intro h
    rw [← h]
    exact newline_not_mem_fold s
  · intro h
    obtain ⟨lead, tail, hlead, htail, hs⟩ := exists_eq_append_trim s
    by_cases hnil : trim s = []
    · rw [hnil, fold_eq_nil_iff, ← trim_eq_nil_iff, hnil]
    · calc fold s = fold (trim s ++ tail) := by
            conv => lhs; rw [hs, fold_append_left hlead]
        _ = trim (trim s) := fold_append_right h hnil htail
        _ = trim s := trim_trim s

end Stencil.Chars

namespace Stencil.Text

theorem mem_trim_iff {c : Char} (hc : Chars.isSpace c = false) {s : String} :
    c ∈ (trim s).toList ↔ c ∈ s.toList := by
  rw [toList_trim, Chars.mem_trim_iff hc]

@[simp] theorem trim_trim (s : String) : trim (trim s) = trim s :=
  String.toList_injective (by simp only [toList_trim, Chars.trim_trim])

/-- **Folding loses only white space.** The folded text has the characters of the text that are not
white space, in their order; it holds no line feed and neither begins nor ends with white space; it
is empty if and only if the text is blank; folding it changes nothing; and it is the trimmed text
if and only if that holds no line feed. -/
theorem folding_loses_only_space (text : String) :
    Chars.visible (fold text).toList = Chars.visible text.toList ∧
    '\n' ∉ (fold text).toList ∧
    (fold text).toList.head?.any Chars.isSpace = false ∧
    (fold text).toList.getLast?.any Chars.isSpace = false ∧
    (fold text = "" ↔ isBlank text = true) ∧
    fold (fold text) = fold text ∧
    (fold text = trim text ↔ '\n' ∉ (trim text).toList) := by
  have hfeed : '\n' ∉ Chars.fold text.toList := Chars.newline_not_mem_fold _
  have htrim : Chars.trim (Chars.fold text.toList) = Chars.fold text.toList := Chars.trim_fold _
  obtain ⟨hfirst, hlast⟩ := Chars.trim_eq_self_iff.mp htrim
  have hagain : Chars.fold (Chars.fold text.toList) = Chars.fold text.toList := by
    have hline : '\n' ∉ Chars.trim (Chars.fold text.toList) := by rwa [htrim]
    rw [Chars.fold_eq_trim_iff.mpr hline, htrim]
  simp only [← String.toList_inj, toList_fold, toList_trim, String.toList_empty]
  exact ⟨Chars.visible_fold _, hfeed, hfirst, hlast, Chars.fold_eq_nil_iff, hagain,
    Chars.fold_eq_trim_iff⟩

/-- Line breaks of both kinds, a blank line and spaces beyond ASCII between words. -/
example : fold " \u00a0a\r\n\n \u2003 b\rc\n" = "a b\rc" := by decide +kernel

end Stencil.Text
