import Stencil.Proofs.Folding
import Stencil.Proofs.Substring
import Stencil.Template.Iteration

/-!
# Iteration clauses and their tokens

A loop directive is completed to a clause by what is found in its characters: an equals sign, a
`:=`, the letters of `range` with a blank behind them. What is meant are tokens of the host
language. An expression that only compares assigns nothing, so that it is iterated like every other
expression, and the word `range` is there whatever white space follows it. `clauseByTokens` is the
clause in this reading.

The two readings differ in two places only. An equals sign of a comparison is taken for an
assignment, and the expression is left as it is. A `range` before a tab or a line break is not seen,
and gets another one before it.

## Main results

* `ranged_eq_iff`: when the word `range` is seen.
* `comparesOnly_of_not_mem`: without an equals sign nothing is assigned.
* `normalize_eq_clauseByTokens_iff`: **the clause is the one of the tokens if and only if the
  directive is not `Misread`**.
-/

namespace Stencil.Iteration

/-! ### The reading by tokens -/

/-- Every equals sign belongs to one of the comparisons `==`, `!=`, `<=` and `>=`. Operators are
read from the left, and the equals sign behind a shift assigns. -/
def comparesOnly : List Char → Bool
  | '<' :: '<' :: rest | '>' :: '>' :: rest => rest.head? != some '=' && comparesOnly rest
  | '=' :: '=' :: rest | '!' :: '=' :: rest | '<' :: '=' :: rest | '>' :: '=' :: rest =>
      comparesOnly rest
  | '=' :: _ => false
  | _ :: rest => comparesOnly rest
  | [] => true

/-- White space of the host language: blanks, tabs and line breaks. -/
def isWhite (c : Char) : Bool := c = ' ' || c = '\t' || c = '\n' || c = '\r'

/-- The word `range` stands at the beginning, alone or with white space of any kind behind it. -/
def beginsWithRange (part : List Char) : Bool :=
  "range".toList.isPrefixOf part && (part.drop 5).head?.all isWhite

/-- The iterated part of a clause, with the word `range` before it unless it begins with it. -/
def rangedByWord (part : String) : String :=
  let part := Text.trim part
  if beginsWithRange part.toList then part else "range " ++ part

/-- The clause that a loop directive stands for by its tokens. Without `:=` and without any other
assignment it binds `key` and `val`, and a part that begins with `range` is kept as it is. -/
def clauseByTokens (raw : String) : String :=
  let raw := Text.trim raw
  match Text.cut ":=" raw with
  | some (names, part) => bound names ++ " := " ++ rangedByWord part
  | none =>
      if comparesOnly raw.toList then "key, val := " ++ rangedByWord raw else raw

/-- The word `range` stands at the beginning, with white space behind it that is not a blank. -/
def HasWideRange (part : String) : Prop :=
  ∃ c rest, part.toList = "range".toList ++ c :: rest ∧ isWhite c = true ∧ c ≠ ' '

/-- A loop directive whose characters do not show what its tokens are. -/
inductive Misread (raw : String) : Prop
  /-- A comparison looks like an assignment. -/
  | comparison (hcut : Text.cut ":=" (Text.trim raw) = none)
      (hequals : '=' ∈ (Text.trim raw).toList)
      (hcompares : comparesOnly (Text.trim raw).toList = true) : Misread raw
  /-- The word `range` is not seen at the beginning of the directive. -/
  | range (hcut : Text.cut ":=" (Text.trim raw) = none) (hequals : '=' ∉ (Text.trim raw).toList)
      (hwide : HasWideRange (Text.trim raw)) : Misread raw
  /-- The word `range` is not seen behind the names. -/
  | namedRange {names part : String} (hcut : Text.cut ":=" (Text.trim raw) = some (names, part))
      (hwide : HasWideRange (Text.trim part)) : Misread raw

/-! ### Comparisons -/

/-- Without an equals sign nothing is assigned. -/
theorem comparesOnly_of_not_mem {s : List Char} (h : '=' ∉ s) : comparesOnly s = true := by
  fun_induction comparesOnly s with
  | case1 rest ih | case2 rest ih =>
      have hrest : '=' ∉ rest := by simpa using h
      have hhead : rest.head? ≠ some '=' := fun hhead => hrest (List.mem_of_head? hhead)
      rw [ih hrest, Bool.and_true, bne_iff_ne]
      exact hhead
  | case3 rest | case4 rest | case5 rest | case6 rest => simp at h
  | case7 => simp at h
  | case8 c rest _ _ _ _ _ _ _ ih => exact ih (List.not_mem_of_not_mem_cons h)
  | case9 => rfl

/-- Where no `:=` is found, the text is not a clause that binds names. -/
theorem ne_binding_of_cut {s : String} (h : Text.cut ":=" s = none) (part : String) :
    s ≠ "key, val := " ++ part := by
  rintro rfl
  refine Text.cut_eq_none_iff.mp h ⟨"key, val ".toList, ' ' :: part.toList, ?_⟩
  rw [String.toList_append]
  rfl

/-! ### The word `range` -/

/-- The word `range` is seen by the characters of the part. -/
def showsRange (part : String) : Bool := part = "range" || Text.startsWith "range " part

/-- A part is completed alike on two conditions if and only if they agree. -/
theorem ite_range_eq_iff (b b' : Bool) (part : String) :
    (if b then part else "range " ++ part) = (if b' then part else "range " ++ part) ↔ b = b' := by
  have hne : part ≠ "range " ++ part := by
    intro h
    have hlength := congrArg String.length h
    rw [String.length_append] at hlength
    have hrange : ("range ").length = 6 := rfl
    omega
  cases b <;> cases b' <;> simp [hne, hne.symm]

section Word

variable {part : String}

/-- Where the word does not stand, neither reading sees it. -/
theorem showsRange_of_not_prefix (h : ¬ "range".toList <+: part.toList) :
    showsRange part = false ∧ beginsWithRange part.toList = false ∧ ¬ HasWideRange part := by
  refine ⟨?_, ?_, ?_⟩
  · rw [showsRange, Bool.or_eq_false_iff, decide_eq_false_iff_not, Text.startsWith,
      ← Bool.not_eq_true, List.isPrefixOf_iff_prefix]
    refine ⟨?_, fun hblank => ?_⟩
    · rintro rfl
      exact h (List.prefix_refl _)
    · have hword : "range".toList <+: "range ".toList := by decide
      exact h (hword.trans hblank)
  · rw [beginsWithRange, Bool.and_eq_false_iff, ← Bool.not_eq_true, List.isPrefixOf_iff_prefix]
    exact .inl h
  · rintro ⟨c, rest, hpart, -, -⟩
    exact h ⟨c :: rest, hpart.symm⟩

/-- Behind the word every white space shows its end by the tokens, and a blank by the characters. -/
theorem showsRange_of_append {c : Char} {rest : List Char}
    (h : part.toList = "range".toList ++ c :: rest) :
    showsRange part = (c == ' ') ∧ beginsWithRange part.toList = isWhite c ∧
      (HasWideRange part ↔ isWhite c = true ∧ c ≠ ' ') := by
  refine ⟨?_, ?_, ?_⟩
  · have hne : part ≠ "range" := by
      rintro rfl
      simpa using congrArg List.length h
    rw [showsRange, decide_eq_false hne, Bool.false_or, Text.startsWith, h, Bool.eq_iff_iff,
      List.isPrefixOf_iff_prefix]
    have hword : "range ".toList = "range".toList ++ [' '] := by decide
    rw [hword, List.prefix_append_right_inj, List.cons_prefix_cons, beq_iff_eq]
    exact ⟨fun hc => hc.1.symm, fun hc => ⟨hc.symm, List.nil_prefix⟩⟩
  · have hprefix : "range".toList.isPrefixOf ("range".toList ++ c :: rest) = true :=
      List.isPrefixOf_iff_prefix.mpr (List.prefix_append _ _)
    have hdrop : ("range".toList ++ c :: rest).drop 5 = c :: rest := rfl
    rw [h, beginsWithRange, hprefix, hdrop, List.head?_cons, Option.all_some, Bool.true_and]
  · constructor
    · rintro ⟨d, rest', hpart, hd⟩
      rw [h, List.append_cancel_left_eq] at hpart
      obtain ⟨rfl, -⟩ := List.cons.inj hpart
      exact hd
    · exact fun hc => ⟨c, rest, h, hc⟩

/-- The two readings differ where white space that is not a blank follows the word. -/
theorem showsRange_eq_iff (part : String) :
    showsRange part = beginsWithRange part.toList ↔ ¬ HasWideRange part := by
  by_cases hword : "range".toList <+: part.toList
  · obtain ⟨behind, hpart⟩ := hword
    cases behind with
    | nil =>
        obtain rfl : part = "range" := String.toList_injective (by simpa using hpart.symm)
        refine ⟨fun _ => ?_, fun _ => by decide⟩
        rintro ⟨c, rest, hrange, -⟩
        simpa using congrArg List.length hrange
    | cons c rest =>
        obtain ⟨hshows, hbegins, hwide⟩ := showsRange_of_append hpart.symm
        rw [hshows, hbegins, hwide, Bool.eq_iff_iff, beq_iff_eq]
        constructor
        · rintro hiff ⟨hwhite, hne⟩
          exact hne (hiff.mpr hwhite)
        · intro hnot
          refine ⟨?_, fun hwhite => ?_⟩
          · rintro rfl
            rfl
          · by_contra hne
            exact hnot ⟨hwhite, hne⟩
  · obtain ⟨hshows, hbegins, hwide⟩ := showsRange_of_not_prefix hword
    rw [hshows, hbegins]
    exact ⟨fun _ => hwide, fun _ => rfl⟩

end Word

/-- **When the word `range` is seen.** The two readings complete a part alike unless it begins with
`range` and a tab or a line break. -/
theorem ranged_eq_iff (part : String) :
    ranged part = rangedByWord part ↔ ¬ HasWideRange (Text.trim part) := by
  rw [← showsRange_eq_iff, ranged, rangedByWord, showsRange, ite_range_eq_iff]

/-! ### Clauses -/

section Clause

variable {raw : String} (h : Text.contains ";" raw = false)
include h

/-- Trimming brings no semicolon into a directive. -/
theorem not_contains_trim : Text.contains ";" (Text.trim raw) = false := by
  rw [← Bool.not_eq_true, Text.contains_iff] at h ⊢
  rw [Text.toList_trim]
  exact fun htrim => h (htrim.trans (Chars.trim_infix _))

/-- Names are bound to the part behind them. -/
theorem normalize_of_cut {names part : String}
    (hcut : Text.cut ":=" (Text.trim raw) = some (names, part)) :
    normalize raw = bound names ++ " := " ++ ranged part := by
  rw [normalize, not_contains_trim h, hcut]
  rfl

/-- A directive with an equals sign and without `:=` is taken for an assignment. -/
theorem normalize_of_equals (hcut : Text.cut ":=" (Text.trim raw) = none)
    (hequals : '=' ∈ (Text.trim raw).toList) : normalize raw = Text.trim raw := by
  have hcontains : Text.contains "=" (Text.trim raw) = true :=
    (Text.contains_char_iff rfl).mpr hequals
  simp only [normalize, not_contains_trim h, hcut, hcontains, Bool.false_eq_true, if_false, if_true]

/-- A directive without an equals sign is iterated. -/
theorem normalize_of_bare (hequals : '=' ∉ (Text.trim raw).toList) :
    normalize raw = "key, val := " ++ ranged (Text.trim raw) := by
  have hcut : Text.cut ":=" (Text.trim raw) = none :=
    Text.cut_eq_none_iff.mpr fun hstands =>
      hequals (hstands.mem (List.mem_cons_of_mem ':' List.mem_cons_self))
  have hcontains : Text.contains "=" (Text.trim raw) = false := by
    rwa [← Bool.not_eq_true, Text.contains_char_iff (c := '=') rfl]
  simp only [normalize, not_contains_trim h, hcut, hcontains, Bool.false_eq_true, if_false]

end Clause

/-- **A clause is read by its characters as by its tokens** if and only if no comparison looks like
an assignment in it and neither a tab nor a line break follows the word `range` in it. Else an
expression that compares is left as it is, and `range` gets a second `range` before it. -/
theorem normalize_eq_clauseByTokens_iff (raw : String) (h : Text.contains ";" raw = false) :
    normalize raw = clauseByTokens raw ↔ ¬ Misread raw := by
  cases hcut : Text.cut ":=" (Text.trim raw) with
  | some binding =>
      obtain ⟨names, part⟩ := binding
      have htokens : clauseByTokens raw = bound names ++ " := " ++ rangedByWord part := by
        rw [clauseByTokens, hcut]
      rw [normalize_of_cut h hcut, htokens, String.append_right_inj, ranged_eq_iff, not_iff_not]
      refine ⟨.namedRange hcut, fun hmisread => ?_⟩
      cases hmisread with
      | comparison hnone | range hnone => simp [hcut] at hnone
      | namedRange hcut' hwide =>
          obtain ⟨rfl, rfl⟩ := Prod.mk.inj (Option.some.inj (hcut.symm.trans hcut'))
          exact hwide
  | none =>
      have htokens : clauseByTokens raw =
          if comparesOnly (Text.trim raw).toList then "key, val := " ++ rangedByWord (Text.trim raw)
          else Text.trim raw := by
        rw [clauseByTokens, hcut]
      by_cases hequals : '=' ∈ (Text.trim raw).toList
      · have hmisread : Misread raw ↔ comparesOnly (Text.trim raw).toList = true := by
          refine ⟨fun hmisread => ?_, .comparison hcut hequals⟩
          cases hmisread with
          | comparison _ _ hcompares => exact hcompares
          | range _ hnot => exact absurd hequals hnot
          | namedRange hsome => simp [hcut] at hsome
        rw [normalize_of_equals h hcut hequals, htokens, hmisread]
        split
        · rename_i hcompares
          have hne := ne_binding_of_cut hcut (rangedByWord (Text.trim raw))
          exact ⟨fun heq => absurd heq hne, fun hnot => absurd hcompares hnot⟩
        · rename_i hcompares
          exact ⟨fun _ => hcompares, fun _ => rfl⟩
      · have hmisread : Misread raw ↔ HasWideRange (Text.trim raw) := by
          refine ⟨fun hmisread => ?_, .range hcut hequals⟩
          cases hmisread with
          | comparison _ hmem => exact absurd hmem hequals
          | range _ _ hwide => exact hwide
          | namedRange hsome => simp [hcut] at hsome
        have hcompares := comparesOnly_of_not_mem hequals
        rw [normalize_of_bare h hequals, htokens, if_pos hcompares, hmisread,
          String.append_right_inj, ranged_eq_iff, Text.trim, Text.trim, String.toList_ofList,
          Chars.trim_trim]

/-- A comparison behind `:=`, and a `range` with a blank after it. -/
theorem named_comparison_not_misread :
    Text.contains ";" " x:=range f(a >= b) " = false ∧
      normalize " x:=range f(a >= b) " = "key, x := range f(a >= b)" ∧
      ¬ Misread " x:=range f(a >= b) " := by
  have h : Text.contains ";" " x:=range f(a >= b) " = false := by decide +kernel
  refine ⟨h, by decide +kernel, ?_⟩
  exact (normalize_eq_clauseByTokens_iff _ h).mp (by decide +kernel)

/-- An expression that only compares is left as it is, and binds nothing; and a `range` with a tab
behind it gets a second one before it, with names and without. -/
theorem comparison_not_iterated :
    (comparesOnly "f(n >= 2)".toList = true ∧ normalize "f(n >= 2)" = "f(n >= 2)" ∧
      clauseByTokens "f(n >= 2)" = "key, val := range f(n >= 2)") ∧
    (normalize "range\titems" = "key, val := range range\titems" ∧
      clauseByTokens "range\titems" = "key, val := range\titems") ∧
    normalize "x := range\nitems" = "key, x := range range\nitems" ∧
      clauseByTokens "x := range\nitems" = "key, x := range\nitems" := by
  decide +kernel

end Stencil.Iteration
