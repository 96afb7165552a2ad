import Stencil.Proofs.ClauseTokens

/-!
# Complete iteration clauses

A complete clause has a left side with two names and a right side that begins with the word
`range`. It is cut at its first `:=`, which is the one that was written between the sides: the left
side holds none, and ends in a blank before it. Both sides are trimmed again and found complete, so
a complete clause is left as it is.

A directive is trimmed before its names and its part are looked for. This does not change them: a
`:=` has no white space at its ends, so the first one stays the first, with the trimmed beginning
before it and the trimmed end behind it. What is found there is completed to the two sides, whatever
white space, colons and further `:=` stand around.

## Main results

* `Chars.cut_trim`: **trimming does not touch a pattern without white space at its ends**.
* `isBinding_bound`, `isRange_ranged`: names and parts that are not blank are completed to sides.
* `normalize_clause`: **a complete clause is left as it is**.
* `Iterates.normalize_eq`: the clause of a directive, from the names and the part that it gives.
* `normalized_clause_is_stable`: **the clause of a directive is complete**, and a directive that is
  no iteration is trimmed.
-/

namespace Stencil

namespace Chars

variable {pattern s before after : List Char}

theorem trimStart_append (a : List Char) {b : List Char} (hb : b ≠ [])
    (hfirst : b.head?.any isSpace = false) : trimStart (a ++ b) = trimStart a ++ b := by
  rw [trimStart, trimStart, List.dropWhile_append]
  split
  · rename_i hempty
    obtain ⟨c, rest, rfl⟩ := List.exists_cons_of_ne_nil hb
    rw [List.head?_cons, Option.any_some] at hfirst
    rw [List.isEmpty_iff.mp hempty, List.nil_append, List.dropWhile_cons_of_neg (by simp [hfirst])]
  · rfl

theorem trimEnd_append {a : List Char} (ha : a ≠ []) (hlast : a.getLast?.any isSpace = false)
    (b : List Char) : trimEnd (a ++ b) = a ++ trimEnd b := by
  have hstart := trimStart_append b.reverse (b := a.reverse) (by simpa using ha)
    (by simpa using hlast)
  rw [trimEnd, List.reverse_append, ← trimStart, hstart, List.reverse_append, List.reverse_reverse,
    trimEnd, trimStart]

/-- **Trimming does not touch a pattern without white space at its ends**: it is found where it was,
between what was trimmed at the outer ends. -/
theorem cut_trim (hne : pattern ≠ []) (hpattern : trim pattern = pattern)
    (h : cut pattern s = some (before, after)) :
    cut pattern (trim s) = some (trimStart before, trimEnd after) := by
  obtain ⟨hfirst, hlast⟩ := trim_eq_self_iff.mp hpattern
  have htrim : trim s = trimStart before ++ pattern ++ trimEnd after := by
    rw [eq_of_cut h, trim, List.append_assoc, trimStart_append before (by simp [hne])
      (by rwa [List.head?_append_of_ne_nil _ hne]), ← List.append_assoc,
      trimEnd_append (by simp [hne]) (by rwa [List.getLast?_append_of_ne_nil _ hne])]
  have hkept : trimStart before ++ pattern.dropLast <:+ before ++ pattern.dropLast := by
    obtain ⟨lead, hlead⟩ : trimStart before <:+ before := List.dropWhile_suffix isSpace
    exact ⟨lead, by rw [← List.append_assoc, hlead]⟩
  rw [htrim]
  exact cut_append (fun hstands => not_infix_of_cut hne h (hstands.trans hkept.isInfix)) _

/-- The end of a trimmed text is trimmed there. -/
theorem trimEnd_of_suffix {tail : List Char} (h : tail <:+ s) (hs : trim s = s) :
    trimEnd tail = tail := by
  obtain ⟨lead, rfl⟩ := h
  obtain ⟨-, hlast⟩ := trim_eq_self_iff.mp hs
  refine List.rdropWhile_eq_self_iff.mpr fun hne => ?_
  rw [List.getLast?_append_of_ne_nil _ hne, List.getLast?_eq_some_getLast hne, Option.any_some]
    at hlast
  rw [hlast]
  exact Bool.false_ne_true

theorem trim_trimStart (s : List Char) : trim (trimStart s) = trim s := by
  rw [trim, trimStart, trimStart, List.dropWhile_idempotent, trim, trimStart]

theorem trim_trimEnd (s : List Char) : trim (trimEnd s) = trim s := by
  have htail : isBlank (s.rtakeWhile isSpace) = true :=
    List.all_eq_true.mpr fun _ hc => List.mem_rtakeWhile_imp hc
  have hsplit : trimEnd s ++ s.rtakeWhile isSpace = s := List.rdropWhile_append_rtakeWhile
  conv => rhs; rw [← hsplit, trim_append_right _ htail]

end Chars

/-- What is put before a trimmed text stays, unless the text is blank. -/
theorem Text.trim_append_trim {word s : String} (hword : word.toList ≠ [])
    (hfirst : word.toList.head?.any Chars.isSpace = false) (hs : isBlank s = false) :
    trim (word ++ trim s) = word ++ trim s := by
  have hne : Chars.trim s.toList ≠ [] := by
    rw [Ne, Chars.trim_eq_nil_iff, Bool.not_eq_true]
    exact hs
  obtain ⟨-, hlast⟩ := Chars.trim_eq_self_iff.mp (Chars.trim_trim s.toList)
  apply String.toList_injective
  rw [toList_trim, String.toList_append, toList_trim]
  exact Chars.trim_append_eq_self hword hfirst hne hlast

namespace Iteration

/-! ### The sides of a complete clause -/

/-- The left side of a complete clause: two names or more. -/
structure IsBinding (names : String) : Prop where
  trim : Text.trim names = names
  comma : ',' ∈ names.toList
  unbound : ¬ ":=".toList <:+: names.toList
  semicolon : ';' ∉ names.toList

/-- The right side of a complete clause: the word `range`, and what is iterated. -/
structure IsRange (part : String) : Prop where
  trim : Text.trim part = part
  range : part = "range" ∨ Text.startsWith "range " part = true
  semicolon : ';' ∉ part.toList

section Names

variable {names : String}

/-- A comma decides whether there is a name for the key. -/
theorem bound_eq (names : String) :
    bound names = if ',' ∈ names.toList then Text.trim names else "key, " ++ Text.trim names := by
  have hcomma : Text.contains "," (Text.trim names) = true ↔ ',' ∈ names.toList := by
    rw [Text.contains_char_iff (c := ',') rfl, Text.mem_trim_iff rfl]
  simp only [bound, hcomma]

theorem bound_congr {names' : String} (h : Text.trim names = Text.trim names') :
    bound names = bound names' := by
  rw [bound, bound, h]

/-- Two names stay as they are. -/
theorem IsBinding.bound_eq_self (h : IsBinding names) : bound names = names := by
  rw [bound_eq, if_pos h.comma, h.trim]

theorem isBinding_default : IsBinding "key, val" where
  trim := by decide +kernel
  comma := by decide
  unbound := by decide
  semicolon := by decide

/-- **Names are completed to a left side.** -/
theorem isBinding_bound (hblank : Text.isBlank names = false)
    (hunbound : ¬ ":=".toList <:+: names.toList) (hsemicolon : ';' ∉ names.toList) :
    IsBinding (bound names) := by
  have hinner : ¬ ":=".toList <:+: (Text.trim names).toList := by
    rw [Text.toList_trim]
    exact fun hstands => hunbound (hstands.trans (Chars.trim_infix _))
  have hsemicolon' : ';' ∉ (Text.trim names).toList := by
    rwa [Text.mem_trim_iff rfl]
  rw [bound_eq]
  split
  · rename_i hcomma
    refine ⟨Text.trim_trim names, ?_, hinner, hsemicolon'⟩
    rwa [Text.mem_trim_iff rfl]
  · refine ⟨Text.trim_append_trim (by decide) (by decide) hblank, ?_, ?_, ?_⟩
    · simp
    · have hkey : ':' ∉ "key, ".toList := by decide
      rw [String.toList_append]
      exact fun hstands => hinner ((Chars.infix_append_iff hkey).mp hstands)
    · rw [String.toList_append, List.mem_append, not_or]
      exact ⟨by decide, hsemicolon'⟩

end Names

section Part

variable {part : String}

/-- The word `range` is put before a part that it does not begin. -/
theorem ranged_eq (part : String) :
    ranged part =
      if showsRange (Text.trim part) then Text.trim part else "range " ++ Text.trim part :=
  rfl

theorem ranged_congr {part' : String} (h : Text.trim part = Text.trim part') :
    ranged part = ranged part' := by
  rw [ranged, ranged, h]

theorem showsRange_iff : showsRange part = true ↔
    part = "range" ∨ Text.startsWith "range " part = true := by
  rw [showsRange, Bool.or_eq_true, decide_eq_true_eq]

/-- A part with the word `range` stays as it is. -/
theorem IsRange.ranged_eq_self (h : IsRange part) : ranged part = part := by
  rw [ranged_eq, h.trim, if_pos (showsRange_iff.mpr h.range)]

/-- **A part is completed to a right side.** -/
theorem isRange_ranged (hblank : Text.isBlank part = false) (hsemicolon : ';' ∉ part.toList) :
    IsRange (ranged part) := by
  have hsemicolon' : ';' ∉ (Text.trim part).toList := by
    rwa [Text.mem_trim_iff rfl]
  rw [ranged_eq]
  split
  · rename_i hshows
    exact ⟨Text.trim_trim part, showsRange_iff.mp hshows, hsemicolon'⟩
  · refine ⟨Text.trim_append_trim (by decide) (by decide) hblank, .inr ?_, ?_⟩
    · rw [Text.startsWith, List.isPrefixOf_iff_prefix, String.toList_append]
      exact List.prefix_append _ _
    · rw [String.toList_append, List.mem_append, not_or]
      exact ⟨by decide, hsemicolon'⟩

end Part

/-! ### Complete clauses -/

section Clause

variable {names part : String}

/-- **The `:=` of a complete clause is its first one.** -/
theorem cut_clause (h : IsBinding names) (part : String) :
    Text.cut ":=" (names ++ " := " ++ part) = some (names ++ " ", " " ++ part) := by
  have hblank : ¬ ":=".toList <:+: names.toList ++ [' '] :=
    Chars.not_infix_concat h.unbound (by decide)
  have hcolon : ¬ ":=".toList <:+: names.toList ++ [' '] ++ [':'] :=
    Chars.not_infix_concat hblank (by decide)
  have hcut := Chars.cut_append hcolon (' ' :: part.toList)
  have hwhole : (names ++ " := " ++ part).toList =
      names.toList ++ [' '] ++ ":=".toList ++ ' ' :: part.toList := by simp
  rw [Text.cut, hwhole, hcut]
  simp only [Option.map_some, Option.some.injEq, Prod.mk.injEq, ← String.toList_inj]
  simp

/-- A complete clause begins with a name and ends in what is iterated. -/
theorem trim_clause (h : IsBinding names) (hpart : IsRange part) :
    Text.trim (names ++ " := " ++ part) = names ++ " := " ++ part := by
  have hnames : Chars.trim names.toList = names.toList := by
    rw [← Text.toList_trim, h.trim]
  have hrange : Chars.trim part.toList = part.toList := by
    rw [← Text.toList_trim, hpart.trim]
  have hne : names.toList ≠ [] := List.ne_nil_of_mem h.comma
  have hsome : part.toList ≠ [] := by
    rintro hnil
    obtain rfl : part = "" := String.toList_eq_nil_iff.mp hnil
    exact absurd hpart.range (by decide)
  obtain ⟨hfirst, -⟩ := Chars.trim_eq_self_iff.mp hnames
  obtain ⟨-, hlast⟩ := Chars.trim_eq_self_iff.mp hrange
  apply String.toList_injective
  rw [Text.toList_trim, String.toList_append]
  refine Chars.trim_append_eq_self ?_ ?_ hsome hlast
  · rw [String.toList_append]
    exact List.append_ne_nil_of_left_ne_nil hne _
  · rwa [String.toList_append, List.head?_append_of_ne_nil _ hne]

theorem contains_semicolon_iff {s : String} : Text.contains ";" s = false ↔ ';' ∉ s.toList := by
  rw [← Bool.not_eq_true, Text.contains_char_iff (c := ';') rfl]

/-- **A complete clause is left as it is.** -/
theorem normalize_clause (h : IsBinding names) (hpart : IsRange part) :
    normalize (names ++ " := " ++ part) = names ++ " := " ++ part := by
  have hsemicolon : Text.contains ";" (names ++ " := " ++ part) = false := by
    rw [contains_semicolon_iff]
    simp [h.semicolon, hpart.semicolon]
  have hcut : Text.cut ":=" (Text.trim (names ++ " := " ++ part)) =
      some (names ++ " ", " " ++ part) := by
    rw [trim_clause h hpart, cut_clause h]
  have hleft : Text.trim (names ++ " ") = Text.trim names := by
    apply String.toList_injective
    rw [Text.toList_trim, Text.toList_trim, String.toList_append]
    exact Chars.trim_append_right names.toList rfl
  have hright : Text.trim (" " ++ part) = Text.trim part := by
    apply String.toList_injective
    rw [Text.toList_trim, Text.toList_trim, String.toList_append]
    exact Chars.trim_append_left rfl part.toList
  rw [normalize_of_cut hsemicolon hcut, bound_congr hleft, ranged_congr hright, h.bound_eq_self,
    hpart.ranged_eq_self]

end Clause

/-! ### Directives -/

/-- What a loop directive iterates, and the names that it gives, if it gives any. -/
inductive Iterates (raw : String) : Option String → String → Prop
  | named {names part : String} (hcut : Text.cut ":=" raw = some (names, part))
      (hnames : Text.isBlank names = false) (hpart : Text.isBlank part = false) :
      Iterates raw (some names) part
  | bare (hequals : '=' ∉ raw.toList) (hpart : Text.isBlank raw = false) : Iterates raw none raw

/-- The expression of a part: what stands behind the word `range`, or all of it. -/
def expression (part : String) : String :=
  Text.trim ((Text.after? "range " (Text.trim part)).getD part)

theorem expression_suffix (part : String) :
    (expression part).toList <:+ (Text.trim part).toList := by
  rw [expression, Text.after?]
  split
  · have hdrop : (Text.trim part).toList.drop ("range ").length <:+ (Text.trim part).toList :=
      List.drop_suffix _ _
    have htrim : Chars.trim (Text.trim part).toList = (Text.trim part).toList := by
      rw [Text.toList_trim, Chars.trim_trim]
    have hstart : Chars.trimStart ((Text.trim part).toList.drop ("range ").length) <:+
        (Text.trim part).toList := (List.dropWhile_suffix Chars.isSpace).trans hdrop
    rw [Option.getD_some, Text.toList_trim, String.toList_ofList, Chars.trim,
      Chars.trimEnd_of_suffix hstart htrim]
    exact hstart
  · exact List.suffix_rfl

theorem trim_suffix_ranged (part : String) :
    (Text.trim part).toList <:+ (ranged part).toList := by
  rw [ranged_eq]
  split
  · exact List.suffix_rfl
  · rw [String.toList_append]
    exact List.suffix_append _ _

section Directive

variable {raw part : String} {names? : Option String}

/-- The names and the part of a directive may be looked for before it is trimmed. -/
theorem normalize_of_cut_raw {names : String} (h : Text.contains ";" raw = false)
    (hcut : Text.cut ":=" raw = some (names, part)) :
    normalize raw = bound names ++ " := " ++ ranged part := by
  rw [Text.cut_eq_some_iff] at hcut
  have htrimmed : Text.cut ":=" (Text.trim raw) =
      some (String.ofList (Chars.trimStart names.toList),
        String.ofList (Chars.trimEnd part.toList)) := by
    rw [Text.cut_eq_some_iff, Text.toList_trim, Chars.cut_trim (by decide) (by decide) hcut,
      String.toList_ofList, String.toList_ofList]
  have hnames : Text.trim (String.ofList (Chars.trimStart names.toList)) = Text.trim names := by
    rw [Text.trim, Text.trim, String.toList_ofList, Chars.trim_trimStart]
  have hpart : Text.trim (String.ofList (Chars.trimEnd part.toList)) = Text.trim part := by
    rw [Text.trim, Text.trim, String.toList_ofList, Chars.trim_trimEnd]
  rw [normalize_of_cut h htrimmed, bound_congr hnames, ranged_congr hpart]

/-- The left side of a clause, from the names that its directive gives. -/
def leftSide : Option String → String
  | some names => bound names
  | none => "key, val"

/-- The clause of a directive that iterates has its names on the left and its part on the right. -/
theorem Iterates.normalize_eq (h : Iterates raw names? part) (hsemicolon : ';' ∉ raw.toList) :
    normalize raw = leftSide names? ++ " := " ++ ranged part := by
  have hcontains : Text.contains ";" raw = false := contains_semicolon_iff.mpr hsemicolon
  cases h with
  | named hcut _ _ => rw [leftSide, normalize_of_cut_raw hcontains hcut]
  | bare hequals _ =>
      have hequals' : '=' ∉ (Text.trim raw).toList := by
        rwa [Text.mem_trim_iff rfl]
      rw [normalize_of_bare hcontains hequals', ranged_congr (Text.trim_trim raw), leftSide]
      rfl

/-- **The clause of a directive that iterates is complete.** -/
theorem Iterates.isComplete (h : Iterates raw names? part) (hsemicolon : ';' ∉ raw.toList) :
    IsBinding (leftSide names?) ∧ IsRange (ranged part) := by
  cases h with
  | @named names part hcut hnames hpart =>
      rw [Text.cut_eq_some_iff] at hcut
      have hfirst := Chars.not_infix_of_cut (by decide) hcut
      have hraw := Chars.eq_of_cut hcut
      simp only [hraw, List.mem_append, not_or] at hsemicolon
      have hunbound : ¬ ":=".toList <:+: names.toList := fun hstands =>
        hfirst (hstands.trans (List.prefix_append _ _).isInfix)
      rw [leftSide]
      exact ⟨isBinding_bound hnames hunbound hsemicolon.1.1, isRange_ranged hpart hsemicolon.2⟩
  | bare hequals hpart =>
      rw [leftSide]
      exact ⟨isBinding_default, isRange_ranged hpart hsemicolon⟩

/-- A name for the key is put before the names if there is no comma among them. -/
theorem bound_eq_key_iff (names : String) :
    bound names = "key, " ++ Text.trim names ↔ ',' ∉ names.toList := by
  rw [bound_eq]
  split
  · rename_i hcomma
    refine ⟨fun h => ?_, absurd hcomma⟩
    have hlength := congrArg String.length h
    rw [String.length_append] at hlength
    have hkey : ("key, ").length = 5 := rfl
    omega
  · rename_i hcomma
    exact ⟨fun _ => hcomma, fun _ => rfl⟩

/-- A directive with a semicolon, or with an equals sign but without `:=`, is only trimmed. -/
theorem normalize_eq_trim
    (h : ';' ∈ raw.toList ∨ '=' ∈ raw.toList ∧ ¬ ":=".toList <:+: raw.toList) :
    normalize raw = Text.trim raw := by
  by_cases hsemicolon : ';' ∈ raw.toList
  · have hcontains : Text.contains ";" (Text.trim raw) = true := by
      rwa [Text.contains_char_iff (c := ';') rfl, Text.mem_trim_iff rfl]
    simp only [normalize, hcontains, if_true]
  · obtain ⟨hequals, hunbound⟩ := h.resolve_left hsemicolon
    refine normalize_of_equals (contains_semicolon_iff.mpr hsemicolon) ?_ ?_
    · rw [Text.cut_eq_none_iff, Text.toList_trim]
      exact fun hstands => hunbound (hstands.trans (Chars.trim_infix _))
    · rwa [Text.mem_trim_iff rfl]

end Directive

/-- **A normalized clause binds names and is stable.** A directive without a semicolon that gives
names and a part, none of them blank, or that is not blank and has no equals sign, becomes a left
side and a right side with a `:=` between them that is the first one. The left side has a comma: it
is `key, val` if the directive gives no names, and else the trimmed names, with `key, ` before them
if and only if they have no comma. The right side is `range`, or begins with this word and a blank
and ends with the expression that is iterated; in both cases it ends with the trimmed part. A second
time the clause is left as it is. A directive with a semicolon, or with an equals sign but without
`:=`, is trimmed, and left as it is a second time. -/
theorem normalized_clause_is_stable (raw : String) :
    (∀ names? part, Iterates raw names? part → ';' ∉ raw.toList →
      ∃ left right, normalize raw = left ++ " := " ++ right ∧
        Text.cut ":=" (normalize raw) = some (left ++ " ", " " ++ right) ∧
        ',' ∈ left.toList ∧
        (names? = none → left = "key, val") ∧
        (∀ names, names? = some names →
          (left = "key, " ++ Text.trim names ↔ ',' ∉ names.toList) ∧
          (',' ∈ names.toList → left = Text.trim names)) ∧
        (right = "range" ∨ Text.startsWith "range " right = true ∧
          (expression part).toList <:+ right.toList) ∧
        (Text.trim part).toList <:+ right.toList ∧
        normalize (normalize raw) = normalize raw) ∧
    (';' ∈ raw.toList ∨ '=' ∈ raw.toList ∧ ¬ ":=".toList <:+: raw.toList →
      normalize raw = Text.trim raw ∧ normalize (normalize raw) = normalize raw) := by
  refine ⟨fun names? part h hsemicolon => ?_, fun h => ?_⟩
  · obtain ⟨hleft, hright⟩ := h.isComplete hsemicolon
    have hclause := h.normalize_eq hsemicolon
    have hpart := trim_suffix_ranged part
    refine ⟨leftSide names?, ranged part, hclause, ?_, hleft.comma, ?_, ?_, ?_, hpart, ?_⟩
    · rw [hclause, cut_clause hleft]
    · rintro rfl
      rw [leftSide]
    · rintro names rfl
      rw [leftSide]
      exact ⟨bound_eq_key_iff names, fun hcomma => by rw [bound_eq, if_pos hcomma]⟩
    · exact hright.range.imp_right fun hrange => ⟨hrange, (expression_suffix part).trans hpart⟩
    · rw [hclause, normalize_clause hleft hright]
  · have hagain : ';' ∈ (Text.trim raw).toList ∨
        '=' ∈ (Text.trim raw).toList ∧ ¬ ":=".toList <:+: (Text.trim raw).toList := by
      rw [Text.mem_trim_iff rfl, Text.mem_trim_iff rfl, Text.toList_trim]
      exact h.imp_right fun ⟨hequals, hunbound⟩ =>
        ⟨hequals, fun hstands => hunbound (hstands.trans (Chars.trim_infix _))⟩
    have htrim := normalize_eq_trim h
    exact ⟨htrim, by rw [htrim, normalize_eq_trim hagain, Text.trim_trim]⟩

/-- Of two `:=` the first one binds, with a colon before it and wide space around the directive. An
assignment is trimmed, and so is a loop of three clauses. What comes out is left as it is. -/
theorem clauses_are_stable :
    (Iterates "\u00a0a::=range  x := y\u3000" (some "\u00a0a:") "range  x := y\u3000" ∧
      ';' ∉ "\u00a0a::=range  x := y\u3000".toList ∧
      normalize "\u00a0a::=range  x := y\u3000" = "key, a: := range  x := y" ∧
      normalize "key, a: := range  x := y" = "key, a: := range  x := y") ∧
    (Iterates " rows\n" none " rows\n" ∧ ';' ∉ " rows\n".toList ∧
      normalize " rows\n" = "key, val := range rows" ∧
      normalize "key, val := range rows" = "key, val := range rows") ∧
    (normalize " x = f(a)\n" = "x = f(a)" ∧ normalize "x = f(a)" = "x = f(a)") ∧
      normalize "\ti := 0; i < n; i++ " = "i := 0; i < n; i++" ∧
        normalize "i := 0; i < n; i++" = "i := 0; i < n; i++" := by
  have hnamed : Iterates "\u00a0a::=range  x := y\u3000" (some "\u00a0a:") "range  x := y\u3000" :=
    .named (by decide +kernel) (by decide +kernel) (by decide +kernel)
  have hbare : Iterates " rows\n" none " rows\n" := .bare (by decide) (by decide +kernel)
  have hnamed' : ';' ∉ "\u00a0a::=range  x := y\u3000".toList := by decide
  have hbare' : ';' ∉ " rows\n".toList := by decide
  have hnormal : normalize "\u00a0a::=range  x := y\u3000" = "key, a: := range  x := y" := by
    decide +kernel
  have hrows : normalize " rows\n" = "key, val := range rows" := by decide +kernel
  have hassigned : Text.trim " x = f(a)\n" = "x = f(a)" := by decide +kernel
  have hlooped : Text.trim "\ti := 0; i < n; i++ " = "i := 0; i < n; i++" := by decide +kernel
  obtain ⟨_, _, -, -, -, -, -, -, -, hstable⟩ :=
    (normalized_clause_is_stable "\u00a0a::=range  x := y\u3000").1 _ _ hnamed hnamed'
  obtain ⟨_, _, -, -, -, -, -, -, -, hstable'⟩ :=
    (normalized_clause_is_stable " rows\n").1 _ _ hbare hbare'
  obtain ⟨hassigns, hkept⟩ := (normalized_clause_is_stable " x = f(a)\n").2
    (.inr ⟨by decide, by decide⟩)
  obtain ⟨hloops, hkept'⟩ := (normalized_clause_is_stable "\ti := 0; i < n; i++ ").2
    (.inl (by decide))
  rw [hnormal] at hstable
  rw [hrows] at hstable'
  rw [hassigns, hassigned] at hkept
  rw [hloops, hlooped] at hkept'
  exact ⟨⟨hnamed, hnamed', hnormal, hstable⟩, ⟨hbare, hbare', hrows, hstable'⟩,
    ⟨hassigns.trans hassigned, hkept⟩, hloops.trans hlooped, hkept'⟩

end Iteration

end Stencil
