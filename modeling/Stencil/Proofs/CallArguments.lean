import Stencil.Proofs.ArgumentLists
import Stencil.Proofs.Splicing
import Stencil.Proofs.Templates

/-!
# One more argument for a call

A component is called with one more argument than its markup gives. To tell whether a comma has to
stand before it, only the last character before the closing bracket is looked at that is no white
space: if it opens a bracket, the list is taken to be empty.

This is right for a list that ends in an argument, and for one that holds white space only. It goes
wrong for a list with a comma after its last argument, and for one that holds a comment only; and no
argument can follow one that is spread. There is one more way in which the character can be an opening
bracket: a comment up to the end of a line may end in it.

## Main results

* `Runtime.isSome_expression?_configuration`: the configuration of a component is an expression.
* `Runtime.appendArgument_isCall_iff`: **in which cases adding an argument gives the call with one
  more argument.**
-/

namespace Stencil

namespace Chars

theorem endsInLine_of_newline (a : List Char) {b : List Char} (h : isBlank b = true) :
    endsInLine (a ++ '\n' :: b) = true := by
  induction a with
  | nil => simp [endsInLine, h]
  | cons c rest ih => rw [List.cons_append, endsInLine, ih, Bool.or_true]

/-- A text ends in a character, apart from white space, if only white space follows it. -/
theorem getLast?_trimEnd_iff {s : List Char} {c : Char} (hc : isSpace c = false) :
    (trimEnd s).getLast? = some c ↔ ∃ lead tail, s = lead ++ c :: tail ∧ isBlank tail = true := by
  rw [trimEnd, List.getLast?_reverse]
  constructor
  · intro h
    obtain ⟨rest, hrest⟩ := List.head?_eq_some_iff.mp h
    refine ⟨rest.reverse, (s.reverse.takeWhile isSpace).reverse, ?_, ?_⟩
    · have hsplit := List.takeWhile_append_dropWhile (p := isSpace) (l := s.reverse)
      rw [hrest] at hsplit
      have hreverse := congrArg List.reverse hsplit
      rw [List.reverse_reverse, List.reverse_append, List.reverse_cons, List.append_assoc]
        at hreverse
      exact hreverse.symm
    · rw [isBlank, List.all_reverse]
      exact List.all_takeWhile
  · rintro ⟨lead, tail, rfl, htail⟩
    have hspace : ∀ d ∈ tail.reverse, isSpace d = true := by
      simpa [isBlank] using htail
    rw [List.reverse_append, List.reverse_cons, List.append_assoc,
      List.dropWhile_append_of_pos hspace]
    simp [hc]

end Chars

namespace Host

/-! ### White space and comments at the end of a list -/

/-- White space does not end a literal, and no comment between two marks. -/
theorem within?_of_isSpace {mode next : Mode} {c : Char}
    (hmode : mode = .string ∨ mode = .raw ∨ mode = .rune ∨ mode = .block)
    (hc : Chars.isSpace c = true) (h : mode.within? c = some next) : next = mode := by
  have hne : ∀ d : Char, Chars.isSpace d = false → c ≠ d := fun _ => Chars.ne_of_isSpace hc
  rcases hmode with rfl | rfl | rfl | rfl
  · rw [Mode.within?, if_neg (hne '"' rfl), if_neg (hne '\\' rfl)] at h
    split at h
    · cases h
    · exact (Option.some.inj h).symm
  · rw [Mode.within?, if_neg (hne '\x60' rfl)] at h
    exact (Option.some.inj h).symm
  · rw [Mode.within?, if_neg (hne '\x27' rfl), if_neg (hne '\\' rfl)] at h
    split at h
    · cases h
    · exact (Option.some.inj h).symm
  · rw [Mode.within?, if_neg (hne '*' rfl)] at h
    exact (Option.some.inj h).symm

namespace Scan

/-- The scan is in a literal, in a comment between two marks, or below an open bracket. -/
def IsHeld (s : Scan) : Prop :=
  (s.mode = .string ∨ s.mode = .raw ∨ s.mode = .rune ∨ s.mode = .block) ∨
    s.mode = .code ∧ s.due ≠ []

/-- White space does not end what holds a scan. -/
theorem IsHeld.step {s t : Scan} {c : Char} (hs : s.IsHeld) (hc : Chars.isSpace c = true)
    (h : s.step c = some t) : t.IsHeld := by
  obtain ⟨mode, due⟩ := s
  rcases hs with hmode | ⟨rfl, hdue⟩
  · have hcode : mode ≠ .code := by
      rintro rfl
      simp at hmode
    have hslash : mode ≠ .slash := by
      rintro rfl
      simp at hmode
    rw [step_inside hcode hslash, Option.map_eq_some_iff] at h
    obtain ⟨next, hnext, rfl⟩ := h
    rw [within?_of_isSpace hmode hc hnext]
    exact .inl hmode
  · rw [step_of_isPlain (isPlain_of_isSpace hc)] at h
    cases h
    exact .inr ⟨rfl, hdue⟩

theorem IsHeld.read {s t : Scan} {text : List Char} (hs : s.IsHeld)
    (htext : Chars.isBlank text = true) (h : s.read text = some t) : t.IsHeld := by
  induction text generalizing s with
  | nil =>
      cases h
      exact hs
  | cons c rest ih =>
      obtain ⟨hc, hrest⟩ := Bool.and_eq_true_iff.mp htext
      rw [read_cons, Option.bind_eq_some_iff] at h
      obtain ⟨s', hstep, hread⟩ := h
      exact ih (hs.step hc hstep) hrest hread

/-- An opening bracket holds the scan, unless it is in a comment up to the end of the line. -/
theorem isHeld_of_opening {s t : Scan} (h : s.step '(' = some t) :
    t.IsHeld ∨ s.mode = .line ∧ t = s := by
  obtain ⟨mode, due⟩ := s
  cases mode with
  | line =>
      cases h
      exact .inr ⟨rfl, rfl⟩
  | code | slash =>
      cases h
      exact .inl (.inr ⟨rfl, by simp⟩)
  | string | stringEscape =>
      cases h
      exact .inl (.inl (.inl rfl))
  | raw =>
      cases h
      exact .inl (.inl (.inr (.inl rfl)))
  | rune | runeEscape =>
      cases h
      exact .inl (.inl (.inr (.inr (.inl rfl))))
  | block | blockStar =>
      cases h
      exact .inl (.inl (.inr (.inr (.inr rfl))))

end Scan

/-- The text ends in a comment up to the end of a line, and the comment in an opening bracket. -/
def EndsInOpenComment (code : String) : Prop :=
  ∃ lead tail s, code.toList = lead ++ '(' :: tail ∧ Chars.isBlank tail = true ∧
    Scan.read {} lead = some s ∧ s.mode = .line

/-- A scan that is not held at its end has passed its last opening bracket in a comment. -/
theorem endsInOpenComment_iff {code : String} (h : Balanced code) :
    Text.endsWith '(' (Text.trimEnd code) = true ↔ EndsInOpenComment code := by
  rw [Text.endsWith, Text.toList_trimEnd, beq_iff_eq, Chars.getLast?_trimEnd_iff rfl]
  constructor
  · rintro ⟨lead, tail, hcode, htail⟩
    rw [Balanced, Reads, hcode, Scan.read_append, Option.bind_eq_some_iff] at h
    obtain ⟨s, hlead, hrest⟩ := h
    rw [Scan.read_cons, Option.bind_eq_some_iff] at hrest
    obtain ⟨t, hopening, hend⟩ := hrest
    rcases Scan.isHeld_of_opening hopening with hheld | ⟨hline, -⟩
    · have hnot := Scan.IsHeld.read hheld htail hend
      simp [Scan.IsHeld] at hnot
    · exact ⟨lead, tail, s, hcode, htail, hlead, hline⟩
  · rintro ⟨lead, tail, -, hcode, htail, -, -⟩
    exact ⟨lead, tail, hcode, htail⟩

/-- White space that ends a comment up to the end of the line shows from its line feed on. -/
theorem ListScan.read_line {t : ListScan} {due : List Char} {before : List (List Char)}
    {last text : List Char} (htext : Chars.isBlank text = true)
    (h : read { scan := { mode := .line, due }, before, last } text = some t)
    (hend : t.scan.mode = .code) :
    t.before = before ∧ ∃ tail, Chars.isBlank tail = true ∧ t.last = last ++ '\n' :: tail := by
  induction text with
  | nil =>
      cases h
      cases hend
  | cons c rest ih =>
      obtain ⟨-, hrest⟩ := Bool.and_eq_true_iff.mp htext
      have hcomma : ({ mode := .line, due } : Scan).isComma c = false := by simp [Scan.isComma]
      rw [read_cons, step, Scan.step_inside (by simp) (by simp), Mode.within?] at h
      simp only [take, hcomma, Scan.shown, Bool.false_eq_true, if_false, Option.map_some,
        Option.bind_some] at h
      by_cases hline : c = '\n'
      · rw [if_pos hline, if_pos hline, read_of_isBlank hrest] at h
        obtain rfl := Option.some.inj h
        exact ⟨rfl, rest, hrest, by rw [hline, List.append_assoc]; rfl⟩
      · rw [if_neg hline, if_neg hline, List.append_nil] at h
        exact ih hrest h

/-- **No argument stands before the end of a line**: after a list that ends in an open comment, the
last argument is empty, or the line ends after it. -/
theorem isExpression_eq_false_of_endsInOpenComment {code : String} {before : List (List Char)}
    {last : List Char} (h : EndsInOpenComment code)
    (hsplit : split? code = some (before, last)) : isExpression last = false := by
  obtain ⟨lead, tail, s, hcode, htail, hlead, hline⟩ := h
  have hread := split?_eq_some_iff.mp hsplit
  rw [hcode, ListScan.read_append, Option.bind_eq_some_iff] at hread
  obtain ⟨⟨scan, before', last'⟩, hbefore, hrest⟩ := hread
  have hscan := ListScan.scan_of_read hbefore
  rw [hlead] at hscan
  obtain rfl := Option.some.inj hscan
  obtain ⟨mode, due⟩ := s
  obtain rfl : mode = .line := hline
  -- The bracket is in the comment and does not show.
  have hopening : ListScan.step ⟨{ mode := .line, due }, before', last'⟩ '(' =
      some ⟨{ mode := .line, due }, before', last'⟩ := by
    simp [ListScan.step, Scan.step, Mode.within?, ListScan.take, Scan.isComma, Scan.shown]
  rw [ListScan.read_cons, hopening, Option.bind_some] at hrest
  obtain ⟨-, w, hw, rfl⟩ := ListScan.read_line htail hrest rfl
  rw [isExpression, Chars.endsInLine_of_newline last' hw, Bool.not_true, Bool.and_false]

/-! ### One more argument -/

section Append

variable {inner argument : String} {before : List (List Char)} {last shown : List Char}

/-- An argument right after a list is part of its last piece. -/
theorem split?_append (hinner : split? inner = some (before, last))
    (hargument : split? argument = some ([], shown)) :
    split? (inner ++ argument) = some (before, last ++ shown) := by
  have hafter := ListScan.read_after (split?_eq_some_iff.mp hargument) before last
  rw [List.append_nil] at hafter
  rw [split?_eq_some_iff, String.toList_append, ListScan.read_append,
    split?_eq_some_iff.mp hinner, Option.bind_some, hafter]

/-- An argument after a list and a comma is a piece of its own. -/
theorem split?_append_comma (hinner : split? inner = some (before, last))
    (hargument : split? argument = some ([], shown)) :
    split? (inner ++ ", " ++ argument) = some (before ++ [last], [' '] ++ shown) := by
  have hread : ListScan.read { before, last } ", ".toList =
      some { before := before ++ [last ++ []], last := [' '] } := rfl
  have hcomma : split? (inner ++ ", ") = some (before ++ [last], [' ']) := by
    rw [split?_eq_some_iff, String.toList_append, ListScan.read_append,
      split?_eq_some_iff.mp hinner, Option.bind_some, hread, List.append_nil]
  exact split?_append hcomma hargument

theorem isExpression_append {lead : List Char} (hlead : Chars.isBlank lead = true)
    (h : isExpression shown = true) : isExpression (lead ++ shown) = true := by
  simp only [isExpression, Bool.and_eq_true, Bool.not_eq_true'] at h ⊢
  obtain ⟨⟨hblank, hspread⟩, hline⟩ := h
  rw [Chars.isBlank_append, hblank, Bool.and_false, isSpread, Chars.trim_append_left hlead,
    Chars.endsInLine_append lead hblank]
  exact ⟨⟨rfl, hspread⟩, hline⟩

theorem isBlank_of_isExpression (h : isExpression shown = true) :
    Chars.isBlank shown = false := by
  simp only [isExpression, Bool.and_eq_true, Bool.not_eq_true'] at h
  exact h.1.1

theorem isSpread_textOf (piece : List Char) : isSpread (textOf piece).toList = isSpread piece := by
  rw [isSpread, textOf, String.toList_ofList, Chars.trim_trim, isSpread]

theorem areArguments_concat (init : List (List Char)) (piece : List Char) :
    areArguments (init ++ [piece]) =
      (init.all isExpression && (isExpression piece || isSpread piece)) := by
  rw [areArguments, List.dropLast_concat, List.getLast?_concat, Option.all_some]

/-- Of arguments only the last one can be no expression, if it is spread. -/
theorem all_isExpression_iff {pieces : List (List Char)} (h : areArguments pieces = true) :
    pieces.all isExpression = true ↔
      ∀ value ∈ (pieces.map textOf).getLast?, isSpread value.toList = false := by
  rcases List.eq_nil_or_concat' pieces with rfl | ⟨init, piece, rfl⟩
  · simp
  · rw [areArguments_concat, Bool.and_eq_true] at h
    have hspread : isExpression piece = true → isSpread piece = false := by
      intro hpiece
      simp only [isExpression, Bool.and_eq_true, Bool.not_eq_true'] at hpiece
      exact hpiece.1.2
    simp only [List.all_append, h.1, Bool.true_and, List.map_append, List.map_cons, List.map_nil,
      List.getLast?_concat, Option.mem_some_iff, forall_eq', isSpread_textOf, List.all_cons,
      List.all_nil, Bool.and_true]
    refine ⟨hspread, fun hnot => ?_⟩
    rw [hnot, Bool.or_false] at h
    exact h.2

/-- A list whose last piece is an expression. -/
theorem ofPieces?_of_isExpression (h : isExpression last = true) :
    Arguments.ofPieces? before last =
      if before.all isExpression then
        some { values := before.map textOf ++ [textOf last], awaits := false }
      else none := by
  have hblank := isBlank_of_isExpression h
  simp only [Arguments.ofPieces?, hblank, Bool.false_eq_true, if_false, areArguments_concat, h,
    Bool.true_or, Bool.and_true, List.map_append, List.map_cons, List.map_nil]

/-- The pieces of a list of arguments. -/
theorem arguments?_eq_some_iff {arguments : Arguments} :
    arguments? inner = some arguments ↔
      ∃ before last, split? inner = some (before, last) ∧
        Arguments.ofPieces? before last = some arguments := by
  rw [arguments?, Option.bind_eq_some_iff, Prod.exists]

/-- The pieces that are arguments: all of them, or all but the last one if that is empty. -/
theorem ofPieces?_cases {arguments : Arguments}
    (h : Arguments.ofPieces? before last = some arguments) :
    (Chars.isBlank last = true ∧ areArguments before = true ∧
        arguments = { values := before.map textOf, awaits := true }) ∨
      Chars.isBlank last = false ∧ areArguments (before ++ [last]) = true ∧
        arguments = { values := (before ++ [last]).map textOf, awaits := false } := by
  rw [Arguments.ofPieces?] at h
  cases hblank : Chars.isBlank last with
  | true =>
      simp only [hblank, if_true, Option.ite_none_right_eq_some] at h
      exact .inl ⟨rfl, h.1, (Option.some.inj h.2).symm⟩
  | false =>
      simp only [hblank, Bool.false_eq_true, if_false, Option.ite_none_right_eq_some] at h
      exact .inr ⟨rfl, h.1, (Option.some.inj h.2).symm⟩

end Append

/-- A list whose last piece is white space shows nothing else. -/
theorem split?_of_isBlank {inner : String} (h : Text.isBlank inner = true) :
    split? inner = some ([], inner.toList) := by
  rw [split?_eq_some_iff]
  exact ListScan.read_of_isBlank h [] [] []

theorem arguments?_of_split? {code : String} {before : List (List Char)} {last : List Char}
    (h : split? code = some (before, last)) :
    arguments? code = Arguments.ofPieces? before last := by
  rw [arguments?, h]
  rfl

theorem textOf_append {lead : List Char} (h : Chars.isBlank lead = true) (shown : List Char) :
    textOf (lead ++ shown) = textOf shown := by
  rw [textOf, Chars.trim_append_left h, textOf]

/-- Calls of one callee differ in the code between their brackets. -/
theorem isCall_iff {callee inner : String} {arguments : Arguments}
    (hcallee : (expression? callee).isSome = true) :
    IsCall (callee ++ "(" ++ inner ++ ")") callee arguments ↔ arguments? inner = some arguments := by
  constructor
  · rintro ⟨-, inner', hcode, h⟩
    have hchars := congrArg String.toList hcode
    simp only [String.toList_append, List.append_assoc, List.append_cancel_left_eq] at hchars
    rw [String.toList_injective (List.append_cancel_right hchars)]
    exact h
  · intro h
    exact ⟨hcallee, inner, rfl, h⟩

end Host

namespace Runtime

open Host

/-- **The configuration of a component is an expression** if the code in it is balanced. -/
theorem isSome_expression?_configuration {rt : Runtime} (hname : IsName rt.package)
    {body argument : String} {slots templates attrs : Dict} (hbody : Balanced body)
    (hslots : ∀ entry ∈ slots.entries, Balanced entry.2)
    (htemplates : ∀ entry ∈ templates.entries, Balanced entry.2)
    (h : rt.configuration body slots templates attrs = some argument) :
    (expression? argument).isSome = true := by
  have hparts : Balanced (rt.configurationParts body slots templates attrs) :=
    balanced_configurationParts hname attrs hbody hslots htemplates
  have hargument : rt.package ++ ".External" ++ "\x7b" ++
      rt.configurationParts body slots templates attrs ++ "\x7d" = argument := by
    rw [configuration] at h
    split at h
    · cases h
    · rw [← Option.some.inj h]
      exact String.toList_injective (by simp)
  have hplain : ∀ c ∈ (rt.package ++ ".External").toList, isPlain c = true ∧ c ≠ ',' := by
    intro c hc
    rw [String.toList_append, List.mem_append] at hc
    rcases hc with hc | hc
    · refine ⟨isPlain_of_name (hname.2 c hc), ?_⟩
      rintro rfl
      exact absurd (hname.2 _ hc) (by decide)
    · have hall : ".External".toList.all (fun c => isPlain c && c != ',') = true := by decide
      simpa using List.all_eq_true.mp hall c hc
  rw [← hargument]
  exact isSome_expression?_composite hplain hparts

/-- What is looked at before the closing bracket of a call is its list of arguments, or the bracket
that opens it. -/
theorem endsWith_opening_iff (callee inner : String) :
    Text.endsWith '(' (Text.trimEnd (callee ++ "(" ++ inner)) = true ↔
      Text.isBlank inner = true ∨ Text.endsWith '(' (Text.trimEnd inner) = true := by
  simp only [Text.endsWith, Text.toList_trimEnd, String.toList_append, beq_iff_eq]
  rw [Chars.getLast?_trimEnd_iff rfl, Chars.getLast?_trimEnd_iff rfl, Text.isBlank]
  constructor
  · rintro ⟨lead, tail, hsplit, htail⟩
    rw [List.append_assoc, List.append_eq_append_iff] at hsplit
    rcases hsplit with ⟨more, rfl, hmore⟩ | ⟨more, -, hmore⟩
    · cases more with
      | nil =>
          obtain rfl := (List.cons.inj hmore).2
          exact .inl htail
      | cons c more =>
          exact .inr ⟨more, tail, (List.cons.inj hmore).2, htail⟩
    · cases more with
      | nil =>
          obtain rfl := (List.cons.inj hmore).2
          exact .inl htail
      | cons c more =>
          -- A bracket is no white space.
          obtain rfl : tail = more ++ '(' :: inner.toList := (List.cons.inj hmore).2
          rw [Chars.isBlank_append, Bool.and_eq_true] at htail
          cases htail.2
  · rintro (hblank | ⟨lead, tail, hinner, htail⟩)
    · exact ⟨callee.toList, inner.toList, by simp, hblank⟩
    · exact ⟨callee.toList ++ '(' :: lead, tail, by simp [hinner], htail⟩

/-- **One more argument.** The code of a call gets an argument at the end of its list. The new code
is a call of the same callee with that argument after the others in exactly these cases: the last of
them is not spread; and if there are none, or a comma follows the last one, then the list holds
white space only, or its last comment goes to the end of a line and ends in an opening bracket.

Elsewhere a comma is put after a comma, or after an empty list that holds a comment. -/
theorem appendArgument_isCall_iff (callee inner argument value : String) (arguments : Arguments)
    (hcallee : (expression? callee).isSome = true) (hinner : arguments? inner = some arguments)
    (hargument : expression? argument = some value) :
    IsCall (appendArgument (callee ++ "(" ++ inner ++ ")") argument) callee
        { values := arguments.values ++ [value], awaits := false } ↔
      (∀ last ∈ arguments.values.getLast?, isSpread last.toList = false) ∧
        (arguments.awaits = true → Text.isBlank inner = true ∨ EndsInOpenComment inner) := by
  obtain ⟨before, last, hsplit, hpieces⟩ := arguments?_eq_some_iff.mp hinner
  obtain ⟨shown, hshown, hexpression, rfl⟩ := expression?_eq_some_iff.mp hargument
  have hopen := endsWith_opening_iff callee inner
  rw [endsInOpenComment_iff (balanced_of_split? hsplit)] at hopen
  have hhead : Text.dropLast (callee ++ "(" ++ inner ++ ")") = callee ++ "(" ++ inner := by
    refine String.toList_injective ?_
    rw [Text.toList_dropLast, String.toList_append]
    exact List.dropLast_concat
  rw [appendArgument, hhead]
  by_cases h : Text.isBlank inner = true ∨ EndsInOpenComment inner
  · -- The argument is put right after the list, and belongs to the last piece.
    have hcode : callee ++ "(" ++ inner ++ argument ++ ")" =
        callee ++ "(" ++ (inner ++ argument) ++ ")" := by
      simp only [String.append_assoc]
    rw [if_pos (hopen.mpr h), hcode, isCall_iff hcallee,
      arguments?_of_split? (split?_append hsplit hshown)]
    rcases ofPieces?_cases hpieces with ⟨hblank, hbefore, rfl⟩ | ⟨hblank, hbefore, rfl⟩
    · rw [ofPieces?_of_isExpression (isExpression_append hblank hexpression),
        textOf_append hblank, ← all_isExpression_iff hbefore]
      simp [h]
    · have hlast : isExpression last = false := by
        rcases h with hinnerBlank | hcomment
        · rw [split?_of_isBlank hinnerBlank] at hsplit
          cases hsplit
          rw [Text.isBlank, hblank] at hinnerBlank
          cases hinnerBlank
        · exact isExpression_eq_false_of_endsInOpenComment hcomment hsplit
      refine iff_of_false (fun hcall => ?_) (fun hright => ?_)
      · rcases ofPieces?_cases hcall with ⟨-, -, hsame⟩ | ⟨-, -, hsame⟩
        · simp at hsame
        · have hlength := congrArg (fun list : Arguments => list.values.length) hsame
          simp at hlength
      · have hall := (all_isExpression_iff hbefore).mpr hright.1
        simp [hlast] at hall
  · -- The argument is put after a comma, and is a piece of its own.
    have hcode : callee ++ "(" ++ inner ++ ", " ++ argument ++ ")" =
        callee ++ "(" ++ (inner ++ ", " ++ argument) ++ ")" := by
      simp only [String.append_assoc]
    have hspace : Chars.isBlank [' '] = true := rfl
    rw [if_neg (mt hopen.mp h), hcode, isCall_iff hcallee,
      arguments?_of_split? (split?_append_comma hsplit hshown),
      ofPieces?_of_isExpression (isExpression_append hspace hexpression), textOf_append hspace]
    rcases ofPieces?_cases hpieces with ⟨hblank, hbefore, rfl⟩ | ⟨hblank, hbefore, rfl⟩
    · have hlast : isExpression last = false := by simp [isExpression, hblank]
      refine iff_of_false (fun hcall => ?_) (fun hright => h (hright.2 rfl))
      simp [hlast] at hcall
    · rw [← all_isExpression_iff hbefore]
      simp

/-- A call with a comma in a literal and one below a bracket, and a call whose list is a line feed:
each gets one more argument. -/
theorem appendArgument_isCall_nested :
    IsCall (appendArgument "Card(a, f(\"x,)\", y) /* , */)" "CFG") "Card"
        { values := ["a", "f(\"x,)\", y)", "CFG"], awaits := false } ∧
      IsCall (appendArgument "ui.Card(\n)" "CFG") "ui.Card"
        { values := ["CFG"], awaits := false } := by
  have hnested := (appendArgument_isCall_iff "Card" "a, f(\"x,)\", y) /* , */" "CFG" "CFG"
    { values := ["a", "f(\"x,)\", y)"], awaits := false } (by decide +kernel)
    (by decide +kernel) (by decide +kernel)).mpr ⟨by decide +kernel, by simp⟩
  have hempty := (appendArgument_isCall_iff "ui.Card" "\n" "CFG" "CFG"
    { values := [], awaits := true } (by decide +kernel) (by decide +kernel)
    (by decide +kernel)).mpr ⟨by simp, fun _ => .inl (by decide)⟩
  exact ⟨hnested, hempty⟩

/-- With a comma after the last argument a second comma is put after it; a comment in an empty list
is followed by a comma; and an argument is put after one that is spread. None of this is a call. -/
theorem appendArgument_of_open_list :
    (IsCall "Card(a,)" "Card" { values := ["a"], awaits := true } ∧
      appendArgument "Card(a,)" "CFG" = "Card(a,, CFG)" ∧
      ∀ arguments, ¬ IsCall "Card(a,, CFG)" "Card" arguments) ∧
    (IsCall "Card(/* c */)" "Card" { values := [], awaits := true } ∧
      appendArgument "Card(/* c */)" "CFG" = "Card(/* c */, CFG)" ∧
      ∀ arguments, ¬ IsCall "Card(/* c */, CFG)" "Card" arguments) ∧
    IsCall "Card(xs...)" "Card" { values := ["xs..."], awaits := false } ∧
      appendArgument "Card(xs...)" "CFG" = "Card(xs..., CFG)" ∧
      ∀ arguments, ¬ IsCall "Card(xs..., CFG)" "Card" arguments := by
  have hcallee : (expression? "Card").isSome = true := by decide +kernel
  have hcall : ∀ (inner : String) (arguments : Arguments), arguments? inner = some arguments →
      IsCall ("Card" ++ "(" ++ inner ++ ")") "Card" arguments :=
    fun _ _ h => (isCall_iff hcallee).mpr h
  have hnone : ∀ inner : String, arguments? inner = none →
      ∀ arguments, ¬ IsCall ("Card" ++ "(" ++ inner ++ ")") "Card" arguments := by
    intro inner h arguments hcall
    rw [isCall_iff hcallee, h] at hcall
    cases hcall
  refine ⟨⟨hcall "a," _ ?_, ?_, hnone "a,, CFG" ?_⟩, ⟨hcall "/* c */" _ ?_, ?_,
    hnone "/* c */, CFG" ?_⟩, hcall "xs..." _ ?_, ?_, hnone "xs..., CFG" ?_⟩
  all_goals decide +kernel

end Runtime

end Stencil
