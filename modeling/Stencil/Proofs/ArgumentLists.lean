import Stencil.Proofs.Scanning

/-!
# Lists of arguments

How the code of a call is read: as a callee, and as a list of arguments in brackets.

The list is split at the commas that stand outside of brackets, literals and comments. A comment
shows as white space, with the line feeds that it holds. Of the grammar of the host language three
points are kept: an argument is not empty, except that a comma may follow the last one; no line ends
between an argument and what follows it, since a line feed would end a statement there; and only the
last argument can be spread over the remaining parameters.

## Main definitions

* `Host.arguments?`, `Host.expression?`: what a list of arguments, and an expression, hold.
* `Host.IsCall`: code is a call.

## Main results

* `ListScan.read_after`: code without a comma of its own adds to the last piece.
* `isSome_expression?_composite`: **a name with balanced code in braces is an expression.**
-/

namespace Stencil

/-! ### White space at the ends of a text -/

namespace Chars

theorem ne_of_isSpace {c d : Char} (hc : isSpace c = true) (hd : isSpace d = false) : c ≠ d := by
  rintro rfl
  rw [hc] at hd
  cases hd

/-- A line feed is among the white space that the text ends with. -/
def endsInLine : List Char → Bool
  | [] => false
  | c :: rest => (c == '\n' && isBlank rest) || endsInLine rest

theorem isBlank_append (a b : List Char) : isBlank (a ++ b) = (isBlank a && isBlank b) :=
  List.all_append

theorem endsInLine_append (a : List Char) {b : List Char} (h : isBlank b = false) :
    endsInLine (a ++ b) = endsInLine b := by
  induction a with
  | nil => rfl
  | cons c rest ih =>
      rw [List.cons_append, endsInLine, isBlank_append, h, Bool.and_false, Bool.and_false,
        Bool.false_or, ih]

theorem trim_concat (lead : List Char) {c : Char} (hc : isSpace c = false) :
    ∃ lead', trim (lead ++ [c]) = lead' ++ [c] := by
  have htrimEnd : ∀ lead' : List Char, trimEnd (lead' ++ [c]) = lead' ++ [c] := by
    intro lead'
    simp [trimEnd, hc]
  rw [trim, trimStart, List.dropWhile_append]
  split
  · exact ⟨[], by simpa [hc] using htrimEnd []⟩
  · exact ⟨_, htrimEnd _⟩

end Chars

namespace Host

/-! ### What shows of code -/

/-- What shows of a character: nothing inside a comment, except for the line feeds. A slash shows
only when it is known not to begin a comment. -/
def Scan.shown (s : Scan) (c : Char) : List Char :=
  match s.mode with
  | .code => if c = '/' then [] else [c]
  | .slash => if c = '/' ∨ c = '*' then [' '] else ['/', c]
  | .line | .block | .blockStar => if c = '\n' then [c] else []
  | .string | .stringEscape | .raw | .rune | .runeEscape => [c]

/-- The character is a comma in code, with no bracket open. -/
def Scan.isComma (s : Scan) (c : Char) : Bool :=
  c == ',' && s.due.isEmpty && (s.mode == .code || s.mode == .slash)

/-- A scan of code that is split at the commas outside of brackets. -/
structure ListScan where
  scan : Scan := {}
  /-- What shows of the pieces that a comma ends. -/
  before : List (List Char) := []
  /-- What shows after the last comma. -/
  last : List Char := []
deriving DecidableEq, Repr

namespace ListScan

/-- Takes in what shows of a character. A comma ends a piece and does not show itself. -/
def take (r : ListScan) (c : Char) (next : Scan) : ListScan :=
  if r.scan.isComma c then
    { scan := next, before := r.before ++ [r.last ++ (r.scan.shown c).dropLast] }
  else
    { scan := next, before := r.before, last := r.last ++ r.scan.shown c }

/-- The next character of a scan. -/
def step (r : ListScan) (c : Char) : Option ListScan := (r.scan.step c).map (r.take c)

/-- Scans a text. -/
def read (r : ListScan) (text : List Char) : Option ListScan := text.foldlM step r

/-- The pieces, if the scan may end where it is. -/
def pieces? (r : ListScan) : Option (List (List Char) × List Char) :=
  if r.scan = {} then some (r.before, r.last) else none

theorem read_append (r : ListScan) (a b : List Char) :
    r.read (a ++ b) = (r.read a).bind fun t => t.read b :=
  List.foldlM_append ..

theorem read_cons (r : ListScan) (c : Char) (rest : List Char) :
    r.read (c :: rest) = (r.step c).bind fun t => t.read rest := rfl

@[simp] theorem scan_take (r : ListScan) (c : Char) (next : Scan) :
    (r.take c next).scan = next := by
  rw [take]
  split <;> rfl

theorem scan_of_read {r t : ListScan} {text : List Char} (h : r.read text = some t) :
    r.scan.read text = some t.scan := by
  induction text generalizing r with
  | nil =>
      cases h
      rfl
  | cons c rest ih =>
      rw [read_cons, Option.bind_eq_some_iff] at h
      obtain ⟨r', hstep, hrest⟩ := h
      obtain ⟨next, hnext, rfl⟩ := Option.map_eq_some_iff.mp hstep
      rw [Scan.read_cons, hnext]
      simpa using ih hrest

/-- Pieces that are ended stay. -/
theorem before_prefix {r t : ListScan} {text : List Char} (h : r.read text = some t) :
    r.before <+: t.before := by
  induction text generalizing r with
  | nil =>
      cases h
      exact List.prefix_rfl
  | cons c rest ih =>
      rw [read_cons, Option.bind_eq_some_iff] at h
      obtain ⟨r', hstep, hrest⟩ := h
      obtain ⟨next, hnext, rfl⟩ := Option.map_eq_some_iff.mp hstep
      refine List.IsPrefix.trans ?_ (ih hrest)
      rw [take]
      split
      · exact List.prefix_append _ _
      · exact List.prefix_rfl

/-- **Code without a comma of its own** adds what shows of it to the last piece, whatever was
scanned before. -/
theorem read_after {s t : Scan} {text lead shown : List Char}
    (h : read { scan := s, last := lead } text = some { scan := t, last := shown })
    (before : List (List Char)) (last : List Char) :
    read { scan := s, before, last := last ++ lead } text =
      some { scan := t, before, last := last ++ shown } := by
  induction text generalizing s lead with
  | nil =>
      cases h
      rfl
  | cons c rest ih =>
      rw [read_cons, Option.bind_eq_some_iff] at h
      obtain ⟨r', hstep, hrest⟩ := h
      obtain ⟨next, hnext, rfl⟩ := Option.map_eq_some_iff.mp hstep
      have hcomma : s.isComma c = false := by
        by_contra hcomma
        rw [Bool.not_eq_false] at hcomma
        -- The comma would leave a piece before it.
        have hprefix := before_prefix hrest
        rw [take, if_pos hcomma] at hprefix
        simp at hprefix
      rw [read_cons, step, hnext]
      simp only [take, hcomma, Bool.false_eq_true, if_false, Option.map_some, Option.bind_some]
        at hrest ⊢
      rw [List.append_assoc]
      exact ih hrest

end ListScan

/-! ### What shows of plain characters, and below a bracket -/

/-- Characters that mean nothing to a scan show as they are. -/
theorem ListScan.read_of_isPlain {text : List Char} (h : ∀ c ∈ text, isPlain c = true ∧ c ≠ ',')
    (due : List Char) (before : List (List Char)) (last : List Char) :
    ListScan.read { scan := { due }, before, last } text =
      some { scan := { due }, before, last := last ++ text } := by
  induction text generalizing last with
  | nil => rw [List.append_nil]; rfl
  | cons c rest ih =>
      obtain ⟨⟨hplain, hcomma⟩, hrest⟩ := List.forall_mem_cons.mp h
      have hslash : c ≠ '/' := by
        rintro rfl
        cases hplain
      have hnot : ({ due } : Scan).isComma c = false := by simp [Scan.isComma, hcomma]
      have hshown : ({ due } : Scan).shown c = [c] := if_neg hslash
      rw [read_cons, step, Scan.step_of_isPlain hplain]
      simp only [take, hnot, hshown, Bool.false_eq_true, if_false, Option.map_some,
        Option.bind_some]
      rw [ih hrest, List.append_assoc]
      rfl

/-- White space in code shows as it is. -/
theorem ListScan.read_of_isBlank {text : List Char} (h : Chars.isBlank text = true)
    (due : List Char) (before : List (List Char)) (last : List Char) :
    ListScan.read { scan := { due }, before, last } text =
      some { scan := { due }, before, last := last ++ text } := by
  refine read_of_isPlain (fun c hc => ?_) due before last
  have hspace := List.all_eq_true.mp h c hc
  exact ⟨isPlain_of_isSpace hspace, Chars.ne_of_isSpace hspace rfl⟩

/-- Below an open bracket no comma ends a piece. -/
theorem ListScan.read_under {s t : Scan} {text : List Char} (h : s.read text = some t)
    (closing : Char) (due : List Char) (before : List (List Char)) (last : List Char) :
    ∃ shown, ListScan.read { scan := s.under (closing :: due), before, last } text =
      some { scan := t.under (closing :: due), before, last := last ++ shown } := by
  induction text generalizing s last with
  | nil =>
      cases h
      exact ⟨[], by rw [List.append_nil]; rfl⟩
  | cons c rest ih =>
      rw [Scan.read_cons, Option.bind_eq_some_iff] at h
      obtain ⟨next, hnext, hrest⟩ := h
      have hcomma : (s.under (closing :: due)).isComma c = false := by
        simp [Scan.isComma, Scan.under]
      obtain ⟨shown, hshown⟩ := ih hrest (last ++ (s.under (closing :: due)).shown c)
      refine ⟨(s.under (closing :: due)).shown c ++ shown, ?_⟩
      rw [read_cons, step, Scan.step_under hnext]
      simp only [take, hcomma, Bool.false_eq_true, if_false, Option.map_some, Option.bind_some]
      rw [hshown, List.append_assoc]

/-! ### Expressions and lists of arguments -/

/-- The argument is spread over the remaining parameters. -/
def isSpread (shown : List Char) : Bool := ['.', '.', '.'].isSuffixOf (Chars.trim shown)

/-- What shows may be an expression: it is not empty, not spread, and no line ends after it. -/
def isExpression (shown : List Char) : Bool :=
  !Chars.isBlank shown && !isSpread shown && !Chars.endsInLine shown

/-- The text of a piece, without the white space around it. -/
def textOf (shown : List Char) : String := String.ofList (Chars.trim shown)

/-- What shows of the code, split at its commas: the pieces that a comma ends, and the last one. -/
def split? (code : String) : Option (List (List Char) × List Char) :=
  (ListScan.read {} code.toList).bind ListScan.pieces?

/-- An expression without its comments, if the code is one. -/
def expression? (code : String) : Option String :=
  (split? code).bind fun (before, last) =>
    if before.isEmpty && isExpression last then some (textOf last) else none

/-- A list of arguments. -/
structure Arguments where
  /-- The arguments, without comments and without the white space around them. -/
  values : List String
  /-- A further argument needs no comma before it: there are no others, or a comma follows the
  last one. -/
  awaits : Bool
deriving DecidableEq, Repr

/-- All arguments are expressions, but the last one may be spread. -/
def areArguments (pieces : List (List Char)) : Bool :=
  pieces.dropLast.all isExpression &&
    pieces.getLast?.all fun last => isExpression last || isSpread last

/-- The arguments that the pieces of a list are, if they are any. -/
def Arguments.ofPieces? (before : List (List Char)) (last : List Char) : Option Arguments :=
  let pieces := if Chars.isBlank last then before else before ++ [last]
  if areArguments pieces then
    some { values := pieces.map textOf, awaits := Chars.isBlank last }
  else none

/-- The arguments that stand in code, if it is a list of arguments. -/
def arguments? (code : String) : Option Arguments :=
  (split? code).bind fun (before, last) => Arguments.ofPieces? before last

/-- The code is a call of an expression with a list of arguments. -/
def IsCall (code callee : String) (arguments : Arguments) : Prop :=
  (expression? callee).isSome = true ∧
    ∃ inner, code = callee ++ "(" ++ inner ++ ")" ∧ arguments? inner = some arguments

theorem split?_eq_some_iff {code : String} {before : List (List Char)} {last : List Char} :
    split? code = some (before, last) ↔
      ListScan.read {} code.toList = some { before, last } := by
  rw [split?, Option.bind_eq_some_iff]
  constructor
  · rintro ⟨⟨scan, before', last'⟩, hread, hpieces⟩
    rw [ListScan.pieces?, Option.ite_none_right_eq_some] at hpieces
    obtain ⟨rfl, hpieces⟩ := hpieces
    cases hpieces
    exact hread
  · intro h
    exact ⟨_, h, rfl⟩

theorem balanced_of_split? {code : String} {before : List (List Char)} {last : List Char}
    (h : split? code = some (before, last)) : Balanced code :=
  ListScan.scan_of_read (split?_eq_some_iff.mp h)

theorem expression?_eq_some_iff {code value : String} :
    expression? code = some value ↔
      ∃ shown, split? code = some ([], shown) ∧ isExpression shown = true ∧
        textOf shown = value := by
  rw [expression?, Option.bind_eq_some_iff]
  constructor
  · rintro ⟨⟨before, last⟩, hsplit, h⟩
    simp only [Bool.and_eq_true, List.isEmpty_iff, Option.ite_none_right_eq_some,
      Option.some.injEq] at h
    obtain ⟨⟨rfl, hlast⟩, hvalue⟩ := h
    exact ⟨last, hsplit, hlast, hvalue⟩
  · rintro ⟨shown, hsplit, hshown, hvalue⟩
    exact ⟨([], shown), hsplit, by simp [hshown, hvalue]⟩

/-- What ends in a character that is no white space, and no dot, is an expression. -/
theorem isExpression_concat (lead : List Char) {c : Char} (hc : Chars.isSpace c = false)
    (hdot : c ≠ '.') : isExpression (lead ++ [c]) = true := by
  have hblank : Chars.isBlank [c] = false := by simp [Chars.isBlank, hc]
  have hline : Chars.endsInLine [c] = false := by
    have hnewline : c ≠ '\n' := (Chars.ne_of_isSpace rfl hc).symm
    simp [Chars.endsInLine, hnewline]
  have hspread : isSpread (lead ++ [c]) = false := by
    obtain ⟨lead', hlead⟩ := Chars.trim_concat lead hc
    rw [isSpread, hlead, Bool.eq_false_iff, ne_eq, List.isSuffixOf_iff_suffix]
    rintro ⟨before, hbefore⟩
    have hlast := congrArg List.getLast? hbefore
    rw [List.getLast?_concat, List.getLast?_append] at hlast
    exact hdot (Option.some.inj hlast).symm
  rw [isExpression, Chars.isBlank_append, hblank, hspread, Chars.endsInLine_append lead hblank,
    hline, Bool.and_false]
  rfl

/-- A name with a list in braces is an expression. -/
theorem isSome_expression?_composite {name parts : String}
    (hname : ∀ c ∈ name.toList, isPlain c = true ∧ c ≠ ',') (hparts : Balanced parts) :
    (expression? (name ++ "\x7b" ++ parts ++ "\x7d")).isSome = true := by
  obtain ⟨shown, hshown⟩ := ListScan.read_under hparts '\x7d' [] [] (name.toList ++ ['\x7b'])
  have hopening : ListScan.read { last := name.toList } "\x7b".toList =
      some { scan := Scan.under {} ['\x7d'], last := name.toList ++ ['\x7b'] } := rfl
  have hclosing : ListScan.read
      { scan := Scan.under {} ['\x7d'], last := name.toList ++ ['\x7b'] ++ shown }
      "\x7d".toList = some { last := name.toList ++ ['\x7b'] ++ shown ++ ['\x7d'] } := rfl
  have hsplit : split? (name ++ "\x7b" ++ parts ++ "\x7d") =
      some ([], name.toList ++ ['\x7b'] ++ shown ++ ['\x7d']) := by
    rw [split?_eq_some_iff, String.toList_append, String.toList_append, String.toList_append,
      ListScan.read_append, ListScan.read_append, ListScan.read_append,
      ListScan.read_of_isPlain hname, Option.bind_some, List.nil_append, hopening,
      Option.bind_some, hshown, Option.bind_some, hclosing]
  have hexpression : isExpression (name.toList ++ ['\x7b'] ++ shown ++ ['\x7d']) = true :=
    isExpression_concat _ rfl (by decide)
  rw [expression?_eq_some_iff.mpr ⟨_, hsplit, hexpression, rfl⟩]
  rfl

end Host

end Stencil
