import Stencil.Host.Runtime
import Stencil.Proofs.Substring
import Mathlib.Data.List.Basic

/-!
# Scanning of host code

What a lexer of the host language sees of a piece of code: whether it stands in code, in one of
the three kinds of literals or in a comment, and which brackets are open. A piece is `Balanced`
when a scan of it from plain code, with no bracket open, ends there again.

Scanning goes from left to right and looks only at the innermost open bracket, so a balanced piece
may be put anywhere in code (`Balanced.reads`), and a larger piece is put together from smaller
ones by adding up what each does to the open brackets (`Reads.append`).

## Main results

* `Balanced.append`: balanced pieces may be put one after the other.
* `balanced_quote`, `balanced_textLiteral`, `balanced_comment`: **no text breaks out of the literal
  or the comment that it is put into**.
-/

namespace Stencil

namespace Host

/-- Where a scan stands. -/
inductive Mode where
  | code
  /-- In code, after a slash that may begin a comment. -/
  | slash
  /-- In an interpreted literal. -/
  | string
  /-- In an interpreted literal, after a backslash. -/
  | stringEscape
  /-- In a raw literal. -/
  | raw
  /-- In a literal of one character. -/
  | rune
  /-- In a literal of one character, after a backslash. -/
  | runeEscape
  /-- In a comment up to the end of the line. -/
  | line
  /-- In a comment up to its closing mark. -/
  | block
  /-- In such a comment, after a star. -/
  | blockStar
deriving DecidableEq, Repr

/-- The state of a scan: where it stands, and the closing brackets that are due, the next one
first. -/
structure Scan where
  mode : Mode := .code
  due : List Char := []
deriving DecidableEq, Repr

/-- What a character of code does to a scan. -/
inductive Sign where
  /-- Begins a literal, or what may be a comment. -/
  | enter (mode : Mode)
  /-- Opens a bracket, which the given one has to close. -/
  | opens (closing : Char)
  /-- Closes a bracket. -/
  | closes
  /-- Nothing. -/
  | plain
deriving DecidableEq, Repr

/-- What a character of code does. -/
def Sign.ofChar : Char → Sign
  | '"' => enter .string
  | '\x60' => enter .raw
  | '\x27' => enter .rune
  | '/' => enter .slash
  | '(' => opens ')'
  | '[' => opens ']'
  | '\x7b' => opens '\x7d'
  | ')' | ']' | '\x7d' => closes
  | _ => plain

/-- A character inside a literal or a comment. A literal of one line does not hold a line feed. -/
def Mode.within? (c : Char) : Mode → Option Mode
  | string =>
      if c = '"' then some code else if c = '\\' then some stringEscape
      else if c = '\n' then none else some string
  | stringEscape => if c = '\n' then none else some string
  | raw => some (if c = '\x60' then code else raw)
  | rune =>
      if c = '\x27' then some code else if c = '\\' then some runeEscape
      else if c = '\n' then none else some rune
  | runeEscape => if c = '\n' then none else some rune
  | line => some (if c = '\n' then code else line)
  | block => some (if c = '*' then blockStar else block)
  | blockStar => some (if c = '/' then code else if c = '*' then blockStar else block)
  | code | slash => none

namespace Scan

/-- A closing bracket has to be the one that is due. -/
def close (c : Char) : List Char → Option Scan
  | next :: rest => if next = c then some { due := rest } else none
  | [] => none

/-- A character in code. -/
def stepCode (due : List Char) (c : Char) : Option Scan :=
  match Sign.ofChar c with
  | .enter mode => some { mode, due }
  | .opens closing => some { due := closing :: due }
  | .closes => close c due
  | .plain => some { due }

/-- The next character of a scan. There is no next state when a bracket does not close the one
that is open, or a line ends in a literal that cannot hold its end. -/
def step (s : Scan) (c : Char) : Option Scan :=
  match s.mode with
  | .code => stepCode s.due c
  | .slash =>
      if c = '/' then some { s with mode := .line }
      else if c = '*' then some { s with mode := .block }
      else stepCode s.due c
  | mode => (mode.within? c).map fun mode => { s with mode }

/-- Scans a text. -/
def read (s : Scan) (text : List Char) : Option Scan := text.foldlM step s

theorem read_append (s : Scan) (a b : List Char) :
    s.read (a ++ b) = (s.read a).bind fun t => t.read b :=
  List.foldlM_append ..

theorem read_cons (s : Scan) (c : Char) (rest : List Char) :
    s.read (c :: rest) = (s.step c).bind fun t => t.read rest := rfl

/-- The scan with further brackets open around it. -/
def under (s : Scan) (outer : List Char) : Scan := { s with due := s.due ++ outer }

/-- Inside literals and comments no bracket counts. -/
theorem step_inside {mode : Mode} (hcode : mode ≠ .code) (hslash : mode ≠ .slash)
    (due : List Char) (c : Char) :
    step { mode, due } c = (mode.within? c).map fun mode => { mode, due } := by
  cases mode with
  | code => exact absurd rfl hcode
  | slash => exact absurd rfl hslash
  | string | stringEscape | raw | rune | runeEscape | line | block | blockStar => rfl

theorem close_under {due : List Char} {c : Char} {t : Scan} (h : close c due = some t)
    (outer : List Char) : close c (due ++ outer) = some (t.under outer) := by
  cases due with
  | nil => cases h
  | cons next rest =>
      rw [close] at h
      rw [List.cons_append, close]
      by_cases hnext : next = c
      · rw [if_pos hnext] at h
        cases h
        exact if_pos hnext
      · rw [if_neg hnext] at h
        cases h

/-- A bracket that leaves none due was the only one due. -/
theorem eq_of_close {due : List Char} {c : Char} (h : close c due = some {}) : due = [c] := by
  cases due with
  | nil => cases h
  | cons next rest =>
      rw [close] at h
      by_cases hnext : next = c
      · rw [if_pos hnext] at h
        cases h
        rw [hnext]
      · rw [if_neg hnext] at h
        cases h

theorem stepCode_under {due : List Char} {c : Char} {t : Scan} (h : stepCode due c = some t)
    (outer : List Char) : stepCode (due ++ outer) c = some (t.under outer) := by
  rw [stepCode] at h ⊢
  cases hsign : Sign.ofChar c with
  | closes =>
      rw [hsign] at h
      exact close_under h outer
  | enter mode | opens closing | plain =>
      rw [hsign] at h
      cases h
      rfl

/-- A step looks only at the innermost open bracket. -/
theorem step_under {s t : Scan} {c : Char} (h : s.step c = some t) (outer : List Char) :
    (s.under outer).step c = some (t.under outer) := by
  obtain ⟨mode, due⟩ := s
  cases mode with
  | code => exact stepCode_under h outer
  | slash =>
      simp only [step] at h
      simp only [step, under]
      by_cases hline : c = '/'
      · rw [if_pos hline] at h ⊢
        cases h
        rfl
      · by_cases hblock : c = '*'
        · rw [if_neg hline, if_pos hblock] at h ⊢
          cases h
          rfl
        · rw [if_neg hline, if_neg hblock] at h ⊢
          exact stepCode_under h outer
  | string | stringEscape | raw | rune | runeEscape | line | block | blockStar =>
      rw [step_inside (by simp) (by simp), Option.map_eq_some_iff] at h
      obtain ⟨mode, hmode, rfl⟩ := h
      rw [under, step_inside (by simp) (by simp), hmode]
      rfl

/-- **A scan does not depend on what is open around it.** -/
theorem read_under {s t : Scan} {text : List Char} (h : s.read text = some t)
    (outer : List Char) : (s.under outer).read text = some (t.under outer) := by
  induction text generalizing s with
  | nil =>
      cases h
      rfl
  | cons c rest ih =>
      rw [read_cons, Option.bind_eq_some_iff] at h
      obtain ⟨s', hstep, hrest⟩ := h
      rw [read_cons, step_under hstep outer]
      exact ih hrest

end Scan

end Host

/-! ### Pieces of code -/

/-- Code that leads from one list of due brackets to another one. -/
def Reads (code : String) (due due' : List Char) : Prop :=
  Host.Scan.read { due } code.toList = some { due := due' }

/-- Code that a scan passes from plain code to plain code, with no bracket left open and none
closed that is not its own. -/
def Balanced (code : String) : Prop := Reads code [] []

instance (code : String) (due due' : List Char) : Decidable (Reads code due due') :=
  inferInstanceAs (Decidable (_ = _))

instance (code : String) : Decidable (Balanced code) := inferInstanceAs (Decidable (Reads _ _ _))

/-- One piece after the other. -/
theorem Reads.append {a b : String} {due due' due'' : List Char} (ha : Reads a due due')
    (hb : Reads b due' due'') : Reads (a ++ b) due due'' := by
  rw [Reads, String.toList_append, Host.Scan.read_append, ha]
  exact hb

/-- A balanced piece may stand anywhere in code. -/
theorem Balanced.reads {code : String} (h : Balanced code) (due : List Char) :
    Reads code due due :=
  Host.Scan.read_under h due

/-- Balanced pieces may be put one after the other. -/
theorem Balanced.append {a b : String} (ha : Balanced a) (hb : Balanced b) :
    Balanced (a ++ b) :=
  Reads.append ha hb

theorem balanced_empty : Balanced "" := rfl

/-- The pieces of a list may be put one after the other. -/
theorem balanced_join {pieces : List String} (h : ∀ piece ∈ pieces, Balanced piece) :
    Balanced (String.join pieces) := by
  induction pieces with
  | nil => exact balanced_empty
  | cons piece rest ih =>
      rw [String.join_cons]
      exact (h piece List.mem_cons_self).append
        (ih fun other hother => h other (List.mem_cons_of_mem piece hother))

namespace Host

/-! ### Characters that mean nothing to a scan -/

/-- A character that leaves a scan in code as it is, also after a slash. -/
def isPlain (c : Char) : Bool := Sign.ofChar c = .plain && c != '*'

theorem Scan.step_of_isPlain {c : Char} (h : isPlain c = true) (due : List Char) :
    Scan.step { due } c = some { due } := by
  rw [isPlain, Bool.and_eq_true, decide_eq_true_eq] at h
  show stepCode due c = _
  rw [stepCode, h.1]

theorem Scan.read_of_isPlain {text : List Char} (h : ∀ c ∈ text, isPlain c = true)
    (due : List Char) : Scan.read { due } text = some { due } := by
  induction text with
  | nil => rfl
  | cons c rest ih =>
      rw [read_cons, step_of_isPlain (h c List.mem_cons_self)]
      exact ih fun d hd => h d (List.mem_cons_of_mem c hd)

/-- A slash that a plain character follows begins no comment. -/
theorem Scan.read_slash {text : List Char} (h : ∃ c ∈ text.head?, isPlain c = true)
    (due : List Char) : Scan.read { mode := .slash, due } text = Scan.read { due } text := by
  obtain ⟨c, hc, hplain⟩ := h
  obtain ⟨rest, rfl⟩ := List.head?_eq_some_iff.mp hc
  have hline : c ≠ '/' := by
    rintro rfl
    cases hplain
  have hblock : c ≠ '*' := by
    rintro rfl
    cases hplain
  have hstep : step { mode := .slash, due } c = stepCode due c := by
    show (if c = '/' then _ else if c = '*' then _ else stepCode due c) = _
    rw [if_neg hline, if_neg hblock]
  rw [read_cons, hstep]
  rfl

/-- A name of the host language: letters, digits and underscores, among them letters and digits
outside ASCII. -/
def IsName (name : String) : Prop :=
  name ≠ "" ∧ ∀ c ∈ name.toList, c.isAlphanum ∨ c = '_' ∨ 128 ≤ c.toNat

instance (name : String) : Decidable (IsName name) :=
  have := List.decidableBAll (fun c : Char => c.isAlphanum ∨ c = '_' ∨ 128 ≤ c.toNat) name.toList
  inferInstanceAs (Decidable (_ ∧ _))

/-- The characters that mean something to a scan, some of them only after another one. -/
def significant : List Char :=
  ['"', '\x60', '\x27', '/', '*', '(', '[', '\x7b', ')', ']', '\x7d']

/-- All other characters mean nothing to it. -/
theorem isPlain_of_not_mem {c : Char} (h : c ∉ significant) : isPlain c = true := by
  have hne : ∀ d ∈ significant, c ≠ d := by
    rintro d hd rfl
    exact h hd
  rw [isPlain, Bool.and_eq_true, decide_eq_true_eq]
  refine ⟨?_, by simpa using hne '*' (by decide)⟩
  unfold Sign.ofChar
  split
  all_goals first
    | rfl
    | exact absurd rfl (hne _ (by decide))

/-- A character of a name means nothing to a scan. -/
theorem isPlain_of_name {c : Char} (h : c.isAlphanum ∨ c = '_' ∨ 128 ≤ c.toNat) :
    isPlain c = true := by
  have hnot : ∀ d ∈ significant, (!decide (d.isAlphanum ∨ d = '_' ∨ 128 ≤ d.toNat)) = true :=
    List.all_eq_true.mp (by decide)
  exact isPlain_of_not_mem fun hc => absurd h (by simpa using hnot c hc)

/-- White space means nothing to a scan. -/
theorem isPlain_of_isSpace {c : Char} (h : Chars.isSpace c = true) : isPlain c = true := by
  have hnot : ∀ d ∈ significant, (!Chars.isSpace d) = true := List.all_eq_true.mp (by decide)
  exact isPlain_of_not_mem fun hc => absurd h (by simpa using hnot c hc)

theorem balanced_of_isPlain {code : String} (h : ∀ c ∈ code.toList, isPlain c = true) :
    Balanced code :=
  Scan.read_of_isPlain h []

/-! ### Literals and comments -/

/-- A character stays inside the literal that it is escaped for. -/
theorem read_escapeChar (due : List Char) (c : Char) :
    Scan.read { mode := .string, due } (escapeChar c) = some { mode := .string, due } := by
  unfold escapeChar
  repeat' split
  all_goals try rfl
  rename_i hquote hbackslash hfeed _ _
  rw [Scan.read_cons, Scan.step_inside (by simp) (by simp), Mode.within?, if_neg hquote,
    if_neg hbackslash, if_neg hfeed]
  rfl

/-- **An interpreted literal is balanced, whatever its text is.** -/
theorem balanced_quote (value : String) : Balanced (quote value) := by
  have hinside : ∀ text : List Char,
      Scan.read { mode := .string } (text.flatMap escapeChar) = some { mode := .string } := by
    intro text
    induction text with
    | nil => rfl
    | cons c rest ih =>
        rw [List.flatMap_cons, Scan.read_append, read_escapeChar]
        exact ih
  rw [Balanced, Reads, toList_quote, quoteChars, List.cons_append, Scan.read_cons]
  show Scan.read { mode := .string } _ = _
  rw [Scan.read_append, hinside]
  rfl

/-- A text without backquotes stays inside a raw literal. -/
theorem read_raw {text : List Char} (h : '\x60' ∉ text) :
    Scan.read { mode := .raw } text = some { mode := .raw } := by
  induction text with
  | nil => rfl
  | cons c rest ih =>
      have hne : c ≠ '\x60' := Ne.symm (List.ne_of_not_mem_cons h)
      rw [Scan.read_cons, Scan.step_inside (by simp) (by simp), Mode.within?, if_neg hne]
      exact ih (List.not_mem_of_not_mem_cons h)

/-- **The literal of a text is balanced, whatever the text is.** -/
theorem balanced_textLiteral (value : String) : Balanced (textLiteral value) := by
  rw [textLiteral]
  split
  · exact balanced_quote value
  · rename_i hcontains
    have hnot : '\x60' ∉ value.toList := mt (Text.contains_char_iff rfl).mpr hcontains
    rw [Balanced, Reads, String.toList_append, String.toList_append, Scan.read_append,
      Scan.read_append]
    show ((Scan.read { mode := .raw } value.toList).bind _) = _
    rw [read_raw hnot]
    rfl

/-- A comment in which every closing mark is broken up does not end. After a star the next
character of the text is no slash. -/
theorem read_defuse (text : List Char) {mode : Mode}
    (h : mode = .block ∨ mode = .blockStar ∧ text.head? ≠ some '/') :
    ∃ mode', (mode' = .block ∨ mode' = .blockStar) ∧
      Scan.read { mode } (defuse text) = some { mode := mode' } := by
  fun_induction defuse text generalizing mode with
  | case1 rest ih =>
      -- The space that breaks the mark up leads back into the comment.
      obtain ⟨mode', hmode', hread⟩ := ih (.inl rfl)
      refine ⟨mode', hmode', ?_⟩
      rcases h with rfl | ⟨rfl, -⟩ <;> exact hread
  | case2 c rest hnot ih =>
      have hstep : Scan.step { mode } c =
          some { mode := if c = '*' then .blockStar else .block } := by
        rcases h with rfl | ⟨rfl, hhead⟩
        · rfl
        · have hslash : c ≠ '/' := by simpa using hhead
          rw [Scan.step_inside (by simp) (by simp), Mode.within?, if_neg hslash]
          rfl
      rw [Scan.read_cons, hstep]
      refine ih ?_
      by_cases hstar : c = '*'
      · rw [if_pos hstar]
        refine .inr ⟨rfl, fun hhead => ?_⟩
        obtain ⟨rest', rfl⟩ := List.head?_eq_some_iff.mp hhead
        exact hnot rest' hstar rfl
      · rw [if_neg hstar]
        exact .inl rfl
  | case3 =>
      rcases h with rfl | ⟨rfl, -⟩
      · exact ⟨.block, .inl rfl, rfl⟩
      · exact ⟨.blockStar, .inr rfl, rfl⟩

/-- **A comment is balanced, whatever its text is.** -/
theorem balanced_comment (text : String) : Balanced (comment text) := by
  have hblock : Mode.block = .block ∨ Mode.block = .blockStar ∧ text.toList.head? ≠ some '/' :=
    .inl rfl
  obtain ⟨mode, hmode, hread⟩ := read_defuse text.toList hblock
  rw [Balanced, Reads, toList_comment]
  show (Scan.read { mode := .block } (defuse text.toList ++ ['*', '/'])) = _
  rw [Scan.read_append, hread]
  rcases hmode with rfl | rfl <;> rfl

/-- A segment is balanced if it is a literal or the code that it stands for is. -/
theorem balanced_segment {part : Segment} (h : ∀ code, part = .expr code → Balanced code) :
    Balanced (segment part) := by
  cases part with
  | literal text => exact balanced_textLiteral text
  | expr code => exact h code rfl

/-- The code of segments is that of the last one behind all others, each with a separator. -/
theorem segments_eq {parts : List Segment} (hne : parts ≠ []) :
    segments parts = String.join (parts.dropLast.map fun part => segment part ++ ", ") ++
      segment (parts.getLast hne) := by
  induction parts with
  | nil => exact absurd rfl hne
  | cons first rest ih =>
      cases rest with
      | nil => simp [segments]
      | cons second more =>
          have hrest := ih (by simp)
          rw [segments, List.map_cons] at hrest
          rw [segments, List.map_cons, List.map_cons, String.intercalate_cons_cons, hrest,
            List.dropLast_cons_cons, List.map_cons, String.join_cons, List.getLast_cons_cons]
          simp only [String.append_assoc]

/-- **Segments are balanced if those that stand as they are given are**, and so is what stands
before the last of them. -/
theorem segments_eq_append {parts : List Segment} (hne : parts ≠ [])
    (h : ∀ code, .expr code ∈ parts → Balanced code) :
    ∃ lead last, Balanced lead ∧ last ∈ parts ∧ segments parts = lead ++ segment last := by
  refine ⟨_, _, balanced_join fun piece hpiece => ?_, List.getLast_mem hne, segments_eq hne⟩
  obtain ⟨part, hpart, rfl⟩ := List.mem_map.mp hpiece
  have hmem := (List.dropLast_sublist parts).mem hpart
  have hseparator : Balanced ", " := rfl
  exact (balanced_segment fun code hcode => h code (hcode ▸ hmem)).append hseparator

end Host

end Stencil
