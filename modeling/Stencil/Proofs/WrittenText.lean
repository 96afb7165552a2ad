import Stencil.Proofs.Substring
import Stencil.Template.Interpolation

/-!
# Texts written from literals and expressions

A text of a template may be written down from its parts: a literal, an expression between a pair of
double braces, a literal, and so on. It ends in one of three ways: with a literal, with an opening
pair behind a backslash, which takes all that follows literally, or with an opening pair that is
never closed. Interpolation takes such a text apart again.

The delimiters are two equal characters each, so a part must not make one of them too early: no
opening pair stands in a literal and no closing pair in an expression, and neither ends in the
character that would make the next delimiter begin one place sooner. A literal before an expression
does not end in a backslash either.

## Main results

* `Segment.split_written`, `Segment.split_escaped`, `Segment.split_unclosed`,
  `Segment.split_literal`: one step of interpolation on a text that is written out.
* `interpolation_undoes_writing`: **interpolation gives back the literals and the expressions that a
  text was written from**, folded and trimmed, without those that are empty then.
-/

namespace Stencil

/-! ### Writing -/

/-- How a text ends behind its last expression. -/
inductive Ending where
  /-- With a literal. -/
  | literal (text : String)
  /-- With an opening pair behind a backslash. -/
  | escaped (before after : String)
  /-- With an opening pair that is not closed. -/
  | unclosed (before after : String)
deriving DecidableEq, Repr

namespace Ending

/-- The ending as it is written. -/
def text : Ending → String
  | literal text => text
  | escaped before after => before ++ "\\\x7b\x7b" ++ after
  | unclosed before after => before ++ "\x7b\x7b" ++ after

/-- The text that the ending stands for. -/
def value : Ending → String
  | literal text => text
  | escaped before after | unclosed before after => before ++ "\x7b\x7b" ++ after

end Ending

/-- The text written from literals with an expression behind each, and an ending. -/
def writtenText : List (String × String) → Ending → String
  | [], ending => ending.text
  | (literal, code) :: rest, ending =>
      literal ++ "\x7b\x7b" ++ code ++ "\x7d\x7d" ++ writtenText rest ending

/-- The parts that a text was written from: literals on one line, and trimmed expressions. -/
def writtenSegments : List (String × String) → Ending → List Segment
  | [], ending => [.literal (Text.fold ending.value)]
  | (literal, code) :: rest, ending =>
      .literal (Text.fold literal) :: .expr (Text.trim code) :: writtenSegments rest ending

/-- A segment that is not empty. -/
def Segment.isShown : Segment → Bool
  | literal text => text != ""
  | expr code => code != ""

/-- No opening pair stands in the text, and none comes about with a brace behind it. The brace is
not escaped by the text. -/
structure ReadyToOpen (text : String) : Prop where
  opening : ¬ Segment.opening <:+: text.toList
  brace : text.toList.getLast? ≠ some '\x7b'
  backslash : text.toList.getLast? ≠ some '\\'

/-- No closing pair stands in the code, and none comes about with a brace behind it. -/
structure ReadyToClose (code : String) : Prop where
  closing : ¬ Segment.closing <:+: code.toList
  brace : code.toList.getLast? ≠ some '\x7d'

/-- No delimiter of the ending is made too early. -/
def Ending.IsReadable : Ending → Prop
  | literal text => ¬ Segment.opening <:+: text.toList
  | escaped before _ => ¬ Segment.opening <:+: before.toList
  | unclosed before after => ReadyToOpen before ∧ ¬ Segment.closing <:+: after.toList

/-- No delimiter of the text is made too early. -/
structure IsReadable (pairs : List (String × String)) (ending : Ending) : Prop where
  literals : ∀ pair ∈ pairs, ReadyToOpen pair.1
  codes : ∀ pair ∈ pairs, ReadyToClose pair.2
  ending : ending.IsReadable

instance (text : String) : Decidable (ReadyToOpen text) :=
  decidable_of_iff
    (¬ Segment.opening <:+: text.toList ∧ text.toList.getLast? ≠ some '\x7b' ∧
      text.toList.getLast? ≠ some '\\')
    ⟨fun ⟨h₁, h₂, h₃⟩ => ⟨h₁, h₂, h₃⟩, fun ⟨h₁, h₂, h₃⟩ => ⟨h₁, h₂, h₃⟩⟩

instance (code : String) : Decidable (ReadyToClose code) :=
  decidable_of_iff (¬ Segment.closing <:+: code.toList ∧ code.toList.getLast? ≠ some '\x7d')
    ⟨fun ⟨h₁, h₂⟩ => ⟨h₁, h₂⟩, fun ⟨h₁, h₂⟩ => ⟨h₁, h₂⟩⟩

instance (ending : Ending) : Decidable ending.IsReadable :=
  match ending with
  | .literal text => inferInstanceAs (Decidable (¬ Segment.opening <:+: text.toList))
  | .escaped before _ => inferInstanceAs (Decidable (¬ Segment.opening <:+: before.toList))
  | .unclosed before after =>
      inferInstanceAs (Decidable (ReadyToOpen before ∧ ¬ Segment.closing <:+: after.toList))

instance (pairs : List (String × String)) (ending : Ending) : Decidable (IsReadable pairs ending) :=
  decidable_of_iff
    ((∀ pair ∈ pairs, ReadyToOpen pair.1) ∧ (∀ pair ∈ pairs, ReadyToClose pair.2) ∧
      ending.IsReadable)
    ⟨fun ⟨h₁, h₂, h₃⟩ => ⟨h₁, h₂, h₃⟩, fun ⟨h₁, h₂, h₃⟩ => ⟨h₁, h₂, h₃⟩⟩

/-! ### One step of interpolation -/

namespace Segment

variable {text before inner code rest : List Char}

/-- Text without an opening pair is a literal. -/
theorem split_literal (h : ¬ opening <:+: text) : split text = literals text := by
  have hcut := Chars.cut_eq_none_iff.mpr h
  rw [split]
  split
  · rfl
  · rename_i hsome
    rw [hcut] at hsome
    cases hsome

theorem split_of_cut (h : Chars.cut opening text = some (before, inner)) :
    split text =
      if before.getLast? = some '\\' then literals (before.dropLast ++ opening ++ inner)
      else
        match Chars.cut closing inner with
        | none => literals text
        | some (code, rest) => literals before ++ exprs code ++ split rest := by
  rw [split]
  split
  · rename_i hnone
    rw [h] at hnone
    cases hnone
  · rename_i hsome
    obtain ⟨rfl, rfl⟩ := Prod.mk.inj (Option.some.inj (h.symm.trans hsome))
    split
    · rfl
    · split <;> simp_all

/-- The opening pair is found behind text that does not make it begin sooner. -/
theorem cut_opening (h : ¬ opening <:+: before) (hbrace : before.getLast? ≠ some '\x7b')
    (inner : List Char) : Chars.cut opening (before ++ opening ++ inner) = some (before, inner) :=
  Chars.cut_append (Chars.pair_not_infix_concat h fun _ => hbrace) inner

/-- The closing pair is found behind code that does not make it begin sooner. -/
theorem cut_closing (h : ¬ closing <:+: code) (hbrace : code.getLast? ≠ some '\x7d')
    (rest : List Char) : Chars.cut closing (code ++ closing ++ rest) = some (code, rest) :=
  Chars.cut_append (Chars.pair_not_infix_concat h fun _ => hbrace) rest

/-- **A written expression is read back**, and so is the literal before it. -/
theorem split_written {literal code : String} (hliteral : ReadyToOpen literal)
    (hcode : ReadyToClose code) (rest : List Char) :
    split (literal.toList ++ opening ++ (code.toList ++ closing ++ rest)) =
      literals literal.toList ++ exprs code.toList ++ split rest := by
  rw [split_of_cut (cut_opening hliteral.opening hliteral.brace _), if_neg hliteral.backslash,
    cut_closing hcode.closing hcode.brace]

/-- What follows an escaped opening pair is not split. -/
theorem split_escaped (h : ¬ opening <:+: before) (after : List Char) :
    split (before ++ ['\\'] ++ opening ++ after) = literals (before ++ opening ++ after) := by
  have hopening : ¬ opening <:+: before ++ ['\\'] :=
    Chars.pair_not_infix_concat h fun heq => absurd heq (by decide)
  have hbrace : (before ++ ['\\']).getLast? ≠ some '\x7b' := by
    rw [List.getLast?_concat]
    decide
  rw [split_of_cut (cut_opening hopening hbrace after), if_pos List.getLast?_concat,
    List.dropLast_concat]

/-- What follows an opening pair that is not closed is not split. -/
theorem split_unclosed {before after : String} (hbefore : ReadyToOpen before)
    (hafter : ¬ closing <:+: after.toList) :
    split (before.toList ++ opening ++ after.toList) =
      literals (before.toList ++ opening ++ after.toList) := by
  rw [split_of_cut (cut_opening hbefore.opening hbefore.brace _), if_neg hbefore.backslash,
    Chars.cut_eq_none_iff.mpr hafter]

theorem ofList_cons_bne_empty (c : Char) (rest : List Char) :
    (String.ofList (c :: rest) != "") = true := by
  rw [bne_iff_ne, Ne, ← String.toList_inj]
  simp

/-- A stretch of text gives its literal, if anything is left of it on one line. -/
theorem literals_toList (text : String) :
    literals text.toList = [literal (Text.fold text)].filter isShown := by
  rw [literals, Text.fold]
  cases Chars.fold text.toList with
  | nil => rfl
  | cons c rest =>
      have hshown : isShown (literal (String.ofList (c :: rest))) = true :=
        ofList_cons_bne_empty c rest
      rw [List.filter_cons_of_pos hshown, List.filter_nil]

/-- A stretch of code gives its expression, if it is not blank. -/
theorem exprs_toList (code : String) :
    exprs code.toList = [expr (Text.trim code)].filter isShown := by
  rw [exprs, Text.trim]
  cases Chars.trim code.toList with
  | nil => rfl
  | cons c rest =>
      have hshown : isShown (expr (String.ofList (c :: rest))) = true :=
        ofList_cons_bne_empty c rest
      rw [List.filter_cons_of_pos hshown, List.filter_nil]

end Segment

/-! ### Reading back -/

/-- An ending is read as one literal. -/
theorem Ending.ofText_text {ending : Ending} (h : ending.IsReadable) :
    Segment.ofText ending.text =
      [Segment.literal (Text.fold ending.value)].filter Segment.isShown := by
  rw [← Segment.literals_toList, Segment.ofText]
  cases ending with
  | literal text => exact Segment.split_literal h
  | escaped before after =>
      have hread := Segment.split_escaped h after.toList
      simpa [text, value, Segment.opening] using hread
  | unclosed before after =>
      have hread := Segment.split_unclosed h.1 h.2
      simpa [text, value, Segment.opening] using hread

/-- **Interpolation undoes writing.** A text that is written from literals, expressions and an
ending is taken apart into the same literals, each on one line, and the same expressions, trimmed,
in the same order and without the empty ones, if no delimiter is made too early. The ending is one
literal. An escaped opening pair in it loses its backslash, and an unclosed one stands for itself.
-/
theorem interpolation_undoes_writing (pairs : List (String × String)) (ending : Ending)
    (h : IsReadable pairs ending) :
    Segment.ofText (writtenText pairs ending) =
      (writtenSegments pairs ending).filter Segment.isShown := by
  induction pairs with
  | nil => exact Ending.ofText_text h.ending
  | cons pair pairs ih =>
      obtain ⟨literal, code⟩ := pair
      obtain ⟨hliteral, hliterals⟩ := List.forall_mem_cons.mp h.literals
      obtain ⟨hcode, hcodes⟩ := List.forall_mem_cons.mp h.codes
      have hrest := ih ⟨hliterals, hcodes, h.ending⟩
      have htext : (writtenText ((literal, code) :: pairs) ending).toList =
          literal.toList ++ Segment.opening ++
            (code.toList ++ Segment.closing ++ (writtenText pairs ending).toList) := by
        simp [writtenText, Segment.opening, Segment.closing]
      calc Segment.ofText (writtenText ((literal, code) :: pairs) ending)
          = Segment.literals literal.toList ++ Segment.exprs code.toList ++
              Segment.ofText (writtenText pairs ending) := by
            rw [Segment.ofText, htext, Segment.split_written hliteral hcode, Segment.ofText]
        _ = [Segment.literal (Text.fold literal)].filter Segment.isShown ++
              [Segment.expr (Text.trim code)].filter Segment.isShown ++
              (writtenSegments pairs ending).filter Segment.isShown := by
            rw [Segment.literals_toList, Segment.exprs_toList, hrest]
        _ = (writtenSegments ((literal, code) :: pairs) ending).filter Segment.isShown := by
            rw [← List.filter_append, ← List.filter_append]
            rfl

/-- Braces on both sides of the delimiters, an expression that is blank, and an escaped opening pair
right behind it. -/
theorem interpolation_among_braces :
    IsReadable [("\x7d\x7d é", "\x7bx"), ("\x7d a\n  b", " ")] (.escaped "" "z\x7d\x7d") ∧
    Segment.ofText
        "\x7d\x7d é\x7b\x7b\x7bx\x7d\x7d\x7d a\n  b\x7b\x7b \x7d\x7d\\\x7b\x7bz\x7d\x7d" =
      [.literal "\x7d\x7d é", .expr "\x7bx", .literal "\x7d a b",
        .literal "\x7b\x7bz\x7d\x7d"] := by
  have hreadable :
      IsReadable [("\x7d\x7d é", "\x7bx"), ("\x7d a\n  b", " ")] (.escaped "" "z\x7d\x7d") := by
    decide
  refine ⟨hreadable, ?_⟩
  exact (interpolation_undoes_writing _ _ hreadable).trans (by decide +kernel)

end Stencil
