import Stencil.Lowering.Node
import Stencil.Proofs.Folding
import Stencil.Proofs.WrittenText

/-!
# The values of literals

The host language gives every string literal a value. Of an interpreted literal it is the text
between the quotes with every escape replaced by its character; a line feed cannot stand there. A
raw literal holds whatever stands between its backquotes, line feeds too, except that carriage
returns are dropped.

An interpreted literal has the text that it was written for as its value, since a quote, a backslash
and a line break are escaped and nothing else means anything in it. A raw literal has not: nothing
in it can be escaped, so a carriage return is lost.

The reader knows the escapes that are written here and refuses all others.

## Main results

* `readLiteral_quote`, `readLiteral_raw`: a written literal is read to its end, whatever follows it.
* `literalValue?_textLiteral`: the literal of a text is one literal, and this is its value.
* `static_text_keeps_value_iff`: **text without expressions is lowered to one literal, and its value
  is the folded text if and only if that holds a backquote or no carriage return**.
-/

namespace Stencil

namespace Host

/-! ### Reading literals -/

/-- The character that an escape stands for, by what follows the backslash. -/
def unescape? (e : Char) : Option Char :=
  if e = '"' then some '"'
  else if e = '\\' then some '\\'
  else if e = 'n' then some '\n'
  else if e = 'r' then some '\r'
  else if e = 't' then some '\t'
  else none

/-- The value of an interpreted literal after its opening quote, and what follows its closing one.
-/
def readQuoted : List Char → Option (List Char × List Char)
  | [] => none
  | '"' :: rest => some ([], rest)
  | '\\' :: e :: rest =>
      (unescape? e).bind fun c => (readQuoted rest).map fun (value, rest) => (c :: value, rest)
  | c :: rest =>
      if c = '\\' ∨ c = '\n' then none
      else (readQuoted rest).map fun (value, rest) => (c :: value, rest)

/-- The text without carriage returns. -/
def withoutReturns (s : List Char) : List Char := s.filter (· != '\r')

/-- The value of a raw literal after its opening backquote, and what follows its closing one. -/
def readRaw (s : List Char) : Option (List Char × List Char) :=
  (Chars.cut ['\x60'] s).map fun (text, rest) => (withoutReturns text, rest)

/-- The value of the string literal at the beginning of a code, and what follows it. -/
def readLiteral : List Char → Option (List Char × List Char)
  | '"' :: rest => readQuoted rest
  | '\x60' :: rest => readRaw rest
  | _ => none

/-- The value of a code that is one string literal, with nothing before or after it. -/
def literalValue? (code : String) : Option String :=
  match readLiteral code.toList with
  | some (value, []) => some (String.ofList value)
  | _ => none

/-! ### Interpreted literals -/

/-- An escape is read as its character. -/
theorem readQuoted_escape {e c : Char} (h : unescape? e = some c) (rest : List Char) :
    readQuoted ('\\' :: e :: rest) =
      (readQuoted rest).map fun (value, rest) => (c :: value, rest) := by
  simp only [readQuoted, h, Option.bind_some]

/-- A character that is no quote, no backslash and no line feed stands for itself. -/
theorem readQuoted_plain {c : Char} (hquote : c ≠ '"') (hescape : c ≠ '\\') (hfeed : c ≠ '\n')
    (rest : List Char) :
    readQuoted (c :: rest) = (readQuoted rest).map fun (value, rest) => (c :: value, rest) := by
  simp only [readQuoted, hescape, hfeed, or_self, if_false, false_implies, implies_true]

/-- A character that is written into an interpreted literal is read back. -/
theorem readQuoted_escapeChar (c : Char) (rest : List Char) :
    readQuoted (escapeChar c ++ rest) =
      (readQuoted rest).map fun (value, rest) => (c :: value, rest) := by
  unfold escapeChar
  split_ifs with hquote hescape hfeed hreturn htab
  · exact readQuoted_escape (e := '"') (congrArg some hquote.symm) rest
  · exact readQuoted_escape (e := '\\') (congrArg some hescape.symm) rest
  · exact readQuoted_escape (e := 'n') (congrArg some hfeed.symm) rest
  · exact readQuoted_escape (e := 'r') (congrArg some hreturn.symm) rest
  · exact readQuoted_escape (e := 't') (congrArg some htab.symm) rest
  · exact readQuoted_plain hquote hescape hfeed rest

/-- **An interpreted literal is read back to its end**, whatever follows it. -/
theorem readLiteral_quote (value rest : List Char) :
    readLiteral (quoteChars value ++ rest) = some (value, rest) := by
  have hinside : readQuoted (value.flatMap escapeChar ++ '"' :: rest) = some (value, rest) := by
    induction value with
    | nil => rfl
    | cons c value ih =>
        rw [List.flatMap_cons, List.append_assoc, readQuoted_escapeChar, ih]
        rfl
  rw [quoteChars, List.cons_append, List.cons_append, List.append_assoc]
  exact hinside

/-! ### Raw literals -/

/-- **A raw literal is read to its end**, whatever follows it. -/
theorem readLiteral_raw {text : List Char} (h : '\x60' ∉ text) (rest : List Char) :
    readLiteral ('\x60' :: text ++ '\x60' :: rest) = some (withoutReturns text, rest) := by
  have hearlier : ¬ ['\x60'] <:+: text ++ ['\x60'].dropLast := by
    rwa [List.dropLast_singleton, List.append_nil, List.singleton_infix_iff]
  have hcut := Chars.cut_append hearlier rest
  rw [List.append_assoc, List.singleton_append] at hcut
  rw [List.cons_append, readLiteral, readRaw, hcut]
  rfl

theorem withoutReturns_eq_self_iff {s : List Char} : withoutReturns s = s ↔ '\r' ∉ s := by
  rw [withoutReturns, List.filter_eq_self]
  constructor
  · intro h hmem
    exact absurd (h _ hmem) (by decide)
  · rintro h c hc
    rw [bne_iff_ne]
    rintro rfl
    exact h hc

/-! ### The literal of a text -/

theorem literalValue?_eq {code : String} {value : List Char}
    (h : readLiteral code.toList = some (value, [])) :
    literalValue? code = some (String.ofList value) := by
  rw [literalValue?, h]

/-- **The literal of a text is one literal**, and its value is the text, without carriage returns if
the literal is a raw one. -/
theorem literalValue?_textLiteral (value : String) :
    literalValue? (textLiteral value) =
      some (if '\x60' ∈ value.toList then value
        else String.ofList (withoutReturns value.toList)) := by
  have hcontains : Text.contains "\x60" value = true ↔ '\x60' ∈ value.toList :=
    Text.contains_char_iff rfl
  rw [textLiteral]
  by_cases hmem : '\x60' ∈ value.toList
  · rw [if_pos (hcontains.mpr hmem)]
    have hread := readLiteral_quote value.toList []
    rw [List.append_nil, ← toList_quote] at hread
    rw [literalValue?_eq hread, if_pos hmem, String.ofList_toList]
  · rw [if_neg (mt hcontains.mp hmem)]
    have htext : ("\x60" ++ value ++ "\x60").toList = '\x60' :: value.toList ++ ['\x60'] := by
      simp
    rw [literalValue?_eq (htext ▸ readLiteral_raw hmem []), if_neg hmem]

/-- The literal of a text has the text as its value unless it loses a carriage return. -/
theorem literalValue?_textLiteral_eq_self_iff (value : String) :
    literalValue? (textLiteral value) = some value ↔
      '\x60' ∈ value.toList ∨ '\r' ∉ value.toList := by
  rw [literalValue?_textLiteral, Option.some.injEq]
  split
  · rename_i hmem
    simp [hmem]
  · rename_i hmem
    rw [← String.toList_inj, String.toList_ofList, withoutReturns_eq_self_iff]
    simp [hmem]

end Host

/-! ### Text without expressions -/

/-- Text without expressions that is not blank is lowered to one literal. -/
theorem Node.lower_static (rt : Runtime) {value : String}
    (hopen : ¬ Segment.opening <:+: value.toList) (hblank : Text.isBlank value = false) :
    (Node.text value).lower rt = pure (.text (Host.textLiteral (Text.fold value))) := by
  have hsegments : Segment.ofText value = [.literal (Text.fold value)] := by
    rw [Segment.ofText, Segment.split_literal hopen, Segment.literals]
    have hne : Chars.fold value.toList ≠ [] := by
      rw [Ne, Chars.fold_eq_nil_iff, Bool.not_eq_true]
      exact hblank
    split
    · rename_i hnil
      exact absurd hnil hne
    · rename_i c rest hfold
      rw [Text.fold, hfold]
  rw [Node.lower, hsegments, Host.segments, List.map_singleton, String.intercalate_singleton,
    Host.segment]

/-- **Static text and its value.** Text that holds no opening pair of braces and is not blank is
lowered to exactly one string literal. The value of the literal is the text on one line, of which
carriage returns are lost in a raw literal; so it is that text if and only if a backquote stands in
the text, which makes the literal an interpreted one, or folding leaves no carriage return. -/
theorem static_text_keeps_value_iff (rt : Runtime) (value : String)
    (hopen : ¬ Segment.opening <:+: value.toList) (hblank : Text.isBlank value = false) :
    ∃ code, (Node.text value).lower rt = pure (.text code) ∧
      Host.literalValue? code =
        some (if '\x60' ∈ value.toList then Text.fold value
          else String.ofList (Host.withoutReturns (Text.fold value).toList)) ∧
      (Host.literalValue? code = some (Text.fold value) ↔
        '\x60' ∈ value.toList ∨ '\r' ∉ (Text.fold value).toList) := by
  have hmem : '\x60' ∈ (Text.fold value).toList ↔ '\x60' ∈ value.toList := by
    rw [Text.toList_fold]
    exact Chars.mem_fold_iff (by decide)
  refine ⟨_, Node.lower_static rt hopen hblank, ?_, ?_⟩
  · rw [Host.literalValue?_textLiteral]
    simp only [hmem]
  · rw [Host.literalValue?_textLiteral_eq_self_iff, hmem]

/-- A carriage return, a quote and a backslash beside a backquote, on two lines. -/
theorem static_text_with_backquote :
    ¬ Segment.opening <:+: " a\r\x60\"\n  \\\x7b".toList ∧
    Text.isBlank " a\r\x60\"\n  \\\x7b" = false ∧
    ∃ code, (Node.text " a\r\x60\"\n  \\\x7b").lower ⟨"gas"⟩ = pure (.text code) ∧
      Host.literalValue? code = some "a\r\x60\" \\\x7b" := by
  have hopen : ¬ Segment.opening <:+: " a\r\x60\"\n  \\\x7b".toList := by decide
  have hblank : Text.isBlank " a\r\x60\"\n  \\\x7b" = false := by decide
  obtain ⟨code, hlower, -, hvalue⟩ := static_text_keeps_value_iff ⟨"gas"⟩ _ hopen hblank
  exact ⟨hopen, hblank, code, hlower, hvalue.mpr (.inl (by decide))⟩

/-- A carriage return between two letters is lost: the text has three characters on its line, and
the value of its literal has two. -/
theorem carriage_return_lost :
    ¬ Segment.opening <:+: "a\rb".toList ∧ Text.isBlank "a\rb" = false ∧
    (Node.text "a\rb").lower ⟨"gas"⟩ = pure (.text "\x60a\rb\x60") ∧
    Host.literalValue? "\x60a\rb\x60" = some "ab" ∧ Text.fold "a\rb" = "a\rb" := by
  refine ⟨by decide, by decide, ?_, by decide, by decide⟩
  exact Node.lower_static ⟨"gas"⟩ (by decide) (by decide)

end Stencil
