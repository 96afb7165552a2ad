import Stencil.Document
import Mathlib.Data.List.TakeWhile
import Mathlib.Data.Nat.Find

/-!
# The grammar of blocks

The grammar says which tokens stand in a host file without saying how to look for them. A token is
a dollar sign, a name, and a body between braces with a second dollar sign; no backslash stands
before the closing brace. The file is scanned from left to right: the next token is the one that
begins first and, of those that begin there, the shortest; the scan goes on after it.

Which bodies are allowed is a parameter. The grammar allows them all. The blocks that are found are
those of the grammar with bodies that are not empty: where the grammar has a token with an empty
body, the search passes over its closing mark and takes the next one, or finds no block there.

## Main results

* `Scan.exists`, `Scan.unique`: every text has one scan.
* `scan_pieces`: the pieces of a text are its scan with bodies that are not empty.
* `blocks_follow_grammar_iff`: **the blocks of a text are those of the grammar exactly when no
  token of the grammar has an empty body.**
-/

namespace Stencil.Document

/-! ### Tokens and scans -/

/-- A token, with the text between the token before it and its own beginning. -/
structure Token where
  gap : List Char
  name : List Char
  body : List Char
deriving DecidableEq, Repr

/-- The text of a token. -/
def Token.source (x : Token) : List Char :=
  '$' :: x.name ++ '\x7b' :: x.body ++ ['\x7d', '$']

section Grammar

variable (allowed : List Char → Prop)

/-- The token stands in the text, with its gap before it and `after` behind it. -/
structure Occurs (s : List Char) (x : Token) (after : List Char) : Prop where
  text : s = x.gap ++ x.source ++ after
  name : ∀ c ∈ x.name, isNameChar c
  unescaped : x.body.getLast? ≠ some '\\'
  body : allowed x.body

/-- The token is the first one: none begins before it, and none that begins where it does ends
before it. -/
structure IsFirst (s : List Char) (x : Token) (after : List Char) : Prop
    extends Occurs allowed s x after where
  leftmost : ∀ y rest, Occurs allowed s y rest → x.gap.length ≤ y.gap.length
  shortest : ∀ y rest, Occurs allowed s y rest → y.gap.length = x.gap.length →
    x.body.length ≤ y.body.length

/-- The tokens of a text, from left to right. -/
inductive Scan : List Char → List Token → Prop
  | stop {s : List Char} : (∀ x after, ¬ Occurs allowed s x after) → Scan s []
  | next {s after : List Char} {x : Token} {xs : List Token} :
      IsFirst allowed s x after → Scan after xs → Scan s (x :: xs)

end Grammar

/-- The blocks for tokens, the first of which has its gap at a byte offset. -/
def blocksOf (file : Option String) : Nat → List Token → List Block
  | _, [] => []
  | offset, x :: xs =>
      let start := offset + (String.ofList x.gap).utf8ByteSize
      let stop := start + (String.ofList x.source).utf8ByteSize
      { name := String.ofList x.name
        value := Text.trim (String.ofList x.body)
        file
        start
        stop } :: blocksOf file stop xs

/-! ### Every text has one scan -/

variable {allowed : List Char → Prop}

/-- The name that begins a text is what the characters of a name go on for. -/
theorem takeWhile_isNameChar {name rest : List Char} (h : ∀ c ∈ name, isNameChar c) :
    (name ++ '\x7b' :: rest).takeWhile isNameChar = name ∧
      (name ++ '\x7b' :: rest).dropWhile isNameChar = '\x7b' :: rest := by
  have hbrace : isNameChar '\x7b' = false := by decide
  rw [List.takeWhile_append_of_pos h, List.dropWhile_append_of_pos h]
  simp [hbrace]

/-- Of two tokens that begin at one place only the bodies can differ. -/
theorem Occurs.same_beginning {s a b : List Char} {x y : Token} (hx : Occurs allowed s x a)
    (hy : Occurs allowed s y b) (h : x.gap.length = y.gap.length) :
    x.gap = y.gap ∧ x.name = y.name ∧
      x.body ++ '\x7d' :: '$' :: a = y.body ++ '\x7d' :: '$' :: b := by
  have htext : x.gap ++ (x.source ++ a) = y.gap ++ (y.source ++ b) := by
    rw [← List.append_assoc, ← hx.text, hy.text, List.append_assoc]
  obtain ⟨hgap, hrest⟩ := List.append_inj htext h
  simp only [Token.source, List.cons_append, List.append_assoc, List.nil_append, List.cons.injEq,
    true_and] at hrest
  have hname : x.name = y.name := by
    rw [← (takeWhile_isNameChar hx.name).1, hrest, (takeWhile_isNameChar hy.name).1]
  rw [hname] at hrest
  exact ⟨hgap, hname, (List.cons.inj (List.append_cancel_left hrest)).2⟩

/-- There is one first token. -/
theorem IsFirst.unique {s a b : List Char} {x y : Token} (hx : IsFirst allowed s x a)
    (hy : IsFirst allowed s y b) : x = y ∧ a = b := by
  have hgap : x.gap.length = y.gap.length :=
    Nat.le_antisymm (hx.leftmost y b hy.toOccurs) (hy.leftmost x a hx.toOccurs)
  have hbody : x.body.length = y.body.length :=
    Nat.le_antisymm (hx.shortest y b hy.toOccurs hgap.symm) (hy.shortest x a hx.toOccurs hgap)
  obtain ⟨hgaps, hnames, hrest⟩ := hx.toOccurs.same_beginning hy.toOccurs hgap
  obtain ⟨hbodies, hafter⟩ := List.append_inj hrest hbody
  obtain ⟨gap, name, body⟩ := x
  obtain ⟨gap', name', body'⟩ := y
  simp_all

/-- **A text has one scan only.** -/
theorem Scan.unique {s : List Char} {xs ys : List Token} (hx : Scan allowed s xs)
    (hy : Scan allowed s ys) : xs = ys := by
  induction hx generalizing ys with
  | stop hnone =>
      cases hy with
      | stop _ => rfl
      | next hfirst _ => exact absurd hfirst.toOccurs (hnone _ _)
  | next hfirst _ ih =>
      cases hy with
      | stop hnone => exact absurd hfirst.toOccurs (hnone _ _)
      | next hfirst' hrest' =>
          obtain ⟨rfl, rfl⟩ := hfirst.unique hfirst'
          rw [ih hrest']

/-- Where a token stands there is a first one: take the least gap, and then the least body. -/
theorem IsFirst.exists {s after : List Char} {x : Token} (h : Occurs allowed s x after) :
    ∃ y rest, IsFirst allowed s y rest := by
  classical
  have hgaps : ∃ n y rest, Occurs allowed s y rest ∧ y.gap.length = n := ⟨_, x, after, h, rfl⟩
  obtain ⟨y, rest, hy, hgap⟩ := Nat.find_spec hgaps
  have hbodies : ∃ m y rest, Occurs allowed s y rest ∧ y.gap.length = Nat.find hgaps ∧
      y.body.length = m := ⟨_, y, rest, hy, hgap, rfl⟩
  obtain ⟨z, rest, hz, hgap, hbody⟩ := Nat.find_spec hbodies
  refine ⟨z, rest, hz, fun w more hw => ?_, fun w more hw heq => ?_⟩
  · rw [hgap]
    exact Nat.find_min' hgaps ⟨w, more, hw, rfl⟩
  · rw [hbody]
    exact Nat.find_min' hbodies ⟨w, more, hw, heq.trans hgap, rfl⟩

/-- What follows a token is shorter than the text. -/
theorem Occurs.length_after_lt {s after : List Char} {x : Token} (h : Occurs allowed s x after) :
    after.length < s.length := by
  rw [h.text]
  simp only [Token.source, List.length_append, List.length_cons]
  omega

/-- **Every text has a scan.** -/
theorem Scan.exists (allowed : List Char → Prop) (s : List Char) : ∃ xs, Scan allowed s xs := by
  by_cases h : ∃ x after, Occurs allowed s x after
  · obtain ⟨x, after, hx⟩ := h
    obtain ⟨y, rest, hy⟩ := IsFirst.exists hx
    have := hy.toOccurs.length_after_lt
    obtain ⟨ys, hys⟩ := Scan.exists allowed rest
    exact ⟨y :: ys, .next hy hys⟩
  · exact ⟨[], .stop fun x after hx => h ⟨x, after, hx⟩⟩
termination_by s.length

/-- The bodies of a scan are allowed. -/
theorem Scan.allowed_body {s : List Char} {xs : List Token} (h : Scan allowed s xs) :
    ∀ x ∈ xs, allowed x.body := by
  induction h with
  | stop _ => simp
  | next hfirst _ ih => exact List.forall_mem_cons.mpr ⟨hfirst.body, ih⟩

/-- A scan in which all bodies are allowed by a stricter rule is the scan by that rule. -/
theorem Scan.restrict {strict : List Char → Prop} (hsub : ∀ body, strict body → allowed body)
    {s : List Char} {xs : List Token} (h : Scan allowed s xs) (hxs : ∀ x ∈ xs, strict x.body) :
    Scan strict s xs := by
  have hweaken : ∀ {s y rest}, Occurs strict s y rest → Occurs allowed s y rest :=
    fun hy => ⟨hy.text, hy.name, hy.unescaped, hsub _ hy.body⟩
  induction h with
  | stop hnone => exact .stop fun x after hx => hnone x after (hweaken hx)
  | next hfirst _ ih =>
      obtain ⟨hbody, hrest⟩ := List.forall_mem_cons.mp hxs
      refine .next ⟨⟨hfirst.text, hfirst.name, hfirst.unescaped, hbody⟩, ?_, ?_⟩ (ih hrest)
      · exact fun y rest hy => hfirst.leftmost y rest (hweaken hy)
      · exact fun y rest hy => hfirst.shortest y rest (hweaken hy)

/-! ### Closing marks -/

/-- The closing mark that is found after a character `c` is not escaped, and is the first such. -/
theorem toClosing_some {c : Char} {s found after : List Char}
    (h : toClosing (c = '\\') s = some (found, after)) :
    found.getLastD c ≠ '\\' ∧ ∀ other rest, s = other ++ '\x7d' :: '$' :: rest →
      other.getLastD c ≠ '\\' → found.length ≤ other.length := by
  induction s generalizing c found with
  | nil => cases h
  | cons d s ih =>
      rw [toClosing] at h
      split at h
      · rename_i hclose
        obtain ⟨rfl, rfl⟩ := Prod.mk.inj (Option.some.inj h)
        simp only [Bool.and_eq_true, Bool.not_eq_true', decide_eq_false_iff_not] at hclose
        exact ⟨hclose.2, fun _ _ _ _ => Nat.zero_le _⟩
      · rename_i hopen
        obtain ⟨⟨inner, tail⟩, hrec, heq⟩ := Option.map_eq_some_iff.mp h
        obtain ⟨rfl, rfl⟩ := Prod.mk.inj heq
        obtain ⟨hlast, hfirst⟩ := ih hrec
        refine ⟨by rwa [List.getLastD_cons], fun other rest hs hother => ?_⟩
        cases other with
        | nil =>
            obtain ⟨rfl, rfl⟩ := List.cons.inj hs
            exact absurd (by simpa using hother) hopen
        | cons e other =>
            obtain ⟨rfl, rfl⟩ := List.cons.inj hs
            rw [List.getLastD_cons] at hother
            exact Nat.succ_le_succ (hfirst other rest rfl hother)

/-- Where no closing mark is found, all are escaped. -/
theorem toClosing_none {c : Char} {s other rest : List Char} (h : toClosing (c = '\\') s = none)
    (hs : s = other ++ '\x7d' :: '$' :: rest) : other.getLastD c = '\\' := by
  induction s generalizing c other with
  | nil => simp at hs
  | cons d s ih =>
      rw [toClosing] at h
      split at h
      · cases h
      · rename_i hopen
        cases other with
        | nil =>
            obtain ⟨rfl, rfl⟩ := List.cons.inj hs
            simpa using hopen
        | cons e other =>
            obtain ⟨rfl, rfl⟩ := List.cons.inj hs
            rw [List.getLastD_cons]
            exact ih (Option.map_eq_none_iff.mp h) rfl

/-- The last character of a text that is not empty. -/
theorem getLast?_cons_eq (c : Char) (s : List Char) : (c :: s).getLast? = some (s.getLastD c) := by
  rw [List.getLast?_cons, List.getLastD_eq_getLast?]

/-- The body that is found is not empty and not escaped, and is the shortest such. -/
theorem body_some {s found after : List Char} (h : body s = some (found, after)) :
    found ≠ [] ∧ found.getLast? ≠ some '\\' ∧
      ∀ other rest, s = other ++ '\x7d' :: '$' :: rest → other ≠ [] →
        other.getLast? ≠ some '\\' → found.length ≤ other.length := by
  cases s with
  | nil => cases h
  | cons c s =>
      obtain ⟨⟨inner, tail⟩, hclosing, heq⟩ := Option.map_eq_some_iff.mp h
      obtain ⟨rfl, rfl⟩ := Prod.mk.inj heq
      obtain ⟨hlast, hfirst⟩ := toClosing_some hclosing
      refine ⟨List.cons_ne_nil _ _, by simpa [getLast?_cons_eq] using hlast, ?_⟩
      intro other rest hs hne hother
      obtain ⟨e, other, rfl⟩ := List.exists_cons_of_ne_nil hne
      obtain ⟨rfl, rfl⟩ := List.cons.inj hs
      refine Nat.succ_le_succ (hfirst other rest rfl ?_)
      simpa [getLast?_cons_eq] using hother

/-- Where no body is found, every closing mark follows the opening one or is escaped. -/
theorem body_none {s other rest : List Char} (h : body s = none)
    (hs : s = other ++ '\x7d' :: '$' :: rest) (hne : other ≠ []) :
    other.getLast? = some '\\' := by
  obtain ⟨c, other, rfl⟩ := List.exists_cons_of_ne_nil hne
  rw [hs] at h
  rw [getLast?_cons_eq, toClosing_none (Option.map_eq_none_iff.mp h) rfl]

/-! ### The pieces of a text are its scan -/

/-- A token that begins a text. -/
theorem Occurs.of_gap_nil {s after : List Char} {x : Token} (h : Occurs allowed ('$' :: s) x after)
    (hgap : x.gap = []) :
    s.takeWhile isNameChar = x.name ∧
      s.dropWhile isNameChar = '\x7b' :: (x.body ++ '\x7d' :: '$' :: after) := by
  have htext := h.text
  rw [hgap] at htext
  simp only [Token.source, List.nil_append, List.cons_append, List.append_assoc, List.cons.injEq,
    true_and] at htext
  rw [htext]
  exact takeWhile_isNameChar h.name

/-- The block that is found after a dollar sign is the first token. -/
theorem isFirst_of_blockAfter {s name found after : List Char}
    (h : blockAfter s = some (name, found, after)) :
    IsFirst (· ≠ []) ('$' :: s) ⟨[], name, found⟩ after := by
  have htext := eq_of_blockAfter h
  unfold blockAfter at h
  split at h
  · rename_i inner hdrop
    obtain ⟨⟨b, a⟩, hbody, heq⟩ := Option.map_eq_some_iff.mp h
    obtain ⟨rfl, hrest⟩ := Prod.mk.inj heq
    obtain ⟨rfl, rfl⟩ := Prod.mk.inj hrest
    obtain ⟨hne, hlast, hfirst⟩ := body_some hbody
    refine ⟨⟨?_, ?_, hlast, hne⟩, fun _ _ _ => Nat.zero_le _, fun y rest hy hgap => ?_⟩
    · simpa [Token.source] using htext
    · exact fun c hc => List.mem_takeWhile_imp hc
    · obtain ⟨-, hdrop'⟩ := hy.of_gap_nil (List.length_eq_zero_iff.mp hgap)
      rw [hdrop] at hdrop'
      exact hfirst y.body rest (List.cons.inj hdrop').2 hy.body hy.unescaped
  · cases h

/-- Where no block is found after a dollar sign, no token begins with that sign. -/
theorem gap_ne_nil_of_blockAfter_none {s after : List Char} {x : Token} (h : blockAfter s = none)
    (hx : Occurs (· ≠ []) ('$' :: s) x after) : x.gap ≠ [] := by
  intro hgap
  obtain ⟨-, hdrop⟩ := hx.of_gap_nil hgap
  unfold blockAfter at h
  rw [hdrop] at h
  exact hx.unescaped (body_none (Option.map_eq_none_iff.mp h) rfl hx.body)

/-- A character more in the gap of the first token. -/
def shift (c : Char) : List Token → List Token
  | [] => []
  | x :: xs => { x with gap := c :: x.gap } :: xs

/-- A token that does not begin a text stands in the rest of it. -/
theorem occurs_cons_iff {c : Char} {s after : List Char} {x : Token} :
    Occurs allowed (c :: s) { x with gap := c :: x.gap } after ↔ Occurs allowed s x after := by
  constructor
  · rintro ⟨htext, hname, hlast, hbody⟩
    exact ⟨(List.cons.inj htext).2, hname, hlast, hbody⟩
  · rintro ⟨rfl, hname, hlast, hbody⟩
    exact ⟨rfl, hname, hlast, hbody⟩

theorem Occurs.exists_of_gap_ne_nil {c : Char} {s after : List Char} {x : Token}
    (h : Occurs allowed (c :: s) x after) (hgap : x.gap ≠ []) :
    ∃ y : Token, x = { y with gap := c :: y.gap } ∧ Occurs allowed s y after := by
  obtain ⟨gap, name, body⟩ := x
  obtain ⟨d, gap, rfl⟩ := List.exists_cons_of_ne_nil hgap
  have htext := h.text
  obtain ⟨rfl, -⟩ := List.cons.inj htext
  exact ⟨⟨gap, name, body⟩, rfl, occurs_cons_iff.mp h⟩

/-- **One step of the search**: a character with which no token begins goes into the next gap. -/
theorem Scan.shift {c : Char} {s : List Char} {xs : List Token} (h : Scan allowed s xs)
    (hgap : ∀ x after, Occurs allowed (c :: s) x after → x.gap ≠ []) :
    Scan allowed (c :: s) (shift c xs) := by
  cases h with
  | stop hnone =>
      refine .stop fun x after hx => ?_
      obtain ⟨y, rfl, hy⟩ := hx.exists_of_gap_ne_nil (hgap x after hx)
      exact hnone y after hy
  | next hfirst hrest =>
      refine .next ⟨occurs_cons_iff.mpr hfirst.toOccurs, ?_, ?_⟩ hrest
      · intro x rest hx
        obtain ⟨y, rfl, hy⟩ := hx.exists_of_gap_ne_nil (hgap x rest hx)
        exact Nat.succ_le_succ (hfirst.leftmost y rest hy)
      · intro x rest hx hlength
        obtain ⟨y, rfl, hy⟩ := hx.exists_of_gap_ne_nil (hgap x rest hx)
        exact hfirst.shortest y rest hy (Nat.succ.inj hlength)

/-- The tokens of pieces, with `gap` before the first piece. -/
def tokensAfter (gap : List Char) : List Piece → List Token
  | [] => []
  | .text chars :: rest => tokensAfter (gap ++ chars) rest
  | .block name body :: rest => ⟨gap, name, body⟩ :: tokensAfter [] rest

theorem tokensAfter_cons (c : Char) (gap : List Char) (ps : List Piece) :
    tokensAfter (c :: gap) ps = shift c (tokensAfter gap ps) := by
  induction ps generalizing gap with
  | nil => rfl
  | cons p ps ih =>
      cases p with
      | text chars => exact ih (gap ++ chars)
      | block name body => rfl

theorem tokensAfter_pushChar (c : Char) (ps : List Piece) :
    tokensAfter [] (pushChar c ps) = shift c (tokensAfter [] ps) := by
  rw [← tokensAfter_cons]
  unfold pushChar
  split <;> rfl

/-- **The pieces of a text are its scan with bodies that are not empty.** -/
theorem scan_pieces (s : List Char) : Scan (· ≠ []) s (tokensAfter [] (pieces s)) := by
  fun_induction pieces s with
  | case1 =>
      refine .stop fun x after hx => ?_
      have := hx.length_after_lt
      simp at this
  | case2 rest name found after h ih => exact .next (isFirst_of_blockAfter h) ih
  | case3 rest h ih =>
      rw [tokensAfter_pushChar]
      exact ih.shift fun x after hx => gap_ne_nil_of_blockAfter_none h hx
  | case4 c rest hc ih =>
      rw [tokensAfter_pushChar]
      refine ih.shift fun x after hx hgap => hc ?_
      have htext := hx.text
      rw [hgap] at htext
      exact (List.cons.inj htext).1

/-! ### Blocks -/

theorem byteSize_eq (s : List Char) : byteSize s = (String.ofList s).utf8ByteSize := by
  induction s with
  | nil => rfl
  | cons c s ih =>
      have hcons : String.ofList (c :: s) = String.singleton c ++ String.ofList s := by
        rw [String.singleton_eq_ofList, ← String.ofList_append]
        rfl
      rw [byteSize, ih, hcons, String.utf8ByteSize_append, String.utf8ByteSize_singleton]

theorem byteSize_append (s t : List Char) : byteSize (s ++ t) = byteSize s + byteSize t := by
  rw [byteSize_eq, byteSize_eq, byteSize_eq, String.ofList_append, String.utf8ByteSize_append]

theorem byteSize_eq_zero {s : List Char} : byteSize s = 0 ↔ s = [] := by
  cases s with
  | nil => simp [byteSize]
  | cons c s =>
      have := c.utf8Size_pos
      simp [byteSize]
      omega

/-- The blocks among the parts of pieces are those of the tokens. -/
theorem filterMap_block?_partsFrom (file : Option String) (offset : Nat) (gap : List Char)
    (ps : List Piece) :
    (partsFrom file (offset + byteSize gap) ps).filterMap Part.block? =
      blocksOf file offset (tokensAfter gap ps) := by
  induction ps generalizing offset gap with
  | nil => rfl
  | cons p ps ih =>
      cases p with
      | text chars =>
          rw [partsFrom, tokensAfter, List.filterMap_cons, ← ih, byteSize_append,
            Nat.add_assoc]
          rfl
      | block name body =>
          have hrest := ih (offset + byteSize gap + byteSize (Piece.block name body).source) []
          rw [byteSize, Nat.add_zero] at hrest
          rw [partsFrom, tokensAfter, List.filterMap_cons, blocksOf, hrest]
          simp [Part.block?, byteSize_eq, Piece.source, Token.source, Text.trim]

/-- A block is longer than its name and its marks exactly when its body is not empty. -/
theorem bodies_ne_nil_iff (file : Option String) (offset : Nat) (xs : List Token) :
    (∀ x ∈ xs, x.body ≠ []) ↔
      ∀ b ∈ blocksOf file offset xs, b.start + b.name.utf8ByteSize + 4 < b.stop := by
  induction xs generalizing offset with
  | nil => simp [blocksOf]
  | cons x xs ih =>
      have hsource : byteSize x.source = byteSize x.name + byteSize x.body + 4 := by
        have hdollar : '$'.utf8Size = 1 := rfl
        have hopen : '\x7b'.utf8Size = 1 := rfl
        have hclose : '\x7d'.utf8Size = 1 := rfl
        simp only [Token.source, byteSize, byteSize_append, hdollar, hopen, hclose,
          List.cons_append]
        omega
      have hbody := byteSize_eq_zero (s := x.body)
      rw [blocksOf, List.forall_mem_cons, List.forall_mem_cons, ← ih]
      refine and_congr ?_ Iff.rfl
      simp only [← byteSize_eq, hsource, Ne, ← hbody]
      omega

/-- **The blocks of a text are those of the grammar exactly when no token of the grammar has an
empty body.** The scan by the grammar exists and is the only one; what is found instead is the
scan by the grammar without empty bodies. -/
theorem blocks_follow_grammar_iff (file : Option String) (text : String) :
    (∃! tokens, Scan (fun _ => True) text.toList tokens) ∧
    (∀ tokens, Scan (fun _ => True) text.toList tokens →
      (blocks file text = blocksOf file 0 tokens ↔ ∀ x ∈ tokens, x.body ≠ [])) ∧
    ∃ tokens, Scan (· ≠ []) text.toList tokens ∧ blocks file text = blocksOf file 0 tokens := by
  have hfound := scan_pieces text.toList
  have hblocks : blocks file text = blocksOf file 0 (tokensAfter [] (pieces text.toList)) := by
    simpa [blocks, parts, byteSize] using
      filterMap_block?_partsFrom file 0 [] (pieces text.toList)
  refine ⟨?_, fun tokens hscan => ⟨fun heq => ?_, fun hbodies => ?_⟩, _, hfound, hblocks⟩
  · obtain ⟨tokens, hscan⟩ := Scan.exists (fun _ => True) text.toList
    exact ⟨tokens, hscan, fun others hothers => hothers.unique hscan⟩
  · rw [bodies_ne_nil_iff file 0, ← heq, hblocks, ← bodies_ne_nil_iff]
    exact hfound.allowed_body
  · rw [hblocks, hfound.unique (hscan.restrict (fun _ _ => trivial) hbodies)]

/-- An empty body is a token of the grammar, but its closing mark is passed over: the block that is
found reaches to the next one. -/
theorem empty_body_passed_over :
    Scan (fun _ => True) "$a\x7b\x7d$ b \x7d$".toList [⟨[], ['a'], []⟩] ∧
      blocksOf none 0 [⟨[], ['a'], []⟩] = [{ name := "a", value := "", start := 0, stop := 5 }] ∧
      blocks none "$a\x7b\x7d$ b \x7d$" =
        [{ name := "a", value := "\x7d$ b", start := 0, stop := 10 }] := by
  refine ⟨.next ⟨⟨rfl, ?_, ?_, trivial⟩, ?_, ?_⟩ (.stop fun x after hx => ?_), ?_, ?_⟩
  · simp [isNameChar]
  · simp
  · exact fun _ _ _ => Nat.zero_le _
  · exact fun _ _ _ _ => Nat.zero_le _
  · have hbrace : '\x7b' ∈ x.gap ++ x.source ++ after := by simp [Token.source]
    rw [← hx.text] at hbrace
    exact absurd hbrace (by decide)
  · decide
  · decide +kernel

end Stencil.Document
