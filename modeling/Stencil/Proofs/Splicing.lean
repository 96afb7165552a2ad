import Stencil.Proofs.BlockGrammar
import Stencil.Proofs.Folding
import Stencil.Proofs.Pass
import Mathlib.Data.String.Basic

/-!
# Code in the place of blocks

A host file is compiled part by part. Here the same is said with the byte offsets that the blocks
carry: the ranges of the blocks are tokens of the text, one after the other; between them the text
is copied byte by byte, and in their places stands what each block is compiled to, with one
numbering of loops for all of them.

## Main results

* `compileParts_agrees`: up to the reports, the parts are compiled as their blocks are in a row.
* `gapsFrom_blocksOf`, `occupies_of_mem_blocksOf`: what stands between the ranges and in them.
* `splicing_touches_only_blocks`: **the output is the text with the code of the blocks in their
  places**.
-/

namespace Stencil

/-! ### Passes that differ in their reports only -/

namespace Pass

variable {ω ω' α β ν : Type}

/-- The passes have the same result and leave the same next free number. -/
def Agrees (m : Pass ω α) (m' : Pass ω' α) : Prop :=
  ∀ n, (m.run n).result = (m'.run n).result ∧ (m.run n).next = (m'.run n).next

theorem agrees_pure (a : α) : (pure a : Pass ω α).Agrees (pure a : Pass ω' α) :=
  fun _ => ⟨rfl, rfl⟩

/-- Adding to the reports changes nothing else. -/
theorem agrees_mapObserved (f : ω → ω') (m : Pass ω α) : (m.mapObserved f).Agrees m :=
  fun _ => ⟨rfl, rfl⟩

/-- Passes one after the other agree if each of them does. -/
theorem Agrees.bind {m : Pass ω α} {m' : Pass ω' α} {f : α → Pass ω β} {f' : α → Pass ω' β}
    (hm : m.Agrees m') (hf : ∀ a, (f a).Agrees (f' a)) : (m >>= f).Agrees (m' >>= f') := by
  intro n
  obtain ⟨hresult, hnext⟩ := hm n
  rcases hrun : m n with ⟨result, next, seen⟩
  rcases hrun' : m' n with ⟨result', next', seen'⟩
  simp only [run, hrun, hrun'] at hresult hnext
  subst hresult hnext
  cases result with
  | error d =>
      simp only [run, bind_apply_error hrun, bind_apply_error hrun', and_self]
  | ok a =>
      simp only [run, bind_apply_ok hrun, bind_apply_ok hrun']
      exact hf a next

theorem Agrees.map {m : Pass ω α} {m' : Pass ω' α} (f : α → β) (h : m.Agrees m') :
    (f <$> m).Agrees (f <$> m') := by
  rw [map_eq_pure_bind, map_eq_pure_bind]
  exact h.bind fun a => agrees_pure (f a)

/-- Of every member that a walk visits there is one result. -/
theorem length_of_mapM {visit : ν → Pass ω β} {xs : List ν} {results : List β} {n : Nat}
    (h : ((xs.mapM visit).run n).result = .ok results) : results.length = xs.length := by
  exact (forall₂_of_mapM (R := fun _ _ => True) (fun _ _ _ _ => trivial)
    (returns_of_result h)).length_eq.symm

end Pass

/-- A block of another name than the three is taken as it is. -/
theorem BlockKind.ofName_eq_verbatim {name : String} (h : name ∉ ["html", "htmlEl", "htmlF"]) :
    ofName name = verbatim := by
  simp only [List.mem_cons, List.not_mem_nil, or_false, not_or] at h
  unfold ofName
  split <;> simp_all

namespace Document

/-! ### Parts and blocks -/

/-- The parts with code in the places of the blocks. -/
def fill : List Part → List String → String
  | [], _ => ""
  | .text value :: rest, codes => value ++ fill rest codes
  | .block _ :: rest, code :: codes => code ++ fill rest codes
  | .block _ :: rest, [] => fill rest []

/-- **Parts are compiled as their blocks are in a row**, one after the other from the number at
which the one before left off. -/
theorem compileParts_agrees (rt : Runtime) (parts : List Part) :
    (compileParts rt parts).Agrees
      (fill parts <$> (parts.filterMap Part.block?).mapM (Block.compile rt)) := by
  induction parts with
  | nil => exact Pass.agrees_pure ""
  | cons part rest ih =>
      cases part with
      | text value =>
          have hfill : fill (.text value :: rest) = (value ++ ·) ∘ fill rest := rfl
          rw [compileParts, hfill, List.filterMap_cons_none rfl, ← map_eq_pure_bind, comp_map]
          exact ih.map (value ++ ·)
      | block b =>
          have hblock : Part.block? (.block b) = some b := rfl
          rw [compileParts, List.filterMap_cons_some hblock, List.mapM_cons, map_eq_pure_bind,
            bind_assoc]
          refine (Pass.agrees_mapObserved _ _).bind fun first => ?_
          have hfill : fill (.block b :: rest) ∘ List.cons first = (first ++ ·) ∘ fill rest := rfl
          rw [← map_eq_pure_bind, ← map_eq_pure_bind, ← map_eq_pure_bind, ← comp_map, hfill,
            comp_map]
          exact ih.map (first ++ ·)

/-- The code of a host file is that of its parts with the code of its blocks in their places. -/
theorem compiled_eq (rt : Runtime) (path text : String) :
    compiled rt path text = fill (parts (some path) text) <$>
      (((blocks (some path) text).mapM (Block.compile rt)).run 0).result := by
  have hmap := congrArg Outcome.result (Pass.run_map (fill (parts (some path) text))
    ((blocks (some path) text).mapM (Block.compile rt)) 0)
  exact ((compileParts_agrees rt (parts (some path) text) 0).1).trans hmap

/-! ### Ranges of the text -/

/-- The text between two byte offsets. -/
def slice (text : String) (start stop : Nat) : String :=
  String.Pos.Raw.extract text ⟨start⟩ ⟨stop⟩

/-- The text from a byte offset on that no block covers: before each block, and after the last. -/
def gapsFrom (text : String) (offset : Nat) : List Block → List String
  | [] => [slice text offset text.utf8ByteSize]
  | b :: rest => slice text offset b.start :: gapsFrom text b.stop rest

/-- Code between gaps, of which there is one more. -/
def interleave : List String → List String → String
  | gap :: gaps, code :: codes => gap ++ code ++ interleave gaps codes
  | gap :: _, [] => gap
  | [], _ => ""

/-- The block occupies a token of the text. -/
structure Occupies (text : String) (b : Block) : Prop where
  nonempty : b.start < b.stop
  within : b.stop ≤ text.utf8ByteSize
  startsAtChar : String.Pos.Raw.IsValid text ⟨b.start⟩
  stopsAtChar : String.Pos.Raw.IsValid text ⟨b.stop⟩
  name : ∀ c ∈ b.name.toList, isNameChar c
  token : ∃ body, body ≠ "" ∧ Text.endsWith '\\' body = false ∧ b.value = Text.trim body ∧
    slice text b.start b.stop = "$" ++ b.name ++ "\x7b" ++ body ++ "\x7d$"

section Ranges

variable {text : String} {before found after : List Char}

theorem slice_eq (h : text.toList = before ++ found ++ after) :
    slice text (byteSize before) (byteSize before + byteSize found) = String.ofList found := by
  have htext : text = String.ofList (before ++ found ++ after) := by
    rw [← h, String.ofList_toList]
  rw [slice, htext, byteSize_eq, byteSize_eq, String.utf8ByteSize_ofList,
    String.utf8ByteSize_ofList]
  exact String.extract_of_valid before found after

/-- A byte offset after whole characters is a boundary of characters. -/
theorem isValid_byteSize (h : text.toList = before ++ after) :
    String.Pos.Raw.IsValid text ⟨byteSize before⟩ := by
  refine String.Pos.Raw.isValid_iff_exists_append.mpr
    ⟨String.ofList before, String.ofList after, ?_, ?_⟩
  · rw [← String.ofList_append, ← h, String.ofList_toList]
  · rw [byteSize_eq]
    rfl

theorem utf8ByteSize_eq (text : String) : text.utf8ByteSize = byteSize text.toList := by
  rw [byteSize_eq, String.ofList_toList]

end Ranges

/-! ### The tokens of a scan -/

/-- The text of tokens with the gaps before them. -/
def textOf (xs : List Token) : List Char := xs.flatMap fun x => x.gap ++ x.source

variable {allowed : List Char → Prop}

theorem textOf_cons (x : Token) (xs : List Token) :
    textOf (x :: xs) = x.gap ++ x.source ++ textOf xs := rfl

/-- There is one block for every token. -/
theorem length_blocksOf (file : Option String) (offset : Nat) (xs : List Token) :
    (blocksOf file offset xs).length = xs.length := by
  induction xs generalizing offset with
  | nil => rfl
  | cons x xs ih => rw [blocksOf, List.length_cons, List.length_cons, ih]

/-- Every token of a scan stands somewhere. -/
theorem Scan.exists_occurs {s : List Char} {xs : List Token} (h : Scan allowed s xs) :
    ∀ x ∈ xs, ∃ t after, Occurs allowed t x after := by
  induction h with
  | stop _ => simp
  | next hfirst _ ih => exact List.forall_mem_cons.mpr ⟨⟨_, _, hfirst.toOccurs⟩, ih⟩

/-- A token in a part of the text stands in the text. -/
theorem Occurs.append {s after : List Char} {x : Token} (h : Occurs allowed s x after)
    (rest : List Char) : Occurs allowed (s ++ rest) x (after ++ rest) :=
  ⟨by rw [h.text, List.append_assoc], h.name, h.unescaped, h.body⟩

/-- **No token stands in a gap**, since the scan would have found it before the token that ends the
gap. -/
theorem Scan.not_occurs_gap {s last : List Char} {xs : List Token} (h : Scan allowed s xs)
    (hs : s = textOf xs ++ last) :
    (∀ x ∈ xs, ∀ y after, ¬ Occurs allowed x.gap y after) ∧
      ∀ y after, ¬ Occurs allowed last y after := by
  induction h with
  | stop hnone =>
      obtain rfl : _ = last := hs
      exact ⟨by simp, hnone⟩
  | @next s rest x xs hfirst hscan ih =>
      have htext := hfirst.text
      rw [hs, textOf_cons, List.append_assoc] at htext
      obtain ⟨hgaps, hlast⟩ := ih (List.append_cancel_left htext).symm
      refine ⟨List.forall_mem_cons.mpr ⟨fun y after hy => ?_, hgaps⟩, hlast⟩
      have hstands := hy.append (x.source ++ rest)
      rw [← List.append_assoc, ← hfirst.text] at hstands
      have hleft := hfirst.leftmost y _ hstands
      rw [hy.text] at hleft
      simp only [Token.source, List.length_append, List.length_cons] at hleft
      omega

/-! ### The ranges of the blocks of a scan -/

section BlocksOf

variable {file : Option String} {text : String}

/-- The text around the first of the tokens, and where that token stops. -/
theorem text_around {before last : List Char} {x : Token} {xs : List Token}
    (h : text.toList = before ++ (textOf (x :: xs) ++ last)) :
    text.toList = before ++ x.gap ++ (x.source ++ (textOf xs ++ last)) ∧
      text.toList = before ++ x.gap ++ x.source ++ (textOf xs ++ last) ∧
      byteSize (before ++ x.gap ++ x.source) =
        byteSize before + byteSize x.gap + byteSize x.source := by
  refine ⟨?_, ?_, by rw [byteSize_append, byteSize_append]⟩
  · rw [h, textOf_cons]
    simp only [List.append_assoc]
  · rw [h, textOf_cons]
    simp only [List.append_assoc]

/-- Between the blocks stand the gaps of the scan. -/
theorem gapsFrom_blocksOf {before last : List Char} {xs : List Token}
    (h : text.toList = before ++ (textOf xs ++ last)) :
    gapsFrom text (byteSize before) (blocksOf file (byteSize before) xs) =
      xs.map (fun x => String.ofList x.gap) ++ [String.ofList last] := by
  induction xs generalizing before with
  | nil =>
      have hall : text.toList = before ++ last ++ [] := by simpa [textOf] using h
      have hsize : text.utf8ByteSize = byteSize before + byteSize last := by
        rw [utf8ByteSize_eq, hall, List.append_nil, byteSize_append]
      rw [blocksOf, gapsFrom, hsize, slice_eq hall]
      rfl
  | cons x xs ih =>
      obtain ⟨hgap, hrest, hstop⟩ := text_around h
      have hmore := ih hrest
      rw [hstop] at hmore
      rw [blocksOf, gapsFrom, List.map_cons, List.cons_append]
      simp only [← byteSize_eq]
      rw [slice_eq hgap, hmore]

/-- The blocks begin at or after the offset that they are counted from. -/
theorem le_start_of_mem_blocksOf {offset : Nat} {xs : List Token} {b : Block}
    (h : b ∈ blocksOf file offset xs) : offset ≤ b.start := by
  induction xs generalizing offset with
  | nil => cases h
  | cons x xs ih =>
      rcases List.mem_cons.mp h with rfl | hrest
      · exact Nat.le_add_right _ _
      · have := ih hrest
        omega

/-- The blocks stand one after the other. -/
theorem pairwise_blocksOf (offset : Nat) (xs : List Token) :
    (blocksOf file offset xs).Pairwise fun a b => a.stop ≤ b.start := by
  induction xs generalizing offset with
  | nil => exact List.Pairwise.nil
  | cons x xs ih =>
      exact List.pairwise_cons.mpr ⟨fun b hb => le_start_of_mem_blocksOf hb, ih _⟩

/-- A block occupies the token that it is read from. -/
theorem occupies_of_token {before last : List Char} {x : Token} {xs : List Token}
    (h : text.toList = before ++ (textOf (x :: xs) ++ last)) {t after : List Char}
    (hx : Occurs (· ≠ []) t x after) {b : Block}
    (hb : (blocksOf file (byteSize before) (x :: xs)).head? = some b) : Occupies text b := by
  obtain ⟨hgap, hrest, hstop⟩ := text_around h
  have hstart : byteSize (before ++ x.gap) = byteSize before + byteSize x.gap :=
    byteSize_append _ _
  have hsize : text.utf8ByteSize =
      byteSize before + byteSize x.gap + byteSize x.source + byteSize (textOf xs ++ last) := by
    rw [utf8ByteSize_eq, hrest, byteSize_append, hstop]
  have hpos : byteSize x.source ≠ 0 := by
    rw [Ne, byteSize_eq_zero]
    exact List.cons_ne_nil _ _
  rw [blocksOf, List.head?_cons] at hb
  cases hb
  simp only [← byteSize_eq]
  refine ⟨?_, ?_, ?_, ?_, ?_, String.ofList x.body, ?_, ?_, ?_, ?_⟩
  · show byteSize before + byteSize x.gap < byteSize before + byteSize x.gap + byteSize x.source
    omega
  · show byteSize before + byteSize x.gap + byteSize x.source ≤ text.utf8ByteSize
    omega
  · rw [← hstart]
    exact isValid_byteSize hgap
  · rw [← hstop]
    exact isValid_byteSize hrest
  · simpa using hx.name
  · have hbody : x.body ≠ [] := hx.body
    simpa using hbody
  · simpa [Text.endsWith] using hx.unescaped
  · rfl
  · rw [← hstart, slice_eq hrest]
    simp [Token.source, ← String.toList_inj]

/-- **Every block occupies its token.** -/
theorem occupies_of_mem_blocksOf {before last : List Char} {xs : List Token}
    (h : text.toList = before ++ (textOf xs ++ last))
    (htokens : ∀ x ∈ xs, ∃ t after, Occurs (· ≠ []) t x after) :
    ∀ b ∈ blocksOf file (byteSize before) xs, Occupies text b := by
  induction xs generalizing before with
  | nil =>
      intro b hb
      cases hb
  | cons x xs ih =>
      obtain ⟨⟨t, after, hx⟩, hxs⟩ := List.forall_mem_cons.mp htokens
      obtain ⟨-, hrest, hstop⟩ := text_around h
      have hmore := ih hrest hxs
      rw [hstop, byteSize_eq x.gap, byteSize_eq x.source] at hmore
      exact List.forall_mem_cons.mpr ⟨occupies_of_token h hx rfl, hmore⟩

end BlocksOf

/-! ### The pieces of a text and its tokens -/

/-- The text that pieces leave after the last block, with `gap` before the first piece. -/
def restAfter (gap : List Char) : List Piece → List Char
  | [] => gap
  | .text chars :: rest => restAfter (gap ++ chars) rest
  | .block _ _ :: rest => restAfter [] rest

/-- The tokens of pieces, and what is left, make up the text of the pieces. -/
theorem textOf_tokensAfter (gap : List Char) (ps : List Piece) :
    textOf (tokensAfter gap ps) ++ restAfter gap ps = gap ++ ps.flatMap Piece.source := by
  induction ps generalizing gap with
  | nil => simp [tokensAfter, restAfter, textOf]
  | cons p ps ih =>
      cases p with
      | text chars =>
          rw [tokensAfter, restAfter, ih, List.flatMap_cons, Piece.source, List.append_assoc]
      | block name body =>
          rw [tokensAfter, restAfter, textOf_cons, List.append_assoc, ih, List.flatMap_cons]
          simp [Token.source, Piece.source]

/-- Filling the parts of pieces puts code between the gaps of their tokens. -/
theorem fill_partsFrom (file : Option String) (offset : Nat) (gap : List Char) (ps : List Piece)
    {codes : List String} (h : codes.length = (tokensAfter gap ps).length) :
    String.ofList gap ++ fill (partsFrom file offset ps) codes =
      interleave ((tokensAfter gap ps).map (fun x => String.ofList x.gap) ++
        [String.ofList (restAfter gap ps)]) codes := by
  induction ps generalizing offset gap codes with
  | nil =>
      rw [tokensAfter, List.length_nil, List.length_eq_zero_iff] at h
      rw [h, partsFrom, fill, tokensAfter, restAfter, String.append_empty]
      rfl
  | cons p ps ih =>
      cases p with
      | text chars =>
          rw [partsFrom, fill, ← String.append_assoc, ← String.ofList_append]
          exact ih _ _ h
      | block name body =>
          rw [tokensAfter, List.length_cons] at h
          obtain ⟨code, codes, rfl⟩ := List.exists_cons_of_length_eq_add_one h
          have hlength : codes.length = (tokensAfter [] ps).length := by simpa using h
          have hrest := ih (offset + byteSize (Piece.block name body).source) [] hlength
          rw [String.ofList_nil, String.empty_append] at hrest
          rw [partsFrom, fill, hrest, ← String.append_assoc]
          rfl

theorem blocks_eq_blocksOf (file : Option String) (text : String) :
    blocks file text = blocksOf file 0 (tokensAfter [] (pieces text.toList)) := by
  simpa [blocks, parts, byteSize] using
    filterMap_block?_partsFrom file 0 [] (pieces text.toList)

/-- The tokens of a text, and what is left, make up the text. -/
theorem toList_eq_textOf (text : String) :
    text.toList = [] ++ (textOf (tokensAfter [] (pieces text.toList)) ++
      restAfter [] (pieces text.toList)) := by
  rw [textOf_tokensAfter, flatMap_source_pieces]
  rfl

/-- **The blocks of a text occupy its tokens.** -/
theorem occupies_of_mem_blocks {file : Option String} {text : String} {b : Block}
    (h : b ∈ blocks file text) : Occupies text b := by
  rw [blocks_eq_blocksOf] at h
  exact occupies_of_mem_blocksOf (toList_eq_textOf text) (scan_pieces text.toList).exists_occurs b h

/-- Between the blocks of a text stand the gaps of its tokens. -/
theorem gapsFrom_blocks (file : Option String) (text : String) :
    gapsFrom text 0 (blocks file text) =
      (tokensAfter [] (pieces text.toList)).map (fun x => String.ofList x.gap) ++
        [String.ofList (restAfter [] (pieces text.toList))] := by
  rw [blocks_eq_blocksOf]
  exact gapsFrom_blocksOf (toList_eq_textOf text)

/-- Filling the parts of a text puts code between its gaps. -/
theorem fill_parts {file : Option String} {text : String} {codes : List String}
    (h : codes.length = (blocks file text).length) :
    fill (parts file text) codes = interleave (gapsFrom text 0 (blocks file text)) codes := by
  rw [blocks_eq_blocksOf, length_blocksOf] at h
  rw [gapsFrom_blocks, ← fill_partsFrom file 0 [] _ h, String.ofList_nil, String.empty_append]
  rfl

/-- **A host file is compiled exactly when its blocks are**, and the output is the gaps with the
code of the blocks between them. -/
theorem compiled_eq_ok_iff {rt : Runtime} {path text code : String} :
    compiled rt path text = .ok code ↔
      ∃ codes, (((blocks (some path) text).mapM (Block.compile rt)).run 0).result = .ok codes ∧
        code = interleave (gapsFrom text 0 (blocks (some path) text)) codes := by
  rw [compiled_eq]
  constructor
  · intro hcode
    cases hcodes : (((blocks (some path) text).mapM (Block.compile rt)).run 0).result with
    | error d =>
        rw [hcodes] at hcode
        cases hcode
    | ok codes =>
        rw [hcodes] at hcode
        cases hcode
        exact ⟨codes, rfl, fill_parts (Pass.length_of_mapM hcodes)⟩
  · rintro ⟨codes, hcodes, rfl⟩
    rw [hcodes, ← fill_parts (Pass.length_of_mapM hcodes)]
    rfl

/-- A block of another name is replaced by its body, and takes no number. -/
theorem compile_verbatim {b : Block} {body : String} (hvalue : b.value = Text.trim body)
    (hname : b.name ∉ ["html", "htmlEl", "htmlF"]) (rt : Runtime) (n : Nat) :
    (b.compile rt).run n = { result := .ok b.value, next := n } := by
  have htrim : Text.trim b.value = b.value := by
    rw [hvalue, Text.trim, Text.trim, String.toList_ofList, Chars.trim_trim]
  rw [Block.compile, BlockKind.ofName_eq_verbatim hname]
  simp only [htrim]
  rfl

/-- **Compiling a host file touches only its blocks.** The blocks occupy tokens of the text, one
after the other, and no token stands in a gap between them. The file is compiled exactly when its
blocks are, in order and with one numbering of loops from 0 on, and the output is then the gaps with
the code of the blocks between them. A block of another name than the three is replaced by its
trimmed body and takes no number. -/
theorem splicing_touches_only_blocks (rt : Runtime) (path text : String) :
    (∀ b ∈ blocks (some path) text, Occupies text b) ∧
    (blocks (some path) text).Pairwise (fun a b => a.start < b.start ∧ a.stop ≤ b.start) ∧
    (∀ gap ∈ gapsFrom text 0 (blocks (some path) text),
      ∀ x after, ¬ Occurs (· ≠ []) gap.toList x after) ∧
    (∀ code, compiled rt path text = .ok code ↔
      ∃ codes, (((blocks (some path) text).mapM (Block.compile rt)).run 0).result = .ok codes ∧
        code = interleave (gapsFrom text 0 (blocks (some path) text)) codes) ∧
    ∀ b ∈ blocks (some path) text, b.name ∉ ["html", "htmlEl", "htmlF"] →
      ∀ n, (b.compile rt).run n = { result := .ok b.value, next := n } := by
  refine ⟨fun b => occupies_of_mem_blocks, ?_, ?_, fun code => compiled_eq_ok_iff,
    fun b hb hname n => ?_⟩
  · have hpairwise : (blocks (some path) text).Pairwise fun a b => a.stop ≤ b.start := by
      rw [blocks_eq_blocksOf]
      exact pairwise_blocksOf 0 _
    refine hpairwise.imp_of_mem fun ha _ hle => ⟨?_, hle⟩
    exact Nat.lt_of_lt_of_le (occupies_of_mem_blocks ha).nonempty hle
  · obtain ⟨hfree, hlast⟩ := (scan_pieces text.toList).not_occurs_gap (toList_eq_textOf text)
    rw [gapsFrom_blocks, List.forall_mem_append, List.forall_mem_map, List.forall_mem_singleton,
      String.toList_ofList]
    refine ⟨fun x hx => ?_, hlast⟩
    rw [String.toList_ofList]
    exact hfree x hx
  · obtain ⟨body, -, -, hvalue, -⟩ := (occupies_of_mem_blocks hb).token
    exact compile_verbatim hvalue hname rt n

/-- Between letters of two bytes, a block of style rules and one of markup. -/
def wideLetters : String := "é$css\x7b x \x7d$ü$html\x7b<i g-for=\"xs\"/>\x7d$ö"

/-- The offsets count bytes, and the first of the blocks takes no number. -/
theorem splicing_between_wide_letters :
    Occupies wideLetters
      { name := "css", value := "x", file := some "a.gox", start := 2, stop := 12 } ∧
    ((Block.compile ⟨"g"⟩
      { name := "css", value := "x", file := some "a.gox", start := 2, stop := 12 }).run 5).next =
        5 ∧
    ∃ codes,
      (((blocks (some "a.gox") wideLetters).mapM (Block.compile ⟨"g"⟩)).run 0).result = .ok codes ∧
      compiled ⟨"g"⟩ "a.gox" wideLetters = .ok (interleave ["é", "ü", "ö"] codes) := by
  have hblock : { name := "css", value := "x", file := some "a.gox", start := 2, stop := 12 } ∈
      blocks (some "a.gox") wideLetters := by decide +kernel
  have hgaps : gapsFrom wideLetters 0 (blocks (some "a.gox") wideLetters) = ["é", "ü", "ö"] := by
    decide +kernel
  obtain ⟨code, hcode⟩ : ∃ code, compiled ⟨"g"⟩ "a.gox" wideLetters = .ok code := by
    decide +kernel
  obtain ⟨hoccupies, -, -, hcompiled, hverbatim⟩ :=
    splicing_touches_only_blocks ⟨"g"⟩ "a.gox" wideLetters
  obtain ⟨codes, hcodes, rfl⟩ := (hcompiled code).mp hcode
  refine ⟨hoccupies _ hblock, ?_, codes, hcodes, ?_⟩
  · rw [hverbatim _ hblock (by decide)]
  · rwa [hgaps] at hcode

end Document

end Stencil
