import Stencil.Proofs.Blame
import Stencil.Proofs.Refinement
import Stencil.Proofs.Retention

/-!
# The last separator of a block

Siblings have a separator after each of them but comments, and a block leaves the last separator
out, although comments may follow it. What stands behind that separator is then the comments after
the last sibling that brought one, and nothing else: the tail of a sibling that brings its own
separator is never more than the separator, since expressions are trimmed.

The code may be written into one text, with the byte offset of the last separator noted beside it.
A separator that is added is noted where it is put, and one that a sibling brings is looked for from
the end of the text; comments leave the note as it is. Such a `Buffer` is followed alongside the
sequence of siblings, and the noted byte turns out to be the separator whatever was written.

## Main results

* `buffer_write`, `buffer_ofItems`: a step of the buffer, and a whole run, note the place of the
  last separator.
* `dropMarked_buffer`: taking out the character at the note leaves out that separator and nothing
  else.
* `Siblings.finish_of_push_quiet`, `Siblings.after_of_push`: what one sibling does to the last
  separator.
* `block_leaves_out_last_separator`: **a block is the lowering of its siblings without the separator
  after the last of them that is no comment.**
-/

namespace Stencil

/-! ### A text with a noted byte offset -/

/-- The text without the character that begins at a byte offset, if one begins there. -/
def removeAt : Nat → List Char → Option (List Char)
  | _, [] => none
  | 0, _ :: rest => some rest
  | offset, c :: rest =>
      if offset < c.utf8Size then none else (removeAt (offset - c.utf8Size) rest).map (c :: ·)

/-- Code in one text, with the byte offset of the last separator. -/
structure Buffer where
  text : String := ""
  mark : Option Nat := none
deriving DecidableEq, Repr

namespace Buffer

/-- Writes code that no separator follows. -/
def pushBare (b : Buffer) (code : String) : Buffer :=
  { b with text := b.text ++ code }

/-- Writes code and a separator, and notes where the separator is put. -/
def pushSeparated (b : Buffer) (code : String) : Buffer :=
  { text := b.text ++ code ++ separator, mark := some (b.text ++ code).utf8ByteSize }

/-- Writes code, and notes the last byte of the text that is before the white space at its end. -/
def pushEnded (b : Buffer) (code : String) : Buffer :=
  { text := b.text ++ code
    mark :=
      match (Text.trimEnd (b.text ++ code)).utf8ByteSize with
      | 0 => none
      | last + 1 => some last }

/-- The text without the character at the mark. There is none if no character begins there. -/
def dropMarked (b : Buffer) : Option String :=
  match b.mark with
  | none => some b.text
  | some offset => (removeAt offset b.text.toList).map String.ofList

end Buffer

/-- Writes an item into a buffer. -/
def Item.writeTo (b : Buffer) : Item → Buffer
  | comment code => b.pushBare code
  | plain code => if Sequence.endsSeparated code then b.pushEnded code else b.pushSeparated code
  | chain first more last => b.pushSeparated (Runtime.chain (arms first more last))

/-- The buffer that a list of items makes. -/
def Buffer.ofItems (items : List Item) : Buffer := items.foldl Item.writeTo {}

/-- A sequence as a buffer: its separator is noted where it stands. -/
def Sequence.buffer (s : Sequence) : Buffer :=
  { text := s.code, mark := s.after.map fun _ => s.before.utf8ByteSize }

/-- A character is taken out from between the texts around it. -/
theorem removeAt_size (before : List Char) (c : Char) (after : List Char) :
    removeAt (String.ofList before).utf8ByteSize (before ++ c :: after) =
      some (before ++ after) := by
  induction before with
  | nil => rfl
  | cons d before ih =>
      have hsize : (String.ofList (d :: before)).utf8ByteSize =
          d.utf8Size + (String.ofList before).utf8ByteSize := by
        rw [String.ofList_cons, String.utf8ByteSize_append, String.utf8ByteSize_singleton]
      have hpos := d.utf8Size_pos
      rw [hsize, List.cons_append, removeAt]
      · rw [if_neg (by omega), Nat.add_sub_cancel_left, ih]
        rfl
      · omega

/-- White space is trimmed off the last part of a text only, if that part is not blank. -/
theorem trimEnd_append (lead : String) {code : String} (h : Text.trimEnd code ≠ "") :
    Text.trimEnd (lead ++ code) = lead ++ Text.trimEnd code := by
  have hne : code.toList.reverse.dropWhile Chars.isSpace ≠ [] := by
    intro hnil
    exact h (by rw [Text.trimEnd, Chars.trimEnd, hnil]; rfl)
  apply String.ext
  rw [String.toList_append, Text.toList_trimEnd, Text.toList_trimEnd, String.toList_append,
    Chars.trimEnd, Chars.trimEnd, List.reverse_append, List.dropWhile_append,
    if_neg (by rwa [List.isEmpty_iff]), List.reverse_append, List.reverse_reverse]

namespace Sequence

variable {s : Sequence} {code : String}

/-- Code that ends in a separator is trimmed to what stands before it, and the separator. -/
theorem trimEnd_of_endsSeparated (h : endsSeparated code = true) :
    Text.trimEnd code = Text.dropLast (Text.trimEnd code) ++ separator := by
  have hlast : ',' ∈ (Text.trimEnd code).toList.getLast? := by
    simpa [endsSeparated, Text.endsWith] using h
  have hseparator : separator.toList = [','] := by decide
  apply String.ext
  rw [String.toList_append, Text.toList_dropLast, hseparator,
    List.dropLast_append_getLast? ',' hlast]

theorem buffer_pushBare : (s.pushBare code).buffer = s.buffer.pushBare code := by
  have htext := s.code_pushBare code
  rw [buffer, Buffer.pushBare, buffer, htext]
  rcases s with ⟨before, _ | after⟩ <;> rfl

theorem buffer_pushSeparated : (s.pushSeparated code).buffer = s.buffer.pushSeparated code := by
  rw [buffer, Buffer.pushSeparated, buffer, code_pushSeparated, String.append_assoc]
  rfl

/-- **A separator that a sibling brings is found** from the end of the text. -/
theorem buffer_pushEnded (h : endsSeparated code = true) :
    (s.pushEnded code).buffer = s.buffer.pushEnded code := by
  have htrim := trimEnd_of_endsSeparated h
  have hne : Text.trimEnd code ≠ "" := by
    rw [htrim]
    simp [String.append_eq_empty_iff, separator]
  have hone : separator.utf8ByteSize = 1 := rfl
  have hsize : (Text.trimEnd (s.code ++ code)).utf8ByteSize =
      (s.code ++ Text.dropLast (Text.trimEnd code)).utf8ByteSize + 1 := by
    conv_lhs => rw [trimEnd_append _ hne, htrim, ← String.append_assoc, String.utf8ByteSize_append]
    rw [hone]
  rw [buffer, Buffer.pushEnded, buffer, code_pushEnded h, hsize]
  simp only [pushEnded, Option.map_some]

/-- **Taking out the character at the note** leaves out the last separator and nothing else. -/
theorem dropMarked_buffer (s : Sequence) : s.buffer.dropMarked = some s.withoutLast := by
  rcases s with ⟨before, _ | after⟩
  · simp [buffer, Buffer.dropMarked, Sequence.code, withoutLast]
  · have hremove := removeAt_size before.toList ',' after.toList
    rw [String.ofList_toList] at hremove
    have htext : (before ++ separator ++ after).toList = before.toList ++ ',' :: after.toList := by
      simp [separator]
    simp only [buffer, Buffer.dropMarked, Sequence.code, withoutLast, Option.map_some, htext,
      hremove, Option.getD_some]
    rw [String.ofList_append, String.ofList_toList, String.ofList_toList]

/-- A step of the buffer notes what a step of the sequence marks. -/
theorem buffer_write (s : Sequence) (item : Item) :
    (item.write s).buffer = item.writeTo s.buffer := by
  cases item with
  | comment code => exact buffer_pushBare
  | plain code =>
      rw [Item.write, Item.writeTo, push]
      split
      · exact buffer_pushEnded ‹_›
      · exact buffer_pushSeparated
  | chain first more last => exact buffer_pushSeparated

/-- **The buffer of a list of items** notes what their sequence marks. -/
theorem buffer_ofItems (items : List Item) : (ofItems items).buffer = .ofItems items :=
  (List.foldl_hom buffer (fun s item => (s.buffer_write item).symm)).symm

end Sequence

/-! ### What one sibling does to the last separator -/

namespace Sequence

@[simp] theorem pushBare_empty (s : Sequence) : s.pushBare "" = s := by
  rcases s with ⟨before, _ | after⟩ <;> simp [pushBare]

theorem pushBare_pushBare (s : Sequence) (code more : String) :
    (s.pushBare code).pushBare more = s.pushBare (code ++ more) := by
  rcases s with ⟨before, _ | after⟩ <;> simp [pushBare, String.append_assoc]

theorem after_pushBare (s : Sequence) (code : String) :
    (s.pushBare code).after = s.after.map (· ++ code) := by
  rcases s with ⟨before, _ | after⟩ <;> rfl

/-- The separator is the last that is written, unless the code of the sibling goes on with white
space after its own. -/
theorem after_push (s : Sequence) {code : String}
    (h : endsSeparated code = true → Text.trimEnd code = code) :
    (s.push code).after = some "" := by
  rw [push]
  split
  · rename_i hends
    have hrest : code.toList.drop code.length = [] := by
      rw [← String.length_toList, List.drop_length]
    simp only [pushEnded, h hends, hrest, String.ofList_nil]
  · rfl

end Sequence

namespace Siblings

variable {s t : Siblings} {f : Fragment}

/-- A sibling that brings no separator is written behind what is there. -/
theorem finish_of_push_quiet (hquiet : f.IsQuiet) (h : s.push f = .ok t) :
    t.finish = s.finish.pushBare f.code := by
  cases hshown : f.isShown with
  | false =>
      rw [push_of_not_isShown hshown] at h
      cases h
      rw [Fragment.code_eq_empty hshown, Sequence.pushBare_empty]
  | true =>
      obtain ⟨code, rfl⟩ := hquiet.resolve_left (by simp [hshown])
      rw [push_comment hshown] at h
      cases h
      rfl

/-- **Any other sibling is followed by the last separator**, or will be when its chain is written
out. -/
theorem after_of_push (hquiet : ¬ f.IsQuiet)
    (hends : Sequence.endsSeparated f.code = true → Text.trimEnd f.code = f.code)
    (h : s.push f = .ok t) : t.finish.after = some "" := by
  rcases push_cases h with ⟨hnot, -⟩ | ⟨code, hcode, -⟩ | ⟨-, -, rfl⟩ | ⟨condition, -, rfl⟩ |
    ⟨arms, condition, -, -, rfl⟩ | ⟨arms, -, -, rfl⟩
  · exact absurd (.inl hnot) hquiet
  · exact absurd (.inr ⟨code, hcode⟩) hquiet
  · show (s.finish.push f.code).after = some ""
    exact s.finish.after_push hends
  · rfl
  · rfl
  · rfl

/-- A run of siblings that bring no separator is written behind what is there. -/
theorem finish_of_foldlM_quiet {fs : List Fragment} (hquiet : ∀ f ∈ fs, f.IsQuiet)
    (h : fs.foldlM push s = .ok t) :
    t.finish = s.finish.pushBare (String.join (fs.map Fragment.code)) := by
  induction fs generalizing s with
  | nil =>
      cases h
      exact (Sequence.pushBare_empty _).symm
  | cons f rest ih =>
      obtain ⟨hf, hrest⟩ := List.forall_mem_cons.mp hquiet
      obtain ⟨s', hpush, hfold⟩ := Pass.foldlM_cons_eq_ok.mp h
      rw [ih hrest hfold, finish_of_push_quiet hf hpush, Sequence.pushBare_pushBare, List.map_cons,
        String.join_cons]

/-- **What stands behind the last separator** is the code of the siblings after the last one that
brought a separator. -/
theorem after_of_foldlM {before after : List Fragment} (hquiet : ¬ f.IsQuiet)
    (hends : Sequence.endsSeparated f.code = true → Text.trimEnd f.code = f.code)
    (hafter : ∀ later ∈ after, later.IsQuiet)
    (h : (before ++ f :: after).foldlM push s = .ok t) :
    t.finish.after = some (String.join (after.map Fragment.code)) := by
  obtain ⟨s₁, -, h₁⟩ := Pass.foldlM_append_eq_ok.mp h
  obtain ⟨s₂, hpush, h₂⟩ := Pass.foldlM_cons_eq_ok.mp h₁
  rw [finish_of_foldlM_quiet hafter h₂, Sequence.after_pushBare, after_of_push hquiet hends hpush,
    Option.map_some, String.empty_append]

end Siblings

/-! ### Nodes and their comments -/

namespace Node

/-- The node brings no separator: it is a comment, or has no code. -/
def isQuiet : Node → Bool
  | comment _ => true
  | node => !node.isShown

/-- The code of a comment. -/
def comment? : Node → Option String
  | comment value => some (Host.comment value)
  | element .. | text _ => none

end Node

/-- The code of the comments among nodes. -/
def commentsOf (nodes : List Node) : String := String.join (nodes.filterMap Node.comment?)

namespace Node.Renders

variable {node : Node} {f : Fragment}

/-- A node brings a separator if its code does. -/
theorem isQuiet_iff (h : node.Renders f) : f.IsQuiet ↔ node.isQuiet = true := by
  have hshown := h.isShown
  obtain ⟨hwell, rt, number, here, rfl⟩ := h
  constructor
  · intro hquiet
    cases hnode : node.isShown with
    | true =>
        obtain ⟨value, rfl⟩ := isComment_of_isQuiet hwell hquiet hnode
        rfl
    | false => cases node <;> simp_all [isQuiet]
  · intro hquiet
    cases node with
    | comment value =>
        rw [render]
        exact .inr ⟨_, rfl⟩
    | text value | element tag children =>
        rw [isQuiet] at hquiet
        · exact .inl (by simpa [hshown] using hquiet)
        · simp

/-- A node that brings no separator has the code of a comment, or none. -/
theorem code_of_isQuiet (h : node.Renders f) (hquiet : node.isQuiet = true) :
    f.code = node.comment?.getD "" := by
  have hshown := h.isShown
  obtain ⟨-, rt, number, here, rfl⟩ := h
  cases node with
  | comment value =>
      rw [render]
      rfl
  | text value | element tag children =>
      rw [isQuiet] at hquiet
      · exact Fragment.code_eq_empty (by simpa [hshown] using hquiet)
      · simp

/-- A separator that a node brings is the last character of its code. -/
theorem trimEnd_code (h : node.Renders f) (hquiet : ¬ f.IsQuiet)
    (hends : Sequence.endsSeparated f.code = true) : Text.trimEnd f.code = f.code := by
  obtain ⟨hwell, rt, number, here, rfl⟩ := h
  obtain ⟨value, rfl⟩ := exists_text_of_endsSeparated hwell hquiet hends
  rw [render] at hquiet hends ⊢
  have hne : Segment.ofText value ≠ [] := by
    intro hnil
    exact hquiet (.inl (by rw [hnil]; rfl))
  have hmem := List.getLast_mem hne
  simp only [Fragment.code, Host.segments_eq hne] at hends ⊢
  cases hlast : (Segment.ofText value).getLast hne with
  | literal text =>
      rw [hlast, Host.segment, endsSeparated_of_endsFinal
        (endsFinal_append _ (endsFinal_textLiteral text))] at hends
      cases hends
  | expr code =>
      rw [hlast] at hmem
      obtain ⟨c, hc, hspace⟩ := Segment.getLast?_of_mem_split hmem
      exact trimEnd_eq_self (mem_getLast?_append _ hc) hspace

end Node.Renders

/-- The code of nodes that bring no separator brings none. -/
theorem isQuiet_of_nodes {nodes : List Node} {fs : List Fragment}
    (h : List.Forall₂ Node.Renders nodes fs) (hquiet : ∀ node ∈ nodes, node.isQuiet = true) :
    ∀ f ∈ fs, f.IsQuiet := by
  induction h with
  | nil => simp
  | cons hnode _ ih =>
      obtain ⟨hfirst, hrest⟩ := List.forall_mem_cons.mp hquiet
      exact List.forall_mem_cons.mpr ⟨hnode.isQuiet_iff.mpr hfirst, ih hrest⟩

/-- The code of nodes that bring no separator is that of the comments among them. -/
theorem join_code_of_isQuiet {nodes : List Node} {fs : List Fragment}
    (h : List.Forall₂ Node.Renders nodes fs) (hquiet : ∀ node ∈ nodes, node.isQuiet = true) :
    String.join (fs.map Fragment.code) = commentsOf nodes := by
  induction h with
  | nil => rfl
  | @cons node f rest fs hnode _ ih =>
      obtain ⟨hfirst, hrest⟩ := List.forall_mem_cons.mp hquiet
      rw [List.map_cons, String.join_cons, ih hrest, hnode.code_of_isQuiet hfirst, commentsOf,
        commentsOf, List.filterMap_cons]
      cases node.comment? with
      | none => simp
      | some code => simp

/-- Of nodes and their code, the last node that brings a separator, if there is one. -/
theorem exists_last_separated {nodes : List Node} {fs : List Fragment}
    (h : List.Forall₂ Node.Renders nodes fs) :
    (∀ node ∈ nodes, node.isQuiet = true) ∨
    ∃ before node after done f rest,
      nodes = before ++ node :: after ∧ fs = done ++ f :: rest ∧ node.Renders f ∧
      List.Forall₂ Node.Renders after rest ∧ node.isQuiet = false ∧
      ∀ later ∈ after, later.isQuiet = true := by
  induction h with
  | nil => exact .inl (by simp)
  | @cons node f nodes fs hnode hnodes ih =>
      rcases ih with hquiet | ⟨before, last, after, done, g, rest, rfl, rfl, hlast⟩
      · cases hfirst : node.isQuiet with
        | true => exact .inl (List.forall_mem_cons.mpr ⟨hfirst, hquiet⟩)
        | false => exact .inr ⟨[], node, nodes, [], f, fs, rfl, rfl, hnode, hnodes, hfirst, hquiet⟩
      · exact .inr ⟨node :: before, last, after, f :: done, g, rest, rfl, rfl, hlast⟩

/-! ### Blocks -/

/-- Siblings that are lowered have all been lowered one after the other, and their sequence is that
of their code. -/
theorem exists_fragments_of_lowerSiblings {rt : Runtime} {nodes : List Node} {n next : Nat}
    {seen : List Attribute} {t : Siblings}
    (h : (lowerSiblings rt {} nodes).Returns n t next seen) :
    ∃ fragments, (nodes.mapM (Node.lower rt)).Returns n fragments next seen ∧
      List.Forall₂ Node.Renders nodes fragments ∧ fragments.foldlM Siblings.push {} = .ok t := by
  rw [lowerSiblings_eq_gather rt [] 0] at h
  obtain ⟨fragments, hreturns, hfold⟩ := Pass.mapM_of_gather h
  rw [mapM_withPlaces] at hreturns
  exact ⟨fragments, hreturns,
    Pass.forall₂_of_mapM (R := Node.Renders) (fun _ _ _ => Node.renders_of_lower) hreturns, hfold⟩

/-- The lowering of a block and that of its siblings without a filter are two readings of one
sequence. -/
theorem run_lowerBlock_and_children (rt : Runtime) (nodes : List Node) (n : Nat) :
    ∃ o : Outcome Attribute Sequence,
      (Siblings.finish <$> lowerSiblings rt {} nodes).run n = o ∧
      (lowerBlock rt nodes).run n = { o with result := o.result.map Sequence.withoutLast } ∧
      (lowerChildren rt nodes).run n = { o with result := o.result.map Sequence.code } := by
  refine ⟨_, rfl, ?_, ?_⟩
  · rw [lowerBlock_eq_map, Pass.run_map]
  · rw [lowerChildren_eq_map, Pass.run_map]

/-- **A block leaves out one separator, the right one.** A block and its siblings without a filter
fail together, with the same diagnostic, or succeed together, and in any case they make the same
reports and leave the same next free number. On success the code of the siblings is that of a buffer
which notes the byte offset of the last separator, and the block is that code with the character at
the note taken out. Nothing is noted if no node but comments has code, and the code is then that of
the comments. Otherwise a separator stands at the note, and behind it the comments after the last
other node that has code. -/
theorem block_leaves_out_last_separator (rt : Runtime) (nodes : List Node) (n : Nat) :
    ((lowerBlock rt nodes).run n).next = ((lowerChildren rt nodes).run n).next ∧
    ((lowerBlock rt nodes).run n).observed = ((lowerChildren rt nodes).run n).observed ∧
    (∀ d, ((lowerBlock rt nodes).run n).result = .error d ↔
      ((lowerChildren rt nodes).run n).result = .error d) ∧
    ∀ code, ((lowerChildren rt nodes).run n).result = .ok code →
      ∃ fragments next seen block,
        (nodes.mapM (Node.lower rt)).Returns n fragments next seen ∧
        ((lowerBlock rt nodes).run n).result = .ok block ∧
        (Buffer.ofItems (itemsOf fragments)).text = code ∧
        (Buffer.ofItems (itemsOf fragments)).dropMarked = some block ∧
        (((∀ node ∈ nodes, node.isQuiet = true) ∧
            (Buffer.ofItems (itemsOf fragments)).mark = none ∧
            code = commentsOf nodes ∧ block = commentsOf nodes) ∨
          ∃ before node after lead,
            nodes = before ++ node :: after ∧ node.isQuiet = false ∧
            (∀ later ∈ after, later.isQuiet = true) ∧
            (Buffer.ofItems (itemsOf fragments)).mark = some lead.utf8ByteSize ∧
            code = lead ++ separator ++ commentsOf after ∧ block = lead ++ commentsOf after) := by
  obtain ⟨o, hrun, hblock, hchildren⟩ := run_lowerBlock_and_children rt nodes n
  rw [hblock, hchildren]
  refine ⟨rfl, rfl, fun d => ?_, fun code hcode => ?_⟩
  · cases o.result <;> simp [Except.map]
  obtain ⟨s, hs⟩ : ∃ s, o.result = .ok s := by
    cases hresult : o.result with
    | ok s => exact ⟨s, rfl⟩
    | error d =>
        rw [hresult] at hcode
        cases hcode
  have hreturns :
      (Siblings.finish <$> lowerSiblings rt {} nodes).Returns n s o.next o.observed := by
    rw [Pass.Returns, hrun, ← hs]
  obtain ⟨t, ht, rfl⟩ := hreturns.of_map
  obtain ⟨fragments, hfragments, hrenders, hfold⟩ := exists_fragments_of_lowerSiblings ht
  have hbuffer : Buffer.ofItems (itemsOf fragments) = t.finish.buffer := by
    rw [Siblings.finish_of_foldlM_push hfold]
    exact (Sequence.buffer_ofItems _).symm
  rw [hs] at hcode
  obtain rfl := Except.ok.inj hcode
  refine ⟨fragments, o.next, o.observed, t.finish.withoutLast, hfragments, by rw [hs]; rfl, ?_⟩
  rw [hbuffer, Sequence.dropMarked_buffer]
  refine ⟨rfl, rfl, ?_⟩
  rcases exists_last_separated hrenders with
    hquiet | ⟨before, node, after, done, f, rest, rfl, rfl, hnode, hafter, hloud, hquiet⟩
  · have hfinish := Siblings.finish_of_foldlM_quiet (isQuiet_of_nodes hrenders hquiet) hfold
    rw [join_code_of_isQuiet hrenders hquiet] at hfinish
    rw [hfinish]
    exact .inl ⟨hquiet, rfl, String.empty_append, by simp [Siblings.finish, Sequence.pushBare,
      Sequence.withoutLast]⟩
  · have hnot : ¬ f.IsQuiet := by
      rw [hnode.isQuiet_iff, hloud]
      exact Bool.false_ne_true
    have hmark := Siblings.after_of_foldlM hnot (hnode.trimEnd_code hnot)
      (isQuiet_of_nodes hafter hquiet) hfold
    rw [join_code_of_isQuiet hafter hquiet] at hmark
    refine .inr ⟨before, node, after, t.finish.before, rfl, hloud, hquiet, ?_, ?_, ?_⟩
    · rw [Sequence.buffer, hmark]
      rfl
    · rw [Sequence.code, hmark]
    · rw [Sequence.withoutLast, hmark]
      rfl

/-- A text of wide letters whose expression brings a separator, with comments and blank text behind
it. -/
def separatedByExpression : List Node :=
  [.element { name := "p" } [], .comment "é", .text "ü \x7b\x7bf(a), \x7d\x7d", .comment "a*/b",
    .text " \n", .comment "→"]

/-- The separator that is left out is the one in the expression. -/
theorem block_without_separator_of_expression :
    ∃ code block, ((lowerChildren ⟨"g"⟩ separatedByExpression).run 0).result = .ok code ∧
      ((lowerBlock ⟨"g"⟩ separatedByExpression).run 0).result = .ok block ∧
      code = "g.NE(&g.E\x7bTag:\"p\", \x7d,),/*é*/`ü`, f(a),/*a* /b*//*→*/" ∧
      ∃ before node after lead, separatedByExpression = before ++ node :: after ∧
        node.isQuiet = false ∧ (∀ later ∈ after, later.isQuiet = true) ∧
        code = lead ++ separator ++ commentsOf after ∧ block = lead ++ commentsOf after := by
  have hcode : ((lowerChildren ⟨"g"⟩ separatedByExpression).run 0).result =
      .ok "g.NE(&g.E\x7bTag:\"p\", \x7d,),/*é*/`ü`, f(a),/*a* /b*//*→*/" := by decide +kernel
  obtain ⟨-, -, -, hok⟩ := block_leaves_out_last_separator ⟨"g"⟩ separatedByExpression 0
  obtain ⟨_, _, _, block, -, hblock, -, -, hcases⟩ := hok _ hcode
  rcases hcases with ⟨hquiet, -⟩ |
    ⟨before, node, after, lead, hnodes, hloud, hafter, -, hlead, hrest⟩
  · exact absurd (hquiet _ List.mem_cons_self) (by decide)
  · exact ⟨_, block, hcode, hblock, rfl, before, node, after, lead, hnodes, hloud, hafter, hlead,
      hrest⟩

end Stencil
