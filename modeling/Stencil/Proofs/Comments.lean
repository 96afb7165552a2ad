import Stencil.Proofs.Folding
import Stencil.Proofs.LastSeparator

/-!
# Comments in the code

A comment of the markup becomes a comment of the host language, which ends at the first closing
mark. The closing marks in its text are broken up by a blank, from the left and one after the other.
This brings no new mark about: the blank stands between the two characters of the mark, and what
follows begins as it did before. A star at the end of the text and the mark behind it are no mark
either, since a star is no slash.

Siblings that are comments are written without separators. Comments that stand together in the
markup, with at most text without segments between them, so make a code in which one comment
follows the other, and a reader finds every one of them where it was written.

## Main results

* `Host.not_infix_defuse`: **the closing mark of a comment is the first one in it**.
* `Host.readComments_join`: a run of comments is read back, one comment after the other.
* `lowerSiblings_of_isQuiet`: what a run of comments adds to the siblings before it.
* `comments_read_apart`: **the comments that stand together are recovered from the code that they
  add to a list of siblings**.
-/

namespace Stencil

namespace Host

/-! ### Reading comments -/

/-- The text of the comment at the beginning of a code, and what follows the comment. -/
def readComment : List Char → Option (List Char × List Char)
  | '/' :: '*' :: rest => Chars.cut ['*', '/'] rest
  | _ => none

/-- What follows a comment is shorter than the code. -/
theorem length_lt_of_readComment {s text rest : List Char}
    (h : readComment s = some (text, rest)) : rest.length < s.length := by
  unfold readComment at h
  split at h
  · have hlength := Chars.length_of_cut h
    simp only [List.length_cons]
    omega
  · cases h

/-- The texts of the comments that a code consists of, if it consists of comments and nothing stands
between them. -/
def readComments (s : List Char) : Option (List (List Char)) :=
  if s = [] then
    some []
  else
    match _ : readComment s with
    | none => none
    | some (text, rest) => (readComments rest).map (text :: ·)
termination_by s.length
decreasing_by exact length_lt_of_readComment ‹readComment s = _›

/-! ### One comment -/

/-- Breaking marks up keeps the first character. -/
theorem head?_defuse (text : List Char) : (defuse text).head? = text.head? := by
  fun_cases defuse text <;> rfl

/-- **No mark is left, and none comes about before the closing one.** -/
theorem not_infix_defuse (text : List Char) : ¬ ['*', '/'] <:+: defuse text ++ ['*'] := by
  fun_induction defuse text with
  | case1 rest ih =>
      simp only [List.cons_append, List.infix_cons_iff, List.cons_prefix_cons]
      simpa using ih
  | case2 c rest hnot ih =>
      rw [List.cons_append, List.infix_cons_iff]
      rintro (hbegins | hinner)
      · -- A slash behind a star would have been broken up with it.
        obtain ⟨rfl, tail, htail⟩ := List.cons_prefix_cons.mp hbegins
        have hhead : some '/' = rest.head?.or (some '*') := by
          have hheads := congrArg List.head? htail
          rwa [List.head?_append, List.head?_append, head?_defuse] at hheads
        cases rest with
        | nil => exact absurd hhead (by decide)
        | cons d more => exact hnot more rfl (by cases hhead; rfl)
      · exact ih hinner
  | case3 => decide

/-- The text of a comment is kept, apart from the blanks that break up its marks. -/
theorem visible_defuse (text : List Char) : Chars.visible (defuse text) = Chars.visible text := by
  fun_induction defuse text with
  | case1 rest ih =>
      have hbroken := Chars.visible_append ['*', ' ', '/'] (defuse rest)
      have hmark := Chars.visible_append ['*', '/'] rest
      rw [ih] at hbroken
      exact hbroken.trans hmark.symm
  | case2 c rest _ ih =>
      have hkept := Chars.visible_append [c] (defuse rest)
      rw [ih] at hkept
      exact hkept.trans (Chars.visible_append [c] rest).symm
  | case3 => rfl

/-- **A comment is read to its end**, whatever code follows it. -/
theorem readComment_comment (text : String) (rest : List Char) :
    readComment ((comment text).toList ++ rest) = some (defuse text.toList, rest) := by
  rw [toList_comment, List.cons_append, List.cons_append, List.cons_append, List.cons_append,
    readComment]
  exact Chars.cut_append (not_infix_defuse text.toList) rest

/-! ### Comments one after the other -/

/-- **A run of comments is read back**, one comment after the other. -/
theorem readComments_join (texts : List String) :
    readComments (String.join (texts.map comment)).toList =
      some (texts.map fun text => defuse text.toList) := by
  induction texts with
  | nil =>
      rw [readComments]
      rfl
  | cons text rest ih =>
      rw [List.map_cons, String.join_cons, String.toList_append, readComments, if_neg (by simp)]
      split
      · rename_i hnone
        rw [readComment_comment] at hnone
        cases hnone
      · rename_i hsome
        rw [readComment_comment] at hsome
        cases hsome
        rw [ih]
        rfl

end Host

/-! ### Comments among siblings -/

/-- The text of a comment. -/
def Node.remark? : Node → Option String
  | .comment value => some value
  | .element .. | .text _ => none

/-- The code of the comments among nodes is that of their texts. -/
theorem commentsOf_eq_join (nodes : List Node) :
    commentsOf nodes = String.join ((nodes.filterMap Node.remark?).map Host.comment) := by
  rw [commentsOf, List.map_filterMap]
  congr 2
  funext node
  cases node <;> rfl

/-- A sibling that brings no separator is always taken in. -/
theorem Siblings.exists_push_of_isQuiet {f : Fragment} (h : f.IsQuiet) (s : Siblings) :
    ∃ t, s.push f = .ok t := by
  cases hshown : f.isShown with
  | false => exact ⟨s, push_of_not_isShown hshown s⟩
  | true =>
      obtain ⟨code, rfl⟩ := h.resolve_left (by simp [hshown])
      exact ⟨_, push_comment hshown s⟩

/-- A node that brings no separator is lowered to the code of a comment, or to none. -/
theorem Node.lower_of_isQuiet (rt : Runtime) {node : Node} (h : node.isQuiet = true) :
    ∃ f, node.lower rt = pure f ∧ f.IsQuiet ∧ f.code = node.comment?.getD "" := by
  cases node with
  | comment value => exact ⟨.comment (Host.comment value), lower.eq_1 rt value, .inr ⟨_, rfl⟩, rfl⟩
  | text value =>
      have hnone : Segment.ofText value = [] := by simpa [isQuiet, isShown] using h
      exact ⟨.text "", by rw [lower, hnone]; rfl, .inl rfl, rfl⟩
  | element tag children => simp [isQuiet, isShown] at h

/-- **A run of comments is written behind the siblings before it**, and nothing else is. -/
theorem lowerSiblings_of_isQuiet (rt : Runtime) {nodes : List Node}
    (h : ∀ node ∈ nodes, node.isQuiet = true) (done : Siblings) :
    ∃ after, lowerSiblings rt done nodes = pure after ∧
      after.finish = done.finish.pushBare (commentsOf nodes) := by
  induction nodes generalizing done with
  | nil => exact ⟨done, lowerSiblings.eq_1 rt done, (Sequence.pushBare_empty _).symm⟩
  | cons node rest ih =>
      obtain ⟨hnode, hrest⟩ := List.forall_mem_cons.mp h
      obtain ⟨f, hlower, hquiet, hcode⟩ := node.lower_of_isQuiet rt hnode
      obtain ⟨next, hpush⟩ := Siblings.exists_push_of_isQuiet hquiet done
      obtain ⟨after, hafter, hfinish⟩ := ih hrest next
      refine ⟨after, ?_, ?_⟩
      · rw [lowerSiblings, hlower, pure_bind, hpush]
        exact hafter
      · rw [hfinish, Siblings.finish_of_push_quiet hquiet hpush, Sequence.pushBare_pushBare, hcode,
          commentsOf, commentsOf, List.filterMap_cons]
        cases node.comment? <;> simp

/-- **Comments are read apart.** In the code of a comment the first closing mark behind the opening
one is at the very end, and between them stands the text of the comment but for white space.
Siblings that are comments, and texts without segments among them, add the code of these comments to
what is written before them and nothing else, with all separators and without the last one; and from
the code that they add, each of them is read back in turn, with nothing between them. -/
theorem comments_read_apart :
    (∀ text : String, ∃ inside : List Char,
      (Host.comment text).toList = '/' :: '*' :: (inside ++ ['*', '/']) ∧
      ¬ ['*', '/'] <:+: inside ++ ['*'] ∧ Chars.visible inside = Chars.visible text.toList) ∧
    ∀ (rt : Runtime) (done : Siblings) (nodes : List Node),
      (∀ node ∈ nodes, node.isQuiet = true) →
      (∃ after, lowerSiblings rt done nodes = pure after ∧
        after.finish.code = done.finish.code ++ commentsOf nodes ∧
        after.finish.withoutLast = done.finish.withoutLast ++ commentsOf nodes) ∧
      lowerChildren rt nodes = pure (commentsOf nodes) ∧
      lowerBlock rt nodes = pure (commentsOf nodes) ∧
      Host.readComments (commentsOf nodes).toList =
        some ((nodes.filterMap Node.remark?).map fun text => Host.defuse text.toList) := by
  refine ⟨fun text => ⟨Host.defuse text.toList, ?_, Host.not_infix_defuse _,
    Host.visible_defuse _⟩, fun rt done nodes h => ⟨?_, ?_, ?_, ?_⟩⟩
  · rw [Host.toList_comment]
    rfl
  · obtain ⟨after, hafter, hfinish⟩ := lowerSiblings_of_isQuiet rt h done
    refine ⟨after, hafter, ?_, ?_⟩
    · rw [hfinish, Sequence.code_pushBare]
    · rw [hfinish, Sequence.withoutLast_pushBare]
  · obtain ⟨after, hafter, hfinish⟩ := lowerSiblings_of_isQuiet rt h {}
    rw [lowerChildren, hafter, pure_bind, hfinish, Sequence.code_pushBare]
    exact congrArg pure String.empty_append
  · obtain ⟨after, hafter, hfinish⟩ := lowerSiblings_of_isQuiet rt h {}
    rw [lowerBlock, hafter, pure_bind, hfinish, Sequence.withoutLast_pushBare]
    exact congrArg pure String.empty_append
  · rw [commentsOf_eq_join, Host.readComments_join]

/-- Comments that begin and end like delimiters and hold runs of marks, with blank text and an
expression without code between them. -/
def delimited : List Node :=
  [.comment "/", .text " \n", .comment "a*", .comment "", .text "\x7b\x7b \x7d\x7d",
    .comment "**//*/"]

/-- The four comments are read apart. -/
theorem delimited_read_apart :
    (∀ node ∈ delimited, node.isQuiet = true) ∧
      commentsOf delimited = "/*/*//*a**//**//*** //* /*/" ∧
      lowerBlock ⟨"g"⟩ delimited = pure (commentsOf delimited) ∧
      Host.readComments (commentsOf delimited).toList =
        some ["/".toList, "a*".toList, "".toList, "** //* /".toList] := by
  have hquiet : ∀ node ∈ delimited, node.isQuiet = true := by decide +kernel
  obtain ⟨-, hruns⟩ := comments_read_apart
  obtain ⟨-, -, hblock, hread⟩ := hruns ⟨"g"⟩ {} delimited hquiet
  have htexts : (delimited.filterMap Node.remark?).map (fun text => Host.defuse text.toList) =
      ["/".toList, "a*".toList, "".toList, "** //* /".toList] := by decide +kernel
  exact ⟨hquiet, by decide +kernel, hblock, hread.trans (congrArg some htexts)⟩

end Stencil
