import Stencil.Proofs.Locations

/-!
# Steps and components of paths

A path is made of a path and a name by writing text behind text, and its parent is found by
cutting text off. Here these operations are said by what they do to the steps of a path, so that
later statements about where paths lead need not look at texts. What decides the steps of a path
are its segments and whether it begins at the root: `steps_eq`.

The other half is about the order of paths, which is the order of their components.

## Main results

* `steps_join`: a text without a slash, put behind a path, adds at most one step.
* `steps_withFileName`: **another file name replaces the last step**, and the steps before it lead
  where they led.
* `components_child`: a child has one component more.
* `Name.text_eq_of_extension?`: a name with an extension is its stem, a dot and the extension.
* `le_trans`, `components_eq_of_le`: the order of paths is transitive, and paths that come before
  each other have the same components.
-/

namespace Stencil

/-! ### Names with an extension -/

namespace Name

/-- A name with an extension is its stem, a dot and the extension, and the stem is not empty. -/
theorem text_eq_of_extension? {n : Name} {extension : String} (h : n.extension? = some extension) :
    n.text = n.stem ++ "." ++ extension ∧ n.stem ≠ "" := by
  have hsplit := List.takeWhile_append_dropWhile (p := (· ≠ '.')) (l := n.text.toList.reverse)
  unfold extension? at h
  unfold stem
  split at h
  · rename_i dot first rest hdrop
    obtain rfl := Option.some.inj h
    have hdot : dot = '.' := by
      have hne : n.text.toList.reverse.dropWhile (· ≠ '.') ≠ [] := by rw [hdrop]; simp
      have hhead := List.head_dropWhile_not (· ≠ '.') hne
      simp only [hdrop, List.head_cons] at hhead
      simpa using hhead
    rw [hdrop, hdot] at hsplit
    refine ⟨?_, fun hempty => by simpa using congrArg String.toList hempty⟩
    have hreverse := congrArg List.reverse hsplit
    rw [List.reverse_reverse] at hreverse
    refine String.toList_injective (hreverse.symm.trans ?_)
    simp
  · cases h

/-- Names with one stem and one extension are the same. -/
theorem eq_of_stem_eq {n m : Name} {extension : String} (hn : n.extension? = some extension)
    (hm : m.extension? = some extension) (h : n.stem = m.stem) : n = m := by
  apply ext
  rw [(text_eq_of_extension? hn).1, (text_eq_of_extension? hm).1, h]

end Name

/-! ### Segments -/

namespace Path

theorem segments_append_slash (s rest : List Char) :
    segments (s ++ '/' :: rest) = segments s ++ segments rest := by
  induction s with
  | nil => simp [segments]
  | cons c s ih =>
      rw [List.cons_append, segments, segments, ih]
      split
      · rfl
      · cases hs : segments s with
        | nil => exact absurd hs (segments_ne_nil s)
        | cons segment more => rfl

theorem segments_of_not_mem {s : List Char} (h : '/' ∉ s) : segments s = [s] := by
  induction s with
  | nil => rfl
  | cons c s ih =>
      obtain ⟨hc, hs⟩ := not_or.mp (mt List.mem_cons.mpr h)
      rw [segments, if_neg (Ne.symm hc), ih hs]

/-- Segments with slashes between them are the segments of the text that they make up. -/
theorem segments_intercalate {parts : List (List Char)} (hne : parts ≠ [])
    (h : ∀ part ∈ parts, '/' ∉ part) : segments (['/'].intercalate parts) = parts := by
  induction parts with
  | nil => exact absurd rfl hne
  | cons part rest ih =>
      have hpart := segments_of_not_mem (h part List.mem_cons_self)
      cases rest with
      | nil => simpa using hpart
      | cons next rest =>
          have hrest := ih (by simp) fun other hother => h other (List.mem_cons_of_mem part hother)
          rw [List.intercalate_cons_cons, List.append_assoc, List.singleton_append,
            segments_append_slash, hpart, hrest]
          rfl

end Path

namespace Component

/-- A segment is known by its step. -/
theorem ofSegment?_inj {s s' : List Char} {c : Component} (h : ofSegment? s = some c)
    (h' : ofSegment? s' = some c) : s = s' := by
  unfold ofSegment? Name.ofText? at h h'
  grind [String.ofList_inj]

/-- Only the empty text and texts with a slash are no step. -/
theorem isSome_ofSegment? {s : List Char} (hne : s ≠ []) (h : '/' ∉ s) :
    (ofSegment? s).isSome = true := by
  unfold ofSegment?
  split
  · rfl
  · rename_i hdot
    split
    · rfl
    · rename_i hdots
      have hname : isName (String.ofList s) = true := by
        simp only [isName, Bool.and_eq_true, bne_iff_ne, ne_eq, Bool.not_eq_true',
          String.toList_ofList]
        refine ⟨⟨⟨?_, ?_⟩, ?_⟩, by simpa using h⟩
        · exact fun heq => hne (by simpa using congrArg String.toList heq)
        · exact fun heq => hdot (by simpa using congrArg String.toList heq)
        · exact fun heq => hdots (by simpa using congrArg String.toList heq)
      simp [Name.ofText?, hname]

theorem ofSegment?_name (n : Name) : ofSegment? n.text.toList = some (.name n) := by
  have hvalid := n.valid
  simp only [isName, Bool.and_eq_true, bne_iff_ne, ne_eq] at hvalid
  obtain ⟨⟨⟨-, hdot⟩, hdots⟩, -⟩ := hvalid
  unfold ofSegment?
  rw [if_neg, if_neg, String.ofList_toList, Name.ofText?_text, Option.map_some]
  · exact fun heq => hdots (String.toList_injective heq)
  · exact fun heq => hdot (String.toList_injective heq)

theorem slash_not_mem_name (n : Name) : '/' ∉ n.text.toList := by
  have hvalid := n.valid
  simp only [isName, Bool.and_eq_true, Bool.not_eq_true', List.contains_eq_mem,
    decide_eq_false_iff_not] at hvalid
  exact hvalid.2

end Component

namespace Path

/-! ### Steps -/

/-- The steps of segments. -/
def stepsOf (parts : List (List Char)) : List Component := parts.filterMap Component.ofSegment?

@[simp] theorem stepsOf_nil : stepsOf [] = [] := rfl

@[simp] theorem stepsOf_cons (part : List Char) (rest : List (List Char)) :
    stepsOf (part :: rest) = (Component.ofSegment? part).toList ++ stepsOf rest := by
  cases h : Component.ofSegment? part <;> simp [stepsOf, h]

@[simp] theorem stepsOf_append (parts rest : List (List Char)) :
    stepsOf (parts ++ rest) = stepsOf parts ++ stepsOf rest := List.filterMap_append

@[simp] theorem ofSegment?_nil : Component.ofSegment? [] = none := rfl

@[simp] theorem ofSegment?_dot : Component.ofSegment? ['.'] = some .current := rfl

@[simp] theorem segments_nil : segments [] = [[]] := rfl

@[simp] theorem segments_slash (s : List Char) : segments ('/' :: s) = [] :: segments s := by
  rw [segments, if_pos rfl]

/-- **The steps of a path** are those of its segments, after the root if it begins there. -/
theorem steps_eq (p : Path) :
    p.steps = (if p.isAbsolute then [.root] else []) ++ stepsOf (segments p.text.toList) := by
  have hsteps : p.steps = p.anchor.component?.toList ++ stepsOf p.body := rfl
  rw [hsteps]
  unfold body isAbsolute anchor
  split
  · rename_i rest htext
    simp [htext, Anchor.component?, Anchor.text]
  · rename_i htext
    simp [htext, Anchor.component?, Anchor.text, segments]
  · rename_i rest htext
    have hsegments : segments ('.' :: '/' :: rest) = ['.'] :: segments rest :=
      segments_append_slash ['.'] rest
    simp [htext, Anchor.component?, Anchor.text, hsegments]
  · simp [Anchor.component?, Anchor.text]

theorem isAbsolute_iff (p : Path) : p.isAbsolute = true ↔ ∃ rest, p.text.toList = '/' :: rest := by
  unfold isAbsolute anchor
  split <;> simp_all

theorem isAbsolute_of_text_eq {p q : Path} {more : List Char}
    (h : q.text.toList = p.text.toList ++ more) (hne : p.text.toList ≠ []) :
    q.isAbsolute = p.isAbsolute := by
  rw [Bool.eq_iff_iff, isAbsolute_iff, isAbsolute_iff, h]
  cases hp : p.text.toList with
  | nil => exact absurd hp hne
  | cons c rest => simp

/-- A path that is not empty has a step. -/
theorem steps_ne_nil {p : Path} (h : p.text ≠ "") : p.steps ≠ [] := by
  rw [steps_eq]
  cases habsolute : p.isAbsolute with
  | true => simp
  | false =>
      -- The first segment is not empty, since the path does not begin with a slash.
      have hfirst : ∃ first more, segments p.text.toList = first :: more ∧ first ≠ [] ∧
          '/' ∉ first := by
        by_cases hslash : '/' ∈ p.text.toList
        · obtain ⟨first, rest, htext, hfirst⟩ := List.eq_append_cons_of_mem hslash
          refine ⟨first, segments rest, ?_, ?_, hfirst⟩
          · rw [htext, segments_append_slash, segments_of_not_mem hfirst, List.singleton_append]
          · rintro rfl
            have hroot := (isAbsolute_iff p).mpr ⟨rest, htext⟩
            rw [habsolute] at hroot
            cases hroot
        · exact ⟨_, [], segments_of_not_mem hslash,
            fun hnil => h (String.toList_injective hnil), hslash⟩
      obtain ⟨first, more, hsegments, hne, hslash⟩ := hfirst
      obtain ⟨step, hstep⟩ := Option.isSome_iff_exists.mp (Component.isSome_ofSegment? hne hslash)
      simp [hsegments, hstep]

/-- What the text of a path is when something relative is put behind it. -/
theorem toList_join {p q : Path} (hq : q.isAbsolute = false) :
    p.text.toList = [] ∧ p.join q = q ∨
      (∃ above, p.text.toList = above ++ ['/'] ∧
        (p.join q).text.toList = above ++ '/' :: q.text.toList) ∨
      p.text.toList ≠ [] ∧ (p.join q).text.toList = p.text.toList ++ '/' :: q.text.toList := by
  unfold join
  rw [if_neg (by simp [hq])]
  split
  · rename_i hlast
    exact .inl ⟨List.getLast?_eq_none_iff.mp hlast, rfl⟩
  · rename_i hlast
    obtain ⟨above, habove⟩ := List.getLast?_eq_some_iff.mp hlast
    exact .inr (.inl ⟨above, habove, by simp [habove]⟩)
  · rename_i hlast
    exact .inr (.inr ⟨fun hnil => by simp [hnil] at hlast, by simp⟩)

/-- **A text without a slash, put behind a path, adds at most one step.** -/
theorem steps_join (p : Path) {text : String} (h : '/' ∉ text.toList) :
    (p.join ⟨text⟩).steps = p.steps ++ (Component.ofSegment? text.toList).toList := by
  have hrelative : (⟨text⟩ : Path).isAbsolute = false := by
    rw [Bool.eq_false_iff, ne_eq, isAbsolute_iff]
    rintro ⟨rest, hrest⟩
    exact h (hrest ▸ List.mem_cons_self)
  rw [steps_eq, steps_eq]
  rcases toList_join (p := p) hrelative with ⟨hnil, hjoin⟩ | ⟨above, habove, hjoin⟩ | ⟨hne, hjoin⟩
  · have hp : p.isAbsolute = false := by
      rw [Bool.eq_false_iff, ne_eq, isAbsolute_iff, hnil]
      simp
    rw [hjoin, hrelative, hp, segments_of_not_mem h, hnil]
    simp
  · have htext : (p.join ⟨text⟩).text.toList = p.text.toList ++ text.toList := by
      rw [hjoin, habove]
      simp
    rw [isAbsolute_of_text_eq htext (by simp [habove]), hjoin, habove, segments_append_slash,
      segments_append_slash, segments_of_not_mem h]
    simp
  · rw [isAbsolute_of_text_eq hjoin hne, hjoin, segments_append_slash, segments_of_not_mem h]
    simp

theorem steps_child (p : Path) (n : Name) : (p.child n).steps = p.steps ++ [.name n] := by
  rw [child, steps_join p (Component.slash_not_mem_name n), Component.ofSegment?_name]
  rfl

/-! ### Idle segments -/

theorem isIdle_iff {part : List Char} : isIdle part = true ↔ part = [] ∨ part = ['.'] := by
  simp [isIdle]

/-- Idle segments stand still. -/
theorem walk_idle {parts : List (List Char)} (h : ∀ part ∈ parts, isIdle part = true)
    (here : Location) : FileTree.walk here (stepsOf parts) = here := by
  induction parts with
  | nil => rfl
  | cons part rest ih =>
      have hrest := ih fun other hother => h other (List.mem_cons_of_mem part hother)
      rcases isIdle_iff.mp (h part List.mem_cons_self) with rfl | rfl <;> exact hrest

/-- No step of an idle segment is a name. -/
theorem name_not_mem_stepsOf {parts : List (List Char)} (h : ∀ part ∈ parts, isIdle part = true)
    (n : Name) : Component.name n ∉ stepsOf parts := by
  intro hmem
  obtain ⟨part, hpart, hstep⟩ := List.mem_filterMap.mp hmem
  rcases isIdle_iff.mp (h part hpart) with rfl | rfl <;> cases hstep

/-- What is cut off at the end is idle. -/
theorem eq_trimIdle_append (parts : List (List Char)) :
    ∃ idle, parts = trimIdle parts ++ idle ∧ ∀ part ∈ idle, isIdle part = true := by
  refine ⟨(parts.reverse.takeWhile isIdle).reverse, ?_, fun part hpart => ?_⟩
  · rw [trimIdle, ← List.reverse_append, List.takeWhile_append_dropWhile, List.reverse_reverse]
  · exact List.all_eq_true.mp List.all_takeWhile part (List.mem_reverse.mp hpart)

/-- What is left does not end in an idle segment. -/
theorem isIdle_getLast?_trimIdle {parts : List (List Char)} {part : List Char}
    (h : (trimIdle parts).getLast? = some part) : isIdle part = false := by
  rw [trimIdle, List.getLast?_reverse] at h
  obtain ⟨rest, hrest⟩ := List.head?_eq_some_iff.mp h
  have hne : parts.reverse.dropWhile isIdle ≠ [] := by rw [hrest]; simp
  have hhead := List.head_dropWhile_not isIdle hne
  simpa only [hrest, List.head_cons] using hhead

/-! ### Parents -/

/-- Behind the dot of the current directory the first segment is empty. -/
theorem body_of_current {p : Path} {part : List Char} {more : List (List Char)}
    (hanchor : p.anchor = .current) (hbody : p.body = part :: more) : part = [] := by
  rw [body, hanchor] at hbody
  unfold anchor at hanchor
  split at hanchor
  · cases hanchor
  · rename_i htext
    simp_all [Anchor.text]
  · rename_i rest htext
    simp_all [Anchor.text]
  · cases hanchor

/-- Without an anchor the first segment is not empty, unless the path is. -/
theorem body_of_none {p : Path} {more : List (List Char)} (hanchor : p.anchor = .none)
    (hbody : p.body = [] :: more) : more = [] := by
  rw [body, hanchor] at hbody
  simp only [Anchor.text, List.length_nil, List.drop_zero] at hbody
  cases htext : p.text.toList with
  | nil => simp_all
  | cons c rest =>
      by_cases hc : c = '/'
      · unfold anchor at hanchor
        simp [htext, hc] at hanchor
      · rw [htext, segments, if_neg hc] at hbody
        split at hbody <;> simp at hbody

/-- **The steps of an anchor with the beginning of a body behind it**, as the parent of a path is
written. -/
theorem steps_ofKept (p : Path) {kept dropped : List (List Char)} (hbody : p.body = kept ++ dropped)
    (hlast : ∀ part, kept.getLast? = some part → isIdle part = false) :
    (⟨String.ofList (p.anchor.text ++ ['/'].intercalate kept)⟩ : Path).steps =
      p.anchor.component?.toList ++ stepsOf kept := by
  have hslash : ∀ part ∈ kept, '/' ∉ part := fun part hpart =>
    slash_not_mem_segments (hbody ▸ List.mem_append_left dropped hpart)
  rw [steps_eq, String.toList_ofList]
  cases kept with
  | nil =>
      cases p.anchor <;> simp [Anchor.text, Anchor.component?, isAbsolute, anchor, segments]
  | cons part rest =>
      have hsegments := segments_intercalate (by simp) hslash
      cases hanchor : p.anchor with
      | root =>
          have habsolute : (⟨String.ofList (Anchor.root.text ++ ['/'].intercalate (part :: rest))⟩ :
              Path).isAbsolute = true := (isAbsolute_iff _).mpr ⟨_, String.toList_ofList⟩
          rw [habsolute]
          simp only [Anchor.text, List.singleton_append, segments_slash, hsegments]
          simp [Anchor.component?]
      | current =>
          obtain rfl := body_of_current hanchor hbody
          cases rest with
          | nil => exact absurd (hlast [] rfl) (by decide)
          | cons next more =>
              have hmore : segments (['/'].intercalate (next :: more)) = next :: more :=
                segments_intercalate (by simp)
                  fun other hother => hslash other (List.mem_cons_of_mem [] hother)
              have htext : Anchor.current.text ++ ['/'].intercalate ([] :: next :: more) =
                  ['.'] ++ '/' :: ['/'].intercalate (next :: more) := by
                rw [List.intercalate_cons_cons]
                rfl
              rw [htext, segments_append_slash, hmore]
              simp [Anchor.component?, isAbsolute, anchor, segments]
      | none =>
          have hpart : part ≠ [] := by
            rintro rfl
            obtain rfl : rest = [] := (List.append_eq_nil_iff.mp (body_of_none hanchor hbody)).1
            exact absurd (hlast [] rfl) (by decide)
          have hrelative : (⟨String.ofList (Anchor.none.text ++ ['/'].intercalate (part :: rest))⟩ :
              Path).isAbsolute = false := by
            rw [Bool.eq_false_iff, ne_eq, isAbsolute_iff, String.toList_ofList]
            rintro ⟨more, hmore⟩
            cases part with
            | nil => exact hpart rfl
            | cons c cs =>
                refine hslash (c :: cs) List.mem_cons_self ?_
                cases rest <;> simp_all [Anchor.text]
          rw [hrelative]
          simp only [Anchor.text, List.nil_append, hsegments]
          simp [Anchor.component?]

theorem name_not_mem_component? (a : Anchor) (n : Name) :
    Component.name n ∉ a.component?.toList := by
  cases a <;> simp [Anchor.component?]

theorem walk_append (here : Location) (steps rest : List Component) :
    FileTree.walk here (steps ++ rest) = FileTree.walk (FileTree.walk here steps) rest :=
  List.foldl_append

/-- The segments of a path whose last step is a name: those on the way, then the one for the name,
and then idle ones. -/
theorem body_of_steps {p : Path} {init : List Component} {n : Name}
    (h : p.steps = init ++ [.name n]) :
    ∃ above last idle, trimIdle p.body = above ++ [last] ∧ p.body = above ++ last :: idle ∧
      init = p.anchor.component?.toList ++ stepsOf above := by
  have hsteps : p.steps = p.anchor.component?.toList ++ stepsOf p.body := rfl
  obtain ⟨idle, hbody, hidle⟩ := eq_trimIdle_append p.body
  rw [hsteps, hbody, stepsOf_append] at h
  have hnone : stepsOf idle = [] := by
    rcases List.eq_nil_or_concat (stepsOf idle) with hnil | ⟨steps, step, hconcat⟩
    · exact hnil
    · rw [hconcat, List.concat_eq_append, ← List.append_assoc, ← List.append_assoc,
        List.append_singleton_inj] at h
      refine absurd ?_ (name_not_mem_stepsOf hidle n)
      rw [hconcat, ← h.2]
      simp
  rw [hnone, List.append_nil] at h
  rcases List.eq_nil_or_concat (trimIdle p.body) with hnil | ⟨above, last, hconcat⟩
  · rw [hnil, stepsOf_nil, List.append_nil] at h
    refine absurd ?_ (name_not_mem_component? p.anchor n)
    rw [h]
    simp
  · rw [List.concat_eq_append] at hconcat
    have hbody' : p.body = above ++ last :: idle := by
      rw [hbody, hconcat, List.append_assoc]
      rfl
    have hlast : isIdle last = false := isIdle_getLast?_trimIdle (by rw [hconcat]; simp)
    have hmem : last ∈ p.body := by rw [hbody']; simp
    have hne : last ≠ [] := by rintro rfl; cases hlast
    obtain ⟨step, hstep⟩ := Option.isSome_iff_exists.mp
      (Component.isSome_ofSegment? hne (slash_not_mem_segments hmem))
    refine ⟨above, last, idle, hconcat, hbody', ?_⟩
    rw [hconcat, stepsOf_append, stepsOf_cons, hstep, stepsOf_nil, Option.toList_some,
      List.append_nil, ← List.append_assoc, List.append_singleton_inj] at h
    exact h.1.symm

/-- **The parent of a path whose last step is a name** leads where the steps before the name
lead. -/
theorem exists_parent {p : Path} {init : List Component} {n : Name}
    (h : p.steps = init ++ [.name n]) :
    ∃ parent, p.parent? = some parent ∧
      ∀ here, FileTree.walk here parent.steps = FileTree.walk here init := by
  obtain ⟨above, last, idle, htrim, hbody, rfl⟩ := body_of_steps h
  obtain ⟨idle', habove, hidle'⟩ := eq_trimIdle_append above
  have hparent : p.parent? =
      some ⟨String.ofList (p.anchor.text ++ ['/'].intercalate (trimIdle above))⟩ := by
    unfold parent?
    rw [htrim]
    split
    · rename_i hnil
      simp at hnil
    · rename_i heq
      rw [← heq, List.dropLast_concat]
  refine ⟨_, hparent, fun here => ?_⟩
  have hkept : p.body = trimIdle above ++ (idle' ++ last :: idle) := by
    rw [hbody, ← List.append_assoc, ← habove]
  rw [steps_ofKept p hkept fun part => isIdle_getLast?_trimIdle, walk_append, walk_append]
  conv => rhs; rw [habove, stepsOf_append, walk_append, walk_idle hidle']

/-- A path whose last step is a name has it as its file name. -/
theorem fileName?_of_steps {p : Path} {init : List Component} {n : Name}
    (h : p.steps = init ++ [.name n]) : p.fileName? = some n := by
  have hsteps : p.steps = p.anchor.component?.toList ++ stepsOf p.body := rfl
  have hcomponents : p.components =
      p.anchor.component?.toList ++ (stepsOf p.body).filter fun c => c ≠ .current := rfl
  rw [hsteps] at h
  rw [fileName?, hcomponents]
  rcases List.eq_nil_or_concat (stepsOf p.body) with hnil | ⟨steps, step, hconcat⟩
  · rw [hnil, List.append_nil] at h
    refine absurd ?_ (name_not_mem_component? p.anchor n)
    rw [h]
    simp
  · rw [hconcat, List.concat_eq_append, ← List.append_assoc, List.append_singleton_inj] at h
    rw [hconcat, h.2]
    simp

/-- **Another file name replaces the last step**, and the steps before it lead where they led. -/
theorem steps_withFileName {p : Path} {init : List Component} {n : Name} {text : String}
    (h : p.steps = init ++ [.name n]) (htext : '/' ∉ text.toList) :
    ∃ above, (p.withFileName text).steps = above ++ (Component.ofSegment? text.toList).toList ∧
      ∀ here, FileTree.walk here above = FileTree.walk here init := by
  obtain ⟨parent, hparent, hwalk⟩ := exists_parent h
  refine ⟨parent.steps, ?_, hwalk⟩
  rw [withFileName, fileName?_of_steps h, hparent]
  exact steps_join parent htext

/-! ### Components -/

theorem isAbsolute_name (n : Name) : (⟨n.text⟩ : Path).isAbsolute = false := by
  rw [Bool.eq_false_iff, ne_eq, isAbsolute_iff]
  rintro ⟨rest, hrest⟩
  exact Component.slash_not_mem_name n (hrest ▸ List.mem_cons_self)

/-- Where a path of two characters or more begins is seen from the first two. -/
theorem anchor_of_toList {p : Path} {c d : Char} {rest : List Char}
    (h : p.text.toList = c :: d :: rest) :
    p.anchor = if c = '/' then .root else if c = '.' ∧ d = '/' then .current else .none := by
  unfold anchor
  rw [h]
  split <;> simp_all

/-- A child begins where the path begins. -/
theorem anchor_child (p : Path) (n : Name) : (p.child n).anchor = p.anchor := by
  rcases toList_join (p := p) (isAbsolute_name n) with
    ⟨hnil, hjoin⟩ | ⟨above, habove, hjoin⟩ | hlong
  · rw [child, hjoin]
    have hslash := Component.slash_not_mem_name n
    have hdot : n.text.toList ≠ ['.'] := fun heq => by
      have hstep := Component.ofSegment?_name n
      rw [heq] at hstep
      cases hstep
    unfold anchor
    rw [hnil]
    split <;> simp_all
  · match above with
    | [] =>
        unfold anchor
        rw [child, habove, hjoin]
        rfl
    | [c] => rw [child, anchor_of_toList hjoin, anchor_of_toList habove]
    | c :: d :: rest => rw [child, anchor_of_toList hjoin, anchor_of_toList habove]
  · obtain ⟨hne, hjoin⟩ := hlong
    match htext : p.text.toList, hne with
    | [c], _ =>
        rw [htext] at hjoin
        rw [child, anchor_of_toList hjoin]
        unfold anchor
        rw [htext]
        grind
    | c :: d :: rest, _ =>
        rw [htext] at hjoin
        rw [child, anchor_of_toList hjoin, anchor_of_toList htext]

/-- A child has one component more. -/
theorem components_child (p : Path) (n : Name) :
    (p.child n).components = p.components ++ [.name n] := by
  have hsteps := steps_child p n
  have heq (p : Path) : p.steps = p.anchor.component?.toList ++ stepsOf p.body := rfl
  have hcomponents (p : Path) : p.components =
      p.anchor.component?.toList ++ (stepsOf p.body).filter fun c => c ≠ .current := rfl
  rw [heq, heq, anchor_child, List.append_assoc, List.append_cancel_left_eq] at hsteps
  rw [hcomponents, hcomponents, anchor_child, hsteps, List.filter_append, List.append_assoc]
  rfl

end Path

/-! ### The order of paths -/

namespace Component

theorem before_irrefl (a : Component) : before a a = false := by
  cases a <;> simp [before, rank]

theorem before_trans {a b c : Component} (hab : before a b = true) (hbc : before b c = true) :
    before a c = true := by
  cases a <;> cases b <;> cases c
  case name.name.name a b c =>
    simp only [before, decide_eq_true_eq] at hab hbc ⊢
    exact String.lt_trans hab hbc
  all_goals simp_all [before, rank]

theorem listLe_trans {as bs cs : List Component} (hab : listLe as bs = true)
    (hbc : listLe bs cs = true) : listLe as cs = true := by
  induction as generalizing bs cs with
  | nil => rfl
  | cons a as ih =>
      match bs, cs, hab, hbc with
      | b :: bs, c :: cs, hab, hbc =>
          rw [listLe] at hab hbc ⊢
          by_cases hsame : a = b
          · subst hsame
            rw [if_pos rfl] at hab
            by_cases hlast : a = c
            · rw [if_pos hlast] at hbc ⊢
              exact ih hab hbc
            · rwa [if_neg hlast] at hbc ⊢
          · rw [if_neg hsame] at hab
            by_cases hlast : b = c
            · rwa [← hlast, if_neg hsame]
            · rw [if_neg hlast] at hbc
              have hac := before_trans hab hbc
              have hne : a ≠ c := by
                rintro rfl
                rw [before_irrefl] at hac
                cases hac
              rwa [if_neg hne]

theorem listLe_antisymm {as bs : List Component} (hab : listLe as bs = true)
    (hba : listLe bs as = true) : as = bs := by
  induction as generalizing bs with
  | nil =>
      cases bs with
      | nil => rfl
      | cons b bs => cases hba
  | cons a as ih =>
      match bs, hab, hba with
      | b :: bs, hab, hba =>
          rw [listLe] at hab hba
          by_cases hsame : a = b
          · rw [if_pos hsame] at hab
            rw [if_pos hsame.symm] at hba
            rw [hsame, ih hab hba]
          · rw [if_neg hsame] at hab
            rw [if_neg (Ne.symm hsame)] at hba
            have hirrefl := before_trans hab hba
            rw [before_irrefl] at hirrefl
            cases hirrefl

end Component

namespace Path

theorem le_trans {p q r : Path} (hpq : p.le q = true) (hqr : q.le r = true) : p.le r = true :=
  Component.listLe_trans hpq hqr

/-- Paths that come before each other have the same components. -/
theorem components_eq_of_le {p q : Path} (hpq : p.le q = true) (hqp : q.le p = true) :
    p.components = q.components :=
  Component.listLe_antisymm hpq hqp

end Path

end Stencil
