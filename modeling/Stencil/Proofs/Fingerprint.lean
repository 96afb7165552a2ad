import Stencil.Options
import Stencil.Proofs.JsonText
import Mathlib.Data.List.Basic

/-!
# Fingerprints at the end of a text

The text that the cache takes the digest of is a source with the fingerprint of the options
right after it, without a mark between the two. The source and the options can be told from it
all the same. A fingerprint begins with `{"r`, and nowhere else do these three characters stand
in it: a brace can only stand inside a string, where a quote is either escaped, and then has a
backslash before it, or ends the string, and then has a comma or a bracket after it.

The search for the three characters is a small automaton, `Recent`; a text is `Calm` if the
automaton comes to nothing in it and ends where it began.

## Main results

* `not_opening_of_read`: where the automaton goes on, the three characters do not stand.
* `fingerprint_eq`: a fingerprint is a brace and then a calm text.
* `append_fingerprint_inj`: **the source and the options can be told from the text of the key**.
-/

namespace Stencil

/-- How much of `{"r` stands right before a place in a text. -/
inductive Recent where
  | other
  | brace
  | quoted
deriving DecidableEq, Repr

namespace Recent

/-- The characters that a fingerprint begins with. -/
def opening : List Char := ['\x7b', '"', 'r']

/-- What stands before the place after one more character; nothing once all three are there. -/
def step (q : Recent) (c : Char) : Option Recent :=
  if c = '\x7b' then some brace
  else if q = brace ∧ c = '"' then some quoted
  else if q = quoted ∧ c = 'r' then none
  else some other

/-- What stands before the end of a text, if the three characters do not stand in it. -/
def read (q : Recent) (s : List Char) : Option Recent := s.foldlM step q

@[simp] theorem read_nil (q : Recent) : read q [] = some q := rfl

@[simp] theorem read_cons (q : Recent) (c : Char) (s : List Char) :
    read q (c :: s) = (step q c).bind fun q => read q s := rfl

theorem read_append (q : Recent) (s s' : List Char) :
    read q (s ++ s') = (read q s).bind fun q => read q s' :=
  List.foldlM_append

/-- Where the automaton goes on, the three characters do not stand. -/
theorem not_opening_of_read {q q' : Recent} {s : List Char} (h : read q s = some q') :
    ¬ opening <:+: s := by
  rintro ⟨before, after, rfl⟩
  rw [List.append_assoc, read_append] at h
  obtain ⟨q₁, -, h⟩ := Option.bind_eq_some_iff.mp h
  -- Whatever stands before, the three characters are the way from `brace` over `quoted` to the end.
  have hstop : read q₁ (opening ++ after) = none := by
    cases q₁ <;> rfl
  rw [hstop] at h
  cases h

/-- The automaton goes through the text, and at the end as at the beginning no brace or quote
that could belong to the three characters stands before the place. -/
def Calm (s : List Char) : Prop := read other s = some other

theorem Calm.append {s s' : List Char} (h : Calm s) (h' : Calm s') : Calm (s ++ s') := by
  rw [Calm, read_append, h]
  exact h'

/-! ### Strings -/

/-- Without a quote the automaton does not come to `quoted`. -/
theorem read_of_not_mem_quote {s : List Char} (hs : '"' ∉ s) {q : Recent} (hq : q ≠ quoted) :
    ∃ q', q' ≠ quoted ∧ read q s = some q' := by
  induction s generalizing q with
  | nil => exact ⟨q, hq, rfl⟩
  | cons c s ih =>
      obtain ⟨hc, hs⟩ : '"' ≠ c ∧ '"' ∉ s := by simpa using hs
      have hstep : ∃ q₁, q₁ ≠ quoted ∧ step q c = some q₁ := by
        by_cases hbrace : c = '\x7b'
        · exact ⟨brace, by decide, by simp [step, hbrace]⟩
        · exact ⟨other, by decide, by simp [step, hbrace, hc.symm, hq]⟩
      obtain ⟨q₁, hq₁, hstep⟩ := hstep
      obtain ⟨q', hq', hread⟩ := ih hs hq₁
      exact ⟨q', hq', by rw [read_cons, hstep]; exact hread⟩

theorem hexChar_ne_quote : ∀ n < 16, '"' ≠ Chars.hexChar n := by decide

/-- A quote inside a string has a backslash before it. -/
theorem read_escapeChar (c : Char) {q : Recent} (hq : q ≠ quoted) :
    ∃ q', q' ≠ quoted ∧ read q (Json.escapeChar c) = some q' := by
  by_cases hquote : c = '"'
  · subst hquote
    refine ⟨other, by decide, ?_⟩
    cases q with
    | other => rfl
    | brace => rfl
    | quoted => exact absurd rfl hq
  · refine read_of_not_mem_quote ?_ hq
    unfold Json.escapeChar
    split_ifs with hescape hback htab hline hfeed hreturn hcontrol
    any_goals decide
    · have hhigh := hexChar_ne_quote (c.toNat / 16) (by omega)
      have hlow := hexChar_ne_quote (c.toNat % 16) (by omega)
      simp [hhigh, hlow]
    · simpa using Ne.symm hquote

theorem read_flatMap_escapeChar (s : List Char) {q : Recent} (hq : q ≠ quoted) :
    ∃ q', q' ≠ quoted ∧ read q (s.flatMap Json.escapeChar) = some q' := by
  induction s generalizing q with
  | nil => exact ⟨q, hq, rfl⟩
  | cons c s ih =>
      obtain ⟨q₁, hq₁, hc⟩ := read_escapeChar c hq
      obtain ⟨q', hq', hs⟩ := ih hq₁
      refine ⟨q', hq', ?_⟩
      rw [List.flatMap_cons, read_append, hc]
      exact hs

/-! ### Values -/

/-- The text of a value is calm together with any mark that can stand after it. -/
def CalmValue (v : Json) : Prop :=
  ∀ c, c ≠ 'r' → c ≠ '\x7b' → c ≠ '"' → Calm (v.render.toList ++ [c])

theorem calm_singleton {c : Char} (h : c ≠ '\x7b') : Calm [c] := by
  simp [Calm, step, h]

/-- The quote at the end of a string is followed by the mark after the string. -/
theorem calmValue_string (s : String) : CalmValue (.string (some s)) := by
  intro c hr hbrace hquote
  obtain ⟨q, hq, hread⟩ := read_flatMap_escapeChar s.toList (q := other) (by decide)
  have hend : read q ['"', c] = some other := by
    cases q with
    | other => simp [step, hbrace]
    | brace => simp [step, hbrace, hr]
    | quoted => exact absurd rfl hq
  have htext : (Json.string (some s)).render.toList ++ [c] =
      '"' :: (s.toList.flatMap Json.escapeChar ++ ['"', c]) := by
    simp [Json.render, Json.quote, Json.quoteChars]
  rw [Calm, htext, read_cons, show step other '"' = some other by decide, Option.bind_some,
    read_append, hread]
  exact hend

theorem calmValue_bool (b : Bool) : CalmValue (.bool b) := by
  intro c _ hbrace _
  refine Calm.append ?_ (calm_singleton hbrace)
  rw [Calm]
  cases b <;> decide

/-- The strings of a list are calm together with the bracket after them. -/
theorem calm_renderItems (texts : List String) :
    Calm ((Json.renderItems (texts.map fun text => .string (some text))).toList ++ [']']) := by
  induction texts with
  | nil => exact calm_singleton (by decide)
  | cons text texts ih =>
      have hfirst := calmValue_string text
      cases texts with
      | nil => exact hfirst ']' (by decide) (by decide) (by decide)
      | cons next more =>
          have htext := (hfirst ',' (by decide) (by decide) (by decide)).append ih
          simpa [Json.renderItems] using htext

theorem calmValue_ofTexts (texts : List String) : CalmValue (.ofTexts texts) := by
  intro c _ hbrace _
  have htext := ((calm_singleton (c := '[') (by decide)).append (calm_renderItems texts)).append
    (calm_singleton hbrace)
  simpa [Json.ofTexts, Json.render] using htext

/-- The members of an object with calm values are calm together with the brace after them. -/
theorem calm_renderMembers {members : List (Option String × Json)}
    (h : ∀ member ∈ members, CalmValue member.2) :
    Calm ((Json.renderMembers members).toList ++ ['\x7d']) := by
  induction members with
  | nil => exact calm_singleton (by decide)
  | cons member members ih =>
      obtain ⟨key, value⟩ := member
      obtain ⟨hvalue, hrest⟩ := List.forall_mem_cons.mp h
      have hkey := calmValue_string (key.getD "") ':' (by decide) (by decide) (by decide)
      cases members with
      | nil =>
          have htext := hkey.append (hvalue '\x7d' (by decide) (by decide) (by decide))
          simpa [Json.renderMembers, Json.render] using htext
      | cons next more =>
          have htext := (hkey.append (hvalue ',' (by decide) (by decide) (by decide))).append
            (ih hrest)
          simpa [Json.renderMembers, Json.render] using htext

end Recent

namespace Options

/-- The value of a field as JSON. -/
def fieldJson (o : Options) : Field → Json
  | .runtime => .string (some o.runtime)
  | .extensions => .ofTexts o.extensions
  | .outputSuffix => .string (some o.outputSuffix)
  | .cacheDir => .string (some o.cacheDir)
  | .useCache => .bool o.useCache
  | .ignore => .ofTexts o.ignore

/-- An object that holds some of the fields. -/
def object (o : Options) (fields : List Field) : Json :=
  .ofMembers (fields.map fun f => (f.key, o.fieldJson f))

/-- A fingerprint is a brace and then a calm text. -/
theorem fingerprint_eq (o : Options) :
    ∃ body, o.fingerprint.toList = '\x7b' :: body ∧ Recent.Calm body := by
  refine ⟨_, by simp [fingerprint, toJson, Json.ofMembers, Json.render]; rfl,
    Recent.calm_renderMembers fun member hmember => ?_⟩
  simp only [List.mem_cons, List.not_mem_nil, or_false] at hmember
  rcases hmember with rfl | rfl | rfl | rfl | rfl | rfl
  · exact Recent.calmValue_string _
  · exact Recent.calmValue_ofTexts _
  · exact Recent.calmValue_string _
  · exact Recent.calmValue_string _
  · exact Recent.calmValue_bool _
  · exact Recent.calmValue_ofTexts _

/-- An object begins with a brace and its first key. -/
theorem key_prefix_render (key : String) (value : Json) (more : List (Option String × Json)) :
    '\x7b' :: (Json.quote key).toList ++ [':'] <+:
      (Json.object ((some key, value) :: more)).render.toList := by
  cases more with
  | nil => exact ⟨_, by simp [Json.render, Json.renderMembers]; rfl⟩
  | cons next more => exact ⟨_, by simp [Json.render, Json.renderMembers]; rfl⟩

/-- A fingerprint begins with its first key. -/
theorem runtime_prefix_fingerprint (o : Options) :
    "\x7b\"runtime\":".toList <+: o.fingerprint.toList :=
  key_prefix_render "runtime" _ _

theorem opening_prefix_fingerprint (o : Options) : Recent.opening <+: o.fingerprint.toList := by
  have hkey : Recent.opening <+: "\x7b\"runtime\":".toList := by decide
  exact hkey.trans o.runtime_prefix_fingerprint

theorem plain_fieldJson (o : Options) (f : Field) : (o.fieldJson f).Plain := by
  cases f with
  | runtime | outputSuffix | cacheDir => exact .string _
  | extensions | ignore => exact Json.plain_ofTexts _
  | useCache => exact .bool _

/-- An object with some of the fields is plain. -/
theorem plain_object (o : Options) (fields : List Field) : (o.object fields).Plain := by
  refine Json.plain_ofMembers fun member hmember => ?_
  obtain ⟨f, -, rfl⟩ := List.mem_map.mp hmember
  exact o.plain_fieldJson f

theorem plain_toJson (o : Options) : o.toJson.Plain := o.plain_object Field.all

theorem ofTexts_injective {texts texts' : List String}
    (h : Json.ofTexts texts = Json.ofTexts texts') : texts = texts' := by
  refine List.map_injective_iff.mpr ?_ (Json.array.inj h)
  intro text text' heq
  exact Option.some.inj (Json.string.inj heq)

/-- Options with one fingerprint are equal. -/
theorem fingerprint_injective {o o' : Options} (h : o.fingerprint = o'.fingerprint) : o = o' := by
  have hjson := Json.render_injective o.plain_toJson o'.plain_toJson h
  simp only [toJson, Json.ofMembers, List.map_cons, List.map_nil, Json.object.injEq,
    List.cons.injEq, Prod.mk.injEq, Json.string.injEq, Json.bool.injEq, Option.some.injEq,
    true_and, and_true] at hjson
  obtain ⟨hruntime, hextensions, hsuffix, hcache, huse, hignore⟩ := hjson
  cases o
  cases o'
  congr
  · exact ofTexts_injective hextensions
  · exact ofTexts_injective hignore

/-- A fingerprint is not the end of another one with something before it. -/
theorem eq_nil_of_fingerprint_eq_append {o o' : Options} {s : List Char}
    (h : o.fingerprint.toList = s ++ o'.fingerprint.toList) : s = [] := by
  cases s with
  | nil => rfl
  | cons c s =>
      obtain ⟨body, hbody, hcalm⟩ := fingerprint_eq o
      rw [hbody, List.cons_append] at h
      obtain ⟨-, rfl⟩ := List.cons.inj h
      have hinfix : Recent.opening <:+: s ++ o'.fingerprint.toList :=
        o'.opening_prefix_fingerprint.isInfix.trans (List.suffix_append s _).isInfix
      exact absurd hinfix (Recent.not_opening_of_read hcalm)

/-- **The source and the options can be told from the text of the key.** -/
theorem append_fingerprint_inj {s s' : String} {o o' : Options}
    (h : s ++ o.fingerprint = s' ++ o'.fingerprint) : s = s' ∧ o = o' := by
  have hchars : s.toList ++ o.fingerprint.toList = s'.toList ++ o'.fingerprint.toList := by
    rw [← String.toList_append, ← String.toList_append, h]
  have hs : s.toList = s'.toList := by
    rcases List.append_eq_append_iff.mp hchars with ⟨more, hs', ho⟩ | ⟨more, hs, ho'⟩
    · rw [hs', eq_nil_of_fingerprint_eq_append ho, List.append_nil]
    · rw [hs, eq_nil_of_fingerprint_eq_append ho', List.append_nil]
  rw [hs] at hchars
  exact ⟨String.toList_injective hs,
    fingerprint_injective (String.toList_injective (List.append_cancel_left hchars))⟩

end Options

end Stencil
