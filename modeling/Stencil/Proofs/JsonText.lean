import Stencil.Json.Read
import Mathlib.Data.List.Basic

/-!
# JSON texts read back

The compact text of a value reads back as the value. Numbers are left out, since a number is any
text that its form allows, and so are strings that no text can be made of; what remains are the
`Plain` values, among them all that this library writes.

## Main results

* `stringBody_quoteChars`: a string between quotes reads back, whatever follows it.
* `value?_render`: so does a plain value; twice the length of its text is fuel enough.
* `parse?_render`: **the text of a plain value reads back as the value**.
-/

namespace Stencil.Json

/-- A value without numbers, all of whose strings and keys are texts. -/
inductive Plain : Json → Prop
  | null : Plain null
  | bool (value : Bool) : Plain (bool value)
  | string (value : String) : Plain (string (some value))
  | array {items : List Json} : (∀ item ∈ items, Plain item) → Plain (array items)
  | object {members : List (Option String × Json)} :
      (∀ member ∈ members, member.1.isSome) → (∀ member ∈ members, Plain member.2) →
      Plain (object members)

/-- A list of texts is plain. -/
theorem plain_ofTexts (texts : List String) : (ofTexts texts).Plain := by
  refine .array fun item hitem => ?_
  obtain ⟨text, -, rfl⟩ := List.mem_map.mp hitem
  exact .string text

/-- An object with text keys and plain values is plain. -/
theorem plain_ofMembers {members : List (String × Json)}
    (h : ∀ member ∈ members, member.2.Plain) : (ofMembers members).Plain := by
  refine .object (fun member hmember => ?_) fun member hmember => ?_
  · obtain ⟨pair, -, rfl⟩ := List.mem_map.mp hmember
    rfl
  · obtain ⟨pair, hpair, rfl⟩ := List.mem_map.mp hmember
    exact h pair hpair

/-! ### Strings -/

/-- A short escape stands for its character. -/
theorem units_short {e c : Char} (h : escape? e = some c) (rest : List Char) :
    units ('\\' :: e :: rest) = (units rest).map fun (more, rest) => (.char c :: more, rest) := by
  have hu : e ≠ 'u' := by
    rintro rfl
    cases h
  simp only [units, hu, h, Option.bind_eq_bind, Option.bind_some, false_implies, implies_true]
  cases units rest <;> rfl

/-- A control character is read from its code. -/
theorem units_control {c : Char} (h : c.toNat < 0x20) (rest : List Char) :
    units ('\\' :: 'u' :: '0' :: '0' :: Chars.hexChar (c.toNat / 16) ::
        Chars.hexChar (c.toNat % 16) :: rest) =
      (units rest).map fun (more, rest) => (.char c :: more, rest) := by
  have hcode : hexCode? '0' '0' (Chars.hexChar (c.toNat / 16)) (Chars.hexChar (c.toNat % 16)) =
      some c.toNat := by
    have hzero : Chars.hexDigit? '0' = some 0 := by decide
    have hhigh := Chars.hexDigit?_hexChar (c.toNat / 16) (by omega)
    have hlow := Chars.hexDigit?_hexChar (c.toNat % 16) (by omega)
    simp only [hexCode?, hzero, hhigh, hlow, Option.bind_eq_bind, Option.bind_some]
    exact congrArg some (by omega)
  have hunit : unitOf c.toNat = .char c := by
    rw [unitOf, if_neg (by simp only [Bool.and_eq_true, decide_eq_true_eq]; omega),
      Char.ofNat_toNat]
  simp only [units, hcode, hunit, Option.bind_eq_bind, Option.bind_some]
  cases units rest <;> rfl

/-- A character that needs no escape stands for itself. -/
theorem units_plain {c : Char} (hquote : c ≠ '"') (hescape : c ≠ '\\') (h : ¬ c.toNat < 0x20)
    (rest : List Char) :
    units (c :: rest) = (units rest).map fun (more, rest) => (.char c :: more, rest) := by
  simp only [units, hescape, h, Option.bind_eq_bind, false_implies, implies_true,
    decide_false, Bool.or_false, Bool.false_eq_true, if_false]
  cases units rest <;> rfl

/-- A character that is written inside a string reads back. -/
theorem units_escapeChar (c : Char) (rest : List Char) :
    units (escapeChar c ++ rest) = (units rest).map fun (more, rest) => (.char c :: more, rest) := by
  unfold escapeChar
  split_ifs with hquote hescape hback htab hline hfeed hreturn hcontrol
  · exact units_short (e := '"') (congrArg some hquote.symm) rest
  · exact units_short (e := '\\') (congrArg some hescape.symm) rest
  · exact units_short (e := 'b') (congrArg some hback.symm) rest
  · exact units_short (e := 't') (congrArg some htab.symm) rest
  · exact units_short (e := 'n') (congrArg some hline.symm) rest
  · exact units_short (e := 'f') (congrArg some hfeed.symm) rest
  · exact units_short (e := 'r') (congrArg some hreturn.symm) rest
  · exact units_control hcontrol rest
  · exact units_plain hquote hescape hcontrol rest

theorem units_flatMap_escapeChar (s rest : List Char) :
    units (s.flatMap escapeChar ++ '"' :: rest) = some (s.map .char, rest) := by
  induction s with
  | nil => simp [units]
  | cons c s ih =>
      rw [List.flatMap_cons, List.append_assoc, units_escapeChar, ih]
      rfl

theorem joinUnits_map_char (s : List Char) : joinUnits (s.map .char) = some s := by
  induction s with
  | nil => rfl
  | cons c s ih =>
      rw [List.map_cons, joinUnits, ih]
      rfl

/-- **A string reads back**, whatever follows its closing quote. -/
theorem stringBody_quote (s : String) (rest : List Char) :
    ∃ body, (quote s).toList ++ rest = '"' :: body ∧ stringBody body = some (some s, rest) := by
  refine ⟨s.toList.flatMap escapeChar ++ '"' :: rest, by simp [quote, quoteChars], ?_⟩
  rw [stringBody, units_flatMap_escapeChar]
  simp [joinUnits_map_char]

/-! ### Values -/

theorem skip_cons {c : Char} (h : isSpace c = false) (rest : List Char) :
    skip (c :: rest) = c :: rest := by
  simp [skip, h]

/-- The text of a plain value begins with neither white space nor a closing bracket. -/
theorem head_render {v : Json} (h : v.Plain) :
    ∃ c rest, v.render.toList = c :: rest ∧ isSpace c = false ∧ c ≠ ']' := by
  cases h with
  | null => exact ⟨'n', "ull".toList, by decide, by decide, by decide⟩
  | bool value =>
      cases value with
      | true => exact ⟨'t', "rue".toList, by decide, by decide, by decide⟩
      | false => exact ⟨'f', "alse".toList, by decide, by decide, by decide⟩
  | string value =>
      exact ⟨'"', _, by simp [render, quote, quoteChars]; rfl, by decide, by decide⟩
  | array _ => exact ⟨'[', _, by simp [render]; rfl, by decide, by decide⟩
  | object _ _ => exact ⟨'\x7b', _, by simp [render]; rfl, by decide, by decide⟩

/-- Items between commas begin as the first one does. -/
theorem head_renderItems {item : Json} (h : item.Plain) (items : List Json) :
    ∃ c rest, (renderItems (item :: items)).toList = c :: rest ∧ isSpace c = false ∧ c ≠ ']' := by
  obtain ⟨c, rest, hc, hspace, hclose⟩ := head_render h
  cases items with
  | nil => exact ⟨c, rest, by rw [renderItems, hc], hspace, hclose⟩
  | cons next more => exact ⟨c, _, by simp [renderItems, hc]; rfl, hspace, hclose⟩

/-- Members between commas begin with the quote of the first key. -/
theorem head_renderMembers (member : Option String × Json) (members : List (Option String × Json)) :
    ∃ rest, (renderMembers (member :: members)).toList = '"' :: rest := by
  cases members with
  | nil => exact ⟨_, by simp [renderMembers, quote, quoteChars]; rfl⟩
  | cons next more => exact ⟨_, by simp [renderMembers, quote, quoteChars]; rfl⟩

/-- The text of a value reads back, with fuel for twice its length. -/
def Reads (v : Json) : Prop :=
  ∀ n rest, 2 * v.render.length ≤ n → value? n (v.render.toList ++ rest) = some (v, rest)

/-- Items that read back one by one do so between their commas. -/
theorem items?_render {items : List Json} (hne : items ≠ [])
    (hreads : ∀ item ∈ items, item.Reads) {n : Nat} (rest : List Char)
    (hn : 2 * (renderItems items).length + 1 ≤ n) :
    items? n ((renderItems items).toList ++ ']' :: rest) = some (items, rest) := by
  induction items generalizing n with
  | nil => exact absurd rfl hne
  | cons item items ih =>
      obtain ⟨n, rfl⟩ : ∃ m, n = m + 1 := ⟨n - 1, by omega⟩
      obtain ⟨hitem, hitems⟩ := List.forall_mem_cons.mp hreads
      cases items with
      | nil =>
          rw [renderItems] at hn ⊢
          rw [items?, hitem n _ (by omega)]
          simp [skip_cons (show isSpace ']' = false by decide)]
      | cons next more =>
          have hrender : renderItems (item :: next :: more) =
              item.render ++ "," ++ renderItems (next :: more) := by
            rw [renderItems]
            exact List.cons_ne_nil _ _
          rw [hrender, String.length_append, String.length_append] at hn
          have hcomma : (",").length = 1 := rfl
          have hrest := ih (List.cons_ne_nil _ _) hitems (n := n) (by omega)
          rw [hrender, String.toList_append, String.toList_append, List.append_assoc,
            List.append_assoc, items?, hitem n _ (by omega)]
          simp [skip_cons (show isSpace ',' = false by decide), hrest]

section Member

variable {value : Json} (hvalue : value.Reads) {n : Nat} (hn : 2 * value.render.length ≤ n)
  (key : String) (rest : List Char)
include hvalue hn

/-- The key of a member and its value read back, and what follows them is left. -/
theorem member_render (after : List Char) :
    ∃ body, (quote key ++ ":" ++ value.render).toList ++ after = '"' :: body ∧
      stringBody body = some (some key, ':' :: (value.render.toList ++ after)) ∧
      value? n (value.render.toList ++ after) = some (value, after) := by
  obtain ⟨body, hquote, hbody⟩ := stringBody_quote key (':' :: (value.render.toList ++ after))
  refine ⟨body, ?_, hbody, hvalue n after hn⟩
  rw [← hquote]
  simp

theorem members?_last :
    members? (n + 1) ((quote key ++ ":" ++ value.render).toList ++ '\x7d' :: rest) =
      some ([(some key, value)], rest) := by
  obtain ⟨body, htext, hbody, hread⟩ := member_render hvalue hn key ('\x7d' :: rest)
  rw [htext, members?, skip_cons (show isSpace '"' = false by decide)]
  simp [hbody, skip_cons (show isSpace ':' = false by decide), hread,
    skip_cons (show isSpace '\x7d' = false by decide)]

theorem members?_more :
    members? (n + 1) ((quote key ++ ":" ++ value.render).toList ++ ',' :: rest) =
      (members? n rest).map fun (members, rest) => ((some key, value) :: members, rest) := by
  obtain ⟨body, htext, hbody, hread⟩ := member_render hvalue hn key (',' :: rest)
  rw [htext, members?, skip_cons (show isSpace '"' = false by decide)]
  simp only [hbody, Option.bind_eq_bind, Option.bind_some,
    skip_cons (show isSpace ':' = false by decide), hread,
    skip_cons (show isSpace ',' = false by decide)]
  cases members? n rest <;> rfl

end Member

/-- Members whose values read back one by one do so between their commas. -/
theorem members?_render {members : List (Option String × Json)} (hne : members ≠ [])
    (hkeys : ∀ member ∈ members, member.1.isSome) (hreads : ∀ member ∈ members, member.2.Reads)
    {n : Nat} (rest : List Char) (hn : 2 * (renderMembers members).length + 1 ≤ n) :
    members? n ((renderMembers members).toList ++ '\x7d' :: rest) = some (members, rest) := by
  induction members generalizing n with
  | nil => exact absurd rfl hne
  | cons member members ih =>
      obtain ⟨n, rfl⟩ : ∃ m, n = m + 1 := ⟨n - 1, by omega⟩
      obtain ⟨hkey, hkeys'⟩ := List.forall_mem_cons.mp hkeys
      obtain ⟨hvalue, hvalues⟩ := List.forall_mem_cons.mp hreads
      obtain ⟨key, value⟩ := member
      obtain ⟨key, rfl⟩ := Option.isSome_iff_exists.mp hkey
      have hvalue : value.Reads := hvalue
      cases members with
      | nil =>
          rw [renderMembers, String.length_append, String.length_append] at hn
          rw [renderMembers]
          exact members?_last hvalue (by omega) key rest
      | cons next more =>
          have hrender : renderMembers ((some key, value) :: next :: more) =
              quote key ++ ":" ++ value.render ++ "," ++ renderMembers (next :: more) := by
            rw [renderMembers]
            · rfl
            · exact List.cons_ne_nil _ _
          have hcomma : (",").length = 1 := rfl
          rw [hrender, String.length_append, String.length_append, String.length_append] at hn
          have hrest := ih (List.cons_ne_nil _ _) hkeys' hvalues (n := n) (by omega)
          rw [hrender, String.toList_append, String.toList_append, List.append_assoc,
            List.append_assoc]
          exact (members?_more hvalue (by omega) key _).trans (congrArg _ hrest)

/-- **A plain value reads back**, whatever follows its text. -/
theorem value?_render {v : Json} (h : v.Plain) : v.Reads := by
  induction h with
  | null =>
      intro n rest hn
      have hlength : null.render.length = 4 := by decide
      obtain ⟨n, rfl⟩ : ∃ m, n = m + 1 := ⟨n - 1, by omega⟩
      rfl
  | bool value =>
      intro n rest hn
      have hlength : 4 ≤ (bool value).render.length := by cases value <;> decide
      obtain ⟨n, rfl⟩ : ∃ m, n = m + 1 := ⟨n - 1, by omega⟩
      cases value <;> rfl
  | string value =>
      intro n rest hn
      obtain ⟨body, hquote, hbody⟩ := stringBody_quote value rest
      have hlength : 0 < (quote value).length := by
        rw [← String.length_toList]
        simp [quote, quoteChars]
      rw [render, Option.getD_some] at hn ⊢
      obtain ⟨n, rfl⟩ : ∃ m, n = m + 1 := ⟨n - 1, by omega⟩
      rw [hquote, value?, skip_cons (show isSpace '"' = false by decide)]
      simp [hbody]
  | @array items hplain ih =>
      intro n rest hn
      have hopen : ("[").length = 1 := rfl
      have hclose : ("]").length = 1 := rfl
      rw [render, String.length_append, String.length_append] at hn
      obtain ⟨n, rfl⟩ : ∃ m, n = m + 1 := ⟨n - 1, by omega⟩
      have htext : (array items).render.toList ++ rest =
          '[' :: ((renderItems items).toList ++ ']' :: rest) := by
        simp [render]
      rw [htext, value?, skip_cons (show isSpace '[' = false by decide)]
      cases items with
      | nil => rfl
      | cons item items =>
          obtain ⟨c, more, hc, hspace, hbracket⟩ := head_renderItems (hplain item (by simp)) items
          have hread := items?_render (List.cons_ne_nil item items) ih (n := n) rest (by omega)
          rw [hc, List.cons_append] at hread ⊢
          simp [skip_cons hspace, hbracket, hread]
  | @object members hkeys hplain ih =>
      intro n rest hn
      have hopen : ("\x7b").length = 1 := rfl
      have hclose : ("\x7d").length = 1 := rfl
      rw [render, String.length_append, String.length_append] at hn
      obtain ⟨n, rfl⟩ : ∃ m, n = m + 1 := ⟨n - 1, by omega⟩
      have htext : (object members).render.toList ++ rest =
          '\x7b' :: ((renderMembers members).toList ++ '\x7d' :: rest) := by
        simp [render]
      rw [htext, value?, skip_cons (show isSpace '\x7b' = false by decide)]
      cases members with
      | nil => rfl
      | cons member members =>
          obtain ⟨more, hc⟩ := head_renderMembers member members
          have hread := members?_render (List.cons_ne_nil member members) hkeys ih (n := n) rest
            (by omega)
          rw [hc, List.cons_append] at hread ⊢
          simp [skip_cons (show isSpace '"' = false by decide), hread]

/-- **The text of a plain value reads back as the value.** -/
theorem parse?_render {v : Json} (h : v.Plain) : parse? v.render = some v := by
  have hread := value?_render h (2 * v.render.length + 2) [] (by omega)
  rw [List.append_nil] at hread
  rw [parse?, hread]
  rfl

/-- Plain values with one text are equal. -/
theorem render_injective {v w : Json} (hv : v.Plain) (hw : w.Plain) (h : v.render = w.render) :
    v = w := by
  have hread := parse?_render hv
  rw [h, parse?_render hw] at hread
  exact (Option.some.inj hread).symm

end Stencil.Json
