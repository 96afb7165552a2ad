import Stencil.Proofs.Fingerprint

/-!
# Options as text

Options are written as a JSON object and read from one. What is written out here is the text of an
object that holds some of the fields, in any order: without white space, every field under its key,
a list between brackets. The fingerprint is this text for all fields in their order. Reading such an
object, or any other text of the same JSON value, sets its fields, each one once, and leaves the
others as they are by default.

The text of a key of the cache is a source with the fingerprint of the options behind it. The two
can be told from the text, since a fingerprint begins with its first key, and nowhere else does that
key stand behind a brace.

## Main results

* `render_object`: the compact text of an object with some of the fields.
* `ofMembers_members`: reading fields sets these fields and no others.
* `options_survive_writing`: **options are read back from their fingerprint, and any of their fields
  from an object that holds them**.
* `key_text_unambiguous`: **the source and the options are determined by the text of a key**.
-/

namespace Stencil

/-! ### Compact text -/

namespace Json

theorem renderItems_eq (items : List Json) :
    renderItems items = ",".intercalate (items.map render) := by
  induction items with
  | nil => rfl
  | cons item rest ih =>
      cases rest with
      | nil => rw [renderItems, List.map_singleton, String.intercalate_singleton]
      | cons next more =>
          rw [renderItems, ih]
          · simp only [List.map_cons, String.intercalate_cons_cons]
          · exact List.cons_ne_nil _ _

theorem renderMembers_eq (members : List (Option String × Json)) :
    renderMembers members =
      ",".intercalate (members.map fun member =>
        quote (member.1.getD "") ++ ":" ++ member.2.render) := by
  induction members with
  | nil => rfl
  | cons member rest ih =>
      cases rest with
      | nil => rw [List.map_singleton, String.intercalate_singleton, renderMembers]
      | cons next more =>
          rw [renderMembers, ih]
          · simp only [List.map_cons, String.intercalate_cons_cons]
          · exact List.cons_ne_nil _ _

/-- The texts of a list are read back. -/
theorem texts?_ofTexts (texts : List String) : (ofTexts texts).texts? = some texts := by
  rw [ofTexts, texts?]
  induction texts with
  | nil => rfl
  | cons text rest ih =>
      rw [List.map_cons, List.mapM_cons, ih]
      rfl

end Json

namespace Options

/-- The compact text of a list. -/
def listText (texts : List String) : String :=
  "[" ++ ",".intercalate (texts.map Json.quote) ++ "]"

/-- The compact text of the value of a field. -/
def fieldText (o : Options) : Field → String
  | .runtime => Json.quote o.runtime
  | .extensions => listText o.extensions
  | .outputSuffix => Json.quote o.outputSuffix
  | .cacheDir => Json.quote o.cacheDir
  | .useCache => if o.useCache then "true" else "false"
  | .ignore => listText o.ignore

/-- The compact text of an object that holds some of the fields. -/
def objectText (o : Options) (fields : List Field) : String :=
  "\x7b" ++ ",".intercalate (fields.map fun f => Json.quote f.key ++ ":" ++ o.fieldText f) ++ "\x7d"

/-- The base with some fields from other options. -/
def onto (o base : Options) (fields : List Field) : Options where
  runtime := if .runtime ∈ fields then o.runtime else base.runtime
  extensions := if .extensions ∈ fields then o.extensions else base.extensions
  outputSuffix := if .outputSuffix ∈ fields then o.outputSuffix else base.outputSuffix
  cacheDir := if .cacheDir ∈ fields then o.cacheDir else base.cacheDir
  useCache := if .useCache ∈ fields then o.useCache else base.useCache
  ignore := if .ignore ∈ fields then o.ignore else base.ignore

variable {o base : Options}

/-! ### Writing -/

theorem render_ofTexts (texts : List String) : (Json.ofTexts texts).render = listText texts := by
  rw [Json.ofTexts, Json.render, Json.renderItems_eq, List.map_map, listText]
  rfl

theorem render_fieldJson (o : Options) (f : Field) : (o.fieldJson f).render = o.fieldText f := by
  cases f with
  | runtime | outputSuffix | cacheDir => rfl
  | extensions => exact render_ofTexts o.extensions
  | ignore => exact render_ofTexts o.ignore
  | useCache =>
      rw [fieldJson, fieldText]
      cases o.useCache <;> rfl

/-- The compact text of an object with some of the fields. -/
theorem render_object (o : Options) (fields : List Field) :
    (o.object fields).render = o.objectText fields := by
  rw [object, Json.ofMembers, Json.render, Json.renderMembers_eq, List.map_map, List.map_map,
    objectText]
  simp only [Function.comp_def, Option.getD_some, render_fieldJson]

/-- The text of an object with some of the fields is read as that object. -/
theorem parse?_objectText (o : Options) (fields : List Field) :
    Json.parse? (o.objectText fields) = some (o.object fields) := by
  rw [← render_object]
  exact Json.parse?_render (o.plain_object fields)

/-! ### Reading -/

/-- All fields together are the options. -/
theorem onto_all (o base : Options) : o.onto base Field.all = o := rfl

theorem onto_onto (o base : Options) (fields fields' : List Field) :
    o.onto (o.onto base fields) fields' = o.onto base (fields ++ fields') := by
  have hfield : ∀ {α : Type} (f : Field) (a b : α),
      (if f ∈ fields' then a else if f ∈ fields then a else b) =
        if f ∈ fields ++ fields' then a else b := by
    intro α f a b
    simp only [List.mem_append, or_comm (a := f ∈ fields), ite_or]
  simp only [onto, hfield]

theorem Field.ofKey?_key (f : Field) : Field.ofKey? f.key = some f := by
  cases f <;> rfl

/-- A field that is written is set. -/
theorem set_fieldJson (o base : Options) (f : Field) :
    base.set f (o.fieldJson f) = .ok (o.onto base [f]) := by
  cases f with
  | runtime | outputSuffix | cacheDir | useCache => rfl
  | extensions | ignore =>
      rw [set, set?, fieldJson, Json.texts?_ofTexts]
      rfl

/-- **Reading fields sets these fields and no others**, if none of them stands twice. -/
theorem ofMembers_members {fields seen : List Field} (hnodup : fields.Nodup)
    (hseen : ∀ f ∈ fields, f ∉ seen) :
    ofMembers base seen (fields.map fun f => (some f.key, o.fieldJson f)) =
      .ok (o.onto base fields) := by
  induction fields generalizing base seen with
  | nil => rfl
  | cons f fields ih =>
      obtain ⟨hf, hnodup⟩ := List.nodup_cons.mp hnodup
      have hnew : seen.contains f = false := by
        simpa using hseen f List.mem_cons_self
      have hrest : ∀ g ∈ fields, g ∉ f :: seen := by
        intro g hg hmem
        rcases List.mem_cons.mp hmem with rfl | hmem
        · exact hf hg
        · exact hseen g (List.mem_cons_of_mem f hg) hmem
      rw [List.map_cons, ofMembers]
      simp only [Field.ofKey?_key, hnew, Bool.false_eq_true, if_false, set_fieldJson]
      rw [ih hnodup hrest, onto_onto, List.singleton_append]

theorem parse_of_parse? {fields : List Field} (hnodup : fields.Nodup) {text : String}
    (h : Json.parse? text = some (o.object fields)) : parse text = .ok (o.onto {} fields) := by
  have hread : ofMembers {} [] (fields.map fun f => (some f.key, o.fieldJson f)) =
      .ok (o.onto {} fields) := ofMembers_members hnodup fun _ _ => List.not_mem_nil
  rw [parse, h, object, Json.ofMembers, List.map_map]
  simp only [ofJson, Function.comp_def, hread]

/-- **Options survive their own writing.** Their fingerprint is the compact JSON object with all
fields in order, and it is read back as the options. An object that holds some of the fields, each
of them once and in any order, is read as the options with these fields and the defaults for the
others, whatever white space and escapes it is written with. -/
theorem options_survive_writing (o : Options) :
    o.fingerprint = o.objectText Field.all ∧ parse o.fingerprint = .ok o ∧
      ∀ fields : List Field, fields.Nodup → ∀ text : String,
        Json.parse? text = Json.parse? (o.objectText fields) →
          parse text = .ok (o.onto {} fields) := by
  have hfingerprint : o.fingerprint = o.objectText Field.all := o.render_object Field.all
  refine ⟨hfingerprint, ?_, fun fields hnodup text htext => ?_⟩
  · have hread := o.parse?_objectText Field.all
    rw [hfingerprint, parse_of_parse? (by decide) hread, onto_all]
  · exact parse_of_parse? hnodup (htext.trans (o.parse?_objectText fields))

/-- Two fields in another order, with white space around them: an empty list, and a text of
characters that have to be escaped. -/
theorem options_with_escapes_survive :
    [Field.ignore, .runtime].Nodup ∧
      Json.parse? " \x7b \"ignore\" : [ ] ,\t\"runtime\":\"\\\"\\\\\\u0001\\n\x7dé\"\x7d\n" =
        Json.parse? (objectText { runtime := "\"\\\x01\n\x7dé", ignore := [] }
          [.ignore, .runtime]) ∧
      parse " \x7b \"ignore\" : [ ] ,\t\"runtime\":\"\\\"\\\\\\u0001\\n\x7dé\"\x7d\n" =
        .ok { runtime := "\"\\\x01\n\x7dé", ignore := [] } := by
  have hnodup : [Field.ignore, .runtime].Nodup := by decide
  have hread :
      Json.parse? " \x7b \"ignore\" : [ ] ,\t\"runtime\":\"\\\"\\\\\\u0001\\n\x7dé\"\x7d\n" =
        some (object { runtime := "\"\\\x01\n\x7dé", ignore := [] } [.ignore, .runtime]) := by
    decide +kernel
  have htext := hread.trans (parse?_objectText _ _).symm
  exact ⟨hnodup, htext, (options_survive_writing _).2.2 _ hnodup _ htext⟩

/-! ### The text of a key -/

/-- **The text of a key of the cache is read in one way only.** It is a source with a fingerprint
behind it, and both are determined by it. So no fingerprint is the end of another one, and no source
that ends in such text can stand for other options: the first key of a fingerprint, with the brace
before it, stands at the beginning and nowhere else. -/
theorem key_text_unambiguous :
    (∀ (s s' : String) (o o' : Options),
      s ++ o.fingerprint = s' ++ o'.fingerprint ↔ s = s' ∧ o = o') ∧
    (∀ o o' : Options, o.fingerprint.toList <:+ o'.fingerprint.toList ↔ o = o') ∧
    ∀ o : Options, "\x7b\"runtime\":".toList <+: o.fingerprint.toList ∧
      ¬ "\x7b\"runtime\":".toList <:+: o.fingerprint.toList.tail := by
  refine ⟨fun s s' o o' => ⟨append_fingerprint_inj, ?_⟩, fun o o' => ⟨?_, ?_⟩,
    fun o => ⟨o.runtime_prefix_fingerprint, ?_⟩⟩
  · rintro ⟨rfl, rfl⟩
    rfl
  · rintro ⟨lead, happend⟩
    have hnil := eq_nil_of_fingerprint_eq_append happend.symm
    rw [hnil, List.nil_append] at happend
    exact fingerprint_injective (String.toList_injective happend)
  · rintro rfl
    exact List.suffix_refl _
  · obtain ⟨body, hbody, hcalm⟩ := fingerprint_eq o
    rw [hbody, List.tail_cons]
    have hopening : Recent.opening <+: "\x7b\"runtime\":".toList := by decide
    exact fun hstands => Recent.not_opening_of_read hcalm (hopening.isInfix.trans hstands)

end Options

end Stencil
