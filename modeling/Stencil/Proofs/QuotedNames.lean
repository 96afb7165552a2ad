import Stencil.Proofs.LiteralValues
import Stencil.Proofs.MapKeys

/-!
# Names inside quotes

Tags, the keys and values of attributes, the names of slots, templates and references come from the
markup and may hold anything. In the code they stand in interpreted literals. Whatever code follows
such a literal, a reader that starts at its opening quote has read the text when it comes to the
closing one, and goes on with that code. It finds no end before: on a part of the literal it is
still reading.

## Main results

* `Host.readQuoted_append`: a literal that was read to its end does not depend on what follows it.
* `Host.readLiteral_of_prefix`: no proper part at the beginning of a literal is a literal.
* `Host.quote_append_inj`: **a literal determines its text and where it ends**.
* `names_stay_inside_quotes`: **so does every name that an element, a configuration or the place of
  a slot is written with**.
-/

namespace Stencil

namespace Host

/-! ### Where a literal ends -/

/-- What was read of a literal stays read when more code follows. -/
theorem readQuoted_append {s value after : List Char} (h : readQuoted s = some (value, after))
    (rest : List Char) : readQuoted (s ++ rest) = some (value, after ++ rest) := by
  fun_induction readQuoted s generalizing value with
  | case1 => cases h
  | case2 s =>
      cases h
      rfl
  | case3 e s ih =>
      obtain ⟨c, hc, hread⟩ := Option.bind_eq_some_iff.mp h
      obtain ⟨⟨value', after'⟩, hs, hvalue⟩ := Option.map_eq_some_iff.mp hread
      cases hvalue
      rw [List.cons_append, List.cons_append, readQuoted_escape hc, ih hs]
      rfl
  | case4 c s hquote hescape hstop => cases h
  | case5 c s hquote hescape hplain ih =>
      rw [not_or] at hplain
      obtain ⟨⟨value', after'⟩, hs, hvalue⟩ := Option.map_eq_some_iff.mp h
      cases hvalue
      rw [List.cons_append, readQuoted_plain hquote hplain.1 hplain.2, ih hs]
      rfl

/-- **A literal does not end early**: a reader of a part of it comes to no end. -/
theorem readLiteral_of_prefix {value part : List Char} (h : part <+: quoteChars value)
    (hne : part ≠ quoteChars value) : readLiteral part = none := by
  obtain ⟨rest, hrest⟩ := h
  cases part with
  | nil => rfl
  | cons c inside =>
      obtain rfl : c = '"' := (List.cons.inj hrest).1
      by_contra hsome
      obtain ⟨⟨value', after⟩, hread⟩ := Option.ne_none_iff_exists'.mp hsome
      have hpart : readLiteral ('"' :: inside ++ rest) = some (value', after ++ rest) :=
        readQuoted_append hread rest
      have hwhole := readLiteral_quote value []
      rw [List.append_nil, ← hrest, hpart, Option.some.injEq, Prod.mk.injEq] at hwhole
      obtain ⟨-, hnil⟩ := hwhole
      obtain ⟨-, rfl⟩ := List.append_eq_nil_iff.mp hnil
      exact hne (by rw [← hrest, List.append_nil])

/-- **An interpreted literal is read to its end**, whatever code follows it. -/
theorem readLiteral_quote_append (value rest : String) :
    readLiteral (quote value ++ rest).toList = some (value.toList, rest.toList) := by
  rw [String.toList_append, toList_quote, readLiteral_quote]

/-- **A literal determines its text and where it ends.** -/
theorem quote_append_inj {value value' rest rest' : String}
    (h : quote value ++ rest = quote value' ++ rest') : value = value' ∧ rest = rest' := by
  have hread := readLiteral_quote_append value rest
  rw [h, readLiteral_quote_append, Option.some.injEq, Prod.mk.injEq] at hread
  exact ⟨String.toList_injective hread.1.symm, String.toList_injective hread.2.symm⟩

end Host

/-! ### Literals in code -/

/-- A literal in the code has the text as its value, and what follows the literal is read next. -/
def Quotes (code text : String) : Prop :=
  ∃ lead rest : String, code = lead ++ (Host.quote text ++ rest) ∧
    Host.readLiteral (Host.quote text ++ rest).toList = some (text.toList, rest.toList)

/-- A literal that stands in the code is read there. -/
theorem Quotes.of_standsIn {code text : String} (h : StandsIn (Host.quote text) code) :
    Quotes code text := by
  obtain ⟨lead, rest, hcode⟩ := h
  refine ⟨String.ofList lead, String.ofList rest, String.toList_injective ?_,
    Host.readLiteral_quote_append text _⟩
  rw [← hcode]
  simp

namespace Dict

/-- The names under which a dictionary holds values. -/
def names (d : Dict) : List String := d.entries.map Prod.fst

/-- The names and the values of a dictionary. -/
def texts (d : Dict) : List String := d.entries.flatMap fun entry => [entry.1, entry.2]

end Dict

/-- The texts that the code of an element holds in literals. -/
def Descriptor.quotedTexts (d : Descriptor) : List String :=
  d.tag :: d.handlers.names ++ d.attrs.texts ++ d.binds.names ++ d.reference.toList

/-- The texts that the configuration of a component holds in literals. -/
def Runtime.configurationTexts (slots templates attrs : Dict) : List String :=
  slots.names ++ templates.names ++ attrs.texts

namespace MapLiteral

variable {m : MapLiteral} {entry : String × String}

/-- The code of a map stands in what is written for it. -/
theorem standsIn_filled (m : MapLiteral) : StandsIn m.code m.filled := by
  rw [filled]
  split
  case h_2 =>
    have hbody : StandsIn m.code (" return " ++ m.code ++ " ") := .between _ _ _
    exact (hbody.trans (Runtime.standsIn_closure m.type _)).trans (.between _ _ _)
  all_goals exact .between _ _ _

/-- The key of an entry stands in quotes in what is written for its map, and so does the code of its
value. -/
theorem standsIn_written (h : entry ∈ m.entries) :
    StandsIn (Host.quote entry.1) m.written ∧ StandsIn entry.2 m.written := by
  have hwritten : m.written = m.filled := by
    rw [written, if_neg]
    rw [List.isEmpty_iff]
    exact List.ne_nil_of_mem h
  have hentry : StandsIn (Host.quote entry.1 ++ ": " ++ entry.2 ++ ",") m.written := by
    have hjoin : StandsIn (Host.quote entry.1 ++ ": " ++ entry.2 ++ ",") (String.join
        (m.entries.map fun entry => Host.quote entry.1 ++ ": " ++ entry.2 ++ ",")) :=
      .join (List.mem_map.mpr ⟨entry, h, rfl⟩)
    rw [hwritten]
    refine (hjoin.trans ?_).trans m.standsIn_filled
    rw [code]
    exact .between _ _ _
  have hkey : StandsIn (Host.quote entry.1) (Host.quote entry.1 ++ ": " ++ entry.2 ++ ",") :=
    (((StandsIn.refl _).append_right _).append_right _).append_right _
  have hvalue : StandsIn entry.2 (Host.quote entry.1 ++ ": " ++ entry.2 ++ ",") :=
    .between _ _ _
  exact ⟨hkey.trans hentry, hvalue.trans hentry⟩

theorem standsIn_key {key : String} (h : key ∈ m.keys) : StandsIn (Host.quote key) m.written := by
  obtain ⟨entry, hentry, rfl⟩ := List.mem_map.mp h
  exact (standsIn_written hentry).1

/-- The texts of a dictionary whose entries are put into a map with quotes around both their parts
stand in quotes. -/
theorem standsIn_text {d : Dict} (hquoted : d.quoted ⊆ m.entries) {text : String}
    (h : text ∈ d.texts) : StandsIn (Host.quote text) m.written := by
  obtain ⟨entry, hentry, hpart⟩ := List.mem_flatMap.mp h
  obtain ⟨hkey, hvalue⟩ := standsIn_written (hquoted (List.mem_map_of_mem hentry))
  rcases List.mem_pair.mp hpart with rfl | rfl
  · exact hkey
  · exact hvalue

end MapLiteral

/-! ### Literals in the code of elements and components -/

namespace Runtime

variable (rt : Runtime) {text : String}

theorem standsIn_elementBody {d : Descriptor} (h : text ∈ d.quotedTexts) :
    StandsIn (Host.quote text) (rt.elementBody d) := by
  have hmap : ∀ m ∈ rt.elementMaps d, StandsIn m.written (rt.elementBody d) := by
    intro m hm
    rw [elementBody_eq_maps]
    exact (StandsIn.join (List.mem_map_of_mem hm)).trans (.between _ _ _)
  have hhandlers := hmap (rt.handlerMap d.handlers) (by simp [elementMaps])
  have hattributes := hmap (rt.attributeMap d.attrs d.binds) (by simp [elementMaps])
  simp only [Descriptor.quotedTexts, List.mem_append, List.mem_cons] at h
  rcases h with (((rfl | hhandler) | hattr) | hbind) | hreference
  · rw [elementBody_eq_maps]
    exact ((StandsIn.between _ _ _).append_right _).append_right _
  · refine (MapLiteral.standsIn_key ?_).trans hhandlers
    rwa [keys_handlerMap]
  · exact (MapLiteral.standsIn_text (List.subset_append_left _ _) hattr).trans hattributes
  · refine (MapLiteral.standsIn_key ?_).trans hattributes
    rw [keys_attributeMap]
    exact List.mem_append_right _ hbind
  · rw [elementBody_eq_maps, Option.mem_toList.mp hreference, reference]
    have hname : StandsIn (Host.quote text) ("RefName: " ++ Host.quote text ++ ",") :=
      .between _ _ _
    exact (((hname.append_left _).append_right _).append_right _).append_left _

theorem standsIn_configurationTexts (body : String) {slots templates attrs : Dict}
    (h : text ∈ configurationTexts slots templates attrs) :
    StandsIn (Host.quote text) (rt.configurationParts body slots templates attrs) := by
  have hmap : ∀ m ∈ rt.configurationMaps slots templates attrs,
      StandsIn m.written (rt.configurationParts body slots templates attrs) := by
    intro m hm
    rw [configurationParts_eq_maps]
    exact (StandsIn.join (List.mem_map_of_mem hm)).append_left _
  have hslots := hmap (slotMap slots) (by simp [configurationMaps])
  have htemplates := hmap (rt.templateMap templates) (by simp [configurationMaps])
  have hforwarded := hmap (forwardedMap attrs) (by simp [configurationMaps])
  simp only [configurationTexts, List.mem_append] at h
  rcases h with (hslot | htemplate) | hattr
  · exact (MapLiteral.standsIn_key hslot).trans hslots
  · exact (MapLiteral.standsIn_key htemplate).trans htemplates
  · exact (MapLiteral.standsIn_text (List.Subset.refl _) hattr).trans hforwarded

/-- A component to which the markup gives names has a configuration, and they stand in it. -/
theorem standsIn_configuration (body : String) {slots templates attrs : Dict}
    (h : text ∈ configurationTexts slots templates attrs) :
    ∃ argument, rt.configuration body slots templates attrs = some argument ∧
      StandsIn (Host.quote text) argument := by
  have hparts := rt.standsIn_configurationTexts body h
  rw [configuration]
  split
  · rename_i hempty
    -- Between its quotes a literal may hold nothing, but it has its quotes.
    rw [hempty] at hparts
    have hmem : '"' ∈ "".toList := hparts.subset (by simp [Host.quoteChars])
    cases hmem
  · exact ⟨_, rfl, hparts.trans (.between _ _ _)⟩

end Runtime

/-- **Names stay inside their quotes.** An interpreted literal with any code behind it is read as
its text, up to where it was written to; so two texts have two literals, and a part of a literal is
not read to an end. Every tag, key and value of an attribute, event and reference of an element,
every name of a slot or a template and every attribute that a component is handed, and the name at
the place of a slot stand in such a literal. -/
theorem names_stay_inside_quotes :
    (∀ value rest : String,
      Host.readLiteral (Host.quote value ++ rest).toList = some (value.toList, rest.toList)) ∧
    Function.Injective Host.quote ∧
    (∀ (value : String) (part : List Char), part <+: (Host.quote value).toList →
      part ≠ (Host.quote value).toList → Host.readLiteral part = none) ∧
    (∀ (rt : Runtime) (d : Descriptor) (children : String), ∀ text ∈ d.quotedTexts,
      Quotes (rt.element d children) text) ∧
    (∀ (rt : Runtime) (body : String) (slots templates attrs : Dict),
      ∀ text ∈ Runtime.configurationTexts slots templates attrs,
        ∃ argument, rt.configuration body slots templates attrs = some argument ∧
          Quotes argument text) ∧
    ∀ name : String, Quotes (Runtime.slot name) name := by
  refine ⟨Host.readLiteral_quote_append, fun value value' h => ?_, fun value part => ?_,
    fun rt d children text htext => ?_, fun rt body slots templates attrs text htext => ?_,
    fun name => ?_⟩
  · have hcode : Host.quote value ++ "" = Host.quote value' ++ "" := by rw [h]
    exact (Host.quote_append_inj hcode).1
  · rw [Host.toList_quote]
    exact Host.readLiteral_of_prefix
  · refine .of_standsIn ((rt.standsIn_elementBody htext).trans ?_)
    rw [Runtime.element]
    exact (StandsIn.between _ _ _).append_right _
  · obtain ⟨argument, hargument, hstands⟩ := rt.standsIn_configuration body htext
    exact ⟨argument, hargument, .of_standsIn hstands⟩
  · refine .of_standsIn ?_
    rw [Runtime.slot]
    exact .between _ _ _

/-- An element whose attribute and reference hold quotes, backslashes and a bracket. -/
def quoteful : Descriptor where
  tag := "a\"),"
  attrs := .ofList [("k\\", "\\\"\n\x7d")]
  reference := some "\"\\\""

/-- The literal of a quote between backslashes is not read to an end without its closing quote, the
value of the attribute and the reference are read in the code of the element, and the name of a slot
in the configuration. -/
theorem quoteful_names_stay_inside :
    ("\"\\\\\\\"\\\\".toList <+: (Host.quote "\\\"\\").toList ∧
      "\"\\\\\\\"\\\\".toList ≠ (Host.quote "\\\"\\").toList ∧
      Host.readLiteral "\"\\\\\\\"\\\\".toList = none) ∧
    ("\\\"\n\x7d" ∈ quoteful.quotedTexts ∧
      Quotes (Runtime.element ⟨"g"⟩ quoteful "") "\\\"\n\x7d") ∧
    ("\"\\\"" ∈ quoteful.quotedTexts ∧ Quotes (Runtime.element ⟨"g"⟩ quoteful "") "\"\\\"") ∧
    "\":" ∈ Runtime.configurationTexts (.ofList [("\":", "x")]) .empty .empty ∧
      ∃ argument, Runtime.configuration ⟨"g"⟩ "" (.ofList [("\":", "x")]) .empty .empty =
        some argument ∧ Quotes argument "\":" := by
  obtain ⟨-, -, hpart, helement, hconfiguration, -⟩ := names_stay_inside_quotes
  have hbegins : "\"\\\\\\\"\\\\".toList <+: (Host.quote "\\\"\\").toList := by decide
  have hne : "\"\\\\\\\"\\\\".toList ≠ (Host.quote "\\\"\\").toList := by decide
  have hvalue : "\\\"\n\x7d" ∈ quoteful.quotedTexts := by decide +kernel
  have hreference : "\"\\\"" ∈ quoteful.quotedTexts := by decide +kernel
  have hslot : "\":" ∈ Runtime.configurationTexts (.ofList [("\":", "x")]) .empty .empty := by
    decide +kernel
  exact ⟨⟨hbegins, hne, hpart _ _ hbegins hne⟩, ⟨hvalue, helement _ _ _ _ hvalue⟩,
    ⟨hreference, helement _ _ _ _ hreference⟩, hslot, hconfiguration _ _ _ _ _ _ hslot⟩

end Stencil
