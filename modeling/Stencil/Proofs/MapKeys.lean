import Stencil.Proofs.Retention

/-!
# The keys of map literals

The code of an element holds map literals, and the host language takes no literal in which a
constant key stands twice. An ordinary element has a map of handlers and a map of attributes; a
component has one of slots, one of templates and one of the attributes that are handed on. Their
keys come from the markup: from the attributes of the tag, and from the names of the children.

Each of these names is a key once, with one exception. The map of attributes is filled from two
dictionaries, that of the plain attributes and that of the binds, so a name that is given in both
ways is a key twice.

## Main results

* `Runtime.elementBody_eq_maps`, `Runtime.configurationParts_eq_maps`: the code of an element is
  that of its maps between parts that hold no map.
* `map_keys_distinct_iff`: **the keys of a map are the names that the markup gives, and they are
  distinct unless a plain attribute and a bind have one name.**
-/

namespace Stencil

/-! ### Map literals -/

/-- What a map in the code of an element is for. -/
inductive MapField where
  | handlers
  /-- The attributes of an ordinary element, plain ones and binds. -/
  | attributes
  | slots
  | templates
  /-- The attributes that a component is handed. -/
  | forwarded
deriving DecidableEq, Repr

/-- A map literal of the host language. -/
structure MapLiteral where
  field : MapField
  type : String
  /-- The keys with the code of their values, in the order in which they are written. -/
  entries : List (String × String)
deriving DecidableEq, Repr

namespace MapLiteral

/-- The keys, in the order in which they are written. -/
def keys (m : MapLiteral) : List String := m.entries.map Prod.fst

/-- The code of the literal. Every key is quoted. -/
def code (m : MapLiteral) : String :=
  m.type ++ "\x7b" ++
    String.join (m.entries.map fun entry => Host.quote entry.1 ++ ": " ++ entry.2 ++ ",") ++ "\x7d"

/-- The field that the literal is put in. The attributes of an element are made by a function. -/
def filled (m : MapLiteral) : String :=
  match m.field with
  | .handlers => "Handlers: " ++ m.code ++ ","
  | .attributes => "Attrs: " ++ Runtime.closure m.type (" return " ++ m.code ++ " ") ++ ","
  | .slots => "Slots: " ++ m.code ++ ","
  | .templates => "Templates: " ++ m.code ++ ","
  | .forwarded => "Attrs: " ++ m.code ++ ","

/-- What is written for the map. Nothing is written for one without entries. -/
def written (m : MapLiteral) : String := if m.entries.isEmpty then "" else m.filled

end MapLiteral

/-- The entries of a dictionary with their values quoted. -/
def Dict.quoted (d : Dict) : List (String × String) :=
  d.entries.map fun entry => (entry.1, Host.quote entry.2)

@[simp] theorem Dict.map_fst_quoted (d : Dict) :
    d.quoted.map Prod.fst = d.entries.map Prod.fst := by
  rw [quoted, List.map_map]
  rfl

namespace Runtime

variable (rt : Runtime)

/-- The map of event handlers: a function for each event. -/
def handlerMap (handlers : Dict) : MapLiteral where
  field := .handlers
  type := "map[string]" ++ rt.package ++ ".Handler"
  entries := handlers.entries.map fun entry =>
    (entry.1, "func(e " ++ rt.package ++ ".Event) \x7b" ++ entry.2 ++ "\x7d")

/-- The map of attributes: the plain ones, and after them the binds. -/
def attributeMap (attrs binds : Dict) : MapLiteral where
  field := .attributes
  type := rt.package ++ ".Map"
  entries := attrs.quoted ++ binds.entries

/-- The map of the contents of slots. -/
def slotMap (slots : Dict) : MapLiteral where
  field := .slots
  type := "map[string]" ++ anyType
  entries := slots.entries

/-- The map of templates. -/
def templateMap (templates : Dict) : MapLiteral where
  field := .templates
  type := "map[string]" ++ rt.package ++ ".Template"
  entries := templates.entries

/-- The map of the attributes that a component is handed. -/
def forwardedMap (attrs : Dict) : MapLiteral where
  field := .forwarded
  type := "map[string]string"
  entries := attrs.quoted

/-- The maps of an ordinary element. -/
def elementMaps (d : Descriptor) : List MapLiteral :=
  [rt.handlerMap d.handlers, rt.attributeMap d.attrs d.binds]

/-- The maps of a component. -/
def configurationMaps (slots templates attrs : Dict) : List MapLiteral :=
  [slotMap slots, rt.templateMap templates, forwardedMap attrs]

theorem quotedEntries_eq (d : Dict) :
    quotedEntries d =
      String.join (d.quoted.map fun entry => Host.quote entry.1 ++ ": " ++ entry.2 ++ ",") := by
  rw [quotedEntries, Dict.quoted, List.map_map]
  rfl

theorem written_handlerMap (handlers : Dict) :
    (rt.handlerMap handlers).written = rt.handlers handlers := by
  have hentry : ∀ entry : String × String,
      Host.quote entry.1 ++ ": " ++ ("func(e " ++ rt.package ++ ".Event) \x7b" ++ entry.2 ++
        "\x7d") ++ "," =
      Host.quote entry.1 ++ ": func(e " ++ rt.package ++ ".Event) \x7b" ++ entry.2 ++ "\x7d," :=
    fun entry => String.toList_injective (by simp)
  refine if_congr (by rw [handlerMap, List.isEmpty_map]; rfl) rfl (String.toList_injective ?_)
  simp only [MapLiteral.filled, handlerMap, MapLiteral.code, List.map_map, Function.comp_def, hentry]
  simp

theorem written_attributeMap (attrs binds : Dict) :
    (rt.attributeMap attrs binds).written = rt.attributes attrs binds := by
  have hempty : (attrs.quoted ++ binds.entries).isEmpty = (attrs.isEmpty && binds.isEmpty) := by
    rw [Dict.quoted, Dict.isEmpty, Dict.isEmpty]
    cases attrs.entries <;> rfl
  refine if_congr (by rw [← hempty]; rfl) rfl (String.toList_injective ?_)
  simp [MapLiteral.filled, attributeMap, MapLiteral.code, closure, entries, quotedEntries_eq]

theorem written_slotMap (slots : Dict) :
    (slotMap slots).written =
      if slots.isEmpty then ""
      else "Slots: map[string]" ++ anyType ++ "\x7b" ++ entries slots ++ "\x7d," := by
  refine if_congr Iff.rfl rfl (String.toList_injective ?_)
  simp [MapLiteral.filled, slotMap, MapLiteral.code, entries]

theorem written_templateMap (templates : Dict) :
    (rt.templateMap templates).written =
      if templates.isEmpty then ""
      else "Templates: map[string]" ++ rt.package ++ ".Template\x7b" ++ entries templates ++
        "\x7d," := by
  refine if_congr Iff.rfl rfl (String.toList_injective ?_)
  simp [MapLiteral.filled, templateMap, MapLiteral.code, entries]

theorem written_forwardedMap (attrs : Dict) :
    (forwardedMap attrs).written =
      if attrs.isEmpty then ""
      else "Attrs: map[string]string\x7b" ++ quotedEntries attrs ++ "\x7d," := by
  refine if_congr (by rw [forwardedMap, Dict.quoted, List.isEmpty_map]; rfl) rfl
    (String.toList_injective ?_)
  simp [MapLiteral.filled, forwardedMap, MapLiteral.code, quotedEntries_eq]

/-- The first argument of an element's call is that of its maps between parts without maps. -/
theorem elementBody_eq_maps (d : Descriptor) :
    rt.elementBody d =
      ("&" ++ rt.package ++ ".E\x7bTag:" ++ Host.quote d.tag ++ ", ") ++
        String.join ((rt.elementMaps d).map MapLiteral.written) ++
        (rt.rawHtml d.rawHtml ++ reference d.reference ++ pointer d.isPointer ++ "\x7d,") := by
  have hmaps : String.join ((rt.elementMaps d).map MapLiteral.written) =
      rt.handlers d.handlers ++ rt.attributes d.attrs d.binds := by
    rw [elementMaps, List.map_cons, List.map_cons, List.map_nil, written_handlerMap,
      written_attributeMap, String.join_cons, String.join_cons, String.join_nil,
      String.append_empty]
  simp only [hmaps, elementBody, String.append_assoc]

/-- The parts of a component's configuration are its maps after its body. -/
theorem configurationParts_eq_maps (body : String) (slots templates attrs : Dict) :
    rt.configurationParts body slots templates attrs =
      (if body = "" then "" else "Body: " ++ listType ++ "\x7b" ++ body ++ "\x7d,") ++
        String.join ((rt.configurationMaps slots templates attrs).map MapLiteral.written) := by
  rw [configurationParts, configurationMaps, List.map_cons, List.map_cons, List.map_cons,
    List.map_nil, written_slotMap, written_templateMap, written_forwardedMap, String.join_cons,
    String.join_cons, String.join_cons, String.join_nil, String.append_empty]
  simp only [String.append_assoc]

theorem keys_handlerMap (handlers : Dict) :
    (rt.handlerMap handlers).keys = handlers.entries.map Prod.fst := by
  rw [MapLiteral.keys, handlerMap, List.map_map]
  rfl

theorem keys_attributeMap (attrs binds : Dict) :
    (rt.attributeMap attrs binds).keys =
      attrs.entries.map Prod.fst ++ binds.entries.map Prod.fst := by
  rw [MapLiteral.keys, attributeMap, List.map_append, Dict.map_fst_quoted]

theorem keys_forwardedMap (attrs : Dict) :
    (forwardedMap attrs).keys = attrs.entries.map Prod.fst := attrs.map_fst_quoted

end Runtime

/-! ### The names that the markup gives -/

/-- The maps that an element of a kind has. -/
def ElementKind.fields : ElementKind → List MapField
  | .ordinary => [.handlers, .attributes]
  | .component => [.slots, .templates, .forwarded]
  | .slot | .body | .switch => []

/-- The names that the markup of an element gives for a map. -/
def MapField.names (tag : Tag) (children : List Node) : MapField → List String
  | handlers => (tag.attributes.filterMap Attribute.handler?).map Prod.fst
  | attributes =>
      (tag.attributes.filterMap Attribute.plain?).map Prod.fst ++
        (tag.attributes.filterMap Attribute.bind?).map Prod.fst
  | slots => children.filterMap Node.slot?
  | templates => children.filterMap Node.templateName?
  | forwarded =>
      ((tag.attributes.filterMap Attribute.plain?).map Prod.fst).filter fun key => key != "run"

/-- No name is given both to a plain attribute and to a bind. -/
def Tag.SetsOnce (tag : Tag) : Prop :=
  ((tag.attributes.filterMap Attribute.plain?).map Prod.fst).Disjoint
    ((tag.attributes.filterMap Attribute.bind?).map Prod.fst)

instance (tag : Tag) : Decidable tag.SetsOnce :=
  inferInstanceAs (Decidable (∀ key ∈ _, key ∉ _))

namespace Dict

/-- The keys of a dictionary that is filled are those that were there and those put in. -/
theorem mem_keys_insertAll {d : Dict} {pairs : List (String × String)} {key : String} :
    key ∈ (d.insertAll pairs).entries.map Prod.fst ↔
      key ∈ d.entries.map Prod.fst ∨ key ∈ pairs.map Prod.fst := by
  have hcontains : ∀ e : Dict, key ∈ e.entries.map Prod.fst ↔ e.contains key = true := by
    simp [contains]
  induction pairs generalizing d with
  | nil => simp [insertAll]
  | cons pair rest ih =>
      have hstep : d.insertAll (pair :: rest) = (d.insert pair.1 pair.2).insertAll rest := rfl
      rw [hstep]
      refine ih.trans ?_
      rw [hcontains, hcontains, contains_insert, List.map_cons, List.mem_cons, Bool.or_eq_true,
        beq_iff_eq, eq_comm, or_assoc, or_left_comm]

theorem mem_keys_insertAll_empty {pairs : List (String × String)} {key : String} :
    key ∈ (empty.insertAll pairs).entries.map Prod.fst ↔ key ∈ pairs.map Prod.fst := by
  rw [mem_keys_insertAll, entries_empty, List.map_nil, or_iff_right List.not_mem_nil]

theorem map_fst_erase (d : Dict) (key : String) :
    (d.erase key).entries.map Prod.fst = (d.entries.map Prod.fst).filter fun k => k != key := by
  rw [List.filter_map]
  rfl

end Dict

/-! ### The maps of an element -/

/-- A map that is not that of the attributes has to have distinct keys. -/
theorem MapLiteral.nodup_keys_iff {m : MapLiteral} {p : Prop} (h : m.keys.Nodup)
    (hfield : m.field ≠ .attributes) : m.keys.Nodup ↔ (m.field = .attributes → p) :=
  iff_of_true h fun heq => absurd heq hfield

/-- The keys of a map are the names that the markup gives for it. They are distinct, unless the map
is that of the attributes and a name is given twice to it. -/
structure MapLiteral.Lists (m : MapLiteral) (tag : Tag) (children : List Node) : Prop where
  mem_keys : ∀ key, key ∈ m.keys ↔ key ∈ m.field.names tag children
  nodup_keys : m.keys.Nodup ↔ (m.field = .attributes → tag.SetsOnce)

namespace Tag

variable (rt : Runtime) (tag : Tag) (children : List Node)

theorem mem_keys_attrs {key : String} :
    key ∈ tag.described.attrs.entries.map Prod.fst ↔
      key ∈ (tag.attributes.filterMap Attribute.plain?).map Prod.fst :=
  Dict.mem_keys_insertAll_empty

theorem mem_keys_binds {key : String} :
    key ∈ tag.described.binds.entries.map Prod.fst ↔
      key ∈ (tag.attributes.filterMap Attribute.bind?).map Prod.fst :=
  Dict.mem_keys_insertAll_empty

/-- **The map of attributes** is the only one with a key that stands twice, and it has one exactly
when a plain attribute and a bind have one name. -/
theorem lists_elementMaps : ∀ m ∈ rt.elementMaps tag.described, m.Lists tag children := by
  have hdisjoint : (tag.described.attrs.entries.map Prod.fst).Disjoint
      (tag.described.binds.entries.map Prod.fst) ↔ tag.SetsOnce := by
    simp only [SetsOnce, List.disjoint_left, mem_keys_attrs, mem_keys_binds]
  simp only [Runtime.elementMaps, List.forall_mem_cons, List.not_mem_nil, false_imp_iff,
    implies_true, and_true]
  refine ⟨⟨fun key => ?_, ?_⟩, ⟨fun key => ?_, ?_⟩⟩
  · rw [Runtime.keys_handlerMap]
    exact Dict.mem_keys_insertAll_empty
  · refine MapLiteral.nodup_keys_iff ?_ (by simp [Runtime.handlerMap])
    rw [Runtime.keys_handlerMap]
    exact Dict.nodup_keys _
  · rw [Runtime.keys_attributeMap, List.mem_append, mem_keys_attrs, mem_keys_binds, ← List.mem_append]
    rfl
  · rw [Runtime.keys_attributeMap, List.nodup_append', hdisjoint]
    exact ⟨fun h _ => h.2.2, fun h => ⟨Dict.nodup_keys _, Dict.nodup_keys _, h rfl⟩⟩

variable {tag children}

/-- **The maps of a component** hold what its children are for and the attributes but for the
call. -/
theorem lists_configurationMaps {parts : Parts}
    (hslots : ∀ key, key ∈ parts.slots.entries.map Prod.fst ↔ key ∈ children.filterMap Node.slot?)
    (htemplates : ∀ key,
      key ∈ parts.templates.entries.map Prod.fst ↔ key ∈ children.filterMap Node.templateName?) :
    ∀ m ∈ rt.configurationMaps parts.slots parts.templates (tag.described.attrs.erase "run"),
      m.Lists tag children := by
  simp only [Runtime.configurationMaps, List.forall_mem_cons, List.not_mem_nil, false_imp_iff,
    implies_true, and_true]
  refine ⟨⟨hslots, MapLiteral.nodup_keys_iff (Dict.nodup_keys _) (by simp [Runtime.slotMap])⟩,
    ⟨htemplates,
      MapLiteral.nodup_keys_iff (Dict.nodup_keys _) (by simp [Runtime.templateMap])⟩,
    ⟨fun key => ?_, ?_⟩⟩
  · rw [Runtime.keys_forwardedMap, Dict.map_fst_erase, List.mem_filter, mem_keys_attrs,
      Runtime.forwardedMap, MapField.names, List.mem_filter]
  · refine MapLiteral.nodup_keys_iff ?_ (by simp [Runtime.forwardedMap])
    rw [Runtime.keys_forwardedMap]
    exact Dict.nodup_keys _

end Tag

section Calls

variable {rt : Runtime} {number : Place → Nat} {tag : Tag} {children : List Node} {here : Place}

variable (rt) in
/-- The parts that the children of a well-formed component are lowered to: they have the names that
the children give, and make the call that the component is rendered to. -/
theorem exists_parts_of_wellFormed {n : Nat} (hwell : WellFormedParts children)
    (hn : Numbers number n (loopsBelow here 0 children)) :
    ∃ parts, ((lowerParts rt {} children).run n).result = .ok parts ∧
      (∀ key, key ∈ parts.slots.entries.map Prod.fst ↔ key ∈ children.filterMap Node.slot?) ∧
      (∀ key, key ∈ parts.templates.entries.map Prod.fst ↔
        key ∈ children.filterMap Node.templateName?) ∧
      ∀ run attrs, Component.call rt run attrs parts =
        Component.call rt run attrs (.ofContributions (renderParts rt number here 0 children)) := by
  have hends := lowerParts_ends
    (fun node _ => (node.lowersTo_and_contributesTo rt number).2) hn
  have hplaces := hwell
  rw [← map_snd_withPlaces here 0 children] at hplaces
  obtain ⟨-, t, ht⟩ := (wellFormedParts_iff rt number).mp hplaces
  rw [← renderParts_eq_map] at ht
  obtain ⟨-, -, -, -, hslots, htemplates⟩ := Parts.foldlM_take_eq_ok.mp ht
  have hreached := Pass.reached_of_foldlM ht
  refine ⟨t, ?_, fun key => ?_, fun key => ?_, fun run attrs => ?_⟩
  · rw [(hends.returns hwell).result, hreached]
  · rw [hslots]
    refine Dict.mem_keys_insertAll_empty.trans ?_
    rw [renderParts_eq_map, slots_contributed, map_snd_withPlaces]
  · rw [htemplates]
    refine Dict.mem_keys_insertAll_empty.trans ?_
    rw [renderParts_eq_map, templates_contributed, map_snd_withPlaces]
  · rw [← call_reached hwell here run attrs, hreached]

/-- The maps in the code of an element that is lowered from a number on. A component makes them from
the parts that its children are lowered to. -/
def Tag.maps (rt : Runtime) (tag : Tag) (children : List Node) (n : Nat) : List MapLiteral :=
  match ElementKind.ofName tag.name with
  | .ordinary => rt.elementMaps tag.described
  | .component =>
      match ((lowerParts rt {} children).run n).result with
      | .ok parts =>
          rt.configurationMaps parts.slots parts.templates (tag.described.attrs.erase "run")
      | .error _ => []
  | .slot | .body | .switch => []

/-- The maps that lowering a node has put into its code. A template of a component has none of its
own. -/
def Call.maps (rt : Runtime) (c : Call) : List MapLiteral :=
  match c.node with
  | .text _ | .comment _ => []
  | .element tag children =>
      if c.node.isTemplateIn c.among then [] else tag.maps rt children c.start

theorem Call.maps_element (rt : Runtime) (layout : Layout) (n : Nat) :
    Call.maps rt ⟨here, layout, .element tag children, n⟩ =
      if (Node.element tag children).isTemplateIn layout then [] else tag.maps rt children n := rfl

/-- The maps of an ordinary element stand in its code. -/
theorem Runtime.standsIn_elementMaps (rt : Runtime) (d : Descriptor) (inner : String) :
    StandsIn (String.join ((rt.elementMaps d).map MapLiteral.written)) (rt.element d inner) := by
  rw [element, elementBody_eq_maps]
  exact (((StandsIn.between _ _ _).append_left _).append_right _).append_right _

/-- The maps of a component stand in its call. -/
theorem Component.standsIn_configurationMaps (rt : Runtime) (run : String) (attrs : Dict)
    (parts : Parts) :
    StandsIn (String.join ((rt.configurationMaps parts.slots parts.templates attrs).map
      MapLiteral.written)) (call rt run attrs parts) := by
  refine standsIn_call_of_configurationParts rt run attrs ?_
  rw [Runtime.configurationParts_eq_maps]
  exact (StandsIn.refl _).append_left _

variable (rt) in
/-- **The maps of an element**: which ones they are, that they stand in its code, and what their
keys are. -/
theorem Tag.maps_of_wellFormed {n : Nat} (hwell : (Node.element tag children).WellFormed)
    (hn : Numbers number n ((Node.element tag children).loops here)) :
    (tag.maps rt children n).map MapLiteral.field = (ElementKind.ofName tag.name).fields ∧
      StandsIn (String.join ((tag.maps rt children n).map MapLiteral.written))
        (tag.code rt (renderAll rt number here 0 children) (renderParts rt number here 0 children)) ∧
      ∀ m ∈ tag.maps rt children n, m.Lists tag children := by
  rw [Node.WellFormed] at hwell
  rw [Node.loops, numbers_append] at hn
  rw [maps, Tag.code]
  cases hkind : ElementKind.ofName tag.name with
  | ordinary =>
      refine ⟨rfl, ?_, tag.lists_elementMaps rt _⟩
      cases tag.described.switchTarget with
      | none => exact rt.standsIn_elementMaps _ _
      | some target => exact rt.standsIn_elementMaps _ _
  | component =>
      have hlayout : tag.layout = .parts := by rw [Tag.layout, hkind]
      have hbelow := hn.1
      rw [hlayout, if_neg (by simp)] at hbelow
      rw [hlayout, Layout.Demands] at hwell
      obtain ⟨parts, hparts, hslots, htemplates, hcall⟩ :=
        exists_parts_of_wellFormed rt hwell.2 hbelow
      rw [hparts]
      refine ⟨rfl, ?_, Tag.lists_configurationMaps rt hslots htemplates⟩
      rw [← hcall]
      exact Component.standsIn_configurationMaps rt _ _ parts
  | slot | body | switch => exact ⟨rfl, .empty _, List.forall_mem_nil _⟩

variable (rt) in
/-- The same for the element as a member of a list. -/
theorem Call.maps_of_wellFormed {layout : Layout} {n : Nat}
    (hwell : (Node.element tag children).WellFormedIn layout)
    (hn : Numbers number n ((Node.element tag children).loops here)) :
    (Call.maps rt ⟨here, layout, .element tag children, n⟩).map MapLiteral.field =
        (if (Node.element tag children).isTemplateIn layout then []
          else (ElementKind.ofName tag.name).fields) ∧
      StandsIn
        (String.join
          ((Call.maps rt ⟨here, layout, .element tag children, n⟩).map MapLiteral.written))
        ((Node.element tag children).codeIn rt number layout here) ∧
      ∀ m ∈ Call.maps rt ⟨here, layout, .element tag children, n⟩, m.Lists tag children := by
  rw [maps_element]
  by_cases htemplate : (Node.element tag children).isTemplateIn layout = true
  · rw [if_pos htemplate, if_pos htemplate]
    exact ⟨rfl, .empty _, List.forall_mem_nil _⟩
  · rw [Node.WellFormedIn, if_neg htemplate] at hwell
    obtain ⟨hfields, hstands, hlists⟩ := Tag.maps_of_wellFormed rt hwell hn
    rw [if_neg htemplate, if_neg htemplate, Node.codeIn, if_neg htemplate, Node.render]
    exact ⟨hfields, hstands.trans (tag.standsIn_repeated _ _), hlists⟩

end Calls

/-- **The keys of map literals.** In a block that is accepted every element that is looked at is
lowered. An ordinary element brings a map of handlers and one of attributes, and a component one of
slots, one of templates and one of attributes; they stand in the code of the element, which stands
in the output. The keys of each are the names that the markup gives for it. No key stands twice,
except in the map of attributes of an ordinary element, and there exactly when a name is given both
to a plain attribute and to a bind. -/
theorem map_keys_distinct_iff (rt : Runtime) (nodes : List Node) (n : Nat) (code : String)
    (h : ((lowerBlock rt nodes).run n).result = .ok code) (here : Place) (i : Nat) (tag : Tag)
    (children : List Node) (hnode : (listAt nodes here).2[i]? = some (.element tag children)) :
    ∃ c ∈ blockCalls rt n nodes, c.place = i :: here ∧ c.node = .element tag children ∧
      (c.maps rt).map MapLiteral.field =
        (if c.node.isTemplateIn c.among then [] else (ElementKind.ofName tag.name).fields) ∧
      (∃ fragment, c.code? rt = some fragment ∧ StandsIn fragment code ∧
        StandsIn (String.join ((c.maps rt).map MapLiteral.written)) fragment) ∧
      ∀ m ∈ c.maps rt, (∀ key, key ∈ m.keys ↔ key ∈ m.field.names tag children) ∧
        (m.keys.Nodup ↔ (m.field = .attributes → tag.SetsOnce)) := by
  obtain ⟨number, hnumbers, hwell, rfl, -, -⟩ := lowerBlock_of_ok rt h
  have hnodeWell := forall_wellFormedIn_listAt hwell hnode _ (List.mem_of_getElem? hnode)
  obtain ⟨start, hstart, hcalls⟩ := calls_of_listAt rt hwell hnumbers hnode
  obtain ⟨hfields, hstands, hlists⟩ := Call.maps_of_wellFormed rt hnodeWell hstart
  have hfragment : StandsIn ((Node.element tag children).codeIn rt number (listAt nodes here).1
      (i :: here)) (Sequence.ofFragments (renderAll rt number [] 0 nodes)).withoutLast := by
    rcases standsIn_block hwell hnode rfl with hin | ⟨-, hends⟩
    · exact hin
    · -- Only a text loses its last separator.
      obtain ⟨value, hvalue⟩ := hends.text
      cases hvalue
  exact ⟨_, hcalls (Node.mem_calls rfl (i :: here) start), rfl, rfl, hfields,
    ⟨_, Call.code?_eq hnodeWell hstart, hfragment, hstands⟩,
    fun m hm => ⟨(hlists m hm).mem_keys, (hlists m hm).nodup_keys⟩⟩

/-- A button with a handler, a plain attribute and a bind, as the content of a slot. -/
def button : Node :=
  .element
    { name := "button", attributes := [⟨"slot", "s"⟩, ⟨"@click", "f()"⟩, ⟨":value", "v"⟩] } []

/-- A component with a template and with that content of a slot. -/
def buttoned : List Node :=
  [.element { name := "e", attributes := [⟨"run", "F()"⟩, ⟨"title", "t"⟩] } [textTemplate, button]]

/-- The maps of the button have distinct keys, and so do those of the component around it. -/
theorem map_keys_of_buttoned :
    ∃ code, ((lowerBlock ⟨"g"⟩ buttoned).run 0).result = .ok code ∧
      (∃ c ∈ blockCalls ⟨"g"⟩ 0 buttoned, c.place = [1, 0] ∧
        (c.maps ⟨"g"⟩).map MapLiteral.field = [.handlers, .attributes] ∧
        ∀ m ∈ c.maps ⟨"g"⟩, m.keys.Nodup) ∧
      ∃ c ∈ blockCalls ⟨"g"⟩ 0 buttoned, c.place = [0] ∧
        (c.maps ⟨"g"⟩).map MapLiteral.field = [.slots, .templates, .forwarded] ∧
        ∀ m ∈ c.maps ⟨"g"⟩, m.keys.Nodup := by
  obtain ⟨code, hcode⟩ : ∃ code, ((lowerBlock ⟨"g"⟩ buttoned).run 0).result = .ok code := by
    decide +kernel
  obtain ⟨c, hc, hplace, hnode, hfields, -, hmaps⟩ :=
    map_keys_distinct_iff _ _ _ _ hcode [0] 1 _ _ rfl
  obtain ⟨c', hc', hplace', hnode', hfields', -, hmaps'⟩ :=
    map_keys_distinct_iff _ _ _ _ hcode [] 0 _ _ rfl
  refine ⟨code, hcode, ⟨c, hc, hplace, ?_, fun m hm => (hmaps m hm).2.mpr fun _ => ?_⟩,
    c', hc', hplace', ?_, fun m hm => (hmaps' m hm).2.mpr fun _ => ?_⟩
  · rw [hfields, hnode]
    cases c.among <;> rfl
  · decide
  · rw [hfields', hnode']
    cases c'.among <;> rfl
  · decide

/-- A field whose value is given both as it stands and by an expression. -/
def boundTwice : List Node :=
  [.element { name := "input", attributes := [⟨"value", "a"⟩, ⟨":value", "b"⟩] } []]

/-- The field is accepted, and in the map of its attributes one key stands twice. -/
theorem map_key_stands_twice :
    ((lowerBlock ⟨"gas"⟩ boundTwice).run 0).result =
        .ok ("gas.NE(&gas.E\x7bTag:\"input\", Attrs: func() gas.Map \x7b return gas.Map\x7b" ++
          "\"value\": \"a\",\"value\": b,\x7d \x7d,\x7d,)") ∧
      ∃ c ∈ blockCalls ⟨"gas"⟩ 0 boundTwice, ∃ m ∈ c.maps ⟨"gas"⟩,
        m.field = .attributes ∧ m.keys = ["value", "value"] ∧ ¬ m.keys.Nodup := by
  refine ⟨by decide +kernel, ⟨[0], .siblings, boundTwice[0], 0⟩, ?_,
    Runtime.attributeMap ⟨"gas"⟩ (Dict.empty.insert "value" "a") (Dict.empty.insert "value" "b"),
    ?_, rfl, by decide, by decide⟩
  · exact List.mem_singleton_self _
  · exact List.mem_cons_of_mem _ (List.mem_singleton_self _)

end Stencil
