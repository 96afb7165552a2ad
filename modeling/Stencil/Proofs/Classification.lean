import Stencil.Proofs.Failure
import Stencil.Proofs.Reordering
import Mathlib.Data.Option.Basic

/-!
# The classes of attributes

The key of an attribute says what the attribute is for. A handler for an event and a bind of a
target have a long and a short spelling each, a directive has one key, and a plain attribute is
named by a key that spells nothing else. In a tag the last attribute of a class counts, whichever
way it is spelled. The five directives that place an element among its siblings are the exception,
as a tag takes only one of them.

What a tag asks for is therefore known class by class, and the order of attributes of different
classes is of no account.

## Main results

* `Role.ofKey_eq_iff`: the class of a key in terms of its spellings.
* `Tag.descriptor_eq_of_conflict`: **the first two attributes that place an element are the ones a
  tag fails by**, after all attributes up to the second have been reported.
* `Tag.describes_described`, `Descriptor.Describes.unique`: a descriptor is known by the last value
  of each class.
* `attributes_classified`: all of it for every tag, with what it means for attributes in another
  order.
-/

namespace Stencil

/-! ### Spellings -/

namespace Text

theorem startsWith_iff {start s : String} :
    startsWith start s = true ↔ ∃ rest, s = start ++ rest := by
  rw [startsWith, List.isPrefixOf_iff_prefix]
  constructor
  · rintro ⟨rest, hrest⟩
    exact ⟨String.ofList rest, String.toList_injective (by simp [hrest])⟩
  · rintro ⟨rest, rfl⟩
    exact ⟨rest.toList, by simp⟩

theorem after?_eq_some_iff {start s rest : String} :
    after? start s = some rest ↔ s = start ++ rest := by
  rw [after?]
  constructor
  · intro h
    split at h
    · rename_i hstarts
      obtain ⟨rest', rfl⟩ := startsWith_iff.mp hstarts
      cases h
      exact String.toList_injective (by simp [← String.length_toList])
    · cases h
  · rintro rfl
    rw [if_pos (startsWith_iff.mpr ⟨rest, rfl⟩)]
    exact congrArg some (String.toList_injective (by simp [← String.length_toList]))

theorem after?_eq_none_iff {start s : String} :
    after? start s = none ↔ startsWith start s = false := by
  rw [after?]
  split <;> simp_all

/-- What follows a long or a short spelling, where no text begins in both ways. -/
theorem after?_orElse_eq_some_iff {long short s rest : String}
    (hapart : ∀ rest, startsWith short (long ++ rest) = false) :
    (after? long s <|> after? short s) = some rest ↔ s = long ++ rest ∨ s = short ++ rest := by
  rw [← after?_eq_some_iff, ← after?_eq_some_iff]
  cases hlong : after? long s with
  | none => simp
  | some found =>
      have hshort : after? short s = none := by
        rw [after?_eq_some_iff.mp hlong, after?_eq_none_iff]
        exact hapart found
      simp [hshort]

theorem after?_orElse_eq_none_iff {long short s : String} :
    (after? long s <|> after? short s) = none ↔
      startsWith long s = false ∧ startsWith short s = false := by
  rw [Option.orElse_eq_none, after?_eq_none_iff, after?_eq_none_iff]

end Text

namespace Role

/-- The key spells the role. -/
def IsSpelled (key : String) : Role → Prop
  | handler event => key = "g-on:" ++ event ∨ key = "@" ++ event
  | bind target => key = "g-bind:" ++ target ∨ key = ":" ++ target
  | directive d => key = d.key
  | plain name =>
      key = name ∧ (∀ start ∈ ["g-on:", "@", "g-bind:", ":"], Text.startsWith start key = false) ∧
        ∀ d : Directive, key ≠ d.key

theorem event?_eq_some_iff {key event : String} :
    event? key = some event ↔ key = "g-on:" ++ event ∨ key = "@" ++ event :=
  Text.after?_orElse_eq_some_iff fun rest => by simp [Text.startsWith, List.isPrefixOf]

theorem target?_eq_some_iff {key target : String} :
    target? key = some target ↔ key = "g-bind:" ++ target ∨ key = ":" ++ target :=
  Text.after?_orElse_eq_some_iff fun rest => by simp [Text.startsWith, List.isPrefixOf]

/-- A bind is no handler. -/
theorem event?_of_target? {key target : String} (h : target? key = some target) :
    event? key = none := by
  refine Text.after?_orElse_eq_none_iff.mpr ?_
  rcases target?_eq_some_iff.mp h with rfl | rfl <;> simp [Text.startsWith, List.isPrefixOf]

theorem isSpelled_ofKey (key : String) : (ofKey key).IsSpelled key := by
  rw [ofKey]
  split
  · exact event?_eq_some_iff.mp ‹_›
  · rename_i hevent
    split
    · exact target?_eq_some_iff.mp ‹_›
    · rename_i htarget
      split
      · exact (Directive.key_of_ofKey? ‹_›).symm
      · rename_i hdirective
        have hhandler := Text.after?_orElse_eq_none_iff.mp hevent
        have hbind := Text.after?_orElse_eq_none_iff.mp htarget
        refine ⟨rfl, by simp [hhandler, hbind], ?_⟩
        rintro d rfl
        rw [Directive.ofKey?_key] at hdirective
        cases hdirective

theorem IsSpelled.ofKey_eq {key : String} {role : Role} (h : role.IsSpelled key) :
    ofKey key = role := by
  cases role with
  | handler event => rw [ofKey, event?_eq_some_iff.mpr h]
  | bind target =>
      have htarget := target?_eq_some_iff.mpr h
      rw [ofKey, event?_of_target? htarget, htarget]
  | directive d =>
      obtain rfl : key = d.key := h
      cases d <;> decide
  | plain name =>
      obtain ⟨rfl, hstarts, hdirective⟩ := h
      simp only [List.forall_mem_cons] at hstarts
      obtain ⟨hon, hat, hbind, hcolon, -⟩ := hstarts
      have hevent : event? key = none := Text.after?_orElse_eq_none_iff.mpr ⟨hon, hat⟩
      have htarget : target? key = none := Text.after?_orElse_eq_none_iff.mpr ⟨hbind, hcolon⟩
      have hofKey : Directive.ofKey? key = none := by
        cases hfound : Directive.ofKey? key with
        | none => rfl
        | some d => exact absurd (Directive.key_of_ofKey? hfound).symm (hdirective d)
      rw [ofKey, hevent, htarget, hofKey]

/-- **The class of a key**: the one that the key spells. -/
theorem ofKey_eq_iff {key : String} {role : Role} : ofKey key = role ↔ role.IsSpelled key :=
  ⟨fun h => h ▸ isSpelled_ofKey key, IsSpelled.ofKey_eq⟩

theorem ofKey_eq_directive_iff {key : String} {d : Directive} :
    ofKey key = directive d ↔ key = d.key :=
  ofKey_eq_iff

end Role

/-! ### Dictionaries by their values -/

namespace Dict

theorem get?_eq_some_iff {d : Dict} {key value : String} :
    d.get? key = some value ↔ (key, value) ∈ d.entries := by
  rw [get?, List.lookup_eq_some_iff]
  constructor
  · rintro ⟨before, after, hentries, -⟩
    rw [hentries]
    simp
  · intro hmem
    obtain ⟨before, after, hentries⟩ := List.append_of_mem hmem
    refine ⟨before, after, hentries, fun entry hentry => ?_⟩
    have hsorted := hentries ▸ d.sorted
    have hlt := (List.pairwise_append.mp hsorted).2.2 entry hentry (key, value) List.mem_cons_self
    exact bne_iff_ne.mpr fun heq => String.lt_irrefl key (heq ▸ hlt)

/-- A dictionary is known by the values of all keys. -/
theorem ext_get? {d e : Dict} (h : ∀ key, d.get? key = e.get? key) : d = e :=
  ext_mem fun ⟨key, value⟩ => by rw [← get?_eq_some_iff, ← get?_eq_some_iff, h]

theorem get?_insert (d : Dict) (key value name : String) :
    (d.insert key value).get? name = if key = name then some value else d.get? name := by
  by_cases hname : key = name
  · rw [if_pos hname, ← hname, get?_eq_some_iff]
    exact mem_insertEntry_self key value d.entries
  · rw [if_neg hname]
    refine Option.ext fun found => ?_
    rw [get?_eq_some_iff, get?_eq_some_iff]
    refine ⟨fun h => (mem_insertEntry h).resolve_left fun heq => hname ?_,
      fun h => mem_insertEntry_of_ne h hname⟩
    exact (congrArg Prod.fst heq).symm

/-- **The last value put in for a key counts.** -/
theorem get?_insertAll (d : Dict) (pairs : List (String × String)) (name : String) :
    (d.insertAll pairs).get? name =
      ((pairs.filterMap fun pair => if pair.1 = name then some pair.2 else none).getLast? <|>
        d.get? name) := by
  induction pairs generalizing d with
  | nil => rfl
  | cons pair rest ih =>
      have hstep : d.insertAll (pair :: rest) = (d.insert pair.1 pair.2).insertAll rest := rfl
      rw [hstep, ih, get?_insert, List.filterMap_cons]
      by_cases hname : pair.1 = name
      · simp only [if_pos hname, List.getLast?_cons]
        cases (rest.filterMap fun pair => if pair.1 = name then some pair.2 else none).getLast? <;>
          rfl
      · simp only [if_neg hname]

end Dict

/-! ### The last value of a class -/

/-- The value that the attribute gives a role. -/
def Attribute.valueAs? (role : Role) (a : Attribute) : Option String :=
  if Role.ofKey a.key = role then some a.value else none

/-- The last value that the attributes give a role. -/
def lastValue (role : Role) (attributes : List Attribute) : Option String :=
  (attributes.filterMap (Attribute.valueAs? role)).getLast?

theorem lastValue_orElse (role : Role) (attributes : List Attribute) :
    (lastValue role attributes <|> none) = lastValue role attributes := by
  simp

/-- The descriptor holds the last value of each class of attributes, and the part among siblings
that the tag asks for. -/
structure Descriptor.Describes (d : Descriptor) (tag : Tag) : Prop where
  name : d.tag = tag.name
  attrs : ∀ name, d.attrs.get? name = lastValue (.plain name) tag.attributes
  handlers : ∀ event, d.handlers.get? event = lastValue (.handler event) tag.attributes
  binds : ∀ target, d.binds.get? target = lastValue (.bind target) tag.attributes
  reference : d.reference = lastValue (.directive .ref) tag.attributes
  rawHtml : d.rawHtml = lastValue (.directive .html) tag.attributes
  loopClause : d.loopClause =
    (lastValue (.directive .loop) tag.attributes).map Iteration.normalize
  switchTarget : d.switchTarget = lastValue (.directive .switch) tag.attributes
  isPointer : d.isPointer = true ↔ ∃ a ∈ tag.attributes, a.key = "g-pointer"
  branch : d.branch.toList = tag.branches

/-- A descriptor is known by what it describes. -/
theorem Descriptor.Describes.unique {d e : Descriptor} {tag : Tag} (hd : d.Describes tag)
    (he : e.Describes tag) : d = e := by
  have hbranch : d.branch = e.branch := by
    rw [← Option.head?_toList (o := d.branch), hd.branch, ← he.branch, Option.head?_toList]
  have hpointer : d.isPointer = e.isPointer :=
    Bool.eq_iff_iff.mpr (hd.isPointer.trans he.isPointer.symm)
  have hattrs : d.attrs = e.attrs := Dict.ext_get? fun name => by rw [hd.attrs, he.attrs]
  have hhandlers : d.handlers = e.handlers :=
    Dict.ext_get? fun event => by rw [hd.handlers, he.handlers]
  have hbinds : d.binds = e.binds := Dict.ext_get? fun target => by rw [hd.binds, he.binds]
  have hname := hd.name.trans he.name.symm
  have hreference := hd.reference.trans he.reference.symm
  have hhtml := hd.rawHtml.trans he.rawHtml.symm
  have hloop := hd.loopClause.trans he.loopClause.symm
  have hswitch := hd.switchTarget.trans he.switchTarget.symm
  cases d
  cases e
  simp_all

namespace Tag

variable {tag : Tag}

/-- A dictionary filled by the attributes of one kind holds the last value of each name. -/
theorem get?_insertAll_filterMap (f : Attribute → Option (String × String)) (role : String → Role)
    (hf : ∀ a name value, f a = some (name, value) ↔ Role.ofKey a.key = role name ∧ a.value = value)
    (attributes : List Attribute) (name : String) :
    (Dict.empty.insertAll (attributes.filterMap f)).get? name =
      lastValue (role name) attributes := by
  have hvalue : ∀ a : Attribute,
      ((f a).bind fun pair => if pair.1 = name then some pair.2 else none) =
        a.valueAs? (role name) := by
    intro a
    refine Option.ext fun value => ?_
    simp only [Option.bind_eq_some_iff, Prod.exists, hf, Attribute.valueAs?]
    constructor
    · rintro ⟨found, value', ⟨hrole, rfl⟩, h⟩
      split at h
      · rename_i heq
        rw [if_pos (heq ▸ hrole), h]
      · cases h
    · intro h
      split at h
      · rename_i hrole
        exact ⟨name, value, ⟨hrole, Option.some.inj h⟩, if_pos rfl⟩
      · cases h
  rw [Dict.get?_insertAll, List.filterMap_filterMap, funext hvalue, lastValue]
  exact lastValue_orElse (role name) attributes

/-- **What the attributes of a tag ask for**, if it is one part among siblings at most. -/
theorem describes_described (h : tag.branches.length ≤ 1) : tag.described.Describes tag where
  name := rfl
  attrs := get?_insertAll_filterMap Attribute.plain? Role.plain (fun a name value => by
    unfold Attribute.plain?
    cases Role.ofKey a.key <;> simp) tag.attributes
  handlers := get?_insertAll_filterMap Attribute.handler? Role.handler (fun a name value => by
    unfold Attribute.handler?
    cases Role.ofKey a.key <;> simp) tag.attributes
  binds := get?_insertAll_filterMap Attribute.bind? Role.bind (fun a name value => by
    unfold Attribute.bind?
    cases Role.ofKey a.key <;> simp) tag.attributes
  reference := lastValue_orElse (.directive .ref) tag.attributes
  rawHtml := lastValue_orElse (.directive .html) tag.attributes
  loopClause := by
    show ((lastValue (.directive .loop) tag.attributes).map Iteration.normalize <|> none) = _
    simp
  switchTarget := lastValue_orElse (.directive .switch) tag.attributes
  isPointer := by
    have hkey : ∀ a : Attribute, a.valueFor? .pointer ≠ none ↔ a.key = "g-pointer" := by
      intro a
      rw [Attribute.valueFor?, Ne, ite_eq_right_iff, Classical.not_imp, Role.ofKey_eq_directive_iff]
      exact and_iff_left (Option.some_ne_none a.value)
    simp only [described, Descriptor.extended, Bool.or_false, lastFor, List.getLast?_isSome,
      ne_eq, List.filterMap_eq_nil_iff, not_forall, exists_prop]
    exact exists_congr fun a => and_congr_right fun _ => hkey a
  branch := by
    show (tag.branches.head?).toList = tag.branches
    cases hbranches : tag.branches with
    | nil => rfl
    | cons first more =>
        rw [hbranches, List.length_cons] at h
        rw [List.length_eq_zero_iff.mp (by omega : more.length = 0)]
        rfl

end Tag

/-! ### Two parts among siblings -/

/-- The keys that place an element among its siblings. -/
def placingKeys : List String := ["g-if", "g-else-if", "g-else", "g-case", "g-default"]

namespace Attribute

/-- The part that an attribute asks for is that of its key. -/
theorem key_of_branch? {a : Attribute} {branch : Branch} (h : a.branch? = some branch) :
    branch.directive.key = a.key := by
  rw [branch?] at h
  split at h
  case h_6 => cases h
  all_goals
    cases h
    exact (Role.ofKey_eq_directive_iff.mp ‹_›).symm

theorem mem_placingKeys_iff {a : Attribute} : a.key ∈ placingKeys ↔ a.branch?.isSome = true := by
  constructor
  · intro hmem
    have hdirective : ∃ d ∈ [Directive.ifCond, .elseIf, .otherwise, .case, .default],
        a.key = d.key := by
      simpa [placingKeys, Directive.key] using hmem
    obtain ⟨d, hd, hkey⟩ := hdirective
    rw [branch?, Role.ofKey_eq_directive_iff.mpr hkey]
    simp only [List.mem_cons, List.not_mem_nil, or_false] at hd
    rcases hd with rfl | rfl | rfl | rfl | rfl <;> rfl
  · intro hsome
    obtain ⟨branch, hbranch⟩ := Option.isSome_iff_exists.mp hsome
    rw [← key_of_branch? hbranch]
    cases branch <;> simp [placingKeys, Branch.directive, Directive.key]

theorem branch?_eq_none_iff {a : Attribute} : a.branch? = none ↔ a.key ∉ placingKeys := by
  rw [mem_placingKeys_iff, Option.not_isSome_iff_eq_none]

end Attribute

/-- The parts that attributes ask for are as many as the attributes that place an element. -/
theorem length_branchesOf (attributes : List Attribute) :
    (branchesOf attributes).length = (attributes.filter fun a => a.key ∈ placingKeys).length := by
  rw [branchesOf, List.length_filterMap_eq_countP, List.countP_eq_length_filter]
  congr 2
  funext a
  rw [Bool.eq_iff_iff, decide_eq_true_iff]
  exact Attribute.mem_placingKeys_iff.symm

namespace Tag

/-- Two attributes of the tag place an element, and these are the first that do: `before` stand
before `first`, and `between` stand between it and `second`. -/
structure Conflicts (tag : Tag) (before : List Attribute) (first : Attribute)
    (between : List Attribute) (second : Attribute) (after : List Attribute) : Prop where
  source : tag.attributes = before ++ first :: between ++ second :: after
  first_mem : first.key ∈ placingKeys
  second_mem : second.key ∈ placingKeys
  others : ∀ a ∈ before ++ between, a.key ∉ placingKeys

/-- Gathering attributes in two stretches. -/
theorem collect_append (d : Descriptor) (xs ys : List Attribute) :
    collect d (xs ++ ys) = collect d xs >>= fun d => collect d ys := by
  induction xs generalizing d with
  | nil => rw [List.nil_append, collect, pure_bind]
  | cons a rest ih =>
      rw [List.cons_append, collect, collect, bind_assoc]
      congr
      funext _
      cases d.add a with
      | ok d => exact ih d
      | error cause => rfl

/-- **A tag fails by the first two attributes that place an element**, and the attributes up to the
second have been reported then. -/
theorem descriptor_eq_of_conflict {tag : Tag} {before between after : List Attribute}
    {first second : Attribute} (h : tag.Conflicts before first between second after) (n : Nat) :
    ∃ d₁ d₂ : Directive, d₁.key = first.key ∧ d₂.key = second.key ∧
      tag.descriptor.run n =
        { result := .error { cause := .branchConflict tag.name d₁ d₂ }, next := n,
          observed := before ++ first :: between ++ [second] } := by
  obtain ⟨b₁, hb₁⟩ := Option.isSome_iff_exists.mp (Attribute.mem_placingKeys_iff.mp h.first_mem)
  obtain ⟨b₂, hb₂⟩ := Option.isSome_iff_exists.mp (Attribute.mem_placingKeys_iff.mp h.second_mem)
  have hothers : ∀ {attributes}, attributes ⊆ before ++ between → branchesOf attributes = [] := by
    intro attributes hsub
    exact List.filterMap_eq_nil_iff.mpr fun a ha =>
      Attribute.branch?_eq_none_iff.mpr (h.others a (hsub ha))
  have hone : branchesOf (before ++ first :: between) = [b₁] := by
    rw [branchesOf, List.filterMap_append, ← branchesOf, ← branchesOf, branchesOf_cons, hb₁,
      hothers (List.subset_append_left _ _), hothers (List.subset_append_right _ _)]
    rfl
  let d : Descriptor :=
    Descriptor.extended { tag := tag.name } (before ++ first :: between)
  have hd : d.branch = some b₁ := by
    show (branchesOf (before ++ first :: between)).head? = some b₁
    rw [hone]
    rfl
  have hbefore : (collect { tag := tag.name } (before ++ first :: between)).Returns n d n
      (before ++ first :: between) :=
    (collect_ends { tag := tag.name } (before ++ first :: between) n).returns (by simp [hone])
  have hsecond : collect d (second :: after) n =
      { result := .error { cause := .branchConflict tag.name b₁.directive b₂.directive }, next := n,
        observed := [second] } := by
    rw [collect, Descriptor.add_eq_conflict hd hb₂]
    rfl
  refine ⟨b₁.directive, b₂.directive, Attribute.key_of_branch? hb₁, Attribute.key_of_branch? hb₂,
    ?_⟩
  rw [descriptor, h.source, collect_append]
  exact (Pass.bind_apply_ok hbefore).trans (by rw [hsecond])

/-- A tag with two attributes that place an element has first ones. -/
theorem exists_conflicts {tag : Tag} (h : 2 ≤ tag.branches.length) :
    ∃ before first between second after, tag.Conflicts before first between second after := by
  match hbranches : tag.branches, h with
  | b₁ :: b₂ :: more, _ =>
      obtain ⟨before, first, rest, hsource, hbefore, hfirst, hrest⟩ :=
        List.filterMap_eq_cons_iff.mp hbranches
      obtain ⟨between, second, after, rfl, hbetween, hsecond, -⟩ :=
        List.filterMap_eq_cons_iff.mp hrest
      refine ⟨before, first, between, second, after, by simp [hsource],
        Attribute.mem_placingKeys_iff.mpr (by rw [hfirst]; rfl),
        Attribute.mem_placingKeys_iff.mpr (by rw [hsecond]; rfl), fun a ha => ?_⟩
      exact Attribute.branch?_eq_none_iff.mp ((List.mem_append.mp ha).elim (hbefore a) (hbetween a))

end Tag

/-! ### Attributes in another order -/

section Reordered

variable {tag : Tag} {attributes : List Attribute}

/-- One element at most has only one order. -/
theorem perm_eq_of_length_le_one {α : Type} {xs ys : List α} (h : xs.Perm ys)
    (hlength : xs.length ≤ 1) : xs = ys := by
  match xs, hlength with
  | [], _ => exact h.nil_eq
  | [x], _ => exact List.singleton_perm.mp h

/-- The last value of a class is the only one where no class occurs twice. -/
theorem lastValue_perm (h : tag.attributes.Perm attributes)
    (hroles : (tag.attributes.map fun a => Role.ofKey a.key).Nodup) (role : Role) :
    lastValue role tag.attributes = lastValue role attributes := by
  have hcount := List.nodup_iff_count_le_one.mp hroles role
  rw [List.count, List.countP_map] at hcount
  have hlength : (tag.attributes.filterMap (Attribute.valueAs? role)).length ≤ 1 := by
    rw [List.length_filterMap_eq_countP]
    refine le_trans (le_of_eq (congrArg (List.countP · tag.attributes) ?_)) hcount
    funext a
    rw [Attribute.valueAs?, Function.comp_apply]
    split <;> simp_all
  rw [lastValue, lastValue, perm_eq_of_length_le_one (h.filterMap _) hlength]

theorem branchesOf_perm (h : tag.attributes.Perm attributes) (hone : tag.branches.length ≤ 1) :
    tag.branches = branchesOf attributes :=
  perm_eq_of_length_le_one (h.filterMap _) hone

/-- **The order of attributes of different classes does not matter to what they ask for.** -/
theorem Tag.descriptor_perm {n next : Nat} {d : Descriptor} {seen : List Attribute}
    (h : tag.attributes.Perm attributes)
    (hroles : (tag.attributes.map fun a => Role.ofKey a.key).Nodup)
    (hd : tag.descriptor.Returns n d next seen) :
    next = n ∧ seen = tag.attributes ∧
      ({ tag with attributes } : Tag).descriptor.Returns n d n attributes := by
  have hone : tag.branches.length ≤ 1 := (tag.descriptor_ends n).result_iff.mp ⟨d, hd.result⟩
  obtain ⟨rfl, hnext, rfl⟩ := hd.unique ((tag.descriptor_ends n).returns hone)
  have hone' : ({ tag with attributes } : Tag).branches.length ≤ 1 := by
    rwa [branches, ← branchesOf_perm h hone]
  have hdescribes := tag.describes_described hone
  have hsame : tag.described.Describes { tag with attributes } :=
    { name := hdescribes.name
      attrs := fun name => by rw [hdescribes.attrs, lastValue_perm h hroles]
      handlers := fun event => by rw [hdescribes.handlers, lastValue_perm h hroles]
      binds := fun target => by rw [hdescribes.binds, lastValue_perm h hroles]
      reference := by rw [hdescribes.reference, lastValue_perm h hroles]
      rawHtml := by rw [hdescribes.rawHtml, lastValue_perm h hroles]
      loopClause := by rw [hdescribes.loopClause, lastValue_perm h hroles]
      switchTarget := by rw [hdescribes.switchTarget, lastValue_perm h hroles]
      isPointer := hdescribes.isPointer.trans (exists_congr fun a => and_congr_left' h.mem_iff)
      branch := hdescribes.branch.trans (branchesOf_perm h hone) }
  refine ⟨hnext, rfl, ?_⟩
  rw [hsame.unique (describes_described hone')]
  exact (descriptor_ends { tag with attributes } n).returns hone'

/-- **Nor does it matter to the code of an ordinary element.** -/
theorem Node.lower_perm (rt : Runtime) {children : List Node}
    (hkind : ElementKind.ofName tag.name = .ordinary) (h : tag.attributes.Perm attributes)
    (hroles : (tag.attributes.map fun a => Role.ofKey a.key).Nodup) {n next : Nat} {f : Fragment}
    {seen : List Attribute} (hf : ((element tag children).lower rt).Returns n f next seen) :
    ∃ below, seen = tag.attributes ++ below ∧
      ((element { tag with attributes } children).lower rt).Returns n f next
        (attributes ++ below) := by
  have hkind' : ElementKind.ofName ({ tag with attributes } : Tag).name = .ordinary := hkind
  rw [lower, hkind] at hf
  rw [lower, hkind']
  obtain ⟨g, k, first, more, hg, hlooped, rfl⟩ := hf.of_bind
  rw [Element.lower, Pass.within, Pass.returns_located_iff] at hg
  obtain ⟨d, m, own, inner, hd, hrest, rfl⟩ := hg.of_bind
  obtain ⟨rfl, rfl, hd'⟩ := Tag.descriptor_perm h hroles hd
  refine ⟨inner ++ more, List.append_assoc .., ?_⟩
  rw [← List.append_assoc]
  refine Pass.Returns.bind ?_ hlooped
  rw [Element.lower, Pass.within, Pass.returns_located_iff]
  exact hd'.bind hrest

end Reordered

theorem ElementKind.ofName_eq_ordinary_iff {name : String} :
    ofName name = .ordinary ↔ name ∉ ["e", "g-slot", "g-body", "g-switch"] := by
  unfold ofName
  split <;> simp_all

/-- **What the attributes of a tag amount to.** A tag fails when two of its attributes place an
element, by the first two of them, and then it has reported the attributes up to the second.
Otherwise its descriptor holds the last value of each class, where the class of an attribute is
known by the spelling of its key. Attributes of different classes may stand in any order: the
descriptor is the same, and so is what an ordinary element is lowered to. -/
theorem attributes_classified (tag : Tag) (n : Nat) :
    (∀ key role, Role.ofKey key = role ↔ role.IsSpelled key) ∧
    ((∃ e, (tag.descriptor.run n).result = .error e) ↔
      2 ≤ (tag.attributes.filter fun a => a.key ∈ placingKeys).length) ∧
    (∀ e, (tag.descriptor.run n).result = .error e →
      ∃ before first between second after,
        tag.Conflicts before first between second after ∧
        tag.descriptor.run n =
          { result := .error e, next := n, observed := before ++ first :: between ++ [second] } ∧
        e.code.name = "HTMLC-DIRECTIVE-CONFLICT" ∧
        e.message = "`" ++ second.key ++ "` cannot be combined with `" ++ first.key ++ "` on <" ++
          tag.name ++ ">") ∧
    (∀ d, (tag.descriptor.run n).result = .ok d →
      tag.descriptor.Returns n d n tag.attributes ∧ d.Describes tag) ∧
    ∀ attributes, tag.attributes.Perm attributes →
      (tag.attributes.map fun a => Role.ofKey a.key).Nodup →
      (∀ d, (tag.descriptor.run n).result = .ok d →
        ({ tag with attributes } : Tag).descriptor.Returns n d n attributes) ∧
      (tag.name ∉ ["e", "g-slot", "g-body", "g-switch"] →
        ∀ rt children f next seen,
          ((Node.element tag children).lower rt).Returns n f next seen →
            ∃ below, seen = tag.attributes ++ below ∧
              ((Node.element { tag with attributes } children).lower rt).Returns n f next
                (attributes ++ below)) := by
  have hends := tag.descriptor_ends n
  have hcount : ¬ tag.branches.length ≤ 1 ↔
      2 ≤ (tag.attributes.filter fun a => a.key ∈ placingKeys).length := by
    rw [Tag.branches, length_branchesOf]
    omega
  refine ⟨fun _ _ => Role.ofKey_eq_iff, ?_, fun e he => ?_, fun d hd => ?_,
    fun attributes hperm hroles => ⟨fun d hd => ?_, fun hname rt children f next seen hf => ?_⟩⟩
  · rw [← hcount, ← hends.result_iff]
    cases (tag.descriptor.run n).result <;> simp
  · have hnot : ¬ tag.branches.length ≤ 1 := by
      rw [← hends.result_iff, he]
      rintro ⟨d, hd⟩
      cases hd
    obtain ⟨before, first, between, second, after, hconflicts⟩ :=
      Tag.exists_conflicts (by omega : 2 ≤ tag.branches.length)
    obtain ⟨d₁, d₂, hfirst, hsecond, hrun⟩ := Tag.descriptor_eq_of_conflict hconflicts n
    rw [hrun] at he
    obtain rfl := Except.error.inj he
    refine ⟨before, first, between, second, after, hconflicts, hrun, rfl, ?_⟩
    rw [← hfirst, ← hsecond]
    rfl
  · obtain ⟨hone, rfl, -⟩ := hends.of_ok hd
    exact ⟨hends.returns hone, tag.describes_described hone⟩
  · exact (Tag.descriptor_perm hperm hroles (Pass.returns_of_result hd)).2.2
  · exact Node.lower_perm rt (ElementKind.ofName_eq_ordinary_iff.mpr hname) hperm hroles hf

/-- An input with two handlers for one event, spelled in both ways. -/
def inputTag : Tag where
  name := "input"
  attributes := [⟨"@input", "go()"⟩, ⟨"g-for", "items"⟩, ⟨"g-on:input", "stop()"⟩]

/-- A paragraph that is placed twice. -/
def paragraphTag : Tag where
  name := "p"
  attributes := [⟨"id", "a"⟩, ⟨"g-if", "x"⟩, ⟨":title", "t"⟩, ⟨"g-if", "y"⟩, ⟨"g-else", ""⟩]

/-- A link with attributes of four classes. -/
def linkTag : Tag where
  name := "a"
  attributes := [⟨"href", "/"⟩, ⟨"@click", "go()"⟩, ⟨":href", "c.Link"⟩, ⟨"g-case", "1"⟩]

/-- The last handler counts; of three parts the first two are at fault; and a link has the same code
with its attributes the other way round. -/
theorem attributes_classified_of_tags :
    inputTag.described.handlers.get? "input" = lastValue (.handler "input") inputTag.attributes ∧
    lastValue (.handler "input") inputTag.attributes = some "stop()" ∧
    (∃ before first between second after,
      paragraphTag.Conflicts before first between second after ∧
      (paragraphTag.descriptor.run 3).observed = before ++ first :: between ++ [second] ∧
      (paragraphTag.descriptor.run 3).observed = paragraphTag.attributes.take 4 ∧
      "`g-if` cannot be combined with `g-if` on <p>" =
        "`" ++ second.key ++ "` cannot be combined with `" ++ first.key ++ "` on <" ++
          paragraphTag.name ++ ">") ∧
    ∃ f, ((Node.element linkTag []).lower ⟨"g"⟩).Returns 3 f 3 linkTag.attributes ∧
      ((Node.element { linkTag with attributes := linkTag.attributes.reverse } []).lower
        ⟨"g"⟩).Returns 3 f 3 linkTag.attributes.reverse := by
  refine ⟨?_, by decide +kernel, ?_, ?_⟩
  · obtain ⟨-, -, -, hok, -⟩ := attributes_classified inputTag 3
    obtain ⟨-, hdescribes⟩ := hok inputTag.described (by decide +kernel)
    exact hdescribes.handlers "input"
  · have he : (paragraphTag.descriptor.run 3).result =
        .error { cause := .branchConflict "p" .ifCond .ifCond } := by decide +kernel
    obtain ⟨-, -, herror, -⟩ := attributes_classified paragraphTag 3
    obtain ⟨before, first, between, second, after, hconflicts, hrun, -, hmessage⟩ := herror _ he
    have htext : Diagnostic.message { cause := .branchConflict "p" .ifCond .ifCond } =
        "`g-if` cannot be combined with `g-if` on <p>" := by decide +kernel
    exact ⟨before, first, between, second, after, hconflicts, by rw [hrun], by decide +kernel,
      htext.symm.trans hmessage⟩
  · obtain ⟨-, -, -, -, hperm⟩ := attributes_classified linkTag 3
    obtain ⟨-, helement⟩ := hperm linkTag.attributes.reverse (List.reverse_perm _).symm
      (by decide +kernel)
    have hlink : ((Node.element linkTag []).lower ⟨"g"⟩).Returns 3 _ 3 linkTag.attributes := rfl
    obtain ⟨below, hseen, hreturns⟩ := helement (by decide) ⟨"g"⟩ [] _ 3 _ hlink
    obtain rfl : below = [] := List.self_eq_append_right.mp hseen
    exact ⟨_, hlink, by rwa [List.append_nil] at hreturns⟩

end Stencil
