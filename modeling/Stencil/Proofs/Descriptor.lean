import Stencil.Lowering.Tag
import Stencil.Proofs.Pass
import Mathlib.Data.List.Basic

/-!
# What the attributes of a tag amount to

The descriptor of a tag is built attribute by attribute. Here it is said at once, field by
field: a map holds what is left of the pairs meant for it when later ones replace earlier ones,
an optional field is the last value given for it, and the part of the element among its
siblings is the first one asked for.

## Main results

* `collect_ends`: the attributes can be gathered exactly when at most one of them is a part
  among siblings, counted by occurrence; the outcome is `Descriptor.extended`.
* `descriptor_ends`, `strictDescriptor_ends`, `require_ends`: the same for the passes that look
  at an opening tag. None of them takes a loop number.
-/

namespace Stencil

/-! ### What one attribute asks for -/

namespace Attribute

/-- The part among its siblings that the attribute gives an element. -/
def branch? (a : Attribute) : Option Branch :=
  match Role.ofKey a.key with
  | .directive .ifCond => some (.ifCond a.value)
  | .directive .elseIf => some (.elseIf a.value)
  | .directive .otherwise => some .otherwise
  | .directive .case => some (.case a.value)
  | .directive .default => some .default
  | _ => none

/-- The entry of a plain attribute. -/
def plain? (a : Attribute) : Option (String × String) :=
  match Role.ofKey a.key with
  | .plain key => some (key, a.value)
  | _ => none

/-- The entry of an event handler. -/
def handler? (a : Attribute) : Option (String × String) :=
  match Role.ofKey a.key with
  | .handler event => some (event, a.value)
  | _ => none

/-- The entry of a bound attribute. -/
def bind? (a : Attribute) : Option (String × String) :=
  match Role.ofKey a.key with
  | .bind target => some (target, a.value)
  | _ => none

/-- The value that the attribute gives a directive. -/
def valueFor? (directive : Directive) (a : Attribute) : Option String :=
  if Role.ofKey a.key = .directive directive then some a.value else none

end Attribute

/-- The dictionary with the given pairs put in one after the other. -/
def Dict.insertAll (d : Dict) (pairs : List (String × String)) : Dict :=
  pairs.foldl (fun d pair => d.insert pair.1 pair.2) d

/-- The last value that the attributes give a directive. -/
def lastFor (directive : Directive) (attributes : List Attribute) : Option String :=
  (attributes.filterMap (Attribute.valueFor? directive)).getLast?

/-- The parts among siblings that the attributes ask for, in source order. -/
def branchesOf (attributes : List Attribute) : List Branch :=
  attributes.filterMap Attribute.branch?

theorem lastFor_cons (directive : Directive) (a : Attribute) (rest : List Attribute) :
    lastFor directive (a :: rest) = (lastFor directive rest <|> a.valueFor? directive) := by
  unfold lastFor
  rw [List.filterMap_cons]
  cases a.valueFor? directive with
  | none => simp
  | some value =>
      rw [List.getLast?_cons]
      cases (rest.filterMap (Attribute.valueFor? directive)).getLast? <;> rfl

theorem branchesOf_cons (a : Attribute) (rest : List Attribute) :
    branchesOf (a :: rest) = a.branch?.toList ++ branchesOf rest := by
  rw [branchesOf, branchesOf, List.filterMap_cons]
  cases a.branch? <;> rfl

/-! ### What a list of attributes asks for -/

namespace Descriptor

/-- A descriptor with further attributes, of which at most one asks for a part among
siblings. -/
def extended (d : Descriptor) (attributes : List Attribute) : Descriptor where
  tag := d.tag
  attrs := d.attrs.insertAll (attributes.filterMap Attribute.plain?)
  handlers := d.handlers.insertAll (attributes.filterMap Attribute.handler?)
  binds := d.binds.insertAll (attributes.filterMap Attribute.bind?)
  reference := lastFor .ref attributes <|> d.reference
  rawHtml := lastFor .html attributes <|> d.rawHtml
  loopClause := (lastFor .loop attributes).map Iteration.normalize <|> d.loopClause
  branch := d.branch <|> (branchesOf attributes).head?
  switchTarget := lastFor .switch attributes <|> d.switchTarget
  isPointer := (lastFor .pointer attributes).isSome || d.isPointer

/-- Without attributes nothing changes. -/
theorem extended_nil (d : Descriptor) : d.extended [] = d := by
  cases d
  simp [extended, lastFor, branchesOf, Dict.insertAll]

/-- Attributes may be added one by one. -/
theorem extended_cons (d : Descriptor) (a : Attribute) (rest : List Attribute) :
    d.extended (a :: rest) = (d.extended [a]).extended rest := by
  have hlast : ∀ directive, lastFor directive [a] = a.valueFor? directive := by
    intro directive
    rw [lastFor_cons]
    simp [lastFor]
  have hall : ∀ (f : Attribute → Option (String × String)) (e : Dict),
      e.insertAll ((a :: rest).filterMap f) =
        (e.insertAll ([a].filterMap f)).insertAll (rest.filterMap f) := by
    intro f e
    rw [Dict.insertAll, Dict.insertAll, Dict.insertAll, ← List.foldl_append,
      ← List.filterMap_append]
    rfl
  have hor : ∀ x y z : Option String, ((x <|> y) <|> z) = (x <|> (y <|> z)) := by
    intro x y z
    cases x <;> rfl
  have hmap : ∀ x y : Option String, (x <|> y).map Iteration.normalize =
      (x.map Iteration.normalize <|> y.map Iteration.normalize) := by
    intro x y
    cases x <;> rfl
  have hbranch : (branchesOf (a :: rest)).head? =
      ((branchesOf [a]).head? <|> (branchesOf rest).head?) := by
    simp only [branchesOf, List.filterMap_cons, List.filterMap_nil]
    cases a.branch? <;> rfl
  simp only [extended, lastFor_cons _ a rest, hlast, hall, hor, hmap, hbranch]
  congr 1
  · cases d.branch <;> rfl
  · cases lastFor .pointer rest <;> simp

/-- An attribute can be added unless it is a second part among siblings. -/
theorem add_eq_ok {d : Descriptor} {a : Attribute} (h : d.branch = none ∨ a.branch? = none) :
    d.add a = .ok (d.extended [a]) := by
  have hone : ∀ {γ : Type} (f : Attribute → Option γ), [a].filterMap f = (f a).toList := by
    intro γ f
    rw [List.filterMap_cons]
    cases f a <;> rfl
  have hlast : ∀ directive, lastFor directive [a] = a.valueFor? directive := by
    intro directive
    rw [lastFor, hone]
    cases a.valueFor? directive <;> rfl
  rw [add, extended, branchesOf, hone, hone, hone, hone]
  simp only [hlast, Attribute.valueFor?, Attribute.plain?, Attribute.handler?, Attribute.bind?,
    Attribute.branch?] at h ⊢
  cases hrole : Role.ofKey a.key with
  | handler event => simp [Dict.insertAll]
  | bind target => simp [Dict.insertAll]
  | plain key => simp [Dict.insertAll]
  | directive directive =>
      rw [hrole] at h
      cases directive with
      | ref | html | loop | switch | pointer => simp [direct, Dict.insertAll]
      | ifCond | elseIf | otherwise | case | default =>
          have hnone : d.branch = none := by simpa using h
          simp [direct, setBranch, hnone, Dict.insertAll]

/-- An attribute that can be added leaves the part that it asks for, or the one that was there. -/
theorem toList_branch_extended {d : Descriptor} {a : Attribute}
    (h : d.branch = none ∨ a.branch? = none) :
    (d.extended [a]).branch.toList = d.branch.toList ++ a.branch?.toList := by
  rw [extended, branchesOf_cons]
  rcases h with h | h
  · rw [h]
    cases a.branch? <;> rfl
  · rw [h]
    cases d.branch <;> rfl

/-- A second part among siblings cannot be added. -/
theorem add_eq_error {d : Descriptor} {a : Attribute} (hd : d.branch ≠ none)
    (ha : a.branch? ≠ none) : ∃ cause, d.add a = .error cause := by
  obtain ⟨first, hfirst⟩ := Option.ne_none_iff_exists'.mp hd
  unfold Attribute.branch? at ha
  unfold add
  split at ha
  case h_6 => exact absurd rfl ha
  all_goals
    rename_i hrole
    rw [hrole]
    simp [direct, setBranch, hfirst]

end Descriptor

/-! ### The passes over an opening tag -/

namespace Tag

/-- The parts among its siblings that a tag asks for, in source order. -/
def branches (tag : Tag) : List Branch := branchesOf tag.attributes

/-- What the attributes of a tag ask for. -/
def described (tag : Tag) : Descriptor :=
  Descriptor.extended { tag := tag.name } tag.attributes

/-- A tag of a component takes all its attributes. -/
def Takes (tag : Tag) (controlFlow : Bool) : Prop :=
  ∀ a ∈ tag.attributes, accepts controlFlow a = true

instance (tag : Tag) (controlFlow : Bool) : Decidable (tag.Takes controlFlow) :=
  inferInstanceAs (Decidable (∀ a ∈ tag.attributes, accepts controlFlow a = true))

/-- Gathering attributes returns when at most one of them, what is there already included, is
a part among siblings. Every attribute is reported before it is looked at. -/
theorem collect_ends (d : Descriptor) (attributes : List Attribute) (n : Nat) :
    (collect d attributes).Ends n ((d.branch.toList ++ branchesOf attributes).length ≤ 1)
      (d.extended attributes) 0 attributes := by
  induction attributes generalizing d with
  | nil =>
      refine (Pass.ends_pure d n).congr ⟨fun _ => trivial, fun _ => ?_⟩
        (fun _ => d.extended_nil.symm) rfl
      cases d.branch <;> simp [branchesOf]
  | cons a rest ih =>
      have hseen := Pass.returns_observe a n
      rw [collect]
      by_cases h : d.branch = none ∨ a.branch? = none
      · rw [Descriptor.add_eq_ok h]
        have hrest := ih (d.extended [a])
        rw [Descriptor.toList_branch_extended h, List.append_assoc, ← branchesOf_cons,
          ← Descriptor.extended_cons] at hrest
        exact ⟨fun hok => hseen.bind (hrest.returns hok),
          fun hok => hseen.bind_fails (hrest.fails hok)⟩
      · obtain ⟨hd, ha⟩ := not_or.mp h
        obtain ⟨cause, hcause⟩ := Descriptor.add_eq_error hd ha
        obtain ⟨first, hfirst⟩ := Option.ne_none_iff_exists'.mp hd
        obtain ⟨second, hsecond⟩ := Option.ne_none_iff_exists'.mp ha
        rw [hcause]
        refine ⟨fun hok => absurd hok ?_, fun _ => hseen.bind_fails (Pass.fails_fail _ n rest)⟩
        rw [branchesOf_cons, hfirst, hsecond]
        simp

/-- The descriptor of a tag is there when at most one of its attributes is a part among
siblings. -/
theorem descriptor_ends (tag : Tag) (n : Nat) :
    tag.descriptor.Ends n (tag.branches.length ≤ 1) tag.described 0 tag.attributes :=
  collect_ends { tag := tag.name } tag.attributes n

/-- The descriptor of a tag of a component is there when the tag also takes all its
attributes. -/
theorem strictDescriptor_ends (tag : Tag) (controlFlow : Bool) (n : Nat) :
    (tag.strictDescriptor controlFlow).Ends n
      (tag.branches.length ≤ 1 ∧ tag.Takes controlFlow) tag.described 0 tag.attributes := by
  rw [← List.append_nil tag.attributes]
  refine Pass.Ends.within _ ?_
  refine Pass.Ends.congr (Pass.Ends.check (t := 0) (q := tag.Takes controlFlow)
    (b := tag.described) (tag.descriptor_ends n) fun _ => ?_) Iff.rfl (fun _ => rfl) (by simp)
  cases hfind : tag.attributes.find? fun a => !accepts controlFlow a with
  | some a =>
      have hmem := List.mem_of_find?_eq_some hfind
      have hnot : accepts controlFlow a = false := by simpa using List.find?_some hfind
      refine ⟨fun htakes => ?_, fun _ => Pass.fails_fail _ n []⟩
      rw [htakes a hmem] at hnot
      cases hnot
  | none =>
      have htakes : tag.Takes controlFlow := by
        intro a ha
        simpa using List.find?_eq_none.mp hfind a ha
      exact ⟨fun _ => Pass.returns_pure _ n, fun hnot => absurd htakes hnot⟩

/-- An attribute that a tag must have is there when it has a value. -/
theorem require_ends (tag : Tag) (key : String) (n : Nat) :
    (tag.require key).Ends n ((tag.attr? key).isSome) ((tag.attr? key).getD "") 0 [] := by
  rw [require]
  cases tag.attr? key with
  | some value => exact ⟨fun _ => Pass.returns_pure value n, fun h => absurd rfl h⟩
  | none => exact ⟨fun h => absurd h (by simp), fun _ => Pass.fails_fail _ n []⟩

end Tag

end Stencil
