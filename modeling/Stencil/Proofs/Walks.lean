import Stencil.Proofs.Rendering

/-!
# Walks over children

Siblings, the arms of a switch and the parts of a component are lowered by three recursions that
look alike: lower the next child, then take the result into a state, which may fail. Here each of
them is brought into the form of `Pass.gather`, with the step on the state as a function of its
own, and what a list of steps comes to is said at once.

## Main results

* `lowerSiblings_eq_gather`, `lowerArms_eq_gather`, `lowerParts_eq_gather`: the three walks.
* `Siblings.foldlM_push_ok_iff`, `Arms.foldlM_take_eq_ok`, `Parts.foldlM_take_eq_ok`: when the
  results can be taken in, and the state that they leave.
-/

namespace Stencil

/-! ### Dictionaries that are filled without replacing -/

namespace Dict

/-- None of the keys is in the dictionary, and none stands twice. -/
def Fresh (d : Dict) (keys : List String) : Prop :=
  keys.Nodup ∧ ∀ key ∈ keys, d.contains key = false

theorem any_insertEntry (key value other : String) (entries : List (String × String)) :
    (insertEntry key value entries).any (fun entry => entry.1 == other) =
      (key == other || entries.any fun entry => entry.1 == other) := by
  induction entries with
  | nil => simp [insertEntry]
  | cons entry rest ih =>
      rw [insertEntry]
      split
      · rfl
      · split
        · rename_i heq
          simp [← heq]
        · rw [List.any_cons, ih, List.any_cons, Bool.or_left_comm]

/-- A key is in the dictionary after an insertion if it is the new one or was there before. -/
@[simp] theorem contains_insert (d : Dict) (key value other : String) :
    (d.insert key value).contains other = (key == other || d.contains other) :=
  any_insertEntry key value other d.entries

theorem fresh_nil (d : Dict) : d.Fresh [] := ⟨List.nodup_nil, by simp⟩

/-- Fresh keys may be put in one after the other. -/
theorem fresh_cons {d : Dict} {key : String} (value : String) {keys : List String} :
    d.Fresh (key :: keys) ↔ d.contains key = false ∧ (d.insert key value).Fresh keys := by
  simp only [Fresh, List.nodup_cons, List.mem_cons, forall_eq_or_imp, contains_insert,
    Bool.or_eq_false_iff, beq_eq_false_iff_ne]
  constructor
  · rintro ⟨⟨hkey, hnodup⟩, hnew, hrest⟩
    exact ⟨hnew, hnodup, fun other h => ⟨fun heq => hkey (heq ▸ h), hrest other h⟩⟩
  · rintro ⟨hnew, hnodup, hrest⟩
    exact ⟨⟨fun h => (hrest key h).1 rfl, hnodup⟩, hnew, fun other h => (hrest other h).2⟩

/-- Nothing is in the empty dictionary. -/
theorem fresh_empty {keys : List String} : empty.Fresh keys ↔ keys.Nodup :=
  ⟨fun h => h.1, fun h => ⟨h, fun _ _ => rfl⟩⟩

end Dict

/-! ### Siblings -/

/-- Siblings are lowered one after the other, and each is pushed onto what is done. -/
theorem lowerSiblings_eq_gather (rt : Runtime) (here : Place) (i : Nat) (done : Siblings)
    (nodes : List Node) :
    lowerSiblings rt done nodes =
      Pass.gather (fun x : Place × Node => x.2.lower rt) Siblings.push done
        (withPlaces here i nodes) := by
  induction nodes generalizing done i with
  | nil => rw [lowerSiblings, withPlaces, Pass.gather]
  | cons node rest ih =>
      rw [lowerSiblings, withPlaces, Pass.gather]
      simp only [ih (i + 1)]

namespace Siblings

/-- Siblings that are taken in leave the sequence of their items. -/
theorem finish_of_foldlM_push {fs : List Fragment} {t : Siblings}
    (h : fs.foldlM push {} = .ok t) : t.finish = .ofFragments fs := by
  have hshown : ∀ f ∈ fs.filter Fragment.isShown, f.isShown = true :=
    fun f hf => (List.mem_filter.mp hf).2
  obtain ⟨hcovers, hnot⟩ := finish_foldlM_push hshown {}
  rw [foldlM_push_filter, h] at hcovers hnot
  by_cases hc : Item.Covers (fs.filter Fragment.isShown)
  · exact Except.ok.inj (hcovers hc)
  · obtain ⟨d, hd⟩ := hnot hc
    cases hd

/-- **Siblings can be taken in exactly when those with code are well placed.** -/
theorem foldlM_push_ok_iff {fs : List Fragment} :
    (∃ t, fs.foldlM push {} = .ok t) ↔
      Placed false ((fs.filter Fragment.isShown).map Fragment.branch?) := by
  rw [← foldlM_push_filter]
  exact foldlM_push_iff (fun f hf => (List.mem_filter.mp hf).2) {}

/-- Siblings can be taken in exactly when their items make up all that have code. -/
theorem foldlM_push_ok_iff_covers {fs : List Fragment} :
    (∃ t, fs.foldlM push {} = .ok t) ↔ Item.Covers (fs.filter Fragment.isShown) := by
  have hshown : ∀ f ∈ fs.filter Fragment.isShown, f.isShown = true :=
    fun f hf => (List.mem_filter.mp hf).2
  obtain ⟨hcovers, hnot⟩ := finish_foldlM_push hshown {}
  rw [foldlM_push_filter] at hcovers hnot
  constructor
  · rintro ⟨t, ht⟩
    by_contra hc
    obtain ⟨d, hd⟩ := hnot hc
    rw [ht] at hd
    cases hd
  · intro hc
    have heq := hcovers hc
    cases hfold : fs.foldlM push {} with
    | ok t => exact ⟨t, rfl⟩
    | error d =>
        rw [hfold] at heq
        cases heq

end Siblings

/-! ### Arms of a switch -/

namespace Arms

/-- Takes in a child of a switch with its code. -/
def take (arms : Arms) (child : Node × Fragment) : Except Diagnostic Arms :=
  match child.1 with
  | .comment _ => .ok arms
  | .text value =>
      if Text.isBlank value then .ok arms
      else .error { cause := .textInSwitch (Text.trim value) }
  | .element tag _ =>
      match child.2.branch? with
      | some (.case value) =>
          .ok { arms with code := arms.code ++ Runtime.caseArm value child.2.code }
      | some .default =>
          if arms.hasDefault then
            .error { cause := .repeatedDefault, context := some tag.describe }
          else
            .ok { code := arms.code ++ Runtime.defaultArm child.2.code, hasDefault := true }
      | _ => .error { cause := .notAnArm, context := some tag.describe }

end Arms

/-- Lowers a child of a switch and keeps the child beside its code. -/
def Node.lowerBeside (rt : Runtime) (node : Node) : Lowering (Node × Fragment) :=
  Prod.mk node <$> node.lower rt

theorem Arms.add_eq (rt : Runtime) (arms : Arms) (node : Node) :
    arms.add (node.lower rt) node =
      node.lowerBeside rt >>= fun child => Pass.ofExcept (arms.take child) := by
  rw [Node.lowerBeside, map_eq_pure_bind, bind_assoc]
  simp only [pure_bind]
  cases node with
  | text value =>
      rw [Node.lower, pure_bind]
      simp only [add, take]
      split <;> rfl
  | comment value =>
      rw [Node.lower, pure_bind]
      rfl
  | element tag children =>
      show arms.addElement tag _ = _
      rw [addElement]
      congr 1
      funext fragment
      simp only [take]
      cases fragment.branch? with
      | none => rfl
      | some branch =>
          cases branch with
          | ifCond _ | elseIf _ | otherwise | case _ => rfl
          | default => cases arms.hasDefault <;> rfl

/-- The arms of a switch are lowered one after the other, and each is taken in. -/
theorem lowerArms_eq_gather (rt : Runtime) (here : Place) (i : Nat) (done : Arms)
    (nodes : List Node) :
    lowerArms rt done nodes =
      Pass.gather (fun x : Place × Node => x.2.lowerBeside rt) Arms.take done
        (withPlaces here i nodes) := by
  induction nodes generalizing done i with
  | nil => rw [lowerArms, withPlaces, Pass.gather]
  | cons node rest ih =>
      rw [lowerArms, withPlaces, Pass.gather, Arms.add_eq, bind_assoc]
      simp only [ih (i + 1)]

namespace Arms

/-- One child of a switch is taken in when it fits there and is no second arm for all other
values. -/
theorem take_eq_ok {arms t : Arms} {child : Node × Fragment}
    (hbranch : child.2.branch? = child.1.branch?) :
    arms.take child = .ok t ↔
      child.1.fitsSwitch = true ∧ (arms.hasDefault && child.1.isDefault) = false ∧
        t = { code := arms.code ++ child.2.arm
              hasDefault := arms.hasDefault || child.1.isDefault } := by
  obtain ⟨node, fragment⟩ := child
  obtain ⟨code, hasDefault⟩ := arms
  rw [eq_comm (a := t)]
  cases node with
  | text value =>
      have hnone : fragment.branch? = none := hbranch
      simp only [take, Node.fitsSwitch, Node.isDefault, Node.branch?, Fragment.arm, hnone]
      cases Text.isBlank value <;> simp
  | comment value =>
      have hnone : fragment.branch? = none := hbranch
      simp [take, Node.fitsSwitch, Node.isDefault, Node.branch?, Fragment.arm, hnone]
  | element tag children =>
      have hhead : tag.branches.head? = fragment.branch? := hbranch.symm
      simp only [take, Node.fitsSwitch, Node.isDefault, Node.branch?, Fragment.arm, hhead]
      cases fragment.branch? with
      | none => simp
      | some branch =>
          cases branch with
          | ifCond _ | elseIf _ | otherwise => simp [Branch.isArm]
          | case value =>
              have hdefault : (some (Branch.case value) == some Branch.default) = false := rfl
              simp [Branch.isArm, hdefault]
          | default => cases hasDefault <;> simp [Branch.isArm]

/-- **The arms that can be taken in**: every child fits, and at most one is for all other
values, what is there already included. Their code is then written in order. -/
theorem foldlM_take_eq_ok {children : List (Node × Fragment)} {arms t : Arms}
    (hbranch : ∀ child ∈ children, child.2.branch? = child.1.branch?) :
    children.foldlM take arms = .ok t ↔
      (∀ child ∈ children, child.1.fitsSwitch = true) ∧
        arms.hasDefault.toNat + children.countP (·.1.isDefault) ≤ 1 ∧
        t = { code := arms.code ++ String.join (children.map (·.2.arm))
              hasDefault := arms.hasDefault || children.any (·.1.isDefault) } := by
  induction children generalizing arms with
  | nil =>
      have hle : arms.hasDefault.toNat ≤ 1 := Bool.toNat_le arms.hasDefault
      rw [eq_comm (a := t)]
      simp [pure, Except.pure, hle]
  | cons child rest ih =>
      have hrest : ∀ other ∈ rest, other.2.branch? = other.1.branch? :=
        fun other hother => hbranch other (List.mem_cons_of_mem child hother)
      have hchild := hbranch child List.mem_cons_self
      rw [Pass.foldlM_cons_eq_ok, List.forall_mem_cons]
      simp only [take_eq_ok hchild, ih hrest]
      have hcount : ((arms.hasDefault && child.1.isDefault) = false ∧
          (arms.hasDefault || child.1.isDefault).toNat + rest.countP (·.1.isDefault) ≤ 1) ↔
          arms.hasDefault.toNat + (child :: rest).countP (·.1.isDefault) ≤ 1 := by
        rw [List.countP_cons]
        cases arms.hasDefault <;> cases child.1.isDefault <;> simp [Nat.add_comm 1]
      have hlast : ({ code := arms.code ++ child.2.arm ++ String.join (rest.map (·.2.arm))
                      hasDefault := arms.hasDefault || child.1.isDefault ||
                        rest.any (·.1.isDefault) } : Arms) =
          { code := arms.code ++ String.join ((child :: rest).map (·.2.arm))
            hasDefault := arms.hasDefault || (child :: rest).any (·.1.isDefault) } := by
        rw [List.map_cons, String.join_cons, String.append_assoc, List.any_cons, Bool.or_assoc]
      rw [← hcount, ← hlast]
      constructor
      · rintro ⟨s, ⟨hfits, hone, rfl⟩, hall, htwo, rfl⟩
        exact ⟨⟨hfits, hall⟩, ⟨hone, htwo⟩, rfl⟩
      · rintro ⟨⟨hfits, hall⟩, ⟨hone, htwo⟩, rfl⟩
        exact ⟨_, ⟨hfits, hone, rfl⟩, hall, htwo, rfl⟩

end Arms

/-! ### Parts of a component -/

namespace Parts

/-- Takes in what a child of a component contributes. -/
def take (parts : Parts) : Contribution → Except Diagnostic Parts
  | .template name closure =>
      if parts.templates.contains name then .error { cause := .repeatedTemplate name }
      else .ok { parts with templates := parts.templates.insert name closure }
  | .slot name tag fragment =>
      if fragment.branch?.isSome then
        .error { cause := .branchInSlot name, context := some tag.describe }
      else if parts.slots.contains name then .error { cause := .repeatedSlot name }
      else .ok { parts with slots := parts.slots.insert name fragment.code }
  | .body fragment => (parts.body.push fragment).map fun body => { parts with body }

end Parts

/-- Lowers a child of a component to what it contributes. -/
def Node.contribute (rt : Runtime) (node : Node) : Lowering Contribution :=
  match node with
  | .element tag _ =>
      if tag.name = "template" then do
        let _ ← tag.strictDescriptor false
        let name ← tag.require "name"
        let contents ← node.lowerContents rt
        return .template name (Runtime.template ((tag.attr? "types").getD "") contents.code)
      else
        match tag.attr? "slot" with
        | some slot => .slot slot tag <$> node.lower rt
        | none => .body <$> node.lower rt
  | .text _ | .comment _ => .body <$> node.lower rt

theorem Parts.addBody_eq (parts : Parts) (whole : Lowering Fragment) :
    parts.addBody whole =
      (Contribution.body <$> whole) >>= fun c => Pass.ofExcept (parts.take c) := by
  rw [addBody, map_eq_pure_bind, bind_assoc]
  simp only [pure_bind]
  congr 1
  funext fragment
  rw [take]
  cases parts.body.push fragment <;> rfl

theorem Parts.addSlot_eq (parts : Parts) (tag : Tag) (slot : String)
    (whole : Lowering Fragment) :
    parts.addSlot tag slot whole =
      (Contribution.slot slot tag <$> whole) >>= fun c => Pass.ofExcept (parts.take c) := by
  rw [addSlot, map_eq_pure_bind, bind_assoc]
  simp only [pure_bind]
  congr 1
  funext fragment
  rw [take]
  split
  · rfl
  · split <;> rfl

theorem Parts.add_eq (rt : Runtime) (parts : Parts) (node : Node) :
    parts.add (node.lower rt) (node.lowerContents rt) node =
      node.contribute rt >>= fun c => Pass.ofExcept (parts.take c) := by
  cases node with
  | text value => exact parts.addBody_eq _
  | comment value => exact parts.addBody_eq _
  | element tag children =>
      simp only [add, Node.contribute]
      split
      · rw [addTemplate]
        simp only [bind_assoc, pure_bind]
        congr 1
        funext d
        congr 1
        funext name
        congr 1
        funext contents
        rw [take]
        split <;> rfl
      · cases tag.attr? "slot" with
        | some slot => exact parts.addSlot_eq tag slot _
        | none => exact parts.addBody_eq _

/-- The children of a component are lowered one after the other, and each is taken in. -/
theorem lowerParts_eq_gather (rt : Runtime) (here : Place) (i : Nat) (done : Parts)
    (nodes : List Node) :
    lowerParts rt done nodes =
      Pass.gather (fun x : Place × Node => x.2.contribute rt) Parts.take done
        (withPlaces here i nodes) := by
  induction nodes generalizing done i with
  | nil => rw [lowerParts, withPlaces, Pass.gather]
  | cons node rest ih =>
      rw [lowerParts, withPlaces, Pass.gather, Parts.add_eq, bind_assoc]
      simp only [ih (i + 1)]

/-- A contribution that plays no part among siblings, unless it is for the body. -/
def Contribution.isSettled : Contribution → Bool
  | slot _ _ fragment => fragment.branch?.isNone
  | template .. | body _ => true

namespace Parts

/-- A template is taken in under a new name. -/
theorem take_template {parts s : Parts} {name closure : String} :
    parts.take (.template name closure) = .ok s ↔
      parts.templates.contains name = false ∧
        s = { parts with templates := parts.templates.insert name closure } := by
  rw [take]
  cases parts.templates.contains name <;> simp [eq_comm]

/-- The content of a slot is taken in under a new name, unless it plays a part among
siblings. -/
theorem take_slot {parts s : Parts} {name : String} {tag : Tag} {fragment : Fragment} :
    parts.take (.slot name tag fragment) = .ok s ↔
      fragment.branch? = none ∧ parts.slots.contains name = false ∧
        s = { parts with slots := parts.slots.insert name fragment.code } := by
  rw [take]
  cases fragment.branch? with
  | some branch => simp
  | none => cases parts.slots.contains name <;> simp [eq_comm]

/-- A sibling of the body is taken in as siblings are. -/
theorem take_body {parts s : Parts} {fragment : Fragment} :
    parts.take (.body fragment) = .ok s ↔
      parts.body.push fragment = .ok s.body ∧ s.slots = parts.slots ∧
        s.templates = parts.templates := by
  obtain ⟨body, slots, templates⟩ := s
  rw [take]
  cases parts.body.push fragment <;> simp [Except.map, eq_comm]

/-- **The parts that can be taken in**: the names of templates are fresh, the names of slots are
fresh, no content of a slot plays a part among siblings, and the body can be taken in as siblings
are. The three kinds do not get in each other's way. -/
theorem foldlM_take_eq_ok {contributions : List Contribution} {parts t : Parts} :
    contributions.foldlM take parts = .ok t ↔
      parts.templates.Fresh ((contributions.filterMap Contribution.template?).map Prod.fst) ∧
      parts.slots.Fresh ((contributions.filterMap Contribution.slot?).map Prod.fst) ∧
      (∀ c ∈ contributions, c.isSettled = true) ∧
      (contributions.filterMap Contribution.body?).foldlM Siblings.push parts.body =
        .ok t.body ∧
      t.slots = parts.slots.insertAll (contributions.filterMap Contribution.slot?) ∧
      t.templates = parts.templates.insertAll (contributions.filterMap Contribution.template?) := by
  induction contributions generalizing parts with
  | nil =>
      obtain ⟨body, slots, templates⟩ := t
      obtain ⟨body', slots', templates'⟩ := parts
      rw [eq_comm (a := slots), eq_comm (a := templates)]
      simp [Dict.fresh_nil, Dict.insertAll, pure, Except.pure]
  | cons c rest ih =>
      rw [Pass.foldlM_cons_eq_ok, List.forall_mem_cons]
      simp only [ih]
      cases c with
      | template name closure =>
          simp only [take_template, List.filterMap_cons, Contribution.template?,
            Contribution.slot?, Contribution.body?, Contribution.isSettled, List.map_cons,
            Dict.fresh_cons closure]
          constructor
          · rintro ⟨s, ⟨hnew, rfl⟩, hrest⟩
            exact ⟨⟨hnew, hrest.1⟩, hrest.2.1, ⟨trivial, hrest.2.2.1⟩, hrest.2.2.2⟩
          · rintro ⟨⟨hnew, hnames⟩, hslots, ⟨-, hsettled⟩, hrest⟩
            exact ⟨_, ⟨hnew, rfl⟩, hnames, hslots, hsettled, hrest⟩
      | slot name tag fragment =>
          simp only [take_slot, List.filterMap_cons, Contribution.template?,
            Contribution.slot?, Contribution.body?, Contribution.isSettled, List.map_cons,
            Dict.fresh_cons fragment.code, Option.isNone_iff_eq_none]
          constructor
          · rintro ⟨s, ⟨hbranch, hnew, rfl⟩, hrest⟩
            exact ⟨hrest.1, ⟨hnew, hrest.2.1⟩, ⟨hbranch, hrest.2.2.1⟩, hrest.2.2.2⟩
          · rintro ⟨hnames, ⟨hnew, hslots⟩, ⟨hbranch, hsettled⟩, hrest⟩
            exact ⟨_, ⟨hbranch, hnew, rfl⟩, hnames, hslots, hsettled, hrest⟩
      | body fragment =>
          simp only [take_body, List.filterMap_cons, Contribution.template?,
            Contribution.slot?, Contribution.body?, Contribution.isSettled,
            Pass.foldlM_cons_eq_ok]
          constructor
          · rintro ⟨s, ⟨hpush, hsame⟩, hrest⟩
            rw [hsame.1, hsame.2] at hrest
            exact ⟨hrest.1, hrest.2.1, ⟨trivial, hrest.2.2.1⟩, ⟨s.body, hpush, hrest.2.2.2.1⟩,
              hrest.2.2.2.2⟩
          · rintro ⟨hnames, hslots, ⟨-, hsettled⟩, ⟨body, hpush, hbody⟩, hrest⟩
            exact ⟨{ parts with body }, ⟨hpush, rfl, rfl⟩, hnames, hslots, hsettled, hbody,
              hrest⟩

end Parts

end Stencil
