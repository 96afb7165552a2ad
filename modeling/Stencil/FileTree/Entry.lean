import Stencil.Path

/-!
# Files and directories

An entry is a file with its content or a directory with its entries, which stand in the order of
their names. `Entry.get?` finds what stands at a location, and `Entry.alter` changes what stands
there and nothing else. Main statements: what is found after a change (`get?_alter_self`,
`get?_alter_of_not_prefix`), and that directories stay in order (`ordered_alter`).
-/

namespace Stencil

/-- The content of a file. -/
inductive Content where
  | text (value : String)
  /-- Bytes that are not the encoding of a text. -/
  | binary (bytes : List UInt8)
deriving DecidableEq, Repr

/-- What stands under a name. -/
inductive Entry where
  | file (content : Content)
  | directory (entries : List (Name × Entry))
deriving Repr

/-- Where an entry stands: the names on the way to it from the root. -/
abbrev Location := List Name

namespace Entry

/-- The names of entries increase. -/
abbrev Sorted (entries : List (Name × Entry)) : Prop :=
  entries.Pairwise fun a b => a.1.text < b.1.text

/-! ### Entries of one directory -/

/-- The entry with a name, if there is one. -/
def named (name : Name) : Option Entry → List (Name × Entry)
  | some entry => [(name, entry)]
  | none => []

/-- Changes what stands under a name; the other entries stay, and so does their order. -/
def alterNamed (name : Name) (f : Option Entry → Option Entry) :
    List (Name × Entry) → List (Name × Entry)
  | [] => named name (f none)
  | (other, entry) :: rest =>
    if name.text < other.text then named name (f none) ++ (other, entry) :: rest
    else if name = other then named name (f (some entry)) ++ rest
    else (other, entry) :: alterNamed name f rest

theorem eq_of_mem_named {name : Name} {found : Option Entry} {e : Name × Entry}
    (h : e ∈ named name found) : e.1 = name ∧ some e.2 = found := by
  cases found <;> simp_all [named]

/-- An entry of a changed directory is the changed one or one that was there. -/
theorem mem_alterNamed {name : Name} {f : Option Entry → Option Entry}
    {entries : List (Name × Entry)} {e : Name × Entry} (h : e ∈ alterNamed name f entries) :
    e.1 = name ∧ (some e.2 = f none ∨ ∃ old, (name, old) ∈ entries ∧ some e.2 = f (some old)) ∨
      e ∈ entries := by
  induction entries with
  | nil =>
    obtain ⟨hname, hentry⟩ := eq_of_mem_named h
    exact .inl ⟨hname, .inl hentry⟩
  | cons first rest ih =>
    obtain ⟨other, entry⟩ := first
    rw [alterNamed] at h
    split at h
    · rcases List.mem_append.1 h with h | h
      · obtain ⟨hname, hentry⟩ := eq_of_mem_named h
        exact .inl ⟨hname, .inl hentry⟩
      · exact .inr h
    · split at h
      · rename_i heq
        rcases List.mem_append.1 h with h | h
        · obtain ⟨hname, hentry⟩ := eq_of_mem_named h
          exact .inl ⟨hname, .inr ⟨entry, heq ▸ List.mem_cons_self, hentry⟩⟩
        · exact .inr (List.mem_cons_of_mem _ h)
      · rcases List.mem_cons.1 h with h | h
        · exact .inr (h ▸ List.mem_cons_self)
        · rcases ih h with ⟨hname, hentry | ⟨old, hold, hentry⟩⟩ | h
          · exact .inl ⟨hname, .inl hentry⟩
          · exact .inl ⟨hname, .inr ⟨old, List.mem_cons_of_mem _ hold, hentry⟩⟩
          · exact .inr (List.mem_cons_of_mem _ h)

theorem lt_of_not_lt_of_ne {a b : Name} (h : ¬ a.text < b.text) (hne : a ≠ b) :
    b.text < a.text :=
  Decidable.byContradiction fun hgt =>
    hne (Name.ext (String.le_antisymm (String.not_lt.1 hgt) (String.not_lt.1 h)))

theorem sorted_named_append {name : Name} {found : Option Entry} {rest : List (Name × Entry)}
    (hrest : Sorted rest) (h : ∀ e ∈ rest, name.text < e.1.text) :
    Sorted (named name found ++ rest) := by
  cases found with
  | none => exact hrest
  | some entry => exact List.pairwise_cons.2 ⟨h, hrest⟩

/-- A changed directory is in order. -/
theorem sorted_alterNamed (name : Name) (f : Option Entry → Option Entry)
    {entries : List (Name × Entry)} (h : Sorted entries) :
    Sorted (alterNamed name f entries) := by
  induction entries with
  | nil => cases hf : f none <;> simp [alterNamed, named, hf]
  | cons first rest ih =>
    obtain ⟨other, entry⟩ := first
    obtain ⟨hfirst, hrest⟩ := List.pairwise_cons.1 h
    rw [alterNamed]
    split
    · rename_i hlt
      refine sorted_named_append h fun e he => ?_
      rcases List.mem_cons.1 he with rfl | he
      · exact hlt
      · exact String.lt_trans hlt (hfirst e he)
    · rename_i hnot
      split
      · rename_i heq
        exact sorted_named_append hrest fun e he => heq ▸ hfirst e he
      · rename_i hne
        refine List.pairwise_cons.2 ⟨fun e he => ?_, ih hrest⟩
        rcases mem_alterNamed he with ⟨hname, -⟩ | he
        · exact hname ▸ lt_of_not_lt_of_ne hnot hne
        · exact hfirst e he

theorem lookup_named_append (name other : Name) (found : Option Entry)
    (rest : List (Name × Entry)) :
    (named name found ++ rest).lookup other =
      if other = name then found <|> rest.lookup other else rest.lookup other := by
  cases found with
  | none => simp [named]
  | some entry =>
    by_cases h : other = name
    · simp [named, h]
    · simp [named, h, List.lookup_cons, beq_false_of_ne h]

theorem mem_of_lookup {name : Name} {entries : List (Name × Entry)} {entry : Entry}
    (h : entries.lookup name = some entry) : (name, entry) ∈ entries := by
  obtain ⟨before, after, heq, -⟩ := List.lookup_eq_some_iff.1 h
  simp [heq]

theorem lookup_eq_none_of_lt {name : Name} {entries : List (Name × Entry)}
    (h : ∀ e ∈ entries, name.text < e.1.text) : entries.lookup name = none := by
  refine List.lookup_eq_none_iff.2 fun e he => ?_
  have hlt := h e he
  refine bne_iff_ne.2 fun heq => ?_
  rw [heq] at hlt
  exact String.lt_irrefl _ hlt

/-- What stands under a name after a change. -/
theorem lookup_alterNamed (name other : Name) (f : Option Entry → Option Entry)
    {entries : List (Name × Entry)} (h : Sorted entries) :
    (alterNamed name f entries).lookup other =
      if other = name then f (entries.lookup name) else entries.lookup other := by
  induction entries with
  | nil =>
    have := lookup_named_append name other (f none) []
    rw [List.append_nil] at this
    rw [alterNamed, this]
    simp
  | cons first rest ih =>
    obtain ⟨entryName, entry⟩ := first
    obtain ⟨hfirst, hrest⟩ := List.pairwise_cons.1 h
    rw [alterNamed]
    split
    · rename_i hlt
      have hnone : ((entryName, entry) :: rest).lookup name = none := by
        refine lookup_eq_none_of_lt fun e he => ?_
        rcases List.mem_cons.1 he with rfl | he
        · exact hlt
        · exact String.lt_trans hlt (hfirst e he)
      rw [lookup_named_append, hnone]
      split
      · rename_i heq
        rw [heq, hnone]
        simp
      · rfl
    · split
      · rename_i heq
        subst heq
        have hnone : rest.lookup name = none := lookup_eq_none_of_lt hfirst
        rw [lookup_named_append]
        by_cases ho : other = name
        · simp [ho, hnone]
        · simp [ho, List.lookup_cons, beq_false_of_ne ho]
      · rename_i hne
        by_cases ho : other = entryName
        · have hon : other ≠ name := fun heq => hne (heq.symm.trans ho)
          rw [if_neg hon, ho]
          simp
        · rw [List.lookup_cons, beq_false_of_ne ho, List.lookup_cons, beq_false_of_ne hne,
            List.lookup_cons, beq_false_of_ne ho]
          exact ih hrest

/-! ### Entries at a location -/

/-- What stands at a location below an entry. -/
def get? : Option Entry → Location → Option Entry
  | found, [] => found
  | some (directory entries), name :: rest => get? (entries.lookup name) rest
  | _, _ :: _ => none

/-- Changes what stands at a location below an entry. Nothing changes if a directory is missing
on the way. -/
def alter (f : Option Entry → Option Entry) : Location → Option Entry → Option Entry
  | [], found => f found
  | name :: rest, some (directory entries) =>
    some (directory (alterNamed name (alter f rest) entries))
  | _ :: _, found => found

mutual

/-- All directories are in the order of the names. -/
def Ordered : Entry → Prop
  | file _ => True
  | directory entries => Sorted entries ∧ AllOrdered entries

/-- All directories of a list of entries are in the order of the names. -/
def AllOrdered : List (Name × Entry) → Prop
  | [] => True
  | (_, entry) :: rest => Ordered entry ∧ AllOrdered rest

end

theorem allOrdered_iff {entries : List (Name × Entry)} :
    AllOrdered entries ↔ ∀ e ∈ entries, Ordered e.2 := by
  induction entries with
  | nil => simp [AllOrdered]
  | cons first rest ih =>
    obtain ⟨name, entry⟩ := first
    simp [AllOrdered, ih]

/-- A change that keeps the order at its location keeps it everywhere. -/
theorem ordered_alter {f : Option Entry → Option Entry}
    (hf : ∀ found, (∀ e ∈ found, Ordered e) → ∀ e ∈ f found, Ordered e) (location : Location)
    {found : Option Entry} (h : ∀ e ∈ found, Ordered e) :
    ∀ e ∈ alter f location found, Ordered e := by
  induction location generalizing found with
  | nil => exact hf found h
  | cons name rest ih =>
    match found with
    | none => exact h
    | some (file _) => exact h
    | some (directory entries) =>
      intro e he
      obtain rfl := Option.some.inj he
      obtain ⟨hsorted, hall⟩ : Sorted entries ∧ AllOrdered entries := h _ rfl
      refine ⟨sorted_alterNamed name _ hsorted, allOrdered_iff.2 fun e he => ?_⟩
      rcases mem_alterNamed he with ⟨-, hnew | ⟨old, hold, hnew⟩⟩ | he
      · exact ih (fun entry hentry => absurd hentry (Option.not_mem_none entry)) e.2 hnew.symm
      · refine ih (fun entry hentry => ?_) e.2 hnew.symm
        exact Option.some.inj hentry ▸ allOrdered_iff.1 hall _ hold
      · exact allOrdered_iff.1 hall e he

/-- Every directory on the way to a location is there. -/
def Reachable (found : Option Entry) (location : Location) : Prop :=
  ∃ entries, get? found location = some (directory entries)

/-- After a change the new entry is found at its location. -/
theorem get?_alter_self (f : Option Entry → Option Entry) (parent : Location) (name : Name)
    {found : Option Entry} (h : ∀ e ∈ found, Ordered e) (hparent : Reachable found parent) :
    get? (alter f (parent ++ [name]) found) (parent ++ [name]) =
      f (get? found (parent ++ [name])) := by
  induction parent generalizing found with
  | nil =>
    obtain ⟨entries, hentries⟩ := hparent
    cases hentries
    obtain ⟨hsorted, -⟩ : Sorted entries ∧ AllOrdered entries := h _ rfl
    simp [alter, get?, lookup_alterNamed name name _ hsorted]
  | cons first parent ih =>
    match found with
    | none =>
      obtain ⟨entries, hentries⟩ := hparent
      cases hentries
    | some (file _) =>
      obtain ⟨entries, hentries⟩ := hparent
      cases hentries
    | some (directory entries) =>
      obtain ⟨hsorted, hall⟩ : Sorted entries ∧ AllOrdered entries := h _ rfl
      simp only [List.cons_append, alter, get?, lookup_alterNamed first first _ hsorted, if_true]
      refine ih ?_ hparent
      intro e he
      exact allOrdered_iff.1 hall (first, e) (mem_of_lookup he)

/-- A change does not touch what is neither at its location nor on the way to it nor below. -/
theorem get?_alter_of_not_prefix (f : Option Entry → Option Entry) {location other : Location}
    {found : Option Entry} (h : ∀ e ∈ found, Ordered e) (hup : ¬ other <+: location)
    (hdown : ¬ location <+: other) :
    get? (alter f location found) other = get? found other := by
  induction location generalizing found other with
  | nil => exact absurd (List.nil_prefix) hdown
  | cons name rest ih =>
    match other, found with
    | [], _ => exact absurd (List.nil_prefix) hup
    | first :: others, none => rfl
    | first :: others, some (file _) => rfl
    | first :: others, some (directory entries) =>
      obtain ⟨hsorted, hall⟩ : Sorted entries ∧ AllOrdered entries := h _ rfl
      simp only [alter, get?, lookup_alterNamed name first _ hsorted]
      split
      · rename_i heq
        subst heq
        refine ih (fun e he => ?_) (fun hpre => hup ?_) (fun hpre => hdown ?_)
        · exact allOrdered_iff.1 hall (first, e) (mem_of_lookup he)
        · exact List.cons_prefix_cons.2 ⟨rfl, hpre⟩
        · exact List.cons_prefix_cons.2 ⟨rfl, hpre⟩
      · rfl

end Entry

end Stencil
