/-!
# Dictionaries in key order

A dictionary holds at most one value per key and lists its entries in the order of the keys,
which is the order of their code points. Both are part of the type: `entries` is strictly
increasing in the key. Two dictionaries with the same entries are therefore equal, whatever
the order in which they were filled.
-/

namespace Stencil

/-- Puts a value under a key into an ordered list of entries; an earlier value is replaced. -/
def insertEntry (key value : String) : List (String × String) → List (String × String)
  | [] => [(key, value)]
  | entry :: rest =>
    if key < entry.1 then
      (key, value) :: entry :: rest
    else if key = entry.1 then
      (key, value) :: rest
    else
      entry :: insertEntry key value rest

/-- A key of the list with one more entry is the new key or an old one. -/
theorem mem_insertEntry {key value : String} {entries : List (String × String)}
    {entry : String × String} (h : entry ∈ insertEntry key value entries) :
    entry = (key, value) ∨ entry ∈ entries := by
  induction entries with
  | nil => simpa [insertEntry] using h
  | cons first rest ih =>
    rw [insertEntry] at h
    split at h
    · simpa using h
    · split at h
      · rcases List.mem_cons.1 h with h | h
        · exact .inl h
        · exact .inr (List.mem_cons_of_mem _ h)
      · rcases List.mem_cons.1 h with h | h
        · exact .inr (h ▸ List.mem_cons_self)
        · exact (ih h).imp_right (List.mem_cons_of_mem _)

/-- Inserting an entry keeps the keys in strictly increasing order. -/
theorem pairwise_insertEntry (key value : String) {entries : List (String × String)}
    (h : entries.Pairwise fun a b => a.1 < b.1) :
    (insertEntry key value entries).Pairwise fun a b => a.1 < b.1 := by
  induction entries with
  | nil => simp [insertEntry]
  | cons first rest ih =>
    obtain ⟨hfirst, hrest⟩ := List.pairwise_cons.1 h
    rw [insertEntry]
    split
    · rename_i hlt
      refine List.pairwise_cons.2 ⟨fun entry hentry => ?_, h⟩
      rcases List.mem_cons.1 hentry with rfl | hmem
      · exact hlt
      · exact String.lt_trans hlt (hfirst entry hmem)
    · rename_i hnot
      split
      · rename_i heq
        exact List.pairwise_cons.2 ⟨fun entry hmem => heq ▸ hfirst entry hmem, hrest⟩
      · rename_i hne
        refine List.pairwise_cons.2 ⟨fun entry hmem => ?_, ih hrest⟩
        rcases mem_insertEntry hmem with rfl | hmem
        · have hle : first.1 ≤ key := String.not_lt.1 hnot
          exact Decidable.byContradiction fun hgt =>
            hne (String.le_antisymm (String.not_lt.1 hgt) hle)
        · exact hfirst entry hmem

/-- A finite map from strings to strings, listed in the order of its keys. -/
structure Dict where
  /-- The entries, in strictly increasing order of the keys. -/
  entries : List (String × String) := []
  sorted : entries.Pairwise fun a b => a.1 < b.1 := by exact List.Pairwise.nil
deriving DecidableEq, Repr

namespace Dict

/-- The dictionary without entries. -/
def empty : Dict := {}

instance : Inhabited Dict := ⟨empty⟩

/-- The dictionary has no entries. -/
def isEmpty (d : Dict) : Bool := d.entries.isEmpty

/-- Puts a value under a key; an earlier value of the key is replaced. -/
def insert (d : Dict) (key value : String) : Dict where
  entries := insertEntry key value d.entries
  sorted := pairwise_insertEntry key value d.sorted

/-- The value under a key. -/
def get? (d : Dict) (key : String) : Option String :=
  d.entries.lookup key

/-- The key has a value. -/
def contains (d : Dict) (key : String) : Bool :=
  d.entries.any fun entry => entry.1 == key

/-- The dictionary without a key. -/
def erase (d : Dict) (key : String) : Dict where
  entries := d.entries.filter fun entry => entry.1 != key
  sorted := d.sorted.filter _

/-- The dictionary with the given pairs; of pairs with one key the last counts. -/
def ofList (pairs : List (String × String)) : Dict :=
  pairs.foldl (fun d pair => d.insert pair.1 pair.2) empty

/-- Dictionaries are equal when their entries are. -/
theorem ext {d e : Dict} (h : d.entries = e.entries) : d = e := by
  cases d
  cases e
  congr

@[simp] theorem entries_empty : empty.entries = [] := rfl

@[simp] theorem entries_insert (d : Dict) (key value : String) :
    (d.insert key value).entries = insertEntry key value d.entries := rfl

/-- No key stands twice. -/
theorem nodup_keys (d : Dict) : (d.entries.map Prod.fst).Nodup := by
  refine List.pairwise_map.2 (d.sorted.imp fun hlt heq => ?_)
  rw [heq] at hlt
  exact String.lt_irrefl _ hlt

end Dict

end Stencil
