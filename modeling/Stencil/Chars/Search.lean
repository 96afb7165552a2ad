/-!
# Searching for a pattern

`cut pattern s` splits `s` around the first occurrence of `pattern`. It says where the
pattern stands without counting positions: what stood before it, and what stood after it.
Main statement: the parts and the pattern between them make up the text (`eq_of_cut`), so
what follows the pattern is never longer than the text.
-/

namespace Stencil.Chars

/-- The text before and after the first occurrence of `pattern`, if it occurs. -/
def cut (pattern : List Char) : List Char → Option (List Char × List Char)
  | [] => if pattern.isEmpty then some ([], []) else none
  | c :: rest =>
    if pattern.isPrefixOf (c :: rest) then
      some ([], (c :: rest).drop pattern.length)
    else
      (cut pattern rest).map fun (before, after) => (c :: before, after)

/-- The pattern occurs in the text. -/
def contains (pattern s : List Char) : Bool :=
  (cut pattern s).isSome

/-! ### The parts make up the text -/

theorem eq_of_cut {pattern s before after : List Char}
    (h : cut pattern s = some (before, after)) : s = before ++ pattern ++ after := by
  induction s generalizing before with
  | nil =>
    rw [cut] at h
    split at h
    · rename_i hp
      have hp : pattern = [] := by simpa using hp
      simp_all
    · cases h
  | cons c rest ih =>
    rw [cut] at h
    split at h
    · rename_i hp
      have hp : pattern <+: c :: rest := List.isPrefixOf_iff_prefix.1 hp
      obtain ⟨tail, htail⟩ := hp
      simp only [Option.some.injEq, Prod.mk.injEq] at h
      obtain ⟨rfl, rfl⟩ := h
      rw [← htail]
      simp
    · obtain ⟨⟨b, a⟩, hcut, hba⟩ := Option.map_eq_some_iff.1 h
      simp only [Prod.mk.injEq] at hba
      obtain ⟨rfl, rfl⟩ := hba
      rw [ih hcut]
      simp

/-- What follows the pattern is shorter than the text by the pattern and all before it. -/
theorem length_of_cut {pattern s before after : List Char}
    (h : cut pattern s = some (before, after)) :
    s.length = before.length + pattern.length + after.length := by
  rw [eq_of_cut h]
  simp only [List.length_append]

end Stencil.Chars
