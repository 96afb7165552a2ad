import Stencil.Proofs.Footprints
import Stencil.Proofs.Substring

/-!
# The search for sources as a filter

The search does not look below a directory that is ignored. It might as well list all files and
leave out those that are ignored themselves: a pattern is looked for in the whole path from the root
on, so that one that stands in the path to a directory also stands in every path that goes on from
there. A pattern may reach over several names for the same reason. The root is never ignored, as the
path to it is empty.

## Main results

* `isIgnored_mono`: **what is below an ignored directory is ignored.**
* `visible_iff`: nothing on the way to a file is ignored if the file is not.
* `inEntry_eq_filterMap`: the walk finds what is left of the list of all files.
* `find_eq_plain_filter`: **the search finds the files below the root that have an extension of the
  options and no pattern in their path**, each once and in order.
-/

namespace Stencil.Source

variable {o : Options} {t : FileTree} {directory : Path}

/-! ### Ignored paths -/

/-- A path that goes on begins with the path so far. -/
theorem prefix_relative {names longer : List Name} (h : names <+: longer) :
    (relative names).toList <+: (relative longer).toList := by
  obtain ⟨more, rfl⟩ := h
  simp only [relative, String.toList_ofList, List.map_append]
  induction names with
  | nil => simp
  | cons name rest ih =>
      cases rest with
      | nil =>
          cases more with
          | nil => simp
          | cons next more => simp [List.intercalate_cons_cons, List.append_assoc]
      | cons next rest =>
          simp only [List.map_cons, List.cons_append, List.intercalate_cons_cons] at ih ⊢
          rw [List.append_assoc, List.append_assoc, List.prefix_append_right_inj,
            List.prefix_append_right_inj]
          exact ih

theorem isIgnored_iff {names : List Name} :
    isIgnored o names = true ↔
      ∃ pattern ∈ o.ignore, pattern ≠ "" ∧ pattern.toList <:+: (relative names).toList := by
  simp [isIgnored, Text.contains, Chars.contains_iff]

/-- The root of the search is not ignored. -/
theorem isIgnored_nil (o : Options) : isIgnored o [] = false := by
  rw [← Bool.not_eq_true, isIgnored_iff]
  rintro ⟨pattern, -, hne, hstands⟩
  exact hne (String.toList_injective (List.infix_nil.mp hstands))

/-- **What is below an ignored directory is ignored.** -/
theorem isIgnored_mono {names longer : List Name} (h : names <+: longer)
    (hignored : isIgnored o names = true) : isIgnored o longer = true := by
  obtain ⟨pattern, hpattern, hne, hstands⟩ := isIgnored_iff.mp hignored
  exact isIgnored_iff.mpr
    ⟨pattern, hpattern, hne, hstands.trans (prefix_relative h).isInfix⟩

/-- Nothing on the way is ignored if the end of it is not. -/
theorem visible_iff {below : List Name} : Visible o [] below ↔ isIgnored o below = false := by
  constructor
  · intro h
    by_cases hbelow : below = []
    · rw [hbelow, isIgnored_nil]
    · exact h below hbelow List.prefix_rfl
  · intro h above _ habove
    rw [List.nil_append, ← Bool.not_eq_true]
    intro hignored
    rw [isIgnored_mono habove hignored] at h
    cases h

/-! ### The walk as a filter -/

/-- The source at a place in a list of all that is below a directory. Only the place itself is
looked at. -/
def ofListed? (o : Options) (directory : Path) : Location × Entry → Option Source
  | (below, .file _) => if isIgnored o below then none else ofPath? o (directory.descend below)
  | (_, .directory _) => none

theorem mem_listEntries {location : Location} {entries : List (Name × Entry)}
    {x : Location × Entry} :
    x ∈ FileTree.listEntries location entries ↔
      ∃ y ∈ entries, x ∈ FileTree.listEntry (location ++ [y.1]) y.2 := by
  induction entries with
  | nil => simp [FileTree.listEntries]
  | cons y rest ih =>
      obtain ⟨name, entry⟩ := y
      rw [FileTree.listEntries, List.mem_append, ih, List.exists_mem_cons_iff]

/-- What is listed is below the place where the list begins. -/
theorem prefix_of_mem_listEntry {e : Entry} {location : Location} {x : Location × Entry}
    (h : x ∈ FileTree.listEntry location e) : location <+: x.1 := by
  induction e generalizing location with
  | file content =>
      rw [FileTree.listEntry, List.mem_singleton] at h
      rw [h]
  | directory entries ih =>
      rw [FileTree.listEntry, List.mem_cons, mem_listEntries] at h
      rcases h with rfl | ⟨y, hy, hx⟩
      · exact List.prefix_rfl
      · exact (List.prefix_append location [y.1]).trans (ih y hy hx)

/-- Of what is below an ignored place nothing is left. -/
theorem filterMap_of_isIgnored {names : List Name} (h : isIgnored o names = true) (e : Entry) :
    (FileTree.listEntry names e).filterMap (ofListed? o directory) = [] := by
  refine List.filterMap_eq_nil_iff.mpr fun x hx => ?_
  obtain ⟨below, entry⟩ := x
  cases entry with
  | file content => exact if_pos (isIgnored_mono (prefix_of_mem_listEntry hx) h)
  | directory entries => rfl

/-- **The walk finds what is left of the list of all files**, in the same order. -/
theorem inEntry_eq_filterMap {names : List Name} (h : isIgnored o names = false) (e : Entry) :
    inEntry o (directory.descend names) names e =
      (FileTree.listEntry names e).filterMap (ofListed? o directory) := by
  induction e generalizing names with
  | file content =>
      have hlisted : ofListed? o directory (names, .file content) =
          ofPath? o (directory.descend names) := if_neg (by rw [h]; exact Bool.false_ne_true)
      rw [inEntry, FileTree.listEntry, List.filterMap_cons, hlisted]
      cases ofPath? o (directory.descend names) <;> rfl
  | directory entries ih =>
      rw [inEntry, FileTree.listEntry, List.filterMap_cons_none rfl]
      induction entries with
      | nil => rfl
      | cons x rest ihrest =>
          obtain ⟨name, entry⟩ := x
          obtain ⟨hentry, hrest⟩ := List.forall_mem_cons.mp ih
          rw [inEntries, FileTree.listEntries, List.filterMap_append, ihrest hrest]
          congr 1
          have hchild : (directory.descend names).child name =
              directory.descend (names ++ [name]) := by
            rw [Path.descend, Path.descend, List.foldl_append]
            rfl
          cases hignored : isIgnored o (names ++ [name]) with
          | true => exact (filterMap_of_isIgnored hignored entry).symm
          | false => exact hchild ▸ hentry hignored

/-! ### The search -/

/-- A file is a source when it has an extension of the options and is not ignored. -/
theorem foundAt_iff {below : List Name} {s : Source} :
    FoundAt o directory t below s ↔
      (∃ content, t.fileAt (t.target directory ++ below) = some content) ∧
        s.path = directory.descend below ∧ s.path.extension? = some s.extension ∧
        s.extension ∈ o.extensions ∧
        ∀ pattern ∈ o.ignore, pattern ≠ "" → ¬ pattern.toList <:+: (relative below).toList := by
  have hignored : isIgnored o below = false ↔
      ∀ pattern ∈ o.ignore, pattern ≠ "" → ¬ pattern.toList <:+: (relative below).toList := by
    rw [← Bool.not_eq_true, isIgnored_iff]
    simp
  rw [← hignored, ← visible_iff]
  constructor
  · rintro ⟨hfile, hvisible, hsource⟩
    obtain ⟨hpath, hextension, hmem⟩ := ofPath?_eq_some_iff.mp hsource
    exact ⟨hfile, hpath, hpath ▸ hextension, hmem, hvisible⟩
  · rintro ⟨hfile, hpath, hextension, hmem, hvisible⟩
    exact ⟨hfile, hvisible, ofPath?_eq_some_iff.mpr ⟨hpath, hpath ▸ hextension, hmem⟩⟩

/-- What is found comes in the order of the components of the paths, and no path comes twice. -/
theorem pairwise_components_of_find {sources : List Source}
    (h : find o directory t = .ok sources) :
    sources.Pairwise fun s s' =>
      s.path.le s'.path = true ∧ s.path.components ≠ s'.path.components := by
  refine ((pairwise_of_find h).and (nodup_of_find h)).imp_of_mem fun {s s'} hs hs' hpair => ?_
  obtain ⟨below, hfound⟩ := (mem_find_iff h).mp hs
  obtain ⟨below', hfound'⟩ := (mem_find_iff h).mp hs'
  refine ⟨hpair.1, fun heq => hpair.2 (hfound.eq_of_le hfound' hpair.1 ?_)⟩
  have hle := Path.le_total s'.path s'.path
  rw [Bool.or_self] at hle
  rwa [Path.le, heq, ← Path.le]

/-- **The search for sources as a filter.** Below a root that exists, the search finds the files
that have an extension of the options and none of the patterns in their path from the root on, in
the order of the components of their paths and each of them once. They are what is left of the list
of all that is below the root when each file is judged by itself. A root that is a file is judged by
its extension only. -/
theorem find_eq_plain_filter (h : t.exists? directory = true) :
    ∃ e sources, t.get? (t.target directory) = some e ∧ find o directory t = .ok sources ∧
      (∀ s, s ∈ sources ↔ ∃ below,
        (∃ content, t.fileAt (t.target directory ++ below) = some content) ∧
        s.path = directory.descend below ∧ s.path.extension? = some s.extension ∧
        s.extension ∈ o.extensions ∧
        ∀ pattern ∈ o.ignore, pattern ≠ "" → ¬ pattern.toList <:+: (relative below).toList) ∧
      sources.Pairwise (fun s s' =>
        s.path.le s'.path = true ∧ s.path.components ≠ s'.path.components) ∧
      sources = ((FileTree.listEntry [] e).filterMap (ofListed? o directory)).mergeSort le ∧
      ∀ content, e = .file content → sources = (ofPath? o directory).toList := by
  obtain ⟨location, hlocate⟩ : ∃ location, t.locate directory = .ok location := by
    unfold FileTree.exists? at h
    cases hlocate : t.locate directory with
    | ok location => exact ⟨location, rfl⟩
    | error e => rw [hlocate] at h; cases h
  obtain ⟨e, hget⟩ := Option.isSome_iff_exists.mp (FileTree.isSome_get?_of_locate hlocate)
  obtain rfl := FileTree.target_of_locate hlocate
  have hwalk : inEntry o directory [] e =
      (FileTree.listEntry [] e).filterMap (ofListed? o directory) :=
    inEntry_eq_filterMap (isIgnored_nil o) e
  have hfind : find o directory t = .ok ((inEntry o directory [] e).mergeSort le) :=
    find_eq_ok_iff.mpr ⟨e, hlocate, hget, rfl⟩
  refine ⟨e, _, hget, hfind, fun s => ?_, pairwise_components_of_find hfind, by rw [hwalk], ?_⟩
  · rw [mem_find_iff hfind]
    exact exists_congr fun below => foundAt_iff
  · rintro content rfl
    rw [inEntry]
    cases ofPath? o directory <;> simp

/-- A directory with files in a directory that is ignored and beside it. -/
def generated : FileTree :=
  ["p/b.gos", "p/gen/new.gos", "p/gen/new.go", "p/gen/old/x.gos", "p/gen/older.gos"].foldl
    (fun t path => Builder.edit ⟨path⟩ "" t)
    (Files.on (ε := FileError) (.ensureDirectories ⟨"p/gen/old"⟩) .empty).2

/-- A pattern that reaches over two names is ignored with all that is below it, and so is a file
whose name goes on where the pattern ends. -/
theorem find_generated :
    generated.exists? ⟨"p"⟩ = true ∧
      ∃ e, generated.get? (generated.target ⟨"p"⟩) = some e ∧
        (FileTree.listEntry [] e).filterMap (ofListed? { ignore := ["gen/old", ""] } ⟨"p"⟩) =
          [⟨⟨"p/b.gos"⟩, "gos"⟩, ⟨⟨"p/gen/new.gos"⟩, "gos"⟩] ∧
        find { ignore := ["gen/old", ""] } ⟨"p"⟩ generated =
          .ok [⟨⟨"p/b.gos"⟩, "gos"⟩, ⟨⟨"p/gen/new.gos"⟩, "gos"⟩] := by
  have hexists : generated.exists? ⟨"p"⟩ = true := by decide +kernel
  obtain ⟨e, sources, hget, hfind, -, -, hsources, -⟩ :=
    find_eq_plain_filter (o := { ignore := ["gen/old", ""] }) hexists
  have hlisted : (generated.get? (generated.target ⟨"p"⟩)).map (fun e =>
      (FileTree.listEntry [] e).filterMap (ofListed? { ignore := ["gen/old", ""] } ⟨"p"⟩)) =
      some [⟨⟨"p/b.gos"⟩, "gos"⟩, ⟨⟨"p/gen/new.gos"⟩, "gos"⟩] := by decide +kernel
  rw [hget, Option.map_some] at hlisted
  refine ⟨hexists, e, hget, Option.some.inj hlisted, ?_⟩
  rw [hfind, hsources, Option.some.inj hlisted, List.mergeSort_of_pairwise (by decide +kernel)]

end Stencil.Source
