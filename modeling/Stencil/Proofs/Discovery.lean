import Stencil.Project.Source
import Stencil.Proofs.PathSteps
import Mathlib.Data.List.Nodup

/-!
# The sources below a directory

The search for sources walks the tree of a directory and builds up a path on the way. Here it is
said without the walk: a source is found where a file stands below the directory, nothing on the
way to it is ignored, and its path has one of the extensions (`FoundAt`). The names on the way tell
where the file is, which path it is given and where it comes in the order, so that sources that
differ are told apart by any of them.

Since the list of sources is in order, it depends on nothing but what is in it. So it stays the
same when files change that are no sources.

The output of a source stands next to it. Outputs of different sources are different files, because
what they have in common, the extension and the suffix, leaves the stems to differ.

## Main results

* `mem_find_iff`: **which sources are found.**
* `find_frame`: files that are no sources do not matter to the search.
* `FoundAt.isDirectoryAt_of_target_output`: **outputs of two sources are not one file**, though they
  may be one directory.
* `FoundAt.output_ne`: the paths of outputs are different.
-/

namespace Stencil

namespace Entry

/-- Induction over an entry: a directory has the property if all its entries have it. -/
@[elab_as_elim, induction_eliminator]
theorem induction {motive : Entry → Prop} (file : ∀ content, motive (.file content))
    (directory : ∀ entries, (∀ x ∈ entries, motive x.2) → motive (.directory entries))
    (e : Entry) : motive e :=
  @Entry.rec motive (fun entries => ∀ x ∈ entries, motive x.2) (fun x => motive x.2)
    file directory (fun _ h => absurd h List.not_mem_nil)
    (fun _ _ hfirst hrest _ h =>
      (List.mem_cons.mp h).elim (fun heq => heq ▸ hfirst) (hrest _))
    (fun _ _ h => h) e

/-- In a directory in order an entry is found under its name. -/
theorem lookup_eq_some_iff {name : Name} {e : Entry} {entries : List (Name × Entry)}
    (h : Sorted entries) : entries.lookup name = some e ↔ (name, e) ∈ entries := by
  refine ⟨mem_of_lookup, fun hmem => ?_⟩
  obtain ⟨before, after, rfl⟩ := List.append_of_mem hmem
  refine List.lookup_eq_some_iff.mpr ⟨before, after, rfl, fun x hx => bne_iff_ne.mpr ?_⟩
  have hlt := (List.pairwise_append.mp h).2.2 x hx (name, e) List.mem_cons_self
  rintro rfl
  exact String.lt_irrefl _ hlt

end Entry

namespace FileTree

variable {t : FileTree}

/-- On the way to something there are directories only. -/
theorem isDirectoryAt_of_prefix {above location : Location} (h : above <+: location)
    (hne : above ≠ location) (hsome : (t.get? location).isSome = true) :
    t.isDirectoryAt above = true := by
  obtain ⟨below, rfl⟩ := h
  cases below with
  | nil => exact absurd (List.append_nil above).symm hne
  | cons name rest =>
      rw [get?, Entry.get?_append, ← get?] at hsome
      rw [isDirectoryAt_iff]
      rcases hget : t.get? above with _ | (_ | entries)
      · rw [hget] at hsome
        cases hsome
      · rw [hget] at hsome
        cases hsome
      · exact ⟨entries, rfl⟩

/-- A step without a name leads from a directory to a directory. -/
theorem isDirectoryAt_next {here : Location} {step : Component} (h : t.isDirectoryAt here = true)
    (hstep : ∀ name, step ≠ .name name) : t.isDirectoryAt (next here step) = true := by
  cases step with
  | root => rfl
  | current => exact h
  | parent =>
      by_cases heq : here.dropLast = here
      · rwa [next, heq]
      · exact isDirectoryAt_of_prefix (List.dropLast_prefix here) heq
          (isSome_get?_iff.mpr (.inl h))
  | name name => exact absurd rfl (hstep name)

theorem isSome_get?_of_fileAt {location : Location} {content : Content}
    (h : t.fileAt location = some content) : (t.get? location).isSome = true := by
  rw [fileAt_eq_some_iff.mp h]
  rfl

end FileTree

/-! ### Paths below a path -/

namespace Path

/-- The path through names below a path. -/
def descend (p : Path) (names : List Name) : Path := names.foldl child p

theorem steps_descend (p : Path) (names : List Name) :
    (p.descend names).steps = p.steps ++ names.map .name := by
  induction names generalizing p with
  | nil => simp [descend]
  | cons n names ih =>
      have hnext : p.descend (n :: names) = (p.child n).descend names := rfl
      rw [hnext, ih, steps_child, List.append_assoc, List.map_cons, List.singleton_append]

theorem components_descend (p : Path) (names : List Name) :
    (p.descend names).components = p.components ++ names.map .name := by
  induction names generalizing p with
  | nil => simp [descend]
  | cons n names ih =>
      have hnext : p.descend (n :: names) = (p.child n).descend names := rfl
      rw [hnext, ih, components_child, List.append_assoc, List.map_cons, List.singleton_append]

/-- The extension of a path through names is that of the last one. -/
theorem extension?_descend (p : Path) (init : List Name) (n : Name) :
    (p.descend (init ++ [n])).extension? = n.extension? := by
  have hsteps : (p.descend (init ++ [n])).steps = (p.steps ++ init.map .name) ++ [.name n] := by
    rw [steps_descend, List.map_append, List.append_assoc]
    rfl
  rw [extension?, fileName?_of_steps hsteps, Option.bind_some]

end Path

theorem Component.name_injective : Function.Injective Component.name :=
  fun _ _ => Component.name.inj

namespace FileTree

theorem walk_names (here : Location) (names : List Name) :
    walk here (names.map .name) = here ++ names := by
  induction names generalizing here with
  | nil => simp [walk]
  | cons n names ih =>
      have hnext : walk here ((n :: names).map .name) = walk (here ++ [n]) (names.map .name) := rfl
      rw [hnext, ih, List.append_assoc, List.singleton_append]

/-- Names below a path lead to the location below its target. -/
theorem target_descend (t : FileTree) (p : Path) (names : List Name) :
    t.target (p.descend names) = t.target p ++ names := by
  rw [target, Path.steps_descend, Path.walk_append, walk_names, ← target]

end FileTree

/-! ### The walk -/

namespace Source

variable {o : Options} {t t' : FileTree} {directory : Path}

/-- Nothing on the way through the names is ignored, where `names` led to the beginning. -/
def Visible (o : Options) (names below : List Name) : Prop :=
  ∀ above, above ≠ [] → above <+: below → isIgnored o (names ++ above) = false

theorem visible_nil (o : Options) (names : List Name) : Visible o names [] :=
  fun _ hne h => absurd (List.prefix_nil.mp h) hne

theorem visible_cons {names below : List Name} {n : Name} :
    Visible o names (n :: below) ↔
      isIgnored o (names ++ [n]) = false ∧ Visible o (names ++ [n]) below := by
  constructor
  · intro h
    refine ⟨h [n] (by simp) (List.cons_prefix_cons.mpr ⟨rfl, List.nil_prefix⟩), ?_⟩
    intro above _ habove
    rw [List.append_assoc]
    exact h (n :: above) (by simp) (List.cons_prefix_cons.mpr ⟨rfl, habove⟩)
  · rintro ⟨hfirst, hrest⟩ above hne habove
    obtain ⟨m, above, rfl⟩ := List.exists_cons_of_ne_nil hne
    obtain ⟨rfl, hbelow⟩ := List.cons_prefix_cons.mp habove
    cases above with
    | nil => exact hfirst
    | cons k above =>
        have hvisible := hrest (k :: above) (by simp) hbelow
        rwa [List.append_assoc] at hvisible

theorem ofPath?_eq_some_iff {path : Path} {s : Source} :
    ofPath? o path = some s ↔
      s.path = path ∧ path.extension? = some s.extension ∧ s.extension ∈ o.extensions := by
  obtain ⟨spath, sextension⟩ := s
  unfold ofPath?
  cases hext : path.extension? with
  | none => simp
  | some found =>
      cases hfind : o.extensions.find? (· == found) with
      | none =>
          simp only [Option.bind_some, hfind, Option.map_none, reduceCtorEq, Option.some.injEq,
            false_iff, not_and]
          rintro - rfl hmem
          exact absurd (List.find?_eq_none.mp hfind found hmem) (by simp)
      | some extension =>
          have hextension : extension = found := by simpa using List.find?_some hfind
          have hmem := List.mem_of_find?_eq_some hfind
          subst hextension
          simp only [Option.bind_some, hfind, Option.map_some, Option.some.injEq, mk.injEq]
          grind

theorem mem_inEntries {path : Path} {names : List Name} {entries : List (Name × Entry)}
    {s : Source} :
    s ∈ inEntries o path names entries ↔
      ∃ x ∈ entries, isIgnored o (names ++ [x.1]) = false ∧
        s ∈ inEntry o (path.child x.1) (names ++ [x.1]) x.2 := by
  induction entries with
  | nil => simp [inEntries]
  | cons x rest ih =>
      obtain ⟨name, entry⟩ := x
      rw [inEntries, List.mem_append, ih, List.exists_mem_cons_iff]
      refine or_congr_left ?_
      split <;> simp_all

/-- **What the walk finds below an entry.** -/
theorem mem_inEntry {e : Entry} (h : e.Ordered) {path : Path} {names : List Name} {s : Source} :
    s ∈ inEntry o path names e ↔
      ∃ below content, Entry.get? (some e) below = some (.file content) ∧
        Visible o names below ∧ ofPath? o (path.descend below) = some s := by
  induction e generalizing path names with
  | file content =>
      rw [inEntry, Option.mem_toList]
      constructor
      · intro hs
        exact ⟨[], content, rfl, visible_nil o names, hs⟩
      · rintro ⟨below, content', hget, -, hs⟩
        cases below with
        | nil => exact hs
        | cons n below => cases hget
  | directory entries ih =>
      obtain ⟨hsorted, hall⟩ : Entry.Sorted entries ∧ Entry.AllOrdered entries := h
      have hordered := Entry.allOrdered_iff.mp hall
      rw [inEntry, mem_inEntries]
      constructor
      · rintro ⟨⟨n, e⟩, hmem, hignored, hs⟩
        obtain ⟨below, content, hget, hvisible, hsource⟩ :=
          (ih (n, e) hmem (hordered _ hmem)).mp hs
        refine ⟨n :: below, content, ?_, visible_cons.mpr ⟨hignored, hvisible⟩, hsource⟩
        rw [Entry.get?, (Entry.lookup_eq_some_iff hsorted).mpr hmem]
        exact hget
      · rintro ⟨below, content, hget, hvisible, hsource⟩
        cases below with
        | nil => cases hget
        | cons n below =>
            rw [Entry.get?] at hget
            cases hlookup : entries.lookup n with
            | none => rw [hlookup] at hget; cases below <;> cases hget
            | some e =>
                rw [hlookup] at hget
                have hmem := (Entry.lookup_eq_some_iff hsorted).mp hlookup
                obtain ⟨hignored, hrest⟩ := visible_cons.mp hvisible
                exact ⟨(n, e), hmem, hignored,
                  (ih (n, e) hmem (hordered _ hmem)).mpr ⟨below, content, hget, hrest, hsource⟩⟩

/-- What is found below different names is different. -/
theorem eq_of_descend_eq {path : Path} {below below' : List Name}
    (h : path.descend below = path.descend below') : below = below' := by
  have hsteps := congrArg Path.steps h
  rw [Path.steps_descend, Path.steps_descend, List.append_cancel_left_eq] at hsteps
  exact Component.name_injective.list_map hsteps

theorem inEntries_eq_flatMap (path : Path) (names : List Name) (entries : List (Name × Entry)) :
    inEntries o path names entries = entries.flatMap fun x =>
      if isIgnored o (names ++ [x.1]) then [] else
        inEntry o (path.child x.1) (names ++ [x.1]) x.2 := by
  induction entries with
  | nil => rfl
  | cons x rest ih => rw [inEntries, ih, List.flatMap_cons]

/-- The walk finds nothing twice. -/
theorem nodup_inEntry {e : Entry} (h : e.Ordered) (path : Path) (names : List Name) :
    (inEntry o path names e).Nodup := by
  induction e generalizing path names with
  | file content =>
      rw [inEntry]
      cases ofPath? o path <;> simp
  | directory entries ih =>
      obtain ⟨hsorted, hall⟩ : Entry.Sorted entries ∧ Entry.AllOrdered entries := h
      have hordered := Entry.allOrdered_iff.mp hall
      rw [inEntry, inEntries_eq_flatMap, List.nodup_flatMap]
      refine ⟨fun x hx => ?_, ?_⟩
      · split
        · exact List.nodup_nil
        · exact ih x hx (hordered x hx) _ _
      · refine hsorted.imp_of_mem fun {x y} hx hy hlt s hs hs' => ?_
        -- A source found below both would have two different names on its way.
        have hbelow {z : Name × Entry} (hz : z ∈ entries)
            (hs : s ∈ if isIgnored o (names ++ [z.1]) then [] else
              inEntry o (path.child z.1) (names ++ [z.1]) z.2) :
            ∃ below, s.path = path.descend (z.1 :: below) := by
          split at hs
          · cases hs
          · obtain ⟨below, _, -, -, hsource⟩ := (mem_inEntry (hordered z hz)).mp hs
            exact ⟨below, (ofPath?_eq_some_iff.mp hsource).1⟩
        obtain ⟨below, hpath⟩ := hbelow hx hs
        obtain ⟨below', hpath'⟩ := hbelow hy hs'
        have hnames := eq_of_descend_eq (hpath.symm.trans hpath')
        rw [(List.cons.inj hnames).1] at hlt
        exact String.lt_irrefl _ hlt

/-! ### The sources that are found -/

/-- A source is found through names below a directory: a file stands there, nothing on the way is
ignored, and its path has one of the extensions. -/
structure FoundAt (o : Options) (directory : Path) (t : FileTree) (below : List Name) (s : Source) :
    Prop where
  file : ∃ content, t.fileAt (t.target directory ++ below) = some content
  visible : Visible o [] below
  source : ofPath? o (directory.descend below) = some s

/-- A search that succeeds has looked at what stands at the directory. -/
theorem find_eq_ok_iff {sources : List Source} :
    find o directory t = .ok sources ↔
      ∃ e, t.locate directory = .ok (t.target directory) ∧ t.get? (t.target directory) = some e ∧
        sources = (inEntry o directory [] e).mergeSort le := by
  unfold find
  cases hlocate : t.locate directory with
  | error e => simp
  | ok location =>
      obtain rfl := FileTree.target_of_locate hlocate
      simp only [true_and]
      cases hget : t.get? (t.target directory) with
      | none => simp
      | some e => simp [eq_comm]

/-- Sources that the walk meets in order are found as they are. -/
theorem find_of_sorted {sources : List Source}
    (hlocate : t.locate directory = .ok (t.target directory))
    (hwalk : (t.get? (t.target directory)).map (inEntry o directory []) = some sources)
    (hsorted : sources.Pairwise fun s s' => le s s' = true) : find o directory t = .ok sources := by
  obtain ⟨e, hget, rfl⟩ := Option.map_eq_some_iff.mp hwalk
  exact find_eq_ok_iff.mpr ⟨e, hlocate, hget, (List.mergeSort_of_pairwise hsorted).symm⟩

theorem ordered_of_get? {location : Location} {e : Entry} (h : t.get? location = some e) :
    e.Ordered := by
  have hall : ∀ (location : Location) (found : Option Entry), (∀ e ∈ found, e.Ordered) →
      ∀ e ∈ Entry.get? found location, e.Ordered := by
    intro location
    induction location with
    | nil => exact fun found hfound => hfound
    | cons n location ih =>
        intro found hfound
        match found with
        | none => exact fun e he => absurd he (Option.not_mem_none e)
        | some (.file _) => exact fun e he => absurd he (Option.not_mem_none e)
        | some (.directory entries) =>
            refine ih (entries.lookup n) fun e he => ?_
            obtain ⟨-, hordered⟩ : Entry.Sorted entries ∧ Entry.AllOrdered entries := hfound _ rfl
            exact Entry.allOrdered_iff.mp hordered _ (Entry.mem_of_lookup he)
  exact hall location t.root t.ordered_root e h

variable {sources : List Source}

/-- **Which sources are found.** -/
theorem mem_find_iff (h : find o directory t = .ok sources) {s : Source} :
    s ∈ sources ↔ ∃ below, FoundAt o directory t below s := by
  obtain ⟨e, -, hget, rfl⟩ := find_eq_ok_iff.mp h
  have hbelow (below : List Name) :
      t.get? (t.target directory ++ below) = Entry.get? (some e) below := by
    rw [FileTree.get?, Entry.get?_append, ← FileTree.get?, hget]
  rw [List.mem_mergeSort, mem_inEntry (ordered_of_get? hget)]
  constructor
  · rintro ⟨below, content, hfile, hvisible, hsource⟩
    refine ⟨below, ⟨content, ?_⟩, hvisible, hsource⟩
    rw [FileTree.fileAt_eq_some_iff, hbelow, hfile]
  · rintro ⟨below, ⟨content, hfile⟩, hvisible, hsource⟩
    rw [FileTree.fileAt_eq_some_iff, hbelow] at hfile
    exact ⟨below, content, hfile, hvisible, hsource⟩

theorem nodup_of_find (h : find o directory t = .ok sources) : sources.Nodup := by
  obtain ⟨e, -, hget, rfl⟩ := find_eq_ok_iff.mp h
  exact (List.mergeSort_perm _ _).nodup_iff.mpr (nodup_inEntry (ordered_of_get? hget) _ _)

theorem pairwise_of_find (h : find o directory t = .ok sources) :
    sources.Pairwise fun s s' => s.path.le s'.path = true := by
  obtain ⟨e, -, -, rfl⟩ := find_eq_ok_iff.mp h
  exact @List.pairwise_mergeSort Source le (fun _ _ _ => Path.le_trans)
    (fun s s' => Path.le_total s.path s'.path) _

namespace FoundAt

variable {below below' : List Name} {s s' : Source}

theorem path (h : FoundAt o directory t below s) : s.path = directory.descend below :=
  (ofPath?_eq_some_iff.mp h.source).1

theorem target (h : FoundAt o directory t below s) :
    t.target s.path = t.target directory ++ below := by
  rw [h.path, FileTree.target_descend]

/-- Names lead to one source at most. -/
theorem eq_of_below (h : FoundAt o directory t below s) (h' : FoundAt o directory t' below s') :
    s = s' :=
  Option.some.inj (h.source.symm.trans h'.source)

/-- Sources that come before each other in the order are the same. -/
theorem eq_of_le (h : FoundAt o directory t below s) (h' : FoundAt o directory t' below' s')
    (hle : s.path.le s'.path = true) (hge : s'.path.le s.path = true) : s = s' := by
  have hcomponents := Path.components_eq_of_le hle hge
  rw [h.path, h'.path, Path.components_descend, Path.components_descend,
    List.append_cancel_left_eq] at hcomponents
  obtain rfl := Component.name_injective.list_map hcomponents
  exact h.eq_of_below h'

/-- A file that is no source may change. -/
theorem frame {changed : Set Location} (hframe : FileTree.Frame changed t t')
    (hnone : ∀ below, t.target directory ++ below ∈ changed →
      ofPath? o (directory.descend below) = none)
    (h : FoundAt o directory t below s) : FoundAt o directory t' below s := by
  obtain ⟨⟨content, hfile⟩, hvisible, hsource⟩ := h
  refine ⟨⟨content, ?_⟩, hvisible, hsource⟩
  rw [hframe.target, hframe.fileAt _ fun hmem => ?_, hfile]
  rw [hnone below hmem] at hsource
  cases hsource

end FoundAt

/-- **Files that are no sources do not matter to the search.** -/
theorem find_frame {changed : Set Location} (hframe : FileTree.Frame changed t t')
    (htarget : t.target directory ∉ changed)
    (hnone : ∀ below, t.target directory ++ below ∈ changed →
      ofPath? o (directory.descend below) = none)
    (h : find o directory t = .ok sources) : find o directory t' = .ok sources := by
  obtain ⟨e, hlocate, hget, -⟩ := find_eq_ok_iff.mp h
  have hlocate' := hframe.locate htarget hlocate
  rw [← hframe.target] at hlocate'
  have hsome : (t'.get? (t'.target directory)).isSome = true := by
    rw [hframe.target]
    exact hframe.isSome_get? htarget (by rw [hget]; rfl)
  obtain ⟨e', hget'⟩ := Option.isSome_iff_exists.mp hsome
  have h' : find o directory t' = .ok ((inEntry o directory [] e').mergeSort le) :=
    find_eq_ok_iff.mpr ⟨e', hlocate', hget', rfl⟩
  have hnone' : ∀ below, t'.target directory ++ below ∈ changed →
      ofPath? o (directory.descend below) = none := by
    rwa [hframe.target]
  have hperm : ((inEntry o directory [] e').mergeSort le).Perm sources := by
    rw [List.perm_ext_iff_of_nodup (nodup_of_find h') (nodup_of_find h)]
    intro s
    rw [mem_find_iff h', mem_find_iff h]
    exact ⟨fun ⟨below, hs⟩ => ⟨below, hs.frame hframe.symm hnone'⟩,
      fun ⟨below, hs⟩ => ⟨below, hs.frame hframe hnone⟩⟩
  have heq := hperm.eq_of_pairwise (fun s s' hs hs' hle hge => ?_) (pairwise_of_find h')
    (pairwise_of_find h)
  · rw [h', heq]
  · obtain ⟨below, hs⟩ := (mem_find_iff h').mp hs
    obtain ⟨below', hs'⟩ := (mem_find_iff h).mp hs'
    exact hs.eq_of_le hs' hle hge

/-! ### Outputs -/

/-- Of two sources neither is the directory itself. -/
theorem FoundAt.exists_concat {below below' : List Name} {s s' : Source}
    (h : FoundAt o directory t below s) (h' : FoundAt o directory t below' s') (hne : s ≠ s') :
    ∃ init n, below = init ++ [n] := by
  rcases List.eq_nil_or_concat below with rfl | ⟨init, n, rfl⟩
  · -- The directory is a file then, and nothing stands below a file.
    cases below' with
    | nil => exact absurd (h.eq_of_below h') hne
    | cons n rest =>
        obtain ⟨content, hfile⟩ := h.file
        obtain ⟨content', hfile'⟩ := h'.file
        have hdirectory := FileTree.isDirectoryAt_of_prefix (List.prefix_append _ _) (by simp)
          (FileTree.isSome_get?_of_fileAt hfile')
        rw [List.append_nil] at hfile
        rw [FileTree.fileAt_eq_none_of_isDirectoryAt hdirectory] at hfile
        cases hfile
  · exact ⟨init, n, List.concat_eq_append⟩

section Outputs

variable {init init' : List Name} {n n' : Name} {s s' : Source} {suffix : String}

theorem FoundAt.extension?_name (h : FoundAt o directory t (init ++ [n]) s) :
    n.extension? = some s.extension := by
  rw [← Path.extension?_descend directory init n]
  exact (ofPath?_eq_some_iff.mp h.source).2.1

/-- **Where the output of a source goes**: the steps of its path are those that lead to the source's
directory, and then the one for its stem and the suffix. -/
theorem FoundAt.steps_output (h : FoundAt o directory t (init ++ [n]) s)
    (hsuffix : '/' ∉ suffix.toList) :
    ∃ above step, Component.ofSegment? (n.stem ++ suffix).toList = some step ∧
      (s.output suffix).steps = above ++ [step] ∧
      FileTree.walk t.current above = t.target directory ++ init := by
  have hstem := Name.text_eq_of_extension? h.extension?_name
  have hslash : '/' ∉ (n.stem ++ suffix).toList := by
    have hname := Component.slash_not_mem_name n
    rw [hstem.1] at hname
    simp only [String.toList_append, List.mem_append, not_or] at hname ⊢
    exact ⟨hname.1.1, hsuffix⟩
  have hne : (n.stem ++ suffix).toList ≠ [] := by
    simp only [String.toList_append, ne_eq, List.append_eq_nil_iff, not_and]
    exact fun hempty => absurd (String.toList_injective hempty) hstem.2
  obtain ⟨step, hstep⟩ := Option.isSome_iff_exists.mp (Component.isSome_ofSegment? hne hslash)
  have hsteps : s.path.steps = (directory.steps ++ init.map .name) ++ [.name n] := by
    rw [h.path, Path.steps_descend, List.map_append, List.append_assoc]
    rfl
  have houtput : s.output suffix = s.path.withFileName (n.stem ++ suffix) := by
    rw [output, outputOf, Path.fileName?_of_steps hsteps]
    rfl
  obtain ⟨above, habove, hwalk⟩ := Path.steps_withFileName hsteps hslash
  refine ⟨above, step, hstep, ?_, ?_⟩
  · rw [houtput, habove, hstep]
    rfl
  · rw [hwalk, Path.walk_append, FileTree.walk_names, ← FileTree.target]

/-- The output of a source is a file next to it or a directory. -/
theorem FoundAt.target_output (h : FoundAt o directory t (init ++ [n]) s)
    (hsuffix : '/' ∉ suffix.toList) :
    (∃ m : Name, m.text = n.stem ++ suffix ∧
      t.target (s.output suffix) = t.target directory ++ init ++ [m]) ∨
    t.isDirectoryAt (t.target (s.output suffix)) = true := by
  obtain ⟨above, step, hstep, hsteps, hwalk⟩ := h.steps_output hsuffix
  obtain ⟨content, hfile⟩ := h.file
  have htarget : t.target (s.output suffix) = FileTree.next (t.target directory ++ init) step := by
    rw [FileTree.target, hsteps, Path.walk_append, hwalk]
    rfl
  have hdirectory : t.isDirectoryAt (t.target directory ++ init) = true :=
    FileTree.isDirectoryAt_of_prefix ⟨[n], by simp⟩ (by simp) (FileTree.isSome_get?_of_fileAt hfile)
  rw [htarget]
  cases step with
  | root | current | parent => exact .inr (FileTree.isDirectoryAt_next hdirectory (by simp))
  | name m =>
      refine .inl ⟨m, ?_, rfl⟩
      exact String.toList_injective (Component.ofSegment?_inj (Component.ofSegment?_name m) hstep)

/-- **Outputs of two sources are not one file**, if the sources have one extension. -/
theorem FoundAt.isDirectoryAt_of_target_output (h : FoundAt o directory t (init ++ [n]) s)
    (h' : FoundAt o directory t (init' ++ [n']) s') (hextension : s.extension = s'.extension)
    (hne : s ≠ s') (hsuffix : '/' ∉ suffix.toList)
    (htarget : t.target (s.output suffix) = t.target (s'.output suffix)) :
    t.isDirectoryAt (t.target (s.output suffix)) = true := by
  rcases h.target_output hsuffix with ⟨m, hm, hfile⟩ | hdirectory
  · rcases h'.target_output hsuffix with ⟨m', hm', hfile'⟩ | hdirectory'
    · rw [hfile, hfile', List.append_singleton_inj, List.append_cancel_left_eq] at htarget
      obtain ⟨rfl, rfl⟩ := htarget
      have hstem : n.stem = n'.stem := (String.append_left_inj suffix).mp (hm.symm.trans hm')
      obtain rfl := Name.eq_of_stem_eq h.extension?_name (hextension ▸ h'.extension?_name) hstem
      exact absurd (h.eq_of_below h') hne
    · rw [htarget]
      exact hdirectory'
  · exact hdirectory

/-- **The paths of outputs are different** for sources with one extension. -/
theorem FoundAt.output_ne (h : FoundAt o directory t (init ++ [n]) s)
    (h' : FoundAt o directory t (init' ++ [n']) s') (hextension : s.extension = s'.extension)
    (hne : s ≠ s') (hsuffix : '/' ∉ suffix.toList) : s.output suffix ≠ s'.output suffix := by
  intro heq
  obtain ⟨above, step, hstep, hsteps, hwalk⟩ := h.steps_output hsuffix
  obtain ⟨above', step', hstep', hsteps', hwalk'⟩ := h'.steps_output hsuffix
  rw [heq, hsteps', List.append_singleton_inj] at hsteps
  obtain ⟨rfl, rfl⟩ := hsteps
  rw [hwalk, List.append_cancel_left_eq] at hwalk'
  have htext := String.toList_injective (Component.ofSegment?_inj hstep hstep')
  have hstem : n.stem = n'.stem := (String.append_left_inj suffix).mp htext
  obtain rfl := Name.eq_of_stem_eq h.extension?_name (hextension ▸ h'.extension?_name) hstem
  subst hwalk'
  exact hne (h.eq_of_below h')

end Outputs

end Source

end Stencil
