import Stencil.Proofs.CachedOutput
import Stencil.Proofs.Schedules

/-!
# Building again

After a build that has succeeded the cache holds what it needs: for every source the entry has the
digest of its text, and an output stands in its place. A source in this state is `Primed`: when it
is built again its output comes from the cache and no file changes. A source is primed when it has
been built, and it stays primed while only files of other sources change.

A build that follows finds the same sources, since what the first one has written is no source, and
then all of them are primed.

## Main results

* `primed_of_buildFile`: **a source that has been built is primed.**
* `primed_of_buildFiles`: all sources are primed after a build.
* `find_after_build`: a build does not change which sources are found.
* `rebuild_changes_nothing`: **a second build takes everything from the cache** and leaves the tree
  as it is.
-/

namespace Stencil

open FileTree

theorem FileTree.exists?_of_read {t : FileTree} {p : Path} {text : String}
    (h : t.read p = .ok text) : t.exists? p = true := by
  rw [exists?, (read_eq_ok_iff.mp h).1]
  rfl

namespace Builder

variable {b : Builder} {c : Cache} {s : Source} {t t' : FileTree} {changed : Set Location}
  {sources : List Source} {directory : Path}

/-! ### One source -/

/-- Building the source again takes its output from the cache and changes no file. -/
def Primed (b : Builder) (t : FileTree) (s : Source) : Prop :=
  (b.buildFile s).on t = (.ok (b.outputOf s, .cached), t)

/-- A source is primed if the cache holds its output and an output stands in its place. -/
theorem primed_of_hit {text output : String} (hread : t.read s.path = .ok text)
    (hlookup : (b.lookup s text).on t = (.ok (some output), t))
    (hexists : t.exists? (b.outputOf s) = true) : b.Primed t s := by
  have hwaiting : (b.step s .waiting).on t = (.ok (.loaded text), t) := by
    have hload : (load s.path).on t = (.ok text, t) := by
      simp [load, Files.explain, Files.on, Files.ask, hread]
    exact Files.on_bind_of_ok hload
  have hloaded : (b.step s (.loaded text)).on t = (.ok (.found output), t) :=
    Files.on_bind_of_ok hlookup
  have hfound : (b.step s (.found output)).on t = (.ok (.done .cached), t) := by
    have hrestore : (restore (b.outputOf s) output).on t = (.ok (), t) := by
      rw [restore, Files.on_bind, Files.on_ask, hexists]
      rfl
    exact Files.on_bind_of_ok hrestore
  have hadvance : (b.advance s stepCount .waiting).on t = (.ok (.done .cached), t) := by
    calc (b.advance s stepCount .waiting).on t
        = (b.advance s 3 (.loaded text)).on t := Files.on_bind_of_ok hwaiting
      _ = (b.advance s 2 (.found output)).on t := Files.on_bind_of_ok hloaded
      _ = (b.advance s 1 (.done .cached)).on t := Files.on_bind_of_ok hfound
      _ = (.ok (.done .cached), t) := rfl
  exact Files.on_bind_of_ok hadvance

/-- A source stays primed while files change that play no part for it. -/
theorem Primed.frame (h : b.Primed t s) (hframe : Frame changed t t')
    (hdisjoint : Disjoint (b.footprint t s) changed) : b.Primed t' s := by
  have hfootprint := footprint_buildFile b s t
  obtain ⟨u, hu, hsame⟩ := hfootprint.exchange (.refl _ _) hframe hdisjoint h
  have hwritten := hfootprint.frame t' (hframe.mono (Set.subset_univ _))
  rw [hu] at hwritten
  -- At what it may have written the tree is as before, and elsewhere it was not changed.
  have heq : u = t' := eq_of_frame
    { hwritten with
      fileAt := fun location _ => by
        by_cases hlocation : location ∈ b.written t s
        · have hnot : location ∉ changed :=
            Set.disjoint_left.mp hdisjoint (Set.mem_union_right _ hlocation)
          rw [hsame.fileAt _ hnot, hframe.fileAt _ hnot]
        · exact hwritten.fileAt _ hlocation }
  rw [Primed, hu, heq]

/-- The paths that building a source has to do with. -/
def paths (b : Builder) (c : Cache) (s : Source) : List Path :=
  [s.path, b.outputOf s, c.entryPath s.path]

theorem entryFile_eq (hcache : b.cache = some c) (t : FileTree) (s : Source) :
    b.entryFile t s = t.named (c.entryPath s.path) := by
  ext location
  simp [entryFile, hcache]

theorem footprint_subset (hcache : b.cache = some c) (t : FileTree) (s : Source) :
    b.footprint t s ⊆ { location | location ∈ (b.paths c s).map t.target } := by
  rw [footprint, written, entryFile_eq hcache]
  rintro location (hmem | hmem | hmem) <;> simp [paths, target_of_mem_named hmem]

theorem changed_subset (hcache : b.cache = some c) (t : FileTree) (sources : List Source) :
    b.outputFiles t sources ∪ b.entryFiles t sources ⊆
      { location | location ∈ (sources.flatMap (b.paths c)).map t.target } := by
  have hsub {s : Source} (hs : s ∈ sources) {location : Location}
      (h : location ∈ b.footprint t s) :
      location ∈ (sources.flatMap (b.paths c)).map t.target := by
    obtain ⟨p, hp, rfl⟩ := List.mem_map.mp (footprint_subset hcache t s h)
    exact List.mem_map_of_mem (List.mem_flatMap.mpr ⟨s, hs, hp⟩)
  rintro location (⟨s, hs, h⟩ | ⟨s, hs, h⟩)
  · exact hsub hs (.inr (.inl h))
  · exact hsub hs (.inr (.inr h))

/-- Where the entry of a source can be written, keeping its output writes it. -/
theorem write_of_keep {text output : String} (hcache : b.cache = some c)
    (hentry : (t.named (c.entryPath s.path)).Nonempty)
    (h : (b.keep s text output).on t = (.ok (), t')) :
    t.write (c.entryPath s.path) (.text (CacheEntry.render ⟨c.hash text, output⟩)) = .ok t' := by
  obtain ⟨location, hlocation⟩ := hentry
  obtain ⟨u, hu⟩ :=
    exists_write hlocation (.text (CacheEntry.render ⟨c.hash text, output⟩))
  have hkeep : (b.keep s text output).on t = (.ok (), u) := by
    simp only [keep, hcache, Cache.set]
    rw [Files.on_attempt, hu]
  rw [hkeep] at h
  rw [hu, (Prod.mk.inj h).2]

/-- The paths of one source lead to different places. -/
structure Spread (b : Builder) (c : Cache) (t : FileTree) (s : Source) : Prop where
  pathOutput : t.target s.path ≠ t.target (b.outputOf s)
  pathEntry : t.target s.path ≠ t.target (c.entryPath s.path)
  outputEntry : t.target (b.outputOf s) ≠ t.target (c.entryPath s.path)

theorem spread_of_nodup (h : ((b.paths c s).map t.target).Nodup) : b.Spread c t s := by
  obtain ⟨⟨hpathOutput, hpathEntry⟩, houtputEntry⟩ :
      (t.target s.path ≠ t.target (b.outputOf s) ∧
        t.target s.path ≠ t.target (c.entryPath s.path)) ∧
      t.target (b.outputOf s) ≠ t.target (c.entryPath s.path) := by
    simpa [paths] using h
  exact ⟨hpathOutput, hpathEntry, houtputEntry⟩

theorem Spread.frame (h : b.Spread c t s) (hframe : Frame changed t t') : b.Spread c t' s := by
  have htarget : t'.target = t.target := funext hframe.target
  refine ⟨?_, ?_, ?_⟩
  · rw [htarget]
    exact h.pathOutput
  · rw [htarget]
    exact h.pathEntry
  · rw [htarget]
    exact h.outputEntry

/-- A source is primed when its output has been written from the cache. -/
theorem primed_of_restored {text output : String} (hcache : b.cache = some c)
    (hspread : b.Spread c t s) (hread : t.read s.path = .ok text)
    (hlookup : (b.lookup s text).on t = (.ok (some output), t))
    (hwrite : t.write (b.outputOf s) (.text output) = .ok t') : b.Primed t' s := by
  obtain ⟨hwritten, -, -⟩ := write_spec hwrite
  have hdisjoint : Disjoint (b.entryFile t s) {t.target (b.outputOf s)} := by
    rw [Set.disjoint_singleton_right, entryFile_eq hcache]
    exact fun hmem => hspread.outputEntry (target_of_mem_named hmem).symm
  obtain ⟨u, hlookup', -⟩ :=
    (footprint_lookup b s text).exchange (.refl _ _) hwritten hdisjoint hlookup
  obtain rfl := (lookup_spec hlookup').2 (by simp)
  exact primed_of_hit (hwritten.read hspread.pathOutput hread) hlookup'
    (exists?_of_read (read_write hwrite))

/-- A source is primed when it has been compiled and its output is kept. -/
theorem primed_of_compiled {u : FileTree} {text code : String} (hcache : b.cache = some c)
    (hspread : b.Spread c t s) (hentry : (t.named (c.entryPath s.path)).Nonempty)
    (hread : t.read s.path = .ok text) (hwrite : t.write (b.outputOf s) (.text code) = .ok u)
    (hkeep : (b.keep s text code).on u = (.ok (), t')) : b.Primed t' s := by
  obtain ⟨hwritten, -, -⟩ := write_spec hwrite
  rw [← hwritten.named] at hentry
  have hset := write_of_keep hcache hentry hkeep
  obtain ⟨hkept, -, -⟩ := write_spec hset
  have hspread' := hspread.frame hwritten
  have hread' : t'.read s.path = .ok text :=
    hkept.read hspread'.pathEntry (hwritten.read hspread.pathOutput hread)
  have houtput : t'.read (b.outputOf s) = .ok code :=
    hkept.read hspread'.outputEntry (read_write hwrite)
  have hlookup : (b.lookup s text).on t' = (.ok (some code), t') := by
    simp only [lookup, hcache]
    rw [Cache.get?_of_entry (read_write hset) (CacheEntry.parse?_render _), if_pos rfl]
  exact primed_of_hit hread' hlookup (exists?_of_read houtput)

/-- **A source that has been built is primed**, if its entry can be written. -/
theorem primed_of_buildFile {output : Path × Origin} (hcache : b.cache = some c)
    (hspread : b.Spread c t s) (hentry : (t.named (c.entryPath s.path)).Nonempty)
    (h : (b.buildFile s).on t = (.ok output, t')) : b.Primed t' s := by
  obtain ⟨text, found, u, hread, hlookup, hend⟩ := buildFile_cases h
  obtain ⟨hasked, hhit⟩ := lookup_spec hlookup
  cases found with
  | some cached =>
      obtain rfl := hhit (by simp)
      rcases hend with ⟨hexists, rfl⟩ | ⟨-, hwrite⟩
      · exact primed_of_hit hread hlookup hexists
      · exact primed_of_restored hcache hspread hread hlookup hwrite
  | none =>
      obtain ⟨code, v, -, hwrite, hkeep⟩ := hend
      have hentry' : t.target s.path ∉ b.entries t s := by
        rintro ⟨c', hc', heq⟩
        rw [hcache] at hc'
        obtain rfl := Option.some.inj hc'
        exact hspread.pathEntry heq
      rw [← hasked.named] at hentry
      exact primed_of_compiled hcache (hspread.frame hasked) hentry (hasked.read hentry' hread)
        hwrite hkeep

/-! ### All sources -/

theorem fst_of_buildFile {output : Path × Origin} (h : (b.buildFile s).on t = (.ok output, t')) :
    output.1 = b.outputOf s := by
  obtain ⟨stage, u, -, hlast⟩ := Files.on_bind_eq_ok h
  cases hlast
  rfl

/-- The outputs of a build are those of the sources. -/
theorem fst_of_buildFiles {outputs : List (Path × Origin)}
    (h : (b.buildFiles sources).on t = (.ok outputs, t')) :
    outputs.map Prod.fst = sources.map b.outputOf := by
  induction sources generalizing t outputs with
  | nil =>
      cases h
      rfl
  | cons s rest ih =>
      obtain ⟨output, u, hfile, hmore⟩ := Files.on_bind_eq_ok h
      obtain ⟨outputs', v, hrest, hlast⟩ := Files.on_bind_eq_ok hmore
      cases hlast
      rw [List.map_cons, List.map_cons, fst_of_buildFile hfile, ih hrest]

/-- Primed sources are all taken from the cache. -/
theorem buildFiles_of_primed (h : ∀ s ∈ sources, b.Primed t s) :
    (b.buildFiles sources).on t = (.ok (sources.map fun s => (b.outputOf s, .cached)), t) := by
  induction sources with
  | nil => rfl
  | cons s rest ih =>
      have hrest := ih fun s hs => h s (List.mem_cons_of_mem _ hs)
      have hs : b.Primed t s := h s List.mem_cons_self
      rw [buildFiles, Files.on_bind_of_ok hs, Files.on_bind_of_ok hrest]
      rfl

theorem ofOutputs_cached (b : Builder) (sources : List Source) :
    Report.ofOutputs (sources.map fun s => (b.outputOf s, .cached)) =
      { compiled := 0
        cached := sources.length
        outputs := (sources.map b.outputOf).mergeSort Path.le } := by
  simp [Report.ofOutputs, List.filter_map, Function.comp_def]

/-- **All sources are primed after a build**, if their paths lead to different places. -/
theorem primed_of_buildFiles {outputs : List (Path × Origin)} (hcache : b.cache = some c)
    (hdifferent : ((sources.flatMap (b.paths c)).map t.target).Nodup)
    (hentry : ∀ s ∈ sources, (t.named (c.entryPath s.path)).Nonempty)
    (h : (b.buildFiles sources).on t = (.ok outputs, t')) : ∀ s ∈ sources, b.Primed t' s := by
  induction sources generalizing t outputs with
  | nil => exact fun s hs => absurd hs List.not_mem_nil
  | cons first rest ih =>
      obtain ⟨output, u, hfile, hmore⟩ := Files.on_bind_eq_ok h
      obtain ⟨outputs', v, hrest, hlast⟩ := Files.on_bind_eq_ok hmore
      cases hlast
      rw [List.flatMap_cons, List.map_append, List.nodup_append] at hdifferent
      obtain ⟨hfirst, hothers, hapart⟩ := hdifferent
      have hframe : Frame (b.written t first) t u := by
        simpa [hfile] using (footprint_buildFile b first t).frame t (.refl _ _)
      have htarget : u.target = t.target := funext hframe.target
      rw [← htarget] at hothers hapart
      intro s hs
      rcases List.mem_cons.mp hs with rfl | hs
      · have hu : b.Primed u s :=
          primed_of_buildFile hcache (spread_of_nodup hfirst) (hentry s hs) hfile
        -- What is built later does not touch the files of this source.
        have hlater : Frame (b.outputFiles u rest ∪ b.entryFiles u rest) u t' := by
          simpa [hrest] using (footprint_buildFiles b u (List.Subset.refl rest)).frame u (.refl _ _)
        refine hu.frame hlater (Set.disjoint_left.mpr fun location hmine hother => ?_)
        exact hapart location (footprint_subset hcache u s hmine) location
          (changed_subset hcache u rest hother) rfl
      · refine ih hothers (fun s' hs' => ?_) hrest s hs
        rw [hframe.named]
        exact hentry s' (List.mem_cons_of_mem _ hs')

/-! ### The sources of the next build -/

/-- The extension of a path that names a file is that of the name at the end of its location. -/
theorem extension?_of_mem_named {p : Path} {location : Location} (h : location ∈ t.named p) :
    ∃ parent name, location = parent ++ [name] ∧ p.extension? = name.extension? := by
  obtain ⟨parent, name, hlast, -, -, -, rfl⟩ := h
  obtain ⟨-, -, steps, hsteps, -⟩ := lastStep_eq_ok_iff.mp hlast
  refine ⟨parent, name, rfl, ?_⟩
  rw [Path.extension?, Path.fileName?_of_steps hsteps, Option.bind_some]

/-- A file that is named by a path without one of the extensions is no source. -/
theorem ofPath?_eq_none {o : Options} {p : Path} {below : List Name}
    (hextension : ∀ extension ∈ o.extensions, p.extension? ≠ some extension)
    (hne : below ≠ []) (h : t.target directory ++ below ∈ t.named p) :
    Source.ofPath? o (directory.descend below) = none := by
  obtain ⟨init, n, rfl⟩ := (List.eq_nil_or_concat below).resolve_left hne
  rw [List.concat_eq_append] at h ⊢
  obtain ⟨parent, name, hlocation, hname⟩ := extension?_of_mem_named h
  rw [← List.append_assoc, List.append_singleton_inj] at hlocation
  rw [Option.eq_none_iff_forall_ne_some]
  intro s hs
  obtain ⟨-, hextension', hmem⟩ := Source.ofPath?_eq_some_iff.mp hs
  rw [Path.extension?_descend, hlocation.2, ← hname] at hextension'
  exact hextension _ hmem hextension'

/-- If the directory of a search is a file, it is the only source. -/
theorem target_eq_of_file (hfind : Source.find b.options directory t = .ok sources)
    (hs : s ∈ sources) (hfile : t.isDirectoryAt (t.target directory) = false) :
    t.target s.path = t.target directory := by
  obtain ⟨below, hfound⟩ := (Source.mem_find_iff hfind).mp hs
  obtain ⟨content, hcontent⟩ := hfound.file
  rw [hfound.target]
  cases below with
  | nil => exact List.append_nil _
  | cons n below =>
      have hdirectory := isDirectoryAt_of_prefix (List.prefix_append _ _) (by simp)
        (isSome_get?_of_fileAt hcontent)
      rw [hdirectory] at hfile
      cases hfile

/-- **A build does not change which sources are found**, if neither outputs nor entries have one of
the extensions. -/
theorem find_after_build (hcache : b.cache = some c)
    (hfind : Source.find b.options directory t = .ok sources)
    (hdifferent : ∀ s ∈ sources, ((b.paths c s).map t.target).Nodup)
    (hextension : ∀ s ∈ sources, ∀ extension ∈ b.options.extensions,
      (b.outputOf s).extension? ≠ some extension ∧
        (c.entryPath s.path).extension? ≠ some extension) :
    Source.find b.options directory ((b.buildDirectory directory).on t).2 = .ok sources := by
  have hnamed {location : Location}
      (h : location ∈ b.outputFiles t sources ∪ b.entryFiles t sources) :
      ∃ s ∈ sources, ∃ p ∈ [b.outputOf s, c.entryPath s.path], location ∈ t.named p ∧
        ∀ extension ∈ b.options.extensions, p.extension? ≠ some extension := by
    rcases h with ⟨s, hs, hmem⟩ | ⟨s, hs, hmem⟩
    · exact ⟨s, hs, _, List.mem_cons_self, hmem, fun e he => (hextension s hs e he).1⟩
    · rw [entryFile_eq hcache] at hmem
      exact ⟨s, hs, _, List.mem_cons_of_mem _ List.mem_cons_self, hmem,
        fun e he => (hextension s hs e he).2⟩
  have htarget : t.target directory ∉ b.outputFiles t sources ∪ b.entryFiles t sources := by
    intro hmem
    obtain ⟨s, hs, p, hp, hmem, -⟩ := hnamed hmem
    -- The directory is a file, and a source that is in the way of its own output or entry.
    have hpath := target_eq_of_file hfind hs (isDirectoryAt_of_mem_named hmem)
    rw [← target_of_mem_named hmem] at hpath
    have hfirst := (List.nodup_cons.mp (hdifferent s hs)).1
    rw [hpath] at hfirst
    exact hfirst (List.mem_map_of_mem hp)
  refine Source.find_frame (frame_buildDirectory hfind) htarget (fun below hmem => ?_) hfind
  obtain ⟨s, hs, p, -, hmem', hextension'⟩ := hnamed hmem
  refine ofPath?_eq_none hextension' ?_ hmem'
  rintro rfl
  rw [List.append_nil] at hmem
  exact htarget hmem

/-- **A second build takes everything from the cache and changes no file.** The paths of sources,
outputs and entries have to lead to different places, and the entries have to be such that they can
be written and are no sources. -/
theorem rebuild_changes_nothing {report : Report} (hcache : b.cache = some c)
    (hfind : Source.find b.options directory t = .ok sources)
    (hdifferent : ((sources.flatMap (b.paths c)).map t.target).Nodup)
    (hextension : ∀ s ∈ sources, ∀ extension ∈ b.options.extensions,
      (b.outputOf s).extension? ≠ some extension ∧
        (c.entryPath s.path).extension? ≠ some extension)
    (hentry : ∀ s ∈ sources, ∀ content, ∃ u, t.write (c.entryPath s.path) content = .ok u)
    (hbuild : (b.buildDirectory directory).on t = (.ok report, t')) :
    (b.buildDirectory directory).on t' =
      (.ok { compiled := 0, cached := sources.length, outputs := report.outputs }, t') := by
  have hsources : ∀ s ∈ sources, ((b.paths c s).map t.target).Nodup := by
    rw [List.map_flatMap, List.nodup_flatMap] at hdifferent
    exact hdifferent.1
  have hnamed : ∀ s ∈ sources, (t.named (c.entryPath s.path)).Nonempty := fun s hs => by
    obtain ⟨u, hu⟩ := hentry s hs (.text "")
    exact ⟨_, mem_named_of_write hu⟩
  have hfind' := find_after_build hcache hfind hsources hextension
  rw [hbuild] at hfind'
  rw [on_buildDirectory hfind] at hbuild
  obtain ⟨outputs, u, hfiles, hlast⟩ := Files.on_bind_eq_ok hbuild
  cases hlast
  have hprimed := primed_of_buildFiles hcache hdifferent hnamed hfiles
  rw [on_buildDirectory hfind', Files.on_bind_of_ok (buildFiles_of_primed hprimed),
    ofOutputs_cached, ← fst_of_buildFiles hfiles]
  rfl

/-- The project with the directory of its cache. -/
def preparedProject : FileTree := ((create {} ⟨"p"⟩).on newProject).2

/-- The second build of the project. -/
theorem second_build_of_project :
    ((projectBuilder.buildDirectory ⟨"p"⟩).on preparedProject).1 =
        .ok { compiled := 1, outputs := [⟨"p/a_gas.go"⟩] } ∧
      (projectBuilder.buildDirectory ⟨"p"⟩).on
          ((projectBuilder.buildDirectory ⟨"p"⟩).on preparedProject).2 =
        (.ok { cached := 1, outputs := [⟨"p/a_gas.go"⟩] },
          ((projectBuilder.buildDirectory ⟨"p"⟩).on preparedProject).2) := by
  have hfacts : Source.find projectBuilder.options ⟨"p"⟩ preparedProject = .ok [page] ∧
      (([page].flatMap (projectBuilder.paths ⟨⟨"p/.htmlc/cache"⟩, {}⟩)).map
        preparedProject.target).Nodup ∧
      (∀ s ∈ [page], ∀ extension ∈ projectBuilder.options.extensions,
        (projectBuilder.outputOf s).extension? ≠ some extension ∧
          (Cache.entryPath ⟨⟨"p/.htmlc/cache"⟩, {}⟩ s.path).extension? ≠ some extension) ∧
      (preparedProject.write (Cache.entryPath ⟨⟨"p/.htmlc/cache"⟩, {}⟩ page.path)
        (.text "")).isOk = true ∧
      ((projectBuilder.buildDirectory ⟨"p"⟩).on preparedProject).1 =
        .ok { compiled := 1, outputs := [⟨"p/a_gas.go"⟩] } := by
    decide +kernel
  obtain ⟨hfind, hdifferent, hextension, hwrite, hbuild⟩ := hfacts
  refine ⟨hbuild, rebuild_changes_nothing rfl hfind hdifferent hextension ?_
    (Prod.ext hbuild rfl)⟩
  intro s hs content
  obtain rfl := List.mem_singleton.mp hs
  cases hempty : preparedProject.write (Cache.entryPath ⟨⟨"p/.htmlc/cache"⟩, {}⟩ page.path)
      (.text "") with
  | ok u => exact exists_write (mem_named_of_write hempty) content
  | error e =>
      rw [hempty] at hwrite
      cases hwrite

end Builder

end Stencil
