import Stencil.Proofs.BuildOutputs
import Stencil.Proofs.Discovery
import Mathlib.Data.Set.Lattice
import Mathlib.Order.CompletePartialOrder

/-!
# The files that play a part

A path names a file if a file stands there or can be written there (`named`). Other paths lead
nowhere, or to a directory, and directories do not change in a build. So all that a computation on
files has to do with is in two sets of locations: the files that it may change, and the files that
it looks at. `Files.Footprint` says that a computation keeps to such sets, whether it succeeds or
not, and it is put together along the computation.

For a source the files are the source itself, its output, and its entry in the cache.

## Main results

* `FileTree.eq_of_frame`: trees with the same directories and files are equal.
* `Builder.footprint_step`: **what a step of a source looks at and changes.**
* `Builder.footprint_buildFiles`: what building sources in order changes.
-/

namespace Stencil

/-! ### Trees are told apart by their files and directories -/

namespace Entry

/-- What is seen of an entry without a look into it: nothing, a file with its content, or a
directory. -/
def shape : Option Entry → Option (Option Content)
  | none => none
  | some (file content) => some (some content)
  | some (directory _) => some none

theorem shape_eq_none_iff {found : Option Entry} : shape found = none ↔ found = none := by
  rcases found with _ | (_ | _) <;> simp [shape]

theorem Sorted.nodup {entries : List (Name × Entry)} (h : Sorted entries) : entries.Nodup := by
  refine List.Pairwise.imp ?_ h
  rintro x y hlt rfl
  exact String.lt_irrefl _ hlt

/-- Entries in order that show the same everywhere are the same. -/
theorem eq_of_shape_eq {e e' : Entry} (he : e.Ordered) (he' : e'.Ordered)
    (h : ∀ location, shape (get? (some e) location) = shape (get? (some e') location)) :
    e = e' := by
  induction e generalizing e' with
  | file content =>
      cases e' with
      | file content' =>
          have hcontent : some (some content) = some (some content') := h []
          rw [Option.some.inj (Option.some.inj hcontent)]
      | directory entries' => cases h []
  | directory entries ih =>
      cases e' with
      | file content' => cases h []
      | directory entries' =>
          obtain ⟨hsorted, hall⟩ : Sorted entries ∧ AllOrdered entries := he
          obtain ⟨hsorted', hall'⟩ : Sorted entries' ∧ AllOrdered entries' := he'
          have hlookup (n : Name) : entries.lookup n = entries'.lookup n := by
            have hbelow (location : Location) : shape (get? (entries.lookup n) location) =
                shape (get? (entries'.lookup n) location) := h (n :: location)
            have hhere : shape (entries.lookup n) = shape (entries'.lookup n) := hbelow []
            match hn : entries.lookup n, hn' : entries'.lookup n with
            | none, found => exact (shape_eq_none_iff.mp (by rw [← hn', ← hhere, hn]; rfl)).symm
            | some e, none => exact shape_eq_none_iff.mp (by rw [← hn, hhere, hn']; rfl)
            | some e, some e' =>
                have hmem := mem_of_lookup hn
                have hmem' := mem_of_lookup hn'
                rw [hn, hn'] at hbelow
                exact congrArg some (ih _ hmem (allOrdered_iff.mp hall _ hmem)
                  (allOrdered_iff.mp hall' _ hmem') hbelow)
          have hperm : entries.Perm entries' := by
            rw [List.perm_ext_iff_of_nodup hsorted.nodup hsorted'.nodup]
            rintro ⟨n, e⟩
            rw [← lookup_eq_some_iff hsorted, ← lookup_eq_some_iff hsorted', hlookup]
          rw [hperm.eq_of_pairwise (fun x y _ _ hlt hgt => ?_) hsorted hsorted']
          exact absurd (String.lt_trans hlt hgt) (String.lt_irrefl _)

end Entry

namespace FileTree

variable {t t' : FileTree} {changed : Set Location}

theorem shape_get? (t : FileTree) (location : Location) :
    Entry.shape (t.get? location) =
      if t.isDirectoryAt location then some none else (t.fileAt location).map some := by
  unfold isDirectoryAt fileAt
  match t.get? location with
  | none => rfl
  | some (.file _) => rfl
  | some (.directory _) => rfl

/-- **Trees with the same directories and files are equal.** -/
theorem eq_of_frame (h : Frame ∅ t t') : t' = t := by
  have hshape (location : Location) :
      Entry.shape (t.get? location) = Entry.shape (t'.get? location) := by
    rw [shape_get?, shape_get?, h.isDirectoryAt, h.fileAt _ (Set.notMem_empty location)]
  have hentries := Entry.eq_of_shape_eq t.ordered t'.ordered hshape
  obtain ⟨entries, current, ordered⟩ := t
  obtain ⟨entries', current', ordered'⟩ := t'
  obtain rfl := Entry.directory.inj hentries
  obtain rfl : current' = current := h.current
  rfl

/-! ### The file that a path names -/

variable {p : Path} {location : Location} {content : Content}

/-- The location of the file that a path names: a file stands there or can be written there. -/
def named (t : FileTree) (p : Path) : Set Location :=
  { location | ∃ parent name, t.lastStep p = .ok (parent, .name name) ∧ p.endsInSlash = false ∧
      isTooLong name = false ∧ t.isDirectoryAt (parent ++ [name]) = false ∧
      location = parent ++ [name] }

theorem target_of_mem_named (h : location ∈ t.named p) : t.target p = location := by
  obtain ⟨parent, name, hlast, -, -, -, rfl⟩ := h
  exact target_of_lastStep hlast

theorem isDirectoryAt_of_mem_named (h : location ∈ t.named p) :
    t.isDirectoryAt location = false := by
  obtain ⟨parent, name, -, -, -, hfile, rfl⟩ := h
  exact hfile

theorem mem_named_of_write (h : t.write p content = .ok t') : t.target p ∈ t.named p := by
  obtain ⟨parent, name, hlast, hslash, hlong, hfile, -⟩ := write_cases h
  exact ⟨parent, name, hlast, hslash, hlong, hfile, target_of_lastStep hlast⟩

/-- Where a path names a file, it can be written. -/
theorem exists_write (h : location ∈ t.named p) (content : Content) :
    ∃ t', t.write p content = .ok t' := by
  obtain ⟨parent, name, hlast, hslash, hlong, hfile, -⟩ := h
  unfold write
  simp [hlast, bind, Except.bind, hslash, hlong, hfile, pure, Except.pure]

theorem follow_concat {here : Location} {steps : List Component} {step : Component}
    (h : t.follow here (steps ++ [step]) = .ok location) :
    ∃ parent, t.follow here steps = .ok parent ∧ t.isDirectoryAt parent = true ∧
      t.Admits parent step ∧ location = next parent step := by
  induction steps generalizing here with
  | nil =>
      obtain ⟨hhere, hstep, hend⟩ := follow_cons_eq_ok_iff.mp h
      exact ⟨here, rfl, hhere, hstep, (Except.ok.inj hend).symm⟩
  | cons first steps ih =>
      obtain ⟨hhere, hfirst, hsteps⟩ := follow_cons_eq_ok_iff.mp h
      obtain ⟨parent, hparent, hlast⟩ := ih hsteps
      exact ⟨parent, follow_cons_eq_ok_iff.mpr ⟨hhere, hfirst, hparent⟩, hlast⟩

/-- A path that the system takes has a last step. -/
theorem exists_last_step (h : check p = .ok ()) : ∃ steps step, p.steps = steps ++ [step] := by
  have hne : p.text ≠ "" := by
    rintro hempty
    simp [check, hempty] at h
  rcases List.eq_nil_or_concat p.steps with hnil | ⟨steps, step, hsteps⟩
  · exact absurd hnil (Path.steps_ne_nil hne)
  · exact ⟨steps, step, hsteps.trans (List.concat_eq_append ..)⟩

/-- What is located is there. -/
theorem isSome_get?_of_locate (h : t.locate p = .ok location) :
    (t.get? location).isSome = true := by
  obtain ⟨hcheck, hfollow, -⟩ := locate_eq_ok_iff.mp h
  obtain ⟨steps, step, hsteps⟩ := exists_last_step hcheck
  rw [hsteps] at hfollow
  obtain ⟨parent, -, hdirectory, hstep, rfl⟩ := follow_concat hfollow
  by_cases hname : ∃ name, step = .name name
  · obtain ⟨name, rfl⟩ := hname
    exact hstep.2
  · exact isSome_get?_iff.mpr (.inl (isDirectoryAt_next hdirectory (not_exists.mp hname)))

/-- A path that leads to a file names it. -/
theorem mem_named_of_locate (h : t.locate p = .ok location)
    (hfile : t.isDirectoryAt location = false) : location ∈ t.named p := by
  obtain ⟨hcheck, hfollow, hslash⟩ := locate_eq_ok_iff.mp h
  obtain ⟨steps, step, hsteps⟩ := exists_last_step hcheck
  rw [hsteps] at hfollow
  obtain ⟨parent, hparent, hdirectory, hstep, rfl⟩ := follow_concat hfollow
  by_cases hname : ∃ name, step = .name name
  · obtain ⟨name, rfl⟩ := hname
    refine ⟨parent, name, ?_, ?_, hstep.1, hfile, rfl⟩
    · exact lastStep_eq_ok_iff.mpr ⟨hcheck, hdirectory, steps, hsteps, hparent⟩
    · rw [Bool.eq_false_iff]
      intro hends
      rw [hslash hends] at hfile
      cases hfile
  · rw [isDirectoryAt_next hdirectory (not_exists.mp hname)] at hfile
    cases hfile

theorem isDirectoryAt_of_fileAt (h : t.fileAt location = some content) :
    t.isDirectoryAt location = false := by
  rw [Bool.eq_false_iff]
  intro hdirectory
  rw [fileAt_eq_none_of_isDirectoryAt hdirectory] at h
  cases h

/-- A path at which a text is read names the file. -/
theorem mem_named_of_read {text : String} (h : t.read p = .ok text) : t.target p ∈ t.named p := by
  obtain ⟨hlocate, hfile⟩ := read_eq_ok_iff.mp h
  exact mem_named_of_locate hlocate (isDirectoryAt_of_fileAt hfile)

/-- A file that can be read can be removed. -/
theorem exists_remove {text : String} (h : t.read p = .ok text) : ∃ t', t.remove p = .ok t' := by
  obtain ⟨hlocate, -⟩ := read_eq_ok_iff.mp h
  obtain ⟨parent, name, hlast, -⟩ := mem_named_of_read h
  unfold remove
  simp [hlocate, hlast, bind, Except.bind, pure, Except.pure]

/-- A file that is removed is gone. -/
theorem remove_spec (hfile : t.isDirectoryAt (t.target p) = false) (h : t.remove p = .ok t') :
    Frame {t.target p} t t' ∧ t'.fileAt (t.target p) = none := by
  refine ⟨frame_remove hfile h, ?_⟩
  obtain ⟨parent, name, hlast, rfl⟩ := remove_cases h
  rw [target_of_lastStep hlast]
  unfold fileAt next
  rw [get?_put_self _ (lastStep_eq_ok_iff.mp hlast).2.1]

/-! ### Operations on trees that differ elsewhere -/

namespace Frame

variable {v v' u u' : FileTree}

/-- Where a directory stands no file changes. -/
theorem files (h : Frame changed t t') :
    Frame { location ∈ changed | t.isDirectoryAt location = false } t t' := by
  refine ⟨h.current, h.isDirectoryAt, fun location hlocation => ?_⟩
  by_cases hdirectory : t.isDirectoryAt location = true
  · rw [fileAt_eq_none_of_isDirectoryAt hdirectory,
      fileAt_eq_none_of_isDirectoryAt ((h.isDirectoryAt location).trans hdirectory)]
  · exact h.fileAt location fun hmem => hlocation ⟨hmem, by simpa using hdirectory⟩

theorem lastStep (h : Frame changed t t') {parent : Location} {step : Component}
    (hlast : t.lastStep p = .ok (parent, step)) : t'.lastStep p = .ok (parent, step) := by
  obtain ⟨hcheck, hparent, steps, hsteps, hfollow⟩ := lastStep_eq_ok_iff.mp hlast
  refine lastStep_eq_ok_iff.mpr
    ⟨hcheck, (h.isDirectoryAt parent).trans hparent, steps, hsteps, ?_⟩
  rw [h.current]
  exact h.files.follow (fun hmem => by simp [hparent] at hmem) hfollow

/-- Paths name the same files in trees with the same directories. -/
theorem named (h : Frame changed t t') (p : Path) : t'.named p = t.named p := by
  have hsub {t t' : FileTree} (h : Frame changed t t') : t.named p ⊆ t'.named p := by
    rintro location ⟨parent, name, hlast, hslash, hlong, hfile, rfl⟩
    exact ⟨parent, name, h.lastStep hlast, hslash, hlong, (h.isDirectoryAt _).trans hfile, rfl⟩
  exact (hsub h.symm).antisymm (hsub h)

section Named

variable (h : Frame changed t t') (hp : Disjoint (t.named p) changed)
include h hp

/-- A path leads to the same place if the file that it names is not changed. -/
theorem locate_of_named (hlocate : t.locate p = .ok location) : t'.locate p = .ok location := by
  refine h.files.locate (fun hmem => ?_) hlocate
  rw [← target_of_locate hlocate] at hmem
  exact Set.disjoint_left.mp hp (mem_named_of_locate hlocate hmem.2) hmem.1

theorem read_of_named {text : String} (hread : t.read p = .ok text) : t'.read p = .ok text :=
  h.read (fun hmem => Set.disjoint_left.mp hp (mem_named_of_read hread) hmem) hread

end Named

theorem disjoint_named (h : Frame changed t t') (hp : Disjoint (t.named p) changed) :
    Disjoint (t'.named p) changed := by
  rwa [h.named]

theorem read_iff_of_named (h : Frame changed t t') (hp : Disjoint (t.named p) changed)
    {text : String} : t'.read p = .ok text ↔ t.read p = .ok text :=
  ⟨h.symm.read_of_named (h.disjoint_named hp), h.read_of_named hp⟩

/-- Whether something stands at a path does not depend on other files. -/
theorem exists?_eq (h : Frame changed t t') (hp : Disjoint (t.named p) changed) :
    t'.exists? p = t.exists? p := by
  unfold exists?
  cases hlocate : t.locate p with
  | ok location => rw [h.locate_of_named hp hlocate]
  | error e =>
      cases hlocate' : t'.locate p with
      | error e' => rfl
      | ok location =>
          rw [h.symm.locate_of_named (h.disjoint_named hp) hlocate'] at hlocate
          cases hlocate

/-- The same change of one file in two trees. -/
theorem change (h : Frame changed v u) (hv : Frame {location} v v') (hu : Frame {location} u u')
    (hsame : u'.fileAt location = v'.fileAt location) : Frame changed v' u' where
  current := hu.current.trans (h.current.trans hv.current.symm)
  isDirectoryAt other := by rw [hu.isDirectoryAt, h.isDirectoryAt, hv.isDirectoryAt]
  fileAt other hother := by
    by_cases heq : other = location
    · rw [heq, hsame]
    · rw [hu.fileAt _ heq, h.fileAt _ hother, hv.fileAt _ heq]

/-- A file that can be written can be written in a tree with other files too. -/
theorem write (h : Frame changed v u) (hwrite : v.write p content = .ok v') :
    ∃ u', u.write p content = .ok u' ∧ Frame changed v' u' := by
  have hnamed := mem_named_of_write hwrite
  rw [← h.named] at hnamed
  obtain ⟨u', hwrite'⟩ := exists_write hnamed content
  obtain ⟨hv, -, hfile⟩ := write_spec hwrite
  obtain ⟨hu, -, hfile'⟩ := write_spec hwrite'
  rw [h.target] at hu hfile'
  exact ⟨u', hwrite', h.change hv hu (hfile'.trans hfile.symm)⟩

/-- A file that can be read and removed can be removed in a tree with other files too. -/
theorem remove (h : Frame changed v u) (hp : Disjoint (v.named p) changed) {text : String}
    (hread : v.read p = .ok text) (hremove : v.remove p = .ok v') :
    ∃ u', u.remove p = .ok u' ∧ Frame changed v' u' := by
  have hread' := h.read_of_named hp hread
  obtain ⟨u', hremove'⟩ := exists_remove hread'
  have hfile {t : FileTree} (h : t.read p = .ok text) : t.isDirectoryAt (t.target p) = false :=
    isDirectoryAt_of_mem_named (mem_named_of_read h)
  obtain ⟨hv, hgone⟩ := remove_spec (hfile hread) hremove
  obtain ⟨hu, hgone'⟩ := remove_spec (hfile hread') hremove'
  rw [h.target] at hu hgone'
  exact ⟨u', hremove', h.change hv hu (hgone'.trans hgone.symm)⟩

end Frame

/-- Writing changes the file that the path names. -/
theorem frame_of_write {u u' : FileTree} (hu : Frame .univ t u) (h : u.write p content = .ok u') :
    Frame (t.named p) u u' := by
  have hnamed := mem_named_of_write h
  rw [hu.named] at hnamed
  exact (write_spec h).1.mono (Set.singleton_subset_iff.mpr hnamed)

end FileTree

open FileTree

/-! ### What a computation has to do with -/

namespace Files

variable {ε ε' α β : Type} {t : FileTree} {reads writes : Set Location}

theorem on_bind_of_ok {m : Files ε α} {f : α → Files ε β} {t' : FileTree} {a : α}
    (h : m.on t = (.ok a, t')) : (m >>= f).on t = (f a).on t' := by
  rw [on_bind, h]

theorem on_change (f : FileTree → Except ε FileTree) (t : FileTree) :
    (change f).on t =
      match f t with
      | .ok t' => (.ok (), t')
      | .error e => (.error e, t) := rfl

theorem on_attempt (f : FileTree → Except ε FileTree) (t : FileTree) :
    (attempt f : Files ε' Unit).on t =
      match f t with
      | .ok t' => (.ok (), t')
      | .error _ => (.ok (), t) := rfl

/-- The files that a computation has to do with, on trees with the directories of `t`. It changes
the files at `writes` at most. If it succeeds, then it does the same on a tree that has other files
elsewhere than at `reads`. -/
structure Footprint (t : FileTree) (reads writes : Set Location) (m : Files ε α) : Prop where
  frame : ∀ u, Frame .univ t u → Frame writes u (m.on u).2
  exchange : ∀ {changed v u v' a}, Frame .univ t v → Frame changed v u → Disjoint reads changed →
    m.on v = (.ok a, v') → ∃ u', m.on u = (.ok a, u') ∧ Frame changed v' u'

namespace Footprint

theorem mono {m : Files ε α} (h : m.Footprint t reads writes) {reads' writes' : Set Location}
    (hreads : reads ⊆ reads') (hwrites : writes ⊆ writes') : m.Footprint t reads' writes' where
  frame u hu := (h.frame u hu).mono hwrites
  exchange hv hframe hdisjoint := h.exchange hv hframe (hdisjoint.mono_left hreads)

/-- A question that other files do not matter to. -/
theorem ask {f : FileTree → Except ε α}
    (hf : ∀ {changed v u a}, Frame .univ t v → Frame changed v u → Disjoint reads changed →
      f v = .ok a → f u = .ok a) : (Files.ask f).Footprint t reads writes where
  frame u _ := .refl _ _
  exchange {changed v u v' a} hv hframe hdisjoint h := by
    obtain ⟨ha, rfl⟩ := Prod.mk.inj h
    exact ⟨u, Prod.ext (hf hv hframe hdisjoint ha) rfl, hframe⟩

/-- A result that does not depend on files. -/
theorem result (x : Except ε α) :
    Footprint t reads writes (ExceptT.mk (pure x) : Files ε α) :=
  ask (f := fun _ => x) fun _ _ _ h => h

theorem pure (a : α) : Footprint t reads writes (Pure.pure a : Files ε α) := result (.ok a)

theorem read (p : Path) :
    (Files.ask fun u => u.read p).Footprint t (t.named p) writes := by
  refine ask fun {changed v u text} hv hframe hdisjoint h => ?_
  rw [← hv.named] at hdisjoint
  exact hframe.read_of_named hdisjoint h

theorem exists? (p : Path) :
    (Files.ask (ε := ε) fun u => .ok (u.exists? p)).Footprint t (t.named p) writes := by
  refine ask fun {changed v u found} hv hframe hdisjoint h => ?_
  rw [← hv.named] at hdisjoint
  rwa [hframe.exists?_eq hdisjoint]

/-- Writing looks at no file. -/
theorem write (p : Path) (content : Content) :
    (change fun u => u.write p content).Footprint t reads (t.named p) where
  frame u hu := by
    rw [on_change]
    cases hwrite : u.write p content with
    | ok u' => exact frame_of_write hu hwrite
    | error e => exact .refl _ _
  exchange {changed v u v' a} hv hframe _ h := by
    rw [on_change] at h
    cases hwrite : v.write p content with
    | ok w =>
        rw [hwrite] at h
        cases h
        obtain ⟨u', hwrite', hframe'⟩ := hframe.write hwrite
        exact ⟨u', by rw [on_change, hwrite'], hframe'⟩
    | error e =>
        rw [hwrite] at h
        cases h

theorem attemptWrite (p : Path) (content : Content) :
    Footprint t reads (t.named p) (attempt fun u => u.write p content : Files ε' Unit) where
  frame u hu := by
    rw [on_attempt]
    cases hwrite : u.write p content with
    | ok u' => exact frame_of_write hu hwrite
    | error e => exact .refl _ _
  exchange {changed v u v' a} hv hframe _ h := by
    rw [on_attempt] at h
    cases hwrite : v.write p content with
    | ok w =>
        rw [hwrite] at h
        cases h
        obtain ⟨u', hwrite', hframe'⟩ := hframe.write hwrite
        exact ⟨u', by rw [on_attempt, hwrite'], hframe'⟩
    | error e =>
        rw [hwrite] at h
        cases h
        -- What cannot be written in one of the trees cannot be written in the other.
        cases hwrite' : u.write p content with
        | ok u' =>
            obtain ⟨w, hw, -⟩ := hframe.symm.write hwrite'
            rw [hwrite] at hw
            cases hw
        | error e' => exact ⟨u, by rw [on_attempt, hwrite'], hframe⟩

theorem bind {m : Files ε α} {f : α → Files ε β} (hm : m.Footprint t reads writes)
    (hf : ∀ a, (f a).Footprint t reads writes) : (m >>= f).Footprint t reads writes where
  frame u hu := by
    have hfirst := hm.frame u hu
    rw [on_bind]
    split
    · rename_i a u' hm'
      rw [hm'] at hfirst
      exact hfirst.trans ((hf a).frame u' (hu.trans (hfirst.mono (Set.subset_univ _))))
    · rename_i e u' hm'
      rwa [hm'] at hfirst
  exchange {changed v u v' a} hv hframe hdisjoint h := by
    obtain ⟨c, w, hm', hf'⟩ := on_bind_eq_ok h
    have hw := hm.frame v hv
    rw [hm'] at hw
    obtain ⟨u₁, hu₁, hframe₁⟩ := hm.exchange hv hframe hdisjoint hm'
    obtain ⟨u', hu', hframe'⟩ :=
      (hf c).exchange (hv.trans (hw.mono (Set.subset_univ _))) hframe₁ hdisjoint hf'
    refine ⟨u', ?_, hframe'⟩
    rw [on_bind_of_ok hu₁, hu']

theorem explain {m : Files ε α} (hm : m.Footprint t reads writes) (f : ε → ε') :
    (m.explain f).Footprint t reads writes where
  frame u hu := by
    have h := hm.frame u hu
    unfold on Files.explain at *
    split <;> simp_all
  exchange {changed v u v' a} hv hframe hdisjoint h := by
    obtain ⟨u', hu', hframe'⟩ := hm.exchange hv hframe hdisjoint (on_explain_eq_ok h)
    refine ⟨u', ?_, hframe'⟩
    unfold on Files.explain at *
    rw [hu']

end Footprint

end Files

/-! ### What a source has to do with -/

namespace Cache

variable {ε : Type} {c : Cache} {path : Path} {source text : String} {t t' : FileTree}

theorem get?_of_error {e : FileError} (h : t.read (c.entryPath path) = .error e) :
    (c.get? path source : Files ε (Option String)).on t = (.ok none, t) := by
  unfold get? Files.on
  simp only [h]

theorem get?_of_entry {entry : CacheEntry} (h : t.read (c.entryPath path) = .ok text)
    (hentry : CacheEntry.parse? text = some entry) :
    (c.get? path source : Files ε (Option String)).on t =
      (.ok (if entry.hash = c.hash source then some entry.output else none), t) := by
  unfold get? Files.on
  simp only [h, hentry]

theorem get?_of_corrupt (h : t.read (c.entryPath path) = .ok text)
    (hentry : CacheEntry.parse? text = none) (hremove : t.remove (c.entryPath path) = .ok t') :
    (c.get? path source : Files ε (Option String)).on t = (.ok none, t') := by
  unfold get? Files.on
  simp only [h, hentry, hremove]

/-- Asking the cache has to do with the entry only. -/
theorem footprint_get? (c : Cache) (path : Path) (source : String) (t : FileTree) :
    Files.Footprint t (t.named (c.entryPath path)) (t.named (c.entryPath path))
      (c.get? path source : Files ε (Option String)) where
  frame u hu := by
    cases hread : u.read (c.entryPath path) with
    | error e =>
        rw [get?_of_error hread]
        exact .refl _ _
    | ok text =>
        cases hentry : CacheEntry.parse? text with
        | some entry =>
            rw [get?_of_entry hread hentry]
            exact .refl _ _
        | none =>
            obtain ⟨u', hremove⟩ := exists_remove hread
            rw [get?_of_corrupt hread hentry hremove, ← hu.named]
            have hnamed := mem_named_of_read hread
            exact (remove_spec (isDirectoryAt_of_mem_named hnamed) hremove).1.mono
              (Set.singleton_subset_iff.mpr hnamed)
  exchange {changed v u v' found} hv hframe hdisjoint h := by
    rw [← hv.named] at hdisjoint
    cases hread : v.read (c.entryPath path) with
    | error e =>
        rw [get?_of_error hread] at h
        cases h
        cases hread' : u.read (c.entryPath path) with
        | error e' => exact ⟨u, get?_of_error hread', hframe⟩
        | ok text =>
            rw [(hframe.read_iff_of_named hdisjoint).mp hread'] at hread
            cases hread
    | ok text =>
        have hread' := hframe.read_of_named hdisjoint hread
        cases hentry : CacheEntry.parse? text with
        | some entry =>
            rw [get?_of_entry hread hentry] at h
            cases h
            exact ⟨u, get?_of_entry hread' hentry, hframe⟩
        | none =>
            obtain ⟨w, hremove⟩ := exists_remove hread
            rw [get?_of_corrupt hread hentry hremove] at h
            cases h
            obtain ⟨u', hremove', hframe'⟩ := hframe.remove hdisjoint hread hremove
            exact ⟨u', get?_of_corrupt hread' hentry hremove', hframe'⟩

end Cache

namespace Builder

variable {b : Builder} {s : Source} {t u : FileTree}

/-- The file of the cache for a source, if there is a cache. -/
def entryFile (b : Builder) (t : FileTree) (s : Source) : Set Location :=
  { location | ∃ c ∈ b.cache, location ∈ t.named (c.entryPath s.path) }

/-- The files that are changed when a source is built: its output and its entry in the cache. -/
def written (b : Builder) (t : FileTree) (s : Source) : Set Location :=
  t.named (b.outputOf s) ∪ b.entryFile t s

/-- The files that play a part when a source is built. -/
def footprint (b : Builder) (t : FileTree) (s : Source) : Set Location :=
  t.named s.path ∪ b.written t s

theorem footprint_load (path : Path) {writes : Set Location} :
    (load path).Footprint t (t.named path) writes := (Files.Footprint.read path).explain _

theorem footprint_store (path : Path) (text : String) {reads : Set Location} :
    (store path text).Footprint t reads (t.named path) := (Files.Footprint.write path _).explain _

theorem footprint_restore (path : Path) (text : String) :
    (restore path text).Footprint t (t.named path) (t.named path) := by
  refine (Files.Footprint.exists? path).bind fun found => ?_
  split
  · exact .pure ()
  · exact footprint_store path text

theorem footprint_lookup (b : Builder) (s : Source) (text : String) :
    (b.lookup s text).Footprint t (b.entryFile t s) (b.entryFile t s) := by
  unfold lookup
  split
  · rename_i c hc
    have hentry : t.named (c.entryPath s.path) ⊆ b.entryFile t s := fun _ h => ⟨c, hc, h⟩
    exact (c.footprint_get? s.path text t).mono hentry hentry
  · exact .pure none

theorem footprint_keep (b : Builder) (s : Source) (text output : String) {reads : Set Location} :
    (b.keep s text output).Footprint t reads (b.entryFile t s) := by
  unfold keep
  split
  · rename_i c hc
    have hentry : t.named (c.entryPath s.path) ⊆ b.entryFile t s := fun _ h => ⟨c, hc, h⟩
    exact (Files.Footprint.attemptWrite _ _).mono subset_rfl hentry
  · exact .pure ()

/-- **What a step of a source looks at and changes.** -/
theorem footprint_step (b : Builder) (s : Source) (stage : Stage) (t : FileTree) :
    (b.step s stage).Footprint t (b.footprint t s) (b.written t s) := by
  have hpath : t.named s.path ⊆ b.footprint t s := Set.subset_union_left
  have hwritten : b.written t s ⊆ b.footprint t s := Set.subset_union_right
  have houtput : t.named (b.outputOf s) ⊆ b.written t s := Set.subset_union_left
  have hentry : b.entryFile t s ⊆ b.written t s := Set.subset_union_right
  cases stage with
  | waiting =>
      exact ((footprint_load s.path).mono hpath subset_rfl).bind fun _ => .pure _
  | loaded text =>
      refine ((footprint_lookup b s text).mono (hentry.trans hwritten) hentry).bind fun found => ?_
      cases found with
      | none => exact .pure _
      | some output => exact .pure _
  | found output =>
      exact ((footprint_restore _ output).mono (houtput.trans hwritten) houtput).bind
        fun _ => .pure _
  | missed text =>
      refine (Files.Footprint.result _).bind fun output => ?_
      exact ((footprint_store _ output).mono subset_rfl houtput).bind fun _ => .pure _
  | written text output =>
      exact ((footprint_keep b s text output).mono subset_rfl hentry).bind fun _ => .pure _
  | done origin => exact .pure _

theorem footprint_advance (b : Builder) (s : Source) (n : Nat) (stage : Stage) (t : FileTree) :
    (b.advance s n stage).Footprint t (b.footprint t s) (b.written t s) := by
  induction n generalizing stage with
  | zero => exact .pure stage
  | succ n ih => exact (footprint_step b s stage t).bind ih

theorem footprint_buildFile (b : Builder) (s : Source) (t : FileTree) :
    (b.buildFile s).Footprint t (b.footprint t s) (b.written t s) :=
  (footprint_advance b s stepCount .waiting t).bind fun _ => .pure _

/-! ### What a build changes -/

/-- The files of sources. -/
def sourceFiles (t : FileTree) (sources : List Source) : Set Location :=
  { location | ∃ s ∈ sources, location ∈ t.named s.path }

/-- The files of their outputs. -/
def outputFiles (b : Builder) (t : FileTree) (sources : List Source) : Set Location :=
  { location | ∃ s ∈ sources, location ∈ t.named (b.outputOf s) }

/-- The files of their entries in the cache. -/
def entryFiles (b : Builder) (t : FileTree) (sources : List Source) : Set Location :=
  { location | ∃ s ∈ sources, location ∈ b.entryFile t s }

variable {sources : List Source} {directory : Path}

theorem written_subset (hs : s ∈ sources) :
    b.written t s ⊆ b.outputFiles t sources ∪ b.entryFiles t sources :=
  Set.union_subset_union (fun _ h => ⟨s, hs, h⟩) fun _ h => ⟨s, hs, h⟩

theorem footprint_buildFiles (b : Builder) (t : FileTree) {order : List Source}
    (h : order ⊆ sources) :
    (b.buildFiles order).Footprint t .univ (b.outputFiles t sources ∪ b.entryFiles t sources) := by
  induction order with
  | nil => exact .pure []
  | cons s rest ih =>
      have hs := written_subset (b := b) (t := t) (h List.mem_cons_self)
      refine ((footprint_buildFile b s t).mono (Set.subset_univ _) hs).bind fun _ => ?_
      exact (ih fun s hs => h (List.mem_cons_of_mem _ hs)).bind fun _ => .pure _

/-- A build that finds its sources builds them. -/
theorem on_buildDirectory (hfind : Source.find b.options directory t = .ok sources) :
    (b.buildDirectory directory).on t =
      (b.buildFiles sources >>= fun outputs => pure (Report.ofOutputs outputs)).on t := by
  rw [buildDirectory, Files.on_bind, Files.on_ask, hfind]

end Builder

end Stencil
