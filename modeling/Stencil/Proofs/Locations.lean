import Stencil.FileTree.Access
import Mathlib.Data.Set.Insert

/-!
# What operations on files leave alone

A path means a location, which can be read off its steps without a look at the tree: `target`.
The operations only decide whether what they need is there. Of a tree two things count for
them: which locations are directories, and what the files hold. A `Frame` says that between two
trees the directories are the same ones, and the files too except at some locations; writing and
removing a file have the location of the path as their frame.

## Main results

* `Frame.read`: what is read at a path is the same in a tree with other files changed.
* `write_spec`: **writing a file changes this file and nothing else**, and it reads back.
* `frame_remove`: removing a file takes away this file and nothing else.
* `keepsFiles_ensureDirectoriesWithin`: making directories changes no file.
-/

namespace Stencil

namespace Entry

/-- What stands at a location below another one. -/
theorem get?_append (found : Option Entry) (location rest : Location) :
    get? found (location ++ rest) = get? (get? found location) rest := by
  induction location generalizing found with
  | nil => rfl
  | cons name location ih =>
      match found with
      | none => cases rest <;> rfl
      | some (file _) => cases rest <;> rfl
      | some (directory entries) => exact ih (entries.lookup name)

/-- A change further down is a change of what stands on the way to it. -/
theorem get?_alter_append (f : Option Entry → Option Entry) (above : Location) (name : Name)
    (rest : Location) {found : Option Entry} (h : ∀ e ∈ found, Ordered e) :
    get? (alter f (above ++ name :: rest) found) above =
      alter f (name :: rest) (get? found above) := by
  induction above generalizing found with
  | nil => rfl
  | cons first above ih =>
      match found with
      | none => rfl
      | some (file _) => rfl
      | some (directory entries) =>
          obtain ⟨hsorted, hall⟩ : Sorted entries ∧ AllOrdered entries := h _ rfl
          simp only [List.cons_append, alter, get?, lookup_alterNamed first first _ hsorted,
            if_true]
          exact ih fun e he => allOrdered_iff.1 hall (first, e) (mem_of_lookup he)

/-- Nothing stands below. -/
def Childless (found : Option Entry) : Prop := ∀ name rest, get? found (name :: rest) = none

theorem childless_none : Childless none := fun _ _ => rfl

theorem childless_file (content : Content) : Childless (some (file content)) := fun _ _ => rfl

theorem childless_directory_nil : Childless (some (directory [])) := fun _ rest => by
  cases rest <;> rfl

end Entry

namespace FileTree

variable {t t' : FileTree}

/-! ### The view of a tree -/

/-- What the file at a location holds. -/
def fileAt (t : FileTree) (location : Location) : Option Content :=
  match t.get? location with
  | some (.file content) => some content
  | _ => none

theorem fileAt_eq_some_iff {location : Location} {content : Content} :
    t.fileAt location = some content ↔ t.get? location = some (.file content) := by
  unfold fileAt
  split <;> simp_all

theorem fileAt_empty (location : Location) : empty.fileAt location = none := by
  match location with
  | [] => rfl
  | [_] => rfl
  | _ :: _ :: _ => rfl

theorem isDirectoryAt_iff {location : Location} :
    t.isDirectoryAt location = true ↔ ∃ entries, t.get? location = some (.directory entries) := by
  unfold isDirectoryAt
  split <;> simp_all

/-- Something stands where a directory or a file does. -/
theorem isSome_get?_iff {location : Location} :
    (t.get? location).isSome = true ↔
      t.isDirectoryAt location = true ∨ (t.fileAt location).isSome = true := by
  unfold isDirectoryAt fileAt
  match t.get? location with
  | none => simp
  | some (.file _) => simp
  | some (.directory _) => simp

theorem fileAt_eq_none_of_isDirectoryAt {location : Location}
    (h : t.isDirectoryAt location = true) : t.fileAt location = none := by
  obtain ⟨entries, hentries⟩ := isDirectoryAt_iff.mp h
  simp [fileAt, hentries]

/-- At a location that is not changed, neither a file nor whether a directory stands there
changes. -/
theorem view_of_get? {location : Location} (h : t'.get? location = t.get? location) :
    t'.fileAt location = t.fileAt location ∧
      t'.isDirectoryAt location = t.isDirectoryAt location := by
  unfold fileAt isDirectoryAt
  rw [h]
  exact ⟨rfl, rfl⟩

section Put

variable {parent : Location} {name : Name} {new : Option Entry} (hnew : ∀ e ∈ new, e.Ordered)

theorem get?_put_self (h : t.isDirectoryAt parent = true) :
    (t.put (parent ++ [name]) new hnew).get? (parent ++ [name]) = new := by
  rw [get?_put (by simp), Entry.get?_alter_self _ _ _ t.ordered_root (isDirectoryAt_iff.mp h)]

/-- A change is not seen from a location that is neither its own nor below. -/
theorem view_put_of_not_below {other : Location} (hother : ¬ parent ++ [name] <+: other) :
    (t.put (parent ++ [name]) new hnew).fileAt other = t.fileAt other ∧
      (t.put (parent ++ [name]) new hnew).isDirectoryAt other = t.isDirectoryAt other := by
  by_cases hup : other <+: parent ++ [name]
  · -- On the way down a directory stays one, with something else in it.
    obtain ⟨below, hbelow⟩ := hup
    cases below with
    | nil => exact absurd ⟨[], by simpa using hbelow.symm⟩ hother
    | cons next rest =>
        have hget : (t.put (parent ++ [name]) new hnew).get? other =
            Entry.alter (fun _ => new) (next :: rest) (t.get? other) := by
          rw [get?_put (by simp), ← hbelow]
          exact Entry.get?_alter_append _ other next rest t.ordered_root
        unfold fileAt isDirectoryAt
        rw [hget]
        match t.get? other with
        | none => exact ⟨rfl, rfl⟩
        | some (.file _) => exact ⟨rfl, rfl⟩
        | some (.directory _) => exact ⟨rfl, rfl⟩
  · refine view_of_get? ?_
    rw [get?_put (by simp), Entry.get?_alter_of_not_prefix _ t.ordered_root hup hother]
    rfl

theorem get?_put_below (h : t.isDirectoryAt parent = true) (below : Location) :
    (t.put (parent ++ [name]) new hnew).get? (parent ++ [name] ++ below) =
      Entry.get? new below := by
  rw [get?, Entry.get?_append, ← get?, get?_put_self hnew h]

/-- Where nothing stood below and nothing does afterwards, a change is seen only where it is
made. -/
theorem view_put (h : t.isDirectoryAt parent = true) (hchildless : Entry.Childless new)
    (hbefore : Entry.Childless (t.get? (parent ++ [name]))) {other : Location}
    (hother : other ≠ parent ++ [name]) :
    (t.put (parent ++ [name]) new hnew).fileAt other = t.fileAt other ∧
      (t.put (parent ++ [name]) new hnew).isDirectoryAt other = t.isDirectoryAt other := by
  by_cases hdown : parent ++ [name] <+: other
  · obtain ⟨below, rfl⟩ := hdown
    cases below with
    | nil => exact absurd (List.append_nil _) hother
    | cons next rest =>
        refine view_of_get? ?_
        have hwas : t.get? (parent ++ [name] ++ next :: rest) =
            Entry.get? (t.get? (parent ++ [name])) (next :: rest) := Entry.get?_append ..
        rw [get?_put_below hnew h, hwas, hchildless, hbefore]
  · exact view_put_of_not_below hnew hdown

end Put

/-! ### Targets of paths -/

/-- Where a step leads from a location, whatever stands there. -/
def next (here : Location) : Component → Location
  | .root => []
  | .current => here
  | .parent => here.dropLast
  | .name name => here ++ [name]

/-- Where steps lead from a location. -/
def walk (here : Location) (steps : List Component) : Location := steps.foldl next here

/-- The location that a path means. -/
def target (t : FileTree) (p : Path) : Location := walk t.current p.steps

/-- What a step needs in the directory where it is made: a name has to stand there. -/
def Admits (t : FileTree) (here : Location) : Component → Prop
  | .name name => isTooLong name = false ∧ (t.get? (here ++ [name])).isSome = true
  | _ => True

/-- Steps can be followed if the first one can be made and then the others can be followed. -/
theorem follow_cons_eq_ok_iff {here location : Location} {step : Component}
    {steps : List Component} :
    t.follow here (step :: steps) = .ok location ↔
      t.isDirectoryAt here = true ∧ t.Admits here step ∧
        t.follow (next here step) steps = .ok location := by
  by_cases hhere : t.isDirectoryAt here = true
  · cases step with
    | root => simp [follow, hhere, Admits, next]
    | current => simp [follow, hhere, Admits, next]
    | parent => simp [follow, hhere, Admits, next]
    | name name =>
        by_cases hlong : isTooLong name = true
        · simp [follow, hhere, Admits, hlong]
        · by_cases hfound : (t.get? (here ++ [name])).isSome = true
          · simp [follow, hhere, Admits, next, hlong, hfound]
          · simp [follow, hhere, Admits, hlong, hfound]
  · cases step <;> simp [follow, hhere]

theorem eq_walk_of_follow {here location : Location} {steps : List Component}
    (h : t.follow here steps = .ok location) : location = walk here steps := by
  induction steps generalizing here with
  | nil => exact (Except.ok.inj h).symm
  | cons step steps ih => exact ih (follow_cons_eq_ok_iff.mp h).2.2

/-- Steps can be followed one after the other. -/
theorem follow_append {here middle location : Location} {steps rest : List Component}
    (h : t.follow here steps = .ok middle) (hrest : t.follow middle rest = .ok location) :
    t.follow here (steps ++ rest) = .ok location := by
  induction steps generalizing here with
  | nil =>
      obtain rfl := Except.ok.inj h
      exact hrest
  | cons step steps ih =>
      obtain ⟨hhere, hstep, hsteps⟩ := follow_cons_eq_ok_iff.mp h
      exact follow_cons_eq_ok_iff.mpr ⟨hhere, hstep, ih hsteps⟩

theorem locate_eq_ok_iff {p : Path} {location : Location} :
    t.locate p = .ok location ↔ check p = .ok () ∧ t.follow t.current p.steps = .ok location ∧
      (p.endsInSlash = true → t.isDirectoryAt location = true) := by
  unfold locate
  cases hcheck : check p with
  | error e => simp [bind, Except.bind]
  | ok u =>
      cases hfollow : t.follow t.current p.steps with
      | error e => simp [bind, Except.bind]
      | ok found =>
          by_cases hslash : (p.endsInSlash && !t.isDirectoryAt found) = true
          · simp only [bind, Except.bind, if_pos hslash, reduceCtorEq, Except.ok.injEq, true_and,
              false_iff, not_and]
            rintro rfl hall
            simp_all
          · simp only [bind, Except.bind, if_neg hslash, pure, Except.pure, Except.ok.injEq,
              true_and]
            refine ⟨?_, And.left⟩
            rintro rfl
            exact ⟨rfl, by simpa using hslash⟩

theorem target_of_locate {p : Path} {location : Location} (h : t.locate p = .ok location) :
    location = t.target p :=
  eq_walk_of_follow (locate_eq_ok_iff.mp h).2.1

/-- The last step is made from a directory to which the other steps lead. -/
theorem lastStep_eq_ok_iff {p : Path} {parent : Location} {step : Component} :
    t.lastStep p = .ok (parent, step) ↔ check p = .ok () ∧ t.isDirectoryAt parent = true ∧
      ∃ steps, p.steps = steps ++ [step] ∧ t.follow t.current steps = .ok parent := by
  unfold lastStep
  cases hcheck : check p with
  | error e => simp [bind, Except.bind]
  | ok u =>
      rcases List.eq_nil_or_concat p.steps with hsteps | ⟨steps, last, hsteps⟩
      · simp [bind, Except.bind, hsteps]
      · simp only [hsteps, List.concat_eq_append, List.getLast?_append, List.dropLast_concat]
        cases hfollow : t.follow t.current steps with
        | error e => simp [bind, Except.bind]; grind
        | ok found =>
            by_cases hfound : t.isDirectoryAt found = true
            · simp [bind, Except.bind, pure, Except.pure, hfound]
              grind
            · simp [bind, Except.bind, hfound]
              grind

/-- A text is read where a path leads to a file that holds it. -/
theorem read_eq_ok_iff {p : Path} {text : String} :
    t.read p = .ok text ↔
      t.locate p = .ok (t.target p) ∧ t.fileAt (t.target p) = some (.text text) := by
  unfold read
  cases hlocate : t.locate p with
  | error e => simp [bind, Except.bind]
  | ok location =>
      rw [← target_of_locate hlocate]
      simp only [bind, Except.bind, true_and, fileAt_eq_some_iff]
      match t.get? location with
      | none => simp
      | some (.file (.text value)) => simp [pure, Except.pure]
      | some (.file (.binary _)) => simp
      | some (.directory _) => simp

/-! ### Frames -/

/-- Two trees have the same directories and, except at some locations, the same files. -/
structure Frame (changed : Set Location) (t t' : FileTree) : Prop where
  current : t'.current = t.current
  isDirectoryAt : ∀ location, t'.isDirectoryAt location = t.isDirectoryAt location
  fileAt : ∀ location, location ∉ changed → t'.fileAt location = t.fileAt location

namespace Frame

variable {changed changed' : Set Location} {t'' : FileTree}

theorem refl (changed : Set Location) (t : FileTree) : Frame changed t t :=
  ⟨rfl, fun _ => rfl, fun _ _ => rfl⟩

theorem symm (h : Frame changed t t') : Frame changed t' t :=
  ⟨h.current.symm, fun l => (h.isDirectoryAt l).symm, fun l hl => (h.fileAt l hl).symm⟩

theorem mono (h : Frame changed t t') (hsub : changed ⊆ changed') : Frame changed' t t' :=
  ⟨h.current, h.isDirectoryAt, fun l hl => h.fileAt l fun hmem => hl (hsub hmem)⟩

theorem trans (h : Frame changed t t') (h' : Frame changed t' t'') : Frame changed t t'' where
  current := h'.current.trans h.current
  isDirectoryAt l := (h'.isDirectoryAt l).trans (h.isDirectoryAt l)
  fileAt l hl := (h'.fileAt l hl).trans (h.fileAt l hl)

theorem target (h : Frame changed t t') (p : Path) : t'.target p = t.target p := by
  rw [FileTree.target, FileTree.target, h.current]

theorem isSome_get? (h : Frame changed t t') {location : Location} (hl : location ∉ changed)
    (hsome : (t.get? location).isSome = true) : (t'.get? location).isSome = true := by
  rw [isSome_get?_iff] at hsome ⊢
  rwa [h.isDirectoryAt, h.fileAt _ hl]

/-- Steps to a location that is not changed can still be followed. -/
theorem follow (h : Frame changed t t') {here location : Location} {steps : List Component}
    (hl : location ∉ changed) (hfollow : t.follow here steps = .ok location) :
    t'.follow here steps = .ok location := by
  induction steps generalizing here with
  | nil => exact hfollow
  | cons step steps ih =>
      obtain ⟨hhere, hstep, hsteps⟩ := follow_cons_eq_ok_iff.mp hfollow
      refine follow_cons_eq_ok_iff.mpr ⟨(h.isDirectoryAt here).trans hhere, ?_, ih hsteps⟩
      cases step with
      | root => trivial
      | current => trivial
      | parent => trivial
      | name name =>
          refine ⟨hstep.1, ?_⟩
          -- The name is the end of the way, or a directory from which another step is made.
          cases steps with
          | nil =>
              obtain rfl := Except.ok.inj hsteps
              exact h.isSome_get? hl hstep.2
          | cons second steps =>
              have hdirectory := (follow_cons_eq_ok_iff.mp hsteps).1
              rw [isSome_get?_iff, h.isDirectoryAt]
              exact .inl hdirectory

variable {p : Path}

theorem locate (h : Frame changed t t') (hp : t.target p ∉ changed) {location : Location}
    (hlocate : t.locate p = .ok location) : t'.locate p = .ok location := by
  have htarget := target_of_locate hlocate
  obtain ⟨hcheck, hfollow, hslash⟩ := locate_eq_ok_iff.mp hlocate
  refine locate_eq_ok_iff.mpr ⟨hcheck, ?_, fun hp => (h.isDirectoryAt _).trans (hslash hp)⟩
  rw [h.current]
  exact h.follow (htarget ▸ hp) hfollow

/-- What is read at a path does not depend on other files. -/
theorem read (h : Frame changed t t') (hp : t.target p ∉ changed) {text : String}
    (hread : t.read p = .ok text) : t'.read p = .ok text := by
  obtain ⟨hlocate, hfile⟩ := read_eq_ok_iff.mp hread
  rw [read_eq_ok_iff, h.target, h.fileAt _ hp]
  exact ⟨h.locate hp hlocate, hfile⟩

end Frame

theorem childless_of_isDirectoryAt_eq_false {location : Location}
    (h : t.isDirectoryAt location = false) : Entry.Childless (t.get? location) := by
  unfold isDirectoryAt at h
  match t.get? location, h with
  | none, _ => exact Entry.childless_none
  | some (.file content), _ => exact Entry.childless_file content

/-- A change from a file or nothing to a file or nothing has its location as its frame. -/
theorem frame_put {parent : Location} {name : Name} {new : Option Entry}
    (hnew : ∀ e ∈ new, e.Ordered) (h : t.isDirectoryAt parent = true)
    (hfile : ∀ entries, new ≠ some (.directory entries))
    (hbefore : t.isDirectoryAt (parent ++ [name]) = false) :
    Frame {parent ++ [name]} t (t.put (parent ++ [name]) new hnew) := by
  have hchildless : Entry.Childless new := by
    match new, hfile with
    | none, _ => exact Entry.childless_none
    | some (.file content), _ => exact Entry.childless_file content
    | some (.directory entries), hfile => exact absurd rfl (hfile entries)
  have hview {other : Location} (hother : other ≠ parent ++ [name]) :=
    view_put hnew h hchildless (childless_of_isDirectoryAt_eq_false hbefore) hother
  refine ⟨current_put .., fun other => ?_, fun other hother => (hview hother).1⟩
  by_cases hother : other = parent ++ [name]
  · subst hother
    rw [hbefore, Bool.eq_false_iff, ne_eq, isDirectoryAt_iff, get?_put_self hnew h]
    rintro ⟨entries, hentries⟩
    exact hfile entries hentries
  · exact (hview hother).2

/-! ### Operations -/

/-- What a path to write to is, and the tree afterwards. -/
theorem write_cases {p : Path} {content : Content} (h : t.write p content = .ok t') :
    ∃ parent name, t.lastStep p = .ok (parent, .name name) ∧ p.endsInSlash = false ∧
      isTooLong name = false ∧ t.isDirectoryAt (parent ++ [name]) = false ∧
      t' = t.put (parent ++ [name]) (some (.file content))
        (fun _ he => Option.some.inj he ▸ trivial) := by
  unfold write at h
  cases hlast : t.lastStep p with
  | error e => simp [hlast, bind, Except.bind] at h
  | ok last =>
      obtain ⟨parent, step⟩ := last
      simp only [hlast, bind, Except.bind] at h
      cases step with
      | name name =>
          simp only at h
          split_ifs at h with hslash hlong hdirectory
          exact ⟨parent, name, rfl, by simpa using hslash, by simpa using hlong,
            by simpa using hdirectory, (Except.ok.inj h).symm⟩
      | root => cases h
      | current => cases h
      | parent => cases h

theorem target_of_lastStep {p : Path} {parent : Location} {step : Component}
    (h : t.lastStep p = .ok (parent, step)) : t.target p = next parent step := by
  obtain ⟨-, -, steps, hsteps, hfollow⟩ := lastStep_eq_ok_iff.mp h
  rw [target, hsteps, eq_walk_of_follow hfollow]
  exact List.foldl_append

/-- **Writing a file changes this file and nothing else.** -/
theorem write_spec {p : Path} {content : Content} (h : t.write p content = .ok t') :
    Frame {t.target p} t t' ∧ t'.locate p = .ok (t.target p) ∧
      t'.fileAt (t.target p) = some content := by
  obtain ⟨parent, name, hlast, hslash, hlong, hfile, rfl⟩ := write_cases h
  have hnew : ∀ e ∈ some (Entry.file content), e.Ordered :=
    fun _ he => Option.some.inj he ▸ trivial
  obtain ⟨hcheck, hparent, steps, hsteps, hfollow⟩ := lastStep_eq_ok_iff.mp hlast
  have htarget : t.target p = parent ++ [name] := target_of_lastStep hlast
  have hframe : Frame {parent ++ [name]} t (t.put (parent ++ [name]) _ hnew) :=
    frame_put hnew hparent (by simp) hfile
  have hself : (t.put (parent ++ [name]) _ hnew).get? (parent ++ [name]) = _ :=
    get?_put_self hnew hparent
  rw [htarget]
  refine ⟨hframe, locate_eq_ok_iff.mpr ⟨hcheck, ?_, by simp [hslash]⟩,
    fileAt_eq_some_iff.mpr hself⟩
  -- The way to the directory is as before, and the last step finds the new file.
  have hne : parent ∉ ({parent ++ [name]} : Set Location) := by simp
  rw [hframe.current, hsteps]
  refine follow_append (hframe.follow hne hfollow) ?_
  refine follow_cons_eq_ok_iff.mpr ⟨(hframe.isDirectoryAt parent).trans hparent, ⟨hlong, ?_⟩, rfl⟩
  rw [hself]
  rfl

/-- A text that is written reads back. -/
theorem read_write {p : Path} {text : String} (h : t.write p (.text text) = .ok t') :
    t'.read p = .ok text := by
  obtain ⟨hframe, hlocate, hfile⟩ := write_spec h
  rw [read_eq_ok_iff, hframe.target]
  exact ⟨hlocate, hfile⟩

/-- What a path to remove is, and the tree afterwards. -/
theorem remove_cases {p : Path} (h : t.remove p = .ok t') :
    ∃ parent name, t.lastStep p = .ok (parent, .name name) ∧
      t' = t.put (parent ++ [name]) none (fun e he => absurd he (Option.not_mem_none e)) := by
  unfold remove at h
  cases hlocate : t.locate p with
  | error e => simp [hlocate, bind, Except.bind] at h
  | ok location =>
      cases hlast : t.lastStep p with
      | error e => simp [hlocate, hlast, bind, Except.bind] at h
      | ok last =>
          obtain ⟨parent, step⟩ := last
          simp only [hlocate, hlast, bind, Except.bind] at h
          cases step with
          | name name => exact ⟨parent, name, rfl, (Except.ok.inj h).symm⟩
          | root => cases h
          | current => cases h
          | parent => cases h

/-- Removing a file takes away this file and nothing else. -/
theorem frame_remove {p : Path} (hfile : t.isDirectoryAt (t.target p) = false)
    (h : t.remove p = .ok t') : Frame {t.target p} t t' := by
  obtain ⟨parent, name, hlast, rfl⟩ := remove_cases h
  rw [target_of_lastStep hlast] at hfile ⊢
  exact frame_put _ (lastStep_eq_ok_iff.mp hlast).2.1 (by simp) hfile

/-- Removing something brings in no file. -/
theorem fileAt_remove {p : Path} (h : t.remove p = .ok t') :
    t'.current = t.current ∧
      ∀ location, t'.fileAt location = t.fileAt location ∨ t'.fileAt location = none := by
  obtain ⟨parent, name, hlast, rfl⟩ := remove_cases h
  refine ⟨current_put .., fun location => ?_⟩
  by_cases hbelow : parent ++ [name] <+: location
  · obtain ⟨below, rfl⟩ := hbelow
    refine .inr ?_
    rw [fileAt, get?_put_below _ (lastStep_eq_ok_iff.mp hlast).2.1]
    cases below <;> rfl
  · exact .inl (view_put_of_not_below _ hbelow).1

/-! ### Making directories -/

/-- Making a directory changes no file. -/
theorem fileAt_makeDirectory {p : Path} (h : t.makeDirectory p = .ok t') :
    t'.current = t.current ∧ ∀ location, t'.fileAt location = t.fileAt location := by
  unfold makeDirectory at h
  cases hlast : t.lastStep p with
  | error e => simp [hlast, bind, Except.bind] at h
  | ok last =>
      obtain ⟨parent, step⟩ := last
      have hparent := (lastStep_eq_ok_iff.mp hlast).2.1
      simp only [hlast, bind, Except.bind] at h
      cases step with
      | name name =>
          simp only at h
          split_ifs at h with hlong hfound
          have hnew : ∀ e ∈ some (Entry.directory []), e.Ordered :=
            fun _ he => Option.some.inj he ▸ ⟨List.Pairwise.nil, trivial⟩
          obtain rfl : t.put (parent ++ [name]) _ hnew = t' := Except.ok.inj h
          have hnone : t.get? (parent ++ [name]) = none := by simpa using hfound
          refine ⟨current_put .., fun location => ?_⟩
          by_cases hlocation : location = parent ++ [name]
          · subst hlocation
            simp [fileAt, get?_put_self hnew hparent, hnone]
          · exact (view_put hnew hparent Entry.childless_directory_nil
              (hnone ▸ Entry.childless_none) hlocation).1
      | root => cases h
      | current => cases h
      | parent => cases h

end FileTree

/-! ### Computations -/

namespace Files

open FileTree

variable {ε ε' α β : Type}

@[simp] theorem on_ask (f : FileTree → Except ε α) (t : FileTree) : (ask f).on t = (f t, t) := rfl

theorem on_bind (m : Files ε α) (f : α → Files ε β) (t : FileTree) :
    (m >>= f).on t =
      match m.on t with
      | (.ok a, t') => (f a).on t'
      | (.error e, t') => (.error e, t') := by
  have hbind : (m >>= f).on t = (ExceptT.bindCont f (m t).1 : StateM FileTree _) (m t).2 := rfl
  rw [hbind, on]
  match m t with
  | (.ok a, t') => rfl
  | (.error e, t') => rfl

/-- A computation in two steps that gives a result has given one in both. -/
theorem on_bind_eq_ok {m : Files ε α} {f : α → Files ε β} {t t' : FileTree} {b : β}
    (h : (m >>= f).on t = (.ok b, t')) :
    ∃ a u, m.on t = (.ok a, u) ∧ (f a).on u = (.ok b, t') := by
  rw [on_bind] at h
  split at h
  · exact ⟨_, _, ‹_›, h⟩
  · cases h

theorem on_explain_eq_ok {m : Files ε α} {f : ε → ε'} {t t' : FileTree} {a : α}
    (h : (m.explain f).on t = (.ok a, t')) : m.on t = (.ok a, t') := by
  unfold on explain at *
  split at h
  · rename_i hm
    cases h
    exact hm
  · cases h

/-! ### Computations that change no file -/

/-- A computation that changes no file. -/
def KeepsFiles (m : Files ε α) : Prop :=
  ∀ t, (m.on t).2.current = t.current ∧
    ∀ location, (m.on t).2.fileAt location = t.fileAt location

namespace KeepsFiles

theorem pure (a : α) : KeepsFiles (pure a : Files ε α) := fun _ => ⟨rfl, fun _ => rfl⟩

theorem ask (f : FileTree → Except ε α) : KeepsFiles (ask f) := fun _ => ⟨rfl, fun _ => rfl⟩

theorem throw (e : ε) : KeepsFiles (throw e : Files ε α) := fun _ => ⟨rfl, fun _ => rfl⟩

theorem bind {m : Files ε α} {f : α → Files ε β} (hm : KeepsFiles m) (hf : ∀ a, KeepsFiles (f a)) :
    KeepsFiles (m >>= f) := by
  intro t
  obtain ⟨hcurrent, hfiles⟩ := hm t
  rw [on_bind]
  split
  · rename_i a t' hm
    rw [hm] at hcurrent hfiles
    obtain ⟨hcurrent', hfiles'⟩ := hf a t'
    exact ⟨hcurrent'.trans hcurrent, fun l => (hfiles' l).trans (hfiles l)⟩
  · rename_i e t' hm
    rw [hm] at hcurrent hfiles
    exact ⟨hcurrent, hfiles⟩

theorem explain {m : Files ε α} (hm : KeepsFiles m) (f : ε → ε') : KeepsFiles (m.explain f) := by
  intro t
  have h := hm t
  unfold on Files.explain at *
  split <;> simp_all

end KeepsFiles

theorem keepsFiles_ensureDirectory (p : Path) : KeepsFiles (ensureDirectory p) := by
  intro t
  unfold ensureDirectory change on
  cases h : t.makeDirectory p with
  | ok t' => simpa [h] using fileAt_makeDirectory h
  | error e => by_cases hdirectory : t.isDirectory p = true <;> simp [h, hdirectory]

/-- Making directories changes no file. -/
theorem keepsFiles_ensureDirectoriesWithin (n : Nat) (p : Path) :
    KeepsFiles (ensureDirectoriesWithin n p) := by
  induction n generalizing p with
  | zero => exact .pure ()
  | succ n ih =>
      unfold ensureDirectoriesWithin
      refine .bind (.ask _) fun outcome => ?_
      split
      · split
        · exact (ih _).bind fun _ => keepsFiles_ensureDirectory p
        · exact .throw _
      · exact keepsFiles_ensureDirectory p

end Files

end Stencil
