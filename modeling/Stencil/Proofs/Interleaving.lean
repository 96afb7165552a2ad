import Stencil.Proofs.Schedules

/-!
# Building sources side by side

The steps of different sources may be taken in any order: `interleave` takes them as a schedule
says. If no source changes a file that plays a part for another one, then nothing depends on the
schedule. The argument compares each source with itself when it is built alone: after the same
number of steps it is at the same stage, and the files that play a part for it hold the same
(`Abreast`). One step of any source keeps this up, and so does every schedule. When all sources have
come to their end, every file is one that some source has brought to the end it comes to alone, or
one that nobody has changed.

The sources of one search are independent of each other if they have one extension. Their outputs
are different files then, and so are their entries in the cache if the names are different.

## Main results

* `Abreast.step`: **a step of one source keeps all sources abreast of themselves built alone.**
* `Abreast.run`: a schedule can be run from the beginning to its end.
* `Abreast.eq_of_done`: sources that have come to their end leave one tree.
* `run_of_interleave`: a schedule in which no step fails is run by taking its steps.
* `buildFiles_of_interleave`: building sources one after the other is a schedule.
* `independent_of_find`: the sources of a search are independent.
* `build_order_independent`: **a build comes to the same end in every order.**
-/

namespace Stencil

open FileTree

namespace Builder

variable {b : Builder} {s s' : Source} {t u v : FileTree} {sources : List Source}

/-! ### A source alone -/

theorem advance_add (b : Builder) (s : Source) (m n : Nat) (stage : Stage) :
    b.advance s (m + n) stage = b.advance s m stage >>= b.advance s n := by
  induction m generalizing stage with
  | zero => simp [advance]
  | succ m ih =>
      rw [Nat.succ_add_eq_add_succ, Nat.add_succ, advance, advance, bind_assoc]
      exact bind_congr ih

/-- Nothing is left to do for a source that has come to its end. -/
theorem advance_done (b : Builder) (s : Source) (n : Nat) (origin : Origin) (t : FileTree) :
    (b.advance s n (.done origin)).on t = (.ok (.done origin), t) := by
  induction n with
  | zero => rfl
  | succ n ih => exact ih

theorem remaining_of_advance {n : Nat} {stage last : Stage}
    (h : (b.advance s n stage).on t = (.ok last, u)) :
    last.remaining ≤ stage.remaining - n := by
  induction n generalizing stage t with
  | zero =>
      cases h
      exact le_rfl
  | succ n ih =>
      obtain ⟨next, w, hstep, hrest⟩ := advance_eq_ok h
      have hfirst := remaining_of_step hstep
      have hlast := ih hrest
      omega

/-- A source that can be built comes to its end in the steps that it has. -/
theorem exists_done_of_buildFile {output : Path × Origin}
    (h : ((b.buildFile s).on t).1 = .ok output) :
    ∃ origin v, (b.advance s stepCount .waiting).on t = (.ok (.done origin), v) := by
  obtain ⟨stage, v, hadvance, -⟩ := Files.on_bind_eq_ok (Prod.ext h rfl)
  have hremaining := remaining_of_advance hadvance
  cases stage with
  | done origin => exact ⟨origin, v, hadvance⟩
  | _ => cases hremaining

/-- How a source that comes to its end alone gets there: it can take any number of steps, and where
it has come to its end it is where it comes to in the end. -/
theorem advance_of_done {origin : Origin}
    (h : (b.advance s stepCount .waiting).on t = (.ok (.done origin), v)) (n : Nat) :
    ∃ stage w, (b.advance s n .waiting).on t = (.ok stage, w) ∧
      (∀ o, stage = .done o → stage = .done origin ∧ w = v) ∧
      (stepCount ≤ n → stage = .done origin) := by
  have hlonger (k : Nat) :
      (b.advance s (stepCount + k) .waiting).on t = (.ok (.done origin), v) := by
    rw [advance_add, Files.on_bind_of_ok h, advance_done]
  have hend := hlonger n
  rw [Nat.add_comm, advance_add] at hend
  obtain ⟨stage, w, hstage, hlast⟩ := Files.on_bind_eq_ok hend
  refine ⟨stage, w, hstage, ?_, fun hn => ?_⟩
  · rintro o rfl
    rw [advance_done] at hlast
    cases hlast
    exact ⟨rfl, rfl⟩
  · obtain ⟨k, rfl⟩ := Nat.exists_eq_add_of_le hn
    rw [hlonger] at hstage
    cases hstage
    rfl

/-! ### Schedules -/

/-- Takes steps of sources as a schedule says, with a stage for each source. -/
def interleave (b : Builder) :
    List Source → (Source → Stage) → Files Diagnostic (Source → Stage)
  | [], stages => return stages
  | s :: rest, stages => do
    let stage ← b.step s (stages s)
    b.interleave rest (Function.update stages s stage)

/-- A schedule in which no step fails is run by taking its steps. -/
theorem run_of_interleave {schedule : List Source} {stages stages' : Source → Stage}
    (h : (b.interleave schedule stages).on t = (.ok stages', u)) :
    Underway.run b ⟨fun s => .ok (stages s), t⟩ schedule = ⟨fun s => .ok (stages' s), u⟩ := by
  induction schedule generalizing stages t with
  | nil =>
      cases h
      rfl
  | cons s rest ih =>
      obtain ⟨stage, v, hstep, hrest⟩ := Files.on_bind_eq_ok h
      have hstages : Function.update (fun s' => Except.ok (ε := Diagnostic) (stages s')) s
          (.ok stage) = fun s' => .ok (Function.update stages s stage s') := by
        funext s'
        exact (Function.apply_update (fun _ => Except.ok) stages s stage s').symm
      rw [Underway.run_cons, Underway.turn_of_ok rfl, hstep, hstages]
      exact ih hrest

/-- No source changes a file that plays a part for another one. -/
def Independent (b : Builder) (t : FileTree) (sources : List Source) : Prop :=
  ∀ s ∈ sources, ∀ s' ∈ sources, s ≠ s' → Disjoint (b.footprint t s) (b.written t s')

/-- Every source comes to its end when it is built alone. -/
def Buildable (b : Builder) (t : FileTree) (sources : List Source) : Prop :=
  ∀ s ∈ sources, ∃ origin v, (b.advance s stepCount .waiting).on t = (.ok (.done origin), v)

/-- The sources have each taken a number of steps, and each is where it is after as many steps
alone: at the same stage, and with the same in the files that play a part for it. -/
structure Abreast (b : Builder) (t : FileTree) (sources : List Source) (turns : Source → Nat)
    (stages : Source → Stage) (u : FileTree) : Prop where
  frame : Frame { location | ∃ s ∈ sources, location ∈ b.written t s } t u
  alone : ∀ s ∈ sources, ∃ v, (b.advance s (turns s) .waiting).on t = (.ok (stages s), v) ∧
    Frame (b.footprint t s)ᶜ v u

namespace Abreast

variable {turns turns' : Source → Nat} {stages stages' : Source → Stage} {u' : FileTree}

theorem start (b : Builder) (t : FileTree) (sources : List Source) :
    b.Abreast t sources (fun _ => 0) (fun _ => .waiting) t where
  frame := .refl _ _
  alone _ _ := ⟨t, rfl, .refl _ _⟩

/-- **A step of one source keeps all sources abreast.** -/
theorem step (h : b.Abreast t sources turns stages u) (hindependent : b.Independent t sources)
    (hbuildable : b.Buildable t sources) (hs : s ∈ sources) :
    ∃ stage u', (b.step s (stages s)).on u = (.ok stage, u') ∧
      b.Abreast t sources (Function.update turns s (turns s + 1))
        (Function.update stages s stage) u' := by
  have hsame : Frame .univ t u := h.frame.mono (Set.subset_univ _)
  obtain ⟨v, hv, hagree⟩ := h.alone s hs
  -- Alone the source can take one more step, and from here it is the same step.
  obtain ⟨origin, w, hend⟩ := hbuildable s hs
  obtain ⟨stage, v', hnext, -⟩ := advance_of_done hend (turns s + 1)
  have hstep : (b.step s (stages s)).on v = (.ok stage, v') := by
    rw [advance_add, Files.on_bind_of_ok hv] at hnext
    obtain ⟨stage', v'', hfirst, hlast⟩ := advance_eq_ok hnext
    cases hlast
    exact hfirst
  have hfootprint := footprint_step b s (stages s) t
  have hv' : Frame .univ t v := hsame.trans (hagree.mono (Set.subset_univ _)).symm
  obtain ⟨u', hu', hagree'⟩ := hfootprint.exchange hv' hagree disjoint_compl_right hstep
  have hwritten : Frame (b.written t s) u u' := by
    simpa [hu'] using hfootprint.frame u hsame
  refine ⟨stage, u', hu', h.frame.trans (hwritten.mono fun l hl => ⟨s, hs, hl⟩), fun s' hs' => ?_⟩
  by_cases heq : s' = s
  · subst heq
    rw [Function.update_self, Function.update_self]
    exact ⟨v', hnext, hagree'⟩
  · -- For another source nothing that plays a part has changed.
    rw [Function.update_of_ne heq, Function.update_of_ne heq]
    obtain ⟨w', hw', hother⟩ := h.alone s' hs'
    refine ⟨w', hw', hother.trans (hwritten.mono ?_)⟩
    exact Set.subset_compl_iff_disjoint_left.mpr (hindependent s' hs' s hs heq)

/-- **A schedule can be run to its end**, and the sources are abreast then. -/
theorem run (h : b.Abreast t sources turns stages u) (hindependent : b.Independent t sources)
    (hbuildable : b.Buildable t sources) {schedule : List Source} (hschedule : schedule ⊆ sources) :
    ∃ stages' u', (b.interleave schedule stages).on u = (.ok stages', u') ∧
      b.Abreast t sources (fun s => turns s + schedule.count s) stages' u' := by
  induction schedule generalizing turns stages u with
  | nil => exact ⟨stages, u, rfl, h⟩
  | cons s rest ih =>
      have hs := hschedule List.mem_cons_self
      obtain ⟨stage, v, hstep, hnext⟩ := h.step hindependent hbuildable hs
      obtain ⟨stages', u', hrest, hend⟩ :=
        ih hnext fun s hs => hschedule (List.mem_cons_of_mem _ hs)
      refine ⟨stages', u', ?_, ?_⟩
      · rw [interleave, Files.on_bind_of_ok hstep, hrest]
      · have hturns : (fun s' => Function.update turns s (turns s + 1) s' + rest.count s') =
            fun s' => turns s' + (s :: rest).count s' := by
          funext s'
          by_cases heq : s' = s
          · subst heq
            rw [Function.update_self, List.count_cons_self]
            omega
          · rw [Function.update_of_ne heq, List.count_cons_of_ne (Ne.symm heq)]
        rwa [← hturns]

/-- A source that has had its turns has come to its end. -/
theorem done_of_turns (h : b.Abreast t sources turns stages u) (hs : s ∈ sources)
    (hbuildable : b.Buildable t sources) (hturns : stepCount ≤ turns s) :
    ∃ origin, stages s = .done origin := by
  obtain ⟨v, hv, -⟩ := h.alone s hs
  obtain ⟨origin, w, hend⟩ := hbuildable s hs
  obtain ⟨stage, w', hstage, -, hdone⟩ := advance_of_done hend (turns s)
  rw [hv] at hstage
  cases hstage
  exact ⟨origin, hdone hturns⟩

/-- **Sources that have come to their end leave one tree**, and each has come to one end. -/
theorem eq_of_done (h : b.Abreast t sources turns stages u)
    (h' : b.Abreast t sources turns' stages' u') (hbuildable : b.Buildable t sources)
    (hdone : ∀ s ∈ sources, ∃ origin, stages s = .done origin)
    (hdone' : ∀ s ∈ sources, ∃ origin, stages' s = .done origin) :
    u' = u ∧ ∀ s ∈ sources, stages' s = stages s := by
  -- Alone the source comes to one end, whichever number of steps it takes.
  have hend : ∀ s ∈ sources, stages' s = stages s ∧
      ∃ v, Frame (b.footprint t s)ᶜ v u ∧ Frame (b.footprint t s)ᶜ v u' := by
    intro s hs
    obtain ⟨origin, w, hw⟩ := hbuildable s hs
    have hcome {turns : Source → Nat} {stages : Source → Stage} {u : FileTree}
        (h : b.Abreast t sources turns stages u)
        (hdone : ∀ s ∈ sources, ∃ origin, stages s = .done origin) :
        stages s = .done origin ∧ Frame (b.footprint t s)ᶜ w u := by
      obtain ⟨v, hv, hagree⟩ := h.alone s hs
      obtain ⟨o, ho⟩ := hdone s hs
      obtain ⟨stage, w', hstage, hlast, -⟩ := advance_of_done hw (turns s)
      rw [hv] at hstage
      cases hstage
      obtain ⟨hstage, rfl⟩ := hlast o ho
      exact ⟨hstage, hagree⟩
    obtain ⟨hstage, hagree⟩ := hcome h hdone
    obtain ⟨hstage', hagree'⟩ := hcome h' hdone'
    exact ⟨hstage'.trans hstage.symm, w, hagree, hagree'⟩
  refine ⟨eq_of_frame ?_, fun s hs => (hend s hs).1⟩
  have hsame := h.frame.symm.trans h'.frame
  refine ⟨hsame.current, hsame.isDirectoryAt, fun location _ => ?_⟩
  by_cases hlocation : ∃ s ∈ sources, location ∈ b.footprint t s
  · obtain ⟨s, hs, hmem⟩ := hlocation
    obtain ⟨-, v, hagree, hagree'⟩ := hend s hs
    rw [hagree'.fileAt _ (Set.notMem_compl_iff.mpr hmem),
      hagree.fileAt _ (Set.notMem_compl_iff.mpr hmem)]
  · refine hsame.fileAt _ fun hmem => hlocation ?_
    obtain ⟨s, hs, hwritten⟩ := hmem
    exact ⟨s, hs, Set.mem_union_right _ hwritten⟩

end Abreast

/-! ### One source after the other -/

theorem interleave_append (b : Builder) (first second : List Source) (stages : Source → Stage) :
    b.interleave (first ++ second) stages =
      b.interleave first stages >>= b.interleave second := by
  induction first generalizing stages with
  | nil => simp [interleave]
  | cons s rest ih =>
      rw [List.cons_append, interleave, interleave, bind_assoc]
      exact bind_congr fun stage => ih _

/-- Steps of one source only are those that it takes when it is built. -/
theorem interleave_replicate (b : Builder) (s : Source) (n : Nat) (stages : Source → Stage) :
    b.interleave (List.replicate n s) stages =
      b.advance s n (stages s) >>= fun stage => pure (Function.update stages s stage) := by
  induction n generalizing stages with
  | zero => simp [interleave, advance]
  | succ n ih =>
      rw [List.replicate_succ, interleave, advance, bind_assoc]
      refine bind_congr fun stage => ?_
      rw [ih, Function.update_self]
      simp only [Function.update_idem]

/-- A source without a turn stays where it is. -/
theorem stage_of_not_mem {schedule : List Source} {stages stages' : Source → Stage}
    (hs : s ∉ schedule) (h : (b.interleave schedule stages).on t = (.ok stages', u)) :
    stages' s = stages s := by
  have hrun := Underway.progress_run_of_not_mem (b := b)
    (w := ⟨fun s => .ok (stages s), t⟩) hs
  rw [run_of_interleave h] at hrun
  exact Except.ok.inj hrun

/-- The schedule in which one source is built after the other. -/
def inOrder (sources : List Source) : List Source :=
  sources.flatMap fun s => List.replicate stepCount s

theorem mem_inOrder {order : List Source} : s ∈ inOrder order ↔ s ∈ order := by
  simp [inOrder, stepCount]

theorem stepCount_le_count_inOrder {order : List Source} (hs : s ∈ order) :
    stepCount ≤ (inOrder order).count s := by
  obtain ⟨before, after, rfl⟩ := List.append_of_mem hs
  simp only [inOrder, List.flatMap_append, List.flatMap_cons, List.count_append,
    List.count_replicate_self]
  omega

/-- **Building sources one after the other is a schedule.** -/
theorem buildFiles_of_interleave {order : List Source} {stages stages' : Source → Stage}
    (hnodup : order.Nodup) (hwaiting : ∀ s ∈ order, stages s = .waiting)
    (h : (b.interleave (inOrder order) stages).on t = (.ok stages', u)) :
    (b.buildFiles order).on t =
      (.ok (order.map fun s => (b.outputOf s, (stages' s).origin)), u) := by
  induction order generalizing stages t with
  | nil =>
      cases h
      rfl
  | cons s rest ih =>
      obtain ⟨hs, hrest⟩ := List.nodup_cons.mp hnodup
      have hsplit : inOrder (s :: rest) = List.replicate stepCount s ++ inOrder rest := rfl
      rw [hsplit, interleave_append, interleave_replicate] at h
      obtain ⟨stages₁, v, hfirst, hmore⟩ := Files.on_bind_eq_ok h
      obtain ⟨stage, w, hadvance, hlast⟩ := Files.on_bind_eq_ok hfirst
      cases hlast
      rw [hwaiting s List.mem_cons_self] at hadvance
      have hstage : stages' s = stage := by
        rw [stage_of_not_mem (mt mem_inOrder.mp hs) hmore, Function.update_self]
      have hothers := ih hrest (fun s' hs' => ?_) hmore
      · have hfile : (b.buildFile s).on t = (.ok (b.outputOf s, stage.origin), v) := by
          rw [buildFile, Files.on_bind_of_ok hadvance]
          rfl
        rw [buildFiles, Files.on_bind_of_ok hfile, Files.on_bind_of_ok hothers, List.map_cons,
          hstage]
        rfl
      · have hne : s' ≠ s := fun heq => hs (heq ▸ hs')
        rw [Function.update_of_ne hne]
        exact hwaiting s' (List.mem_cons_of_mem _ hs')

/-- Sources can be built one after the other in any order. -/
theorem Abreast.run_inOrder (hindependent : b.Independent t sources)
    (hbuildable : b.Buildable t sources) {order : List Source} (hperm : order.Perm sources) :
    ∃ turns stages u, (b.interleave (inOrder order) fun _ => .waiting).on t = (.ok stages, u) ∧
      b.Abreast t sources turns stages u ∧ ∀ s ∈ sources, ∃ origin, stages s = .done origin := by
  obtain ⟨stages, u, hrun, habreast⟩ := (Abreast.start b t sources).run hindependent hbuildable
    fun s hs => hperm.subset (mem_inOrder.mp hs)
  refine ⟨_, stages, u, hrun, habreast, fun s hs => ?_⟩
  refine habreast.done_of_turns hs hbuildable ?_
  rw [Nat.zero_add]
  exact stepCount_le_count_inOrder (hperm.symm.subset hs)

end Builder

/-! ### Sources of one search -/

namespace Cache

theorem slash_not_mem_entryName (path : Path) : '/' ∉ (entryName path).toList := by
  have hsafe (ch : Char) : safeChar ch ≠ '/' := by
    unfold safeChar
    split <;> simp_all
  simp only [entryName, String.toList_append, String.toList_ofList, List.mem_append, List.mem_map,
    not_or, not_exists, not_and]
  exact ⟨fun ch _ => hsafe ch, by decide⟩

/-- The file of an entry stands in the directory of the cache, under the name of the entry. -/
theorem steps_entryPath (c : Cache) (path : Path) :
    ∃ name : Name, name.text = entryName path ∧
      (c.entryPath path).steps = c.directory.steps ++ [.name name] := by
  have hslash := slash_not_mem_entryName path
  have hlength : 5 ≤ (entryName path).length := by
    have hjson : ".json".length = 5 := by decide
    rw [entryName, String.length_append, hjson]
    exact Nat.le_add_left 5 _
  have hshort {text : String} (h : text.length < 5) : entryName path ≠ text := by
    rintro rfl
    exact absurd hlength (Nat.not_le_of_lt h)
  have hvalid : isName (entryName path) = true := by
    simp only [isName, Bool.and_eq_true, bne_iff_ne, Bool.not_eq_true', List.contains_eq_mem,
      decide_eq_false_iff_not]
    exact ⟨⟨⟨hshort (by decide), hshort (by decide)⟩, hshort (by decide)⟩, hslash⟩
  refine ⟨⟨entryName path, hvalid⟩, rfl, ?_⟩
  rw [entryPath, Path.steps_join _ hslash]
  exact congrArg (c.directory.steps ++ Option.toList ·)
    (Component.ofSegment?_name ⟨entryName path, hvalid⟩)

theorem entryName_eq_of_target {c : Cache} {path path' : Path} {t : FileTree}
    (h : t.target (c.entryPath path) = t.target (c.entryPath path')) :
    entryName path = entryName path' := by
  obtain ⟨name, hname, hsteps⟩ := c.steps_entryPath path
  obtain ⟨name', hname', hsteps'⟩ := c.steps_entryPath path'
  rw [target, target, hsteps, hsteps', Path.walk_append, Path.walk_append] at h
  have hlast : name = name' := (List.append_singleton_inj.mp h).2
  rw [← hname, ← hname', hlast]

end Cache

namespace Builder

variable {b : Builder} {s s' : Source} {t u : FileTree} {sources : List Source} {directory : Path}

/-- Two sources of a search stand under names and have one extension, if there is only one. -/
theorem exists_names_of_find (hfind : Source.find b.options directory t = .ok sources)
    {extension : String} (hextension : b.options.extensions = [extension]) (hs : s ∈ sources)
    (hs' : s' ∈ sources) (hne : s ≠ s') :
    ∃ init n init' n', Source.FoundAt b.options directory t (init ++ [n]) s ∧
      Source.FoundAt b.options directory t (init' ++ [n']) s' ∧ s.extension = s'.extension := by
  obtain ⟨below, h⟩ := (Source.mem_find_iff hfind).mp hs
  obtain ⟨below', h'⟩ := (Source.mem_find_iff hfind).mp hs'
  obtain ⟨init, n, rfl⟩ := h.exists_concat h' hne
  obtain ⟨init', n', rfl⟩ := h'.exists_concat h hne.symm
  have honly {s : Source} {below : List Name}
      (h : Source.FoundAt b.options directory t below s) : s.extension = extension := by
    have hmem := (Source.ofPath?_eq_some_iff.mp h.source).2.2
    rw [hextension] at hmem
    exact List.mem_singleton.mp hmem
  exact ⟨init, n, init', n', h, h', (honly h).trans (honly h').symm⟩

/-- Outputs of different sources with one extension are different files. -/
theorem disjoint_outputs (hfind : Source.find b.options directory t = .ok sources)
    {extension : String} (hextension : b.options.extensions = [extension])
    (hsuffix : '/' ∉ b.options.outputSuffix.toList) (hs : s ∈ sources) (hs' : s' ∈ sources)
    (hne : s ≠ s') : Disjoint (t.named (b.outputOf s)) (t.named (b.outputOf s')) := by
  obtain ⟨init, n, init', n', h, h', hsame⟩ :=
    exists_names_of_find hfind hextension hs hs' hne
  refine Set.disjoint_left.mpr fun location hmine hother => ?_
  have htarget := (target_of_mem_named hmine).trans (target_of_mem_named hother).symm
  have hdirectory := h.isDirectoryAt_of_target_output h' hsame hne hsuffix htarget
  have hfile := isDirectoryAt_of_mem_named hmine
  rw [← target_of_mem_named hmine] at hfile
  exact absurd (hdirectory.symm.trans hfile) (by decide)

/-- **The sources of a search are independent**, if they have one extension, their entries have
different names, and sources, outputs and entries are different files. -/
theorem independent_of_find (hfind : Source.find b.options directory t = .ok sources)
    {extension : String} (hextension : b.options.extensions = [extension])
    (hsuffix : '/' ∉ b.options.outputSuffix.toList)
    (hnames : (sources.map fun s => Cache.entryName s.path).Nodup)
    (hsource : Disjoint (b.outputFiles t sources ∪ b.entryFiles t sources)
      (sourceFiles t sources))
    (hentry : Disjoint (b.outputFiles t sources) (b.entryFiles t sources)) :
    b.Independent t sources := by
  intro s hs s' hs' hne
  refine Set.disjoint_left.mpr fun location hmine hother => ?_
  rcases hmine with hpath | houtput | ⟨c, hc, hkept⟩
  · exact Set.disjoint_left.mp hsource (written_subset hs' hother) ⟨s, hs, hpath⟩
  · rcases hother with houtput' | hkept'
    · exact Set.disjoint_left.mp (disjoint_outputs hfind hextension hsuffix hs hs' hne)
        houtput houtput'
    · exact Set.disjoint_left.mp hentry ⟨s, hs, houtput⟩ ⟨s', hs', hkept'⟩
  · rcases hother with houtput' | ⟨c', hc', hkept'⟩
    · exact Set.disjoint_left.mp hentry ⟨s', hs', houtput'⟩ ⟨s, hs, c, hc, hkept⟩
    · obtain rfl := Option.mem_unique hc hc'
      have htarget := (target_of_mem_named hkept).trans (target_of_mem_named hkept').symm
      exact hne (List.inj_on_of_nodup_map hnames hs hs' (Cache.entryName_eq_of_target htarget))

/-! ### A build in any order -/

/-- A report accounts for sources: each was compiled or cached, and the outputs are theirs, in order
and without repetition. -/
structure Accounts (b : Builder) (sources : List Source) (report : Report) : Prop where
  total : report.compiled + report.cached = sources.length
  sorted : report.outputs.Pairwise fun p q => p.le q = true
  nodup : report.outputs.Nodup
  outputs : report.outputs.Perm (sources.map b.outputOf)

theorem compiled_add_cached (outputs : List (Path × Origin)) :
    (Report.ofOutputs outputs).compiled + (Report.ofOutputs outputs).cached = outputs.length := by
  induction outputs with
  | nil => rfl
  | cons output rest ih =>
      obtain ⟨path, origin⟩ := output
      cases origin <;> simp [Report.ofOutputs] at ih ⊢ <;> omega

theorem accounts_of_find (hfind : Source.find b.options directory t = .ok sources)
    {extension : String} (hextension : b.options.extensions = [extension])
    (hsuffix : '/' ∉ b.options.outputSuffix.toList) (origin : Source → Origin) :
    b.Accounts sources (Report.ofOutputs (sources.map fun s => (b.outputOf s, origin s))) := by
  have hperm : (Report.ofOutputs (sources.map fun s => (b.outputOf s, origin s))).outputs.Perm
      (sources.map b.outputOf) := by
    simpa [Report.ofOutputs, Function.comp_def] using List.mergeSort_perm (sources.map b.outputOf) _
  refine ⟨?_, ?_, ?_, hperm⟩
  · rw [compiled_add_cached, List.length_map]
  · exact @List.pairwise_mergeSort Path Path.le (fun _ _ _ => Path.le_trans) Path.le_total _
  · rw [hperm.nodup_iff, List.nodup_map_iff_inj_on (Source.nodup_of_find hfind)]
    intro s hs s' hs' heq
    by_contra hne
    obtain ⟨init, n, init', n', h, h', hsame⟩ :=
      exists_names_of_find hfind hextension hs hs' hne
    exact h.output_ne h' hsame hne hsuffix heq

/-- **A build comes to the same end in every order.** The sources have one extension, their entries
in the cache have different names, sources, outputs and entries are different files, and every
source can be built. Then the sources can be built one after the other in any order, and their steps
can be taken as any schedule says: nothing fails, each source ends in the same way, and when all
have come to their end the files are the same. -/
theorem build_order_independent {extension : String}
    (hextension : b.options.extensions = [extension])
    (hsuffix : '/' ∉ b.options.outputSuffix.toList)
    (hfind : Source.find b.options directory t = .ok sources)
    (hnames : (sources.map fun s => Cache.entryName s.path).Nodup)
    (hsource : Disjoint (b.outputFiles t sources ∪ b.entryFiles t sources)
      (sourceFiles t sources))
    (hentry : Disjoint (b.outputFiles t sources) (b.entryFiles t sources))
    (hbuilds : ∀ s ∈ sources, ∃ output, ((b.buildFile s).on t).1 = .ok output) :
    ∃ (origin : Source → Origin) (report : Report) (final : FileTree),
      report = Report.ofOutputs (sources.map fun s => (b.outputOf s, origin s)) ∧
      b.Accounts sources report ∧
      (b.buildDirectory directory).on t = (.ok report, final) ∧
      (∀ order : List Source, order.Perm sources →
        (b.buildFiles order).on t =
          (.ok (order.map fun s => (b.outputOf s, origin s)), final)) ∧
      ∀ schedule : List Source, schedule ⊆ sources →
        ∃ stages u, (b.interleave schedule fun _ => .waiting).on t = (.ok stages, u) ∧
          ((∀ s ∈ sources, stepCount ≤ schedule.count s) →
            ∀ s ∈ sources, stages s = .done (origin s)) ∧
          ((∀ s ∈ sources, ∃ o, stages s = .done o) →
            u = final ∧ ∀ s ∈ sources, stages s = .done (origin s)) := by
  have hindependent := independent_of_find hfind hextension hsuffix hnames hsource hentry
  have hbuildable : b.Buildable t sources := fun s hs =>
    have ⟨_, houtput⟩ := hbuilds s hs
    exists_done_of_buildFile houtput
  -- The order of the search gives the end to which all others are compared.
  obtain ⟨turns, stages, final, hrun, habreast, hdone⟩ :=
    Abreast.run_inOrder hindependent hbuildable (List.Perm.refl sources)
  have hend {turns' : Source → Nat} {stages' : Source → Stage} {u : FileTree}
      (habreast' : b.Abreast t sources turns' stages' u)
      (hdone' : ∀ s ∈ sources, ∃ o, stages' s = .done o) :
      u = final ∧ ∀ s ∈ sources, stages' s = .done (stages s).origin := by
    obtain ⟨hfinal, hstages⟩ := habreast.eq_of_done habreast' hbuildable hdone hdone'
    refine ⟨hfinal, fun s hs => ?_⟩
    obtain ⟨o, ho⟩ := hdone s hs
    rw [hstages s hs, ho]
    rfl
  have horder : ∀ order : List Source, order.Perm sources →
      (b.buildFiles order).on t =
        (.ok (order.map fun s => (b.outputOf s, (stages s).origin)), final) := by
    intro order hperm
    obtain ⟨turns', stages', u, hrun', habreast', hdone'⟩ :=
      Abreast.run_inOrder hindependent hbuildable hperm
    obtain ⟨rfl, hstages⟩ := hend habreast' hdone'
    have hnodup := hperm.nodup_iff.mpr (Source.nodup_of_find hfind)
    rw [buildFiles_of_interleave hnodup (fun _ _ => rfl) hrun']
    have hmap : order.map (fun s => (b.outputOf s, (stages' s).origin)) =
        order.map fun s => (b.outputOf s, (stages s).origin) :=
      List.map_congr_left fun s hs => by rw [hstages s (hperm.subset hs)]; rfl
    rw [hmap]
  refine ⟨fun s => (stages s).origin, _, final, rfl,
    accounts_of_find hfind hextension hsuffix _, ?_, horder, fun schedule hschedule => ?_⟩
  · rw [on_buildDirectory hfind, Files.on_bind_of_ok (horder sources (List.Perm.refl _))]
    rfl
  · obtain ⟨stages', u, hrun', habreast'⟩ :=
      (Abreast.start b t sources).run hindependent hbuildable hschedule
    refine ⟨stages', u, hrun', fun hcount => (hend habreast' fun s hs => ?_).2, hend habreast'⟩
    refine habreast'.done_of_turns hs hbuildable ?_
    rw [Nat.zero_add]
    exact hcount s hs

/-- The project after a build, with the second source. The cache holds the output of the first. -/
def twoPages : FileTree :=
  edit secondPage.path "$html\x7b<b></b>\x7d$"
    ((projectBuilder.buildDirectory ⟨"p"⟩).on ((create {} ⟨"p"⟩).on newProject).2).2

/-- The two sources side by side: while one is compiled the other is taken from the cache. -/
theorem two_pages_side_by_side :
    ∃ report final stages,
      (projectBuilder.buildDirectory ⟨"p"⟩).on twoPages = (.ok report, final) ∧
      report.compiled + report.cached = 2 ∧
      (projectBuilder.interleave [page, secondPage, secondPage, page, secondPage, page, page,
        secondPage] fun _ => .waiting).on twoPages = (.ok stages, final) := by
  have hfacts : twoPages.current = [] ∧
      twoPages.locate ⟨"p"⟩ = .ok (twoPages.target ⟨"p"⟩) ∧
      (twoPages.get? (twoPages.target ⟨"p"⟩)).map
        (Source.inEntry projectBuilder.options ⟨"p"⟩ []) = some [page, secondPage] ∧
      ((projectBuilder.buildFile page).on twoPages).1 =
        .ok (⟨"p/a_gas.go"⟩, .cached) ∧
      ((projectBuilder.buildFile secondPage).on twoPages).1 =
        .ok (⟨"p/b_gas.go"⟩, .compiled) := by
    decide +kernel
  obtain ⟨hcurrent, hlocate, hwalk, hfirst, hsecond⟩ := hfacts
  have htargets := two_pages_apart hcurrent
  have hfind := Source.find_of_sorted hlocate hwalk (by decide +kernel)
  have hsource : Disjoint (projectBuilder.outputFiles twoPages [page, secondPage] ∪
      projectBuilder.entryFiles twoPages [page, secondPage])
      (sourceFiles twoPages [page, secondPage]) := by
    refine Set.disjoint_left.mpr ?_
    rintro location (⟨s, hs, hmem⟩ | ⟨s, hs, c, hc, hmem⟩) ⟨s', hs', hmem'⟩
    · have htarget := (target_of_mem_named hmem).trans (target_of_mem_named hmem').symm
      exact (htargets s hs s' hs' _ rfl).1 htarget
    · have htarget := (target_of_mem_named hmem).trans (target_of_mem_named hmem').symm
      exact (htargets s hs s' hs' c hc).2.1 htarget
  have hentry : Disjoint (projectBuilder.outputFiles twoPages [page, secondPage])
      (projectBuilder.entryFiles twoPages [page, secondPage]) := by
    refine Set.disjoint_left.mpr ?_
    rintro location ⟨s, hs, hmem⟩ ⟨s', hs', c, hc, hmem'⟩
    have htarget := (target_of_mem_named hmem).trans (target_of_mem_named hmem').symm
    exact (htargets s hs s' hs' c hc).2.2 htarget
  have hbuilds : ∀ s ∈ [page, secondPage],
      ∃ output, ((projectBuilder.buildFile s).on twoPages).1 = .ok output :=
    List.forall_mem_cons.mpr ⟨⟨_, hfirst⟩, List.forall_mem_singleton.mpr ⟨_, hsecond⟩⟩
  obtain ⟨origin, report, final, -, haccounts, hbuild, -, hschedules⟩ :=
    build_order_independent (b := projectBuilder) rfl (by decide) hfind (by decide +kernel)
      hsource hentry hbuilds
  obtain ⟨stages, u, hrun, hturns, hdone⟩ := hschedules
    [page, secondPage, secondPage, page, secondPage, page, page, secondPage] (by simp)
  obtain ⟨rfl, -⟩ := hdone fun s hs => ⟨_, hturns (by decide +kernel) s hs⟩
  exact ⟨report, u, stages, hbuild, haccounts.total, hrun⟩

end Builder

end Stencil
