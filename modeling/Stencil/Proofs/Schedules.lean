import Stencil.Proofs.Footprints

/-!
# Builds in any order

The sources of a build need not be built one after the other. Their steps may be taken in any order,
and a source that fails stops, while others go on with theirs or never begin. `Underway` is such a
build between two steps: how far each source has come, or with what it has failed, and the files. A
schedule says which source has the next turn. It may end at any moment of a build, so what holds
after every schedule holds all the time.

A step of a source keeps to the files of that source, whether it succeeds or not, so a run changes
outputs and entries of the cache and nothing else. Building the sources in order until one fails is
the run of one schedule, in which the sources after the first that fails have no turn.

## Main results

* `Underway.frame_run`: **what a build changes in any order**, whichever sources fail.
* `Underway.progress_run_of_error`: a source that has failed does not go on.
* `Underway.ended_of_turns`: a source that has had its turns has come to its end or has failed.
* `Builder.buildDirectory_eq_run`: **building in order is the run of a schedule.**
* `Builder.source_kept`: a source that is neither an output nor an entry of the cache is kept in
  every build.
* `Builder.source_overwritten`: a source that is an output is not.
-/

namespace Stencil

open FileTree

/-- The most steps that a source still takes. -/
def Stage.remaining : Stage → Nat
  | waiting => 4
  | loaded _ => 3
  | missed _ => 2
  | found _ => 1
  | written _ _ => 1
  | done _ => 0

namespace Builder

theorem remaining_of_step {b : Builder} {s : Source} {t u : FileTree} {stage next : Stage}
    (h : (b.step s stage).on t = (.ok next, u)) : next.remaining ≤ stage.remaining - 1 := by
  have hcases := step_cases h
  cases stage with
  | waiting =>
      obtain ⟨text, -, rfl, -⟩ := hcases
      exact le_rfl
  | loaded text =>
      obtain ⟨found, -, rfl⟩ := hcases
      cases found <;> simp [Stage.remaining]
  | found output =>
      obtain ⟨rfl, -⟩ := hcases
      exact le_rfl
  | missed text =>
      obtain ⟨code, -, -, rfl⟩ := hcases
      exact le_rfl
  | written text output =>
      obtain ⟨rfl, -⟩ := hcases
      exact le_rfl
  | done origin =>
      obtain ⟨rfl, -⟩ := hcases
      exact le_rfl

end Builder

/-- A build between two steps: where each source is, or with what it has failed, and the files. -/
structure Underway where
  progress : Source → Except Diagnostic Stage
  files : FileTree

namespace Underway

variable {b : Builder} {w : Underway} {s s' : Source} {t : FileTree} {sources : List Source}

/-- A build before its first step. -/
def start (t : FileTree) : Underway := ⟨fun _ => .ok .waiting, t⟩

/-- A turn of a source: it takes its next step. A source that has failed stays where it is. -/
def turn (b : Builder) (w : Underway) (s : Source) : Underway :=
  match w.progress s with
  | .ok stage =>
    let next := (b.step s stage).on w.files
    ⟨Function.update w.progress s next.1, next.2⟩
  | .error _ => w

/-- Takes the turns of a schedule. -/
def run (b : Builder) (w : Underway) (schedule : List Source) : Underway :=
  schedule.foldl (turn b) w

/-- The outputs of sources and how they were come by, or the error of the first that has failed. -/
def outcome (b : Builder) (w : Underway) (sources : List Source) :
    Except Diagnostic (List (Path × Origin)) :=
  sources.mapM fun s => (w.progress s).map fun stage => (b.outputOf s, stage.origin)

/-! ### Turns -/

theorem turn_of_ok {stage : Stage} (h : w.progress s = .ok stage) :
    w.turn b s = ⟨Function.update w.progress s ((b.step s stage).on w.files).1,
      ((b.step s stage).on w.files).2⟩ := by
  rw [turn, h]

theorem turn_of_error {e : Diagnostic} (h : w.progress s = .error e) : w.turn b s = w := by
  rw [turn, h]

theorem progress_turn_self {stage : Stage} (h : w.progress s = .ok stage) :
    (w.turn b s).progress s = ((b.step s stage).on w.files).1 := by
  rw [turn_of_ok h]
  exact Function.update_self ..

/-- A turn of one source does not change how far another one has come. -/
theorem progress_turn_of_ne (hne : s' ≠ s) : (w.turn b s).progress s' = w.progress s' := by
  cases hprogress : w.progress s with
  | ok stage =>
      rw [turn_of_ok hprogress]
      exact Function.update_of_ne hne _ _
  | error e => rw [turn_of_error hprogress]

/-- **What a turn changes**: files of the source that has it. -/
theorem frame_turn (hw : Frame .univ t w.files) (s : Source) :
    Frame (b.written t s) w.files (w.turn b s).files := by
  cases hprogress : w.progress s with
  | ok stage =>
      rw [turn_of_ok hprogress]
      exact (b.footprint_step s stage t).frame w.files hw
  | error e =>
      rw [turn_of_error hprogress]
      exact .refl _ _

/-! ### Runs -/

@[simp] theorem run_nil (b : Builder) (w : Underway) : w.run b [] = w := rfl

@[simp] theorem run_cons (b : Builder) (w : Underway) (s : Source) (schedule : List Source) :
    w.run b (s :: schedule) = (w.turn b s).run b schedule := rfl

theorem run_append (b : Builder) (w : Underway) (schedule schedule' : List Source) :
    w.run b (schedule ++ schedule') = (w.run b schedule).run b schedule' :=
  List.foldl_append

/-- **What a build changes in any order**, whichever sources fail: their outputs, and their entries
in the cache. -/
theorem frame_run {schedule : List Source} (hschedule : schedule ⊆ sources)
    (hw : Frame (b.outputFiles t sources ∪ b.entryFiles t sources) t w.files) :
    Frame (b.outputFiles t sources ∪ b.entryFiles t sources) t (w.run b schedule).files := by
  induction schedule generalizing w with
  | nil => exact hw
  | cons s rest ih =>
      have hs : s ∈ sources := hschedule List.mem_cons_self
      have hturn : Frame (b.written t s) w.files (w.turn b s).files :=
        frame_turn (hw.mono (Set.subset_univ _)) s
      have hnext := hw.trans (hturn.mono (Builder.written_subset hs))
      exact ih (fun s hs => hschedule (List.mem_cons_of_mem _ hs)) hnext

/-- A source without a turn stays where it is. -/
theorem progress_run_of_not_mem {schedule : List Source} (hs : s ∉ schedule) :
    (w.run b schedule).progress s = w.progress s := by
  induction schedule generalizing w with
  | nil => rfl
  | cons first rest ih =>
      obtain ⟨hne, hrest⟩ := not_or.mp (mt List.mem_cons.mpr hs)
      rw [run_cons, ih hrest, progress_turn_of_ne hne]

/-- **A source that has failed does not go on.** -/
theorem progress_run_of_error {e : Diagnostic} (h : w.progress s = .error e)
    (schedule : List Source) : (w.run b schedule).progress s = .error e := by
  induction schedule generalizing w with
  | nil => exact h
  | cons first rest ih =>
      refine ih ?_
      by_cases heq : s = first
      · rw [← heq, turn_of_error h, h]
      · rw [progress_turn_of_ne heq, h]

/-! ### The end of a build -/

/-- The most steps that a source still takes from where it is. -/
def left (w : Underway) (s : Source) : Nat :=
  match w.progress s with
  | .ok stage => stage.remaining
  | .error _ => 0

theorem left_of_error {e : Diagnostic} (h : w.progress s = .error e) : w.left s = 0 := by
  rw [left, h]

theorem left_turn (b : Builder) (w : Underway) (s : Source) :
    (w.turn b s).left s ≤ w.left s - 1 := by
  cases hprogress : w.progress s with
  | error e =>
      rw [turn_of_error hprogress, left_of_error hprogress]
  | ok stage =>
      have hleft : w.left s = stage.remaining := by rw [left, hprogress]
      cases hstep : (b.step s stage).on w.files with
      | mk result u =>
          have hturn : (w.turn b s).progress s = result := by
            rw [progress_turn_self hprogress, hstep]
          cases result with
          | error e =>
              rw [left_of_error hturn]
              exact Nat.zero_le _
          | ok next =>
              rw [left, hturn, hleft]
              exact Builder.remaining_of_step hstep

theorem left_turn_of_ne (hne : s' ≠ s) : (w.turn b s).left s' = w.left s' := by
  rw [left, left, progress_turn_of_ne hne]

theorem left_run (b : Builder) (w : Underway) (s : Source) (schedule : List Source) :
    (w.run b schedule).left s ≤ w.left s - schedule.count s := by
  induction schedule generalizing w with
  | nil => exact le_rfl
  | cons first rest ih =>
      have hrest := ih (w.turn b first)
      rw [run_cons]
      by_cases heq : first = s
      · subst heq
        have hfirst := left_turn b w first
        rw [List.count_cons_self]
        omega
      · rw [left_turn_of_ne (Ne.symm heq)] at hrest
        rwa [List.count_cons_of_ne heq]

/-- **A source that has had its turns has come to its end or has failed**, whatever the others have
done. -/
theorem ended_of_turns {schedule : List Source} (h : Builder.stepCount ≤ schedule.count s) :
    (∃ origin, ((start t).run b schedule).progress s = .ok (.done origin)) ∨
      ∃ e, ((start t).run b schedule).progress s = .error e := by
  have hleft : ((start t).run b schedule).left s = 0 := by
    have hrun := left_run b (start t) s schedule
    have hstart : (start t).left s = Builder.stepCount := rfl
    omega
  cases hprogress : ((start t).run b schedule).progress s with
  | error e => exact .inr ⟨e, rfl⟩
  | ok stage =>
      rw [left, hprogress] at hleft
      cases stage with
      | done origin => exact .inl ⟨origin, rfl⟩
      | _ => cases hleft

/-! ### One source after the other -/

theorem run_replicate_of_error {e : Diagnostic} (h : w.progress s = .error e) (n : Nat) :
    w.run b (List.replicate n s) = w := by
  induction n with
  | zero => rfl
  | succ n ih => rw [List.replicate_succ, run_cons, turn_of_error h, ih]

/-- The turns of one source are the steps that it takes when it is built. -/
theorem run_replicate {stage : Stage} {result : Except Diagnostic Stage} {u : FileTree} {n : Nat}
    (h : w.progress s = .ok stage) (hadvance : (b.advance s n stage).on w.files = (result, u)) :
    w.run b (List.replicate n s) = ⟨Function.update w.progress s result, u⟩ := by
  induction n generalizing w stage with
  | zero =>
      cases hadvance
      rw [← h, Function.update_eq_self]
      rfl
  | succ n ih =>
      rw [List.replicate_succ, run_cons, turn_of_ok h]
      rw [Builder.advance, Files.on_bind] at hadvance
      cases hstep : (b.step s stage).on w.files with
      | mk next v =>
          rw [hstep] at hadvance
          cases next with
          | ok next => rw [ih (Function.update_self ..) hadvance, Function.update_idem]
          | error e =>
              cases hadvance
              rw [run_replicate_of_error (Function.update_self ..)]

theorem outcome_of_error {e : Diagnostic} (h : w.progress s = .error e) (rest : List Source) :
    w.outcome b (s :: rest) = .error e := by
  rw [outcome, List.mapM_cons, h]
  rfl

theorem outcome_of_ok {stage : Stage} (h : w.progress s = .ok stage) (rest : List Source) :
    w.outcome b (s :: rest) =
      (w.outcome b rest).map fun outputs => (b.outputOf s, stage.origin) :: outputs := by
  rw [outcome, List.mapM_cons, h, outcome]
  rfl

end Underway

namespace Builder

variable {b : Builder} {s : Source} {t : FileTree} {sources : List Source} {directory : Path}

/-- Building a source is the run in which it has all its turns. -/
theorem buildFile_eq_run {w : Underway} (h : w.progress s = .ok .waiting) :
    (b.buildFile s).on w.files =
      (((w.run b (List.replicate stepCount s)).progress s).map fun stage =>
        (b.outputOf s, stage.origin), (w.run b (List.replicate stepCount s)).files) := by
  cases hadvance : (b.advance s stepCount .waiting).on w.files with
  | mk result u =>
      rw [Underway.run_replicate h hadvance, buildFile, Files.on_bind, hadvance]
      show _ = ((Function.update w.progress s result s).map _, u)
      rw [Function.update_self]
      cases result <;> rfl

/-- **Building sources in order is the run of a schedule**, in which the sources after the first
that fails have no turn. -/
theorem buildFiles_eq_run {w : Underway} {order : List Source} (hnodup : order.Nodup)
    (hwaiting : ∀ s ∈ order, w.progress s = .ok .waiting) :
    ∃ schedule ⊆ order, (b.buildFiles order).on w.files =
      ((w.run b schedule).outcome b order, (w.run b schedule).files) := by
  induction order generalizing w with
  | nil => exact ⟨[], List.Subset.refl [], rfl⟩
  | cons s rest ih =>
      obtain ⟨hs, hrest⟩ := List.nodup_cons.mp hnodup
      have hfile := buildFile_eq_run (b := b) (hwaiting s List.mem_cons_self)
      have hturns : List.replicate stepCount s ⊆ s :: rest := fun s' hs' => by
        rw [List.eq_of_mem_replicate hs']
        exact List.mem_cons_self
      cases hprogress : (w.run b (List.replicate stepCount s)).progress s with
      | error e =>
          refine ⟨List.replicate stepCount s, hturns, ?_⟩
          rw [buildFiles, Files.on_bind, hfile, hprogress, Underway.outcome_of_error hprogress]
          rfl
      | ok stage =>
          rw [hprogress] at hfile
          obtain ⟨schedule, hschedule, hbuild⟩ := ih hrest fun s' hs' => by
            have hne : s' ∉ List.replicate stepCount s := fun h =>
              hs (List.eq_of_mem_replicate h ▸ hs')
            rw [Underway.progress_run_of_not_mem (b := b) hne]
            exact hwaiting s' (List.mem_cons_of_mem s hs')
          have hstage :=
            (Underway.progress_run_of_not_mem (b := b) fun h => hs (hschedule h)).trans hprogress
          refine ⟨List.replicate stepCount s ++ schedule, List.append_subset.mpr
            ⟨hturns, fun s' hs' => List.mem_cons_of_mem s (hschedule hs')⟩, ?_⟩
          rw [Underway.run_append, Underway.outcome_of_ok hstage, buildFiles,
            Files.on_bind_of_ok hfile, Files.on_bind, hbuild]
          cases Underway.outcome b _ rest <;> rfl

/-- **Building in order is the run of a schedule.** -/
theorem buildDirectory_eq_run (hfind : Source.find b.options directory t = .ok sources) :
    ∃ schedule ⊆ sources, (b.buildDirectory directory).on t =
      ((((Underway.start t).run b schedule).outcome b sources).map Report.ofOutputs,
        ((Underway.start t).run b schedule).files) := by
  obtain ⟨schedule, hschedule, hbuild⟩ := buildFiles_eq_run (b := b) (w := .start t)
    (Source.nodup_of_find hfind) fun _ _ => rfl
  have hfiles : (b.buildFiles sources).on t =
      (((Underway.start t).run b schedule).outcome b sources,
        ((Underway.start t).run b schedule).files) := hbuild
  refine ⟨schedule, hschedule, ?_⟩
  rw [on_buildDirectory hfind, Files.on_bind, hfiles]
  cases Underway.outcome b _ sources <;> rfl

/-- What a build in order changes, whether it succeeds or not. -/
theorem frame_buildDirectory (hfind : Source.find b.options directory t = .ok sources) :
    Frame (b.outputFiles t sources ∪ b.entryFiles t sources) t
      ((b.buildDirectory directory).on t).2 := by
  obtain ⟨schedule, hschedule, hbuild⟩ := buildDirectory_eq_run hfind
  rw [hbuild]
  exact Underway.frame_run hschedule (.refl _ _)

/-! ### Sources that are kept -/

/-- **A source that is neither an output nor an entry of the cache is kept**, in the build in order
and after every schedule, whichever sources fail. -/
theorem source_kept (hfind : Source.find b.options directory t = .ok sources) (hs : s ∈ sources)
    (houtput : t.target s.path ∉ b.outputFiles t sources)
    (hentry : t.target s.path ∉ b.entryFiles t sources) :
    ∃ content, t.fileAt (t.target s.path) = some content ∧
      ((b.buildDirectory directory).on t).2.fileAt (t.target s.path) = some content ∧
      ∀ schedule ⊆ sources,
        ((Underway.start t).run b schedule).files.fileAt (t.target s.path) = some content := by
  obtain ⟨below, hfound⟩ := (Source.mem_find_iff hfind).mp hs
  obtain ⟨content, hfile⟩ := hfound.file
  rw [← hfound.target] at hfile
  have hkept : t.target s.path ∉ b.outputFiles t sources ∪ b.entryFiles t sources :=
    fun hmem => hmem.elim houtput hentry
  refine ⟨content, hfile, ?_, fun schedule hschedule => ?_⟩
  · rw [(frame_buildDirectory hfind).fileAt _ hkept, hfile]
  · have hrun : Frame (b.outputFiles t sources ∪ b.entryFiles t sources) t
        ((Underway.start t).run b schedule).files := Underway.frame_run hschedule (.refl _ _)
    rw [hrun.fileAt _ hkept, hfile]

/-- A second source of the project. -/
def secondPage : Source := ⟨⟨"p/b.gos"⟩, "gos"⟩

theorem two_pages_apart {t : FileTree} (h : t.current = []) :
    ∀ s ∈ [page, secondPage], ∀ s' ∈ [page, secondPage], ∀ c ∈ projectBuilder.cache,
      t.target (projectBuilder.outputOf s) ≠ t.target s'.path ∧
        t.target (c.entryPath s.path) ≠ t.target s'.path ∧
        t.target (projectBuilder.outputOf s) ≠ t.target (c.entryPath s'.path) := by
  have htarget (p : Path) : t.target p = walk [] p.steps := by rw [target, h]
  simp only [htarget]
  decide +kernel

/-- The project with a text that cannot be compiled, and a second source. -/
def brokenProject : FileTree :=
  edit secondPage.path "$html\x7b<b></b>\x7d$"
    (edit page.path "$html\x7b<g-switch></g-switch>\x7d$" newProject)

/-- The steps of the two sources in turn. -/
def sideBySide : List Source :=
  [page, secondPage, page, secondPage, page, secondPage, page, secondPage]

/-- The first source fails. In order the second one is not begun then, and side by side it comes to
its end. Both sources outlive both builds. -/
theorem source_kept_in_failed_build :
    Source.find projectBuilder.options ⟨"p"⟩ brokenProject = .ok [page, secondPage] ∧
      ((projectBuilder.buildDirectory ⟨"p"⟩).on brokenProject).1.isOk = false ∧
      sideBySide ⊆ [page, secondPage] ∧
      (((Underway.start brokenProject).run projectBuilder sideBySide).progress page).isOk = false ∧
      ((Underway.start brokenProject).run projectBuilder sideBySide).progress secondPage =
        .ok (.done .compiled) ∧
      ∀ s ∈ [page, secondPage],
        ∃ content, brokenProject.fileAt (brokenProject.target s.path) = some content ∧
          ((projectBuilder.buildDirectory ⟨"p"⟩).on brokenProject).2.fileAt
            (brokenProject.target s.path) = some content ∧
          ((Underway.start brokenProject).run projectBuilder sideBySide).files.fileAt
            (brokenProject.target s.path) = some content := by
  have hfacts : brokenProject.current = [] ∧
      brokenProject.locate ⟨"p"⟩ = .ok (brokenProject.target ⟨"p"⟩) ∧
      (brokenProject.get? (brokenProject.target ⟨"p"⟩)).map
        (Source.inEntry projectBuilder.options ⟨"p"⟩ []) = some [page, secondPage] ∧
      ((projectBuilder.buildFiles [page, secondPage]).on brokenProject).1.isOk = false ∧
      (((Underway.start brokenProject).run projectBuilder sideBySide).progress page).isOk = false ∧
      ((Underway.start brokenProject).run projectBuilder sideBySide).progress secondPage =
        .ok (.done .compiled) := by
    decide +kernel
  obtain ⟨hcurrent, hlocate, hwalk, hbuild, hfailed, hdone⟩ := hfacts
  have hfind := Source.find_of_sorted hlocate hwalk (by decide +kernel)
  have hturns : sideBySide ⊆ [page, secondPage] := by decide
  have hapart := two_pages_apart hcurrent
  refine ⟨hfind, ?_, hturns, hfailed, hdone, fun s hs => ?_⟩
  · rw [on_buildDirectory hfind, Files.on_bind]
    cases hfiles : (projectBuilder.buildFiles [page, secondPage]).on brokenProject with
    | mk result u =>
        rw [hfiles] at hbuild
        cases result with
        | ok outputs => cases hbuild
        | error e => rfl
  · obtain ⟨content, hfile, hordered, hrun⟩ := source_kept hfind hs
      (fun ⟨s', hs', hmem⟩ => (hapart s' hs' s hs _ rfl).1 (target_of_mem_named hmem))
      (fun ⟨s', hs', c, hc, hmem⟩ => (hapart s' hs' s hs c hc).2.1 (target_of_mem_named hmem))
    exact ⟨content, hfile, hordered, hrun sideBySide hturns⟩

/-- The builder of the project where the suffix of the outputs is the extension of the sources. -/
def overwriting : Builder :=
  ⟨{ outputSuffix := ".gos" }, some ⟨⟨"p/.htmlc/cache"⟩, { outputSuffix := ".gos" }⟩⟩

/-- **An output may take the place of its source**, and the text of the source is lost. -/
theorem source_overwritten :
    Options.parse "\x7b\"outputSuffix\": \".gos\"\x7d" = .ok overwriting.options ∧
      ((create overwriting.options ⟨"p"⟩).on newProject).1 = .ok overwriting ∧
      Source.find overwriting.options ⟨"p"⟩ newProject = .ok [page] ∧
      ((overwriting.buildDirectory ⟨"p"⟩).on newProject).1 =
        .ok { compiled := 1, outputs := [page.path] } ∧
      newProject.fileAt (newProject.target page.path) =
        some (.text "$html\x7b<i></i>\x7d$") ∧
      ((overwriting.buildDirectory ⟨"p"⟩).on newProject).2.fileAt (newProject.target page.path) =
        some (.text "gas.NE(&gas.E\x7bTag:\"i\", \x7d,)") := by
  decide +kernel

end Builder

end Stencil
