import Stencil.Project.Build
import Stencil.Proofs.Fingerprint
import Stencil.Proofs.Locations
import Stencil.Proofs.Pass

/-!
# Outputs from the cache

What the cache holds for a source is what compiling the source gives now. The path is not part
of a key, paths share entries where their names differ in slashes only, and entries outlast a
change of the options. So the argument cannot be about one entry and one path; it is about all
the entries of a directory at once.

A `History` is what can happen to the cache of a directory that begins without entries: caches
are opened with any options, are asked for outputs, and keep outputs that were compiled; and
between these steps entries may be lost. Along a history every entry is `Genuine`: it holds the
digest of a key whose source was compiled, and the output. Since a key tells its source and its
options, and since the code depends neither on the path nor on an option but the runtime, an
entry with the digest at hand holds the code at hand.

## Main results

* `Document.compiled_of_path`: the code of a source does not depend on its path.
* `CacheEntry.parse?_render`: an entry reads back from its text.
* `genuine_of_step`, `genuine_of_history`: **entries are genuine along every history**.
* `hit_is_fresh`: **an output from the cache is what compiling gives**.
-/

namespace Stencil

/-! ### Paths do not matter to the code -/

namespace Document

/-- Blocks that differ in their place only return the same code. -/
theorem block_compile_of_place (rt : Runtime) {b b' : Block} (hname : b'.name = b.name)
    (hvalue : b'.value = b.value) {n next : Nat} {code : String} {seen : List Attribute}
    (h : (b.compile rt).Returns n code next seen) : (b'.compile rt).Returns n code next seen := by
  have harguments {code : String} (h : (b.arguments rt).Returns n code next seen) :
      (b'.arguments rt).Returns n code next seen := by
    rw [Block.arguments, Pass.returns_located_iff] at h ⊢
    rwa [hvalue]
  unfold Block.compile at h ⊢
  rw [hname, hvalue]
  split at h
  · exact harguments h
  · obtain ⟨code', hcode, rfl⟩ := h.of_map
    rw [map_eq_pure_bind, ← List.append_nil seen]
    exact (harguments hcode).bind (Pass.returns_pure _ _)
  · exact h

theorem compileParts_of_file (rt : Runtime) (file file' : Option String) (offset : Nat)
    (ps : List Piece) {n next : Nat} {code : String} {seen : List (Attribute × Block)}
    (h : (compileParts rt (partsFrom file offset ps)).Returns n code next seen) :
    ∃ seen', (compileParts rt (partsFrom file' offset ps)).Returns n code next seen' := by
  induction ps generalizing offset n next code seen with
  | nil => exact ⟨seen, h⟩
  | cons piece ps ih =>
      cases piece with
      | text chars =>
          obtain ⟨rest, k, first, more, hrest, hlast, -⟩ := Pass.Returns.of_bind h
          obtain ⟨seen', hrest'⟩ := ih _ hrest
          exact ⟨_, hrest'.bind hlast⟩
      | block name body =>
          obtain ⟨code₁, k, first, more, hblock, hrest, -⟩ := Pass.Returns.of_bind h
          obtain ⟨rest, k', second, last, hrest, hlast, -⟩ := Pass.Returns.of_bind hrest
          obtain ⟨reported, hblock⟩ := hblock.of_mapObserved
          obtain ⟨seen', hrest'⟩ := ih _ hrest
          refine ⟨_, (Pass.Returns.mapObserved _ (block_compile_of_place rt ?_ ?_ hblock)).bind
            (hrest'.bind hlast)⟩
          · rfl
          · rfl

/-- The code of a source does not depend on its path. -/
theorem compiled_of_path {rt : Runtime} {path text code : String}
    (h : compiled rt path text = .ok code) (path' : String) : compiled rt path' text = .ok code := by
  obtain ⟨seen, hreturns⟩ := compileParts_of_file rt (some path) (some path') 0
    (pieces text.toList) (Pass.returns_of_result h)
  exact hreturns.result

end Document

/-! ### Entries and their texts -/

namespace CacheEntry

/-- An entry reads back from its text. -/
theorem parse?_render (e : CacheEntry) : parse? e.render = some e := by
  have hplain : (Json.ofMembers
      [("hash", .string (some e.hash)), ("output", .string (some e.output))]).Plain := by
    refine Json.plain_ofMembers fun member hmember => ?_
    simp only [List.mem_cons, List.not_mem_nil, or_false] at hmember
    rcases hmember with rfl | rfl <;> exact .string _
  rw [parse?, render, Json.parse?_render hplain]
  rfl

end CacheEntry

namespace Cache

variable {directory : Path} {t t' : FileTree}

/-- The entry in the file for a path, in the cache of a directory. -/
def entry? (directory : Path) (t : FileTree) (path : Path) : Option CacheEntry :=
  match t.fileAt (t.target (directory.join ⟨entryName path⟩)) with
  | some (.text text) => CacheEntry.parse? text
  | _ => none

theorem entry?_eq_some_iff {path : Path} {e : CacheEntry} :
    entry? directory t path = some e ↔
      ∃ text, t.fileAt (t.target (directory.join ⟨entryName path⟩)) = some (.text text) ∧
        CacheEntry.parse? text = some e := by
  unfold entry?
  split <;> simp_all

/-! ### Steps that bring in no entry -/

/-- Entries may be lost, but none comes in. -/
structure Loses (directory : Path) (t t' : FileTree) : Prop where
  current : t'.current = t.current
  entry? : ∀ path e, entry? directory t' path = some e → entry? directory t path = some e

/-- The content of a file is no entry. -/
def NoEntry (content : Content) : Prop :=
  ∀ text, content = .text text → CacheEntry.parse? text = none

/-- No entry comes in if every file is as it was or holds none. -/
theorem Loses.of_files (hcurrent : t'.current = t.current)
    (hfiles : ∀ location content, t'.fileAt location = some content →
      t.fileAt location = some content ∨ NoEntry content) : Loses directory t t' := by
  refine ⟨hcurrent, fun path e he => ?_⟩
  obtain ⟨text, hfile, hparse⟩ := entry?_eq_some_iff.mp he
  rw [FileTree.target, hcurrent, ← FileTree.target] at hfile
  rcases hfiles _ _ hfile with hbefore | hno
  · exact entry?_eq_some_iff.mpr ⟨text, hbefore, hparse⟩
  · rw [hno text rfl] at hparse
    cases hparse

theorem Loses.refl (directory : Path) (t : FileTree) : Loses directory t t :=
  ⟨rfl, fun _ _ h => h⟩

/-- Removing a file brings in no entry. -/
theorem loses_remove {p : Path} (h : t.remove p = .ok t') : Loses directory t t' := by
  obtain ⟨hcurrent, hfiles⟩ := FileTree.fileAt_remove h
  refine .of_files hcurrent fun location content hcontent => .inl ?_
  rcases hfiles location with hsame | hnone
  · rw [← hsame, hcontent]
  · rw [hnone] at hcontent
    cases hcontent

/-- Writing what is no entry brings in none. -/
theorem loses_write {p : Path} {content : Content} (hno : NoEntry content)
    (h : t.write p content = .ok t') : Loses directory t t' := by
  obtain ⟨hframe, -, hnew⟩ := FileTree.write_spec h
  refine .of_files hframe.current fun location found hfound => ?_
  by_cases hlocation : location = t.target p
  · subst hlocation
    rw [hnew] at hfound
    exact .inr (Option.some.inj hfound ▸ hno)
  · exact .inl (hframe.fileAt location hlocation ▸ hfound)

theorem loses_attempt_write {content : Content} (hno : NoEntry content) (p : Path) (t : FileTree) :
    Loses directory t
      (Files.on (ε := Diagnostic) (.attempt fun t => t.write p content) t).2 := by
  unfold Files.attempt Files.on
  beta_reduce
  split
  · exact loses_write hno ‹_›
  · exact .refl directory t

/-- Opening a cache brings in no entry. -/
theorem loses_create (directory : Path) (o : Options) (t : FileTree) :
    Loses directory t ((create directory o).on t).2 := by
  have hkeeps : Files.KeepsFiles (create directory o) :=
    (Files.KeepsFiles.explain (Files.keepsFiles_ensureDirectoriesWithin _ _) _).bind
      fun _ => .pure _
  obtain ⟨hcurrent, hfiles⟩ := hkeeps t
  exact .of_files hcurrent fun location content hcontent => .inl (hfiles location ▸ hcontent)

/-- Asking for an output brings in no entry. -/
theorem loses_get? {ε : Type} (c : Cache) (path : Path) (source : String) (t : FileTree) :
    Loses directory t ((c.get? (ε := ε) path source).on t).2 := by
  unfold get? Files.on
  beta_reduce
  split
  · exact .refl directory t
  · split
    · exact .refl directory t
    · split
      · exact loses_remove ‹_›
      · exact .refl directory t

/-! ### Asking and keeping -/

/-- An output comes from an entry with the digest of the source and the options. -/
theorem entry?_of_get? {ε : Type} {c : Cache} {path : Path} {source output : String}
    (h : ((c.get? (ε := ε) path source).on t).1 = .ok (some output)) :
    entry? c.directory t path = some ⟨c.hash source, output⟩ := by
  unfold get? Files.on at h
  beta_reduce at h
  split at h
  · cases h
  · rename_i text hread
    obtain ⟨-, hfile⟩ := FileTree.read_eq_ok_iff.mp hread
    split at h
    · rename_i e hparse
      rw [entry?_eq_some_iff]
      refine ⟨text, hfile, hparse.trans ?_⟩
      obtain ⟨hash, found⟩ := e
      simp only [Except.ok.injEq, Option.ite_none_right_eq_some, Option.some.injEq] at h
      rw [h.1, h.2]
    · split at h <;> cases h

/-- After an output is kept, an entry is an old one or the one for the output. -/
theorem entry?_set {ε : Type} {c : Cache} {path : Path} {source output : String} {other : Path}
    {e : CacheEntry}
    (h : entry? directory ((c.set (ε := ε) path source output).on t).2 other = some e) :
    entry? directory t other = some e ∨ e = ⟨c.hash source, output⟩ := by
  unfold set Files.attempt Files.on at h
  beta_reduce at h
  split at h
  · rename_i t' hwrite
    obtain ⟨hframe, -, hnew⟩ := FileTree.write_spec hwrite
    obtain ⟨text, hfile, hparse⟩ := entry?_eq_some_iff.mp h
    rw [hframe.target] at hfile
    by_cases hsame : t.target (directory.join ⟨entryName other⟩) = t.target (c.entryPath path)
    · rw [hsame, hnew] at hfile
      obtain rfl := Content.text.inj (Option.some.inj hfile)
      rw [CacheEntry.parse?_render] at hparse
      exact .inr (Option.some.inj hparse).symm
    · rw [hframe.fileAt _ hsame] at hfile
      exact .inl (entry?_eq_some_iff.mpr ⟨text, hfile, hparse⟩)
  · exact .inl h

/-! ### Histories -/

/-- What may happen to the cache of a directory, with the key that is hashed if an output is
kept. An output is kept only if it is what compiling gave, under any path. -/
inductive Step (directory : Path) : FileTree → Option String → FileTree → Prop
  | create (t : FileTree) (o : Options) : Step directory t none ((create directory o).on t).2
  | get (t : FileTree) (o : Options) (path : Path) (source : String) :
      Step directory t none ((get? (ε := Diagnostic) ⟨directory, o⟩ path source).on t).2
  | set (t : FileTree) (o : Options) (path : Path) {source output origin : String} :
      Document.compiled ⟨o.runtime⟩ origin source = .ok output →
      Step directory t (some (source ++ o.fingerprint))
        ((set (ε := Diagnostic) ⟨directory, o⟩ path source output).on t).2
  | lose {t t' : FileTree} : Loses directory t t' → Step directory t none t'

/-- The trees that a cache directory without entries can come to, with the keys hashed. -/
inductive History (directory : Path) : FileTree → List String → Prop
  | start {t : FileTree} : (∀ path, entry? directory t path = none) → History directory t []
  | step {t t' : FileTree} {key : Option String} {hashed : List String} :
      History directory t hashed → Step directory t key t' →
      History directory t' (key.toList ++ hashed)

/-- The entry holds what compiling gave for a source, and the digest of its key. -/
def Genuine (hashed : List String) (e : CacheEntry) : Prop :=
  ∃ (o : Options) (source origin : String), source ++ o.fingerprint ∈ hashed ∧
    e.hash = Digest.sha256 (source ++ o.fingerprint) ∧
    Document.compiled ⟨o.runtime⟩ origin source = .ok e.output

/-- All entries are genuine. -/
def AllGenuine (directory : Path) (hashed : List String) (t : FileTree) : Prop :=
  ∀ path e, entry? directory t path = some e → Genuine hashed e

theorem hash_eq (c : Cache) (source : String) :
    c.hash source = Digest.sha256 (source ++ c.options.fingerprint) := rfl

theorem Genuine.mono {hashed hashed' : List String} {e : CacheEntry} (h : Genuine hashed e)
    (hsub : hashed ⊆ hashed') : Genuine hashed' e := by
  obtain ⟨o, source, origin, hmem, hhash, hcompiled⟩ := h
  exact ⟨o, source, origin, hsub hmem, hhash, hcompiled⟩

theorem Loses.allGenuine {hashed : List String} (h : Loses directory t t')
    (ht : AllGenuine directory hashed t) : AllGenuine directory hashed t' :=
  fun path e he => ht path e (h.entry? path e he)

/-- A step leaves all entries genuine. -/
theorem genuine_of_step {key : Option String} {hashed : List String}
    (h : Step directory t key t') (ht : AllGenuine directory hashed t) :
    AllGenuine directory (key.toList ++ hashed) t' := by
  cases h with
  | create o => exact (loses_create directory o t).allGenuine ht
  | get o path source => exact (loses_get? _ path source t).allGenuine ht
  | lose h => exact h.allGenuine ht
  | @set o path source output origin hcompiled =>
      intro other e he
      rcases entry?_set he with hold | rfl
      · exact (ht other e hold).mono (List.subset_append_right _ _)
      · exact ⟨o, source, origin, by simp, hash_eq _ _, hcompiled⟩

/-- **Entries are genuine along every history.** -/
theorem genuine_of_history {hashed : List String} (h : History directory t hashed) :
    AllGenuine directory hashed t := by
  induction h with
  | start hnone =>
      intro path e he
      rw [hnone path] at he
      cases he
  | step _ hstep ih => exact genuine_of_step hstep ih

/-- **An output from the cache is what compiling gives.** That two keys do not have one digest
is needed only of the key at hand and those under which outputs were kept. -/
theorem hit_is_fresh {hashed : List String} (h : History directory t hashed) (o : Options)
    (path : Path) (source output : String)
    (hhit : ((get? (ε := Diagnostic) ⟨directory, o⟩ path source).on t).1 = .ok (some output))
    (hdigest : ∀ key ∈ hashed,
      Digest.sha256 key = Digest.sha256 (source ++ o.fingerprint) → key = source ++ o.fingerprint) :
    Document.compiled ⟨o.runtime⟩ path.text source = .ok output := by
  have hentry := entry?_of_get? (c := ⟨directory, o⟩) hhit
  obtain ⟨o', source', origin, hmem, hhash, hcompiled⟩ := genuine_of_history h path _ hentry
  simp only [hash_eq] at hhash
  have hkey : source' ++ o'.fingerprint = source ++ o.fingerprint := hdigest _ hmem hhash.symm
  obtain ⟨rfl, rfl⟩ := Options.append_fingerprint_inj hkey
  exact Document.compiled_of_path hcompiled path.text

theorem history_empty (directory : Path) : History directory .empty [] := by
  refine .start fun path => ?_
  unfold entry?
  rw [FileTree.fileAt_empty]

/-- Two paths with one entry: what is kept for `a/b.gos` with another runtime is overwritten by
what is no entry, a question removes that, and then an output is kept for `a_b.gos`. -/
def sharedEntry : FileTree :=
  let t := ((create ⟨"c"⟩ {}).on .empty).2
  let t := ((set (ε := Diagnostic) ⟨⟨"c"⟩, { runtime := "ui" }⟩ ⟨"a/b.gos"⟩
    "$html\x7b<i></i>\x7d$" "ui.NE(&ui.E\x7bTag:\"i\", \x7d,)").on t).2
  let t := (Files.on (ε := Diagnostic)
    (.attempt fun t => t.write ⟨"c/a_b.gos.json"⟩ (.text "\x7bnot json")) t).2
  let t := ((get? (ε := Diagnostic) ⟨⟨"c"⟩, {}⟩ ⟨"a_b.gos"⟩ "").on t).2
  ((set (ε := Diagnostic) ⟨⟨"c"⟩, {}⟩ ⟨"a_b.gos"⟩
    "$html\x7b<i></i>\x7d$" "gas.NE(&gas.E\x7bTag:\"i\", \x7d,)").on t).2

theorem history_sharedEntry :
    History ⟨"c"⟩ sharedEntry
      ["$html\x7b<i></i>\x7d$" ++ Options.fingerprint {},
        "$html\x7b<i></i>\x7d$" ++ Options.fingerprint { runtime := "ui" }] := by
  have hother : Document.compiled ⟨"ui"⟩ "a/b.gos" "$html\x7b<i></i>\x7d$" =
      .ok "ui.NE(&ui.E\x7bTag:\"i\", \x7d,)" := by decide +kernel
  have hkept : Document.compiled ⟨"gas"⟩ "a_b.gos" "$html\x7b<i></i>\x7d$" =
      .ok "gas.NE(&gas.E\x7bTag:\"i\", \x7d,)" := by decide +kernel
  have hno : NoEntry (.text "\x7bnot json") := by
    rintro _ ⟨⟩
    decide +kernel
  have hset := ((history_empty ⟨"c"⟩).step (.create _ {})).step
    (.set _ { runtime := "ui" } ⟨"a/b.gos"⟩ hother)
  have hlost := hset.step (.lose (loses_attempt_write hno ⟨"c/a_b.gos.json"⟩ _))
  exact (hlost.step (.get _ {} ⟨"a_b.gos"⟩ "")).step (.set _ {} ⟨"a_b.gos"⟩ hkept)

/-- The output kept for `a_b.gos` is found for `a/b.gos`. -/
theorem hit_is_fresh_across_paths :
    ((get? (ε := Diagnostic) ⟨⟨"c"⟩, {}⟩ ⟨"a/b.gos"⟩ "$html\x7b<i></i>\x7d$").on sharedEntry).1 =
        .ok (some "gas.NE(&gas.E\x7bTag:\"i\", \x7d,)") ∧
      Document.compiled ⟨"gas"⟩ "a/b.gos" "$html\x7b<i></i>\x7d$" =
        .ok "gas.NE(&gas.E\x7bTag:\"i\", \x7d,)" := by
  have hhit : ((get? (ε := Diagnostic) ⟨⟨"c"⟩, {}⟩ ⟨"a/b.gos"⟩
      "$html\x7b<i></i>\x7d$").on sharedEntry).1 =
      .ok (some "gas.NE(&gas.E\x7bTag:\"i\", \x7d,)") := by decide +kernel
  exact ⟨hhit, hit_is_fresh history_sharedEntry {} ⟨"a/b.gos"⟩ _ _ hhit (by decide +kernel)⟩

end Cache

end Stencil
