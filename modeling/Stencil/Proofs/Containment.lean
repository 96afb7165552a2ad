import Stencil.Proofs.Balance

/-!
# Code inside code

Every construct writes the code that it is given somewhere between pieces of its own, and looks
into it only at its end: a block leaves out the last separator among its siblings, which may belong
to the code of a text. So whatever is put into a construct can be found in what comes out, in one
piece, and the one exception is said with it.

Siblings are followed as they are taken in. What is kept so far stands in the code that is written
or in the arms of the open chain, and each further sibling keeps it.

## Main results

* `Siblings.push_cases`: what taking in a sibling can do.
* `Siblings.standsIn_finish`, `Siblings.standsIn_withoutLast`: **the code of a sibling stands in the
  code of all of them**, and in that of a block but for a last separator of its own.
* `Component.standsIn_call`: what a child contributes to a component stands in the call.
-/

namespace Stencil

/-! ### Text inside text -/

/-- The part stands in the whole, in one piece. -/
def StandsIn (part whole : String) : Prop := part.toList <:+: whole.toList

instance (part whole : String) : Decidable (StandsIn part whole) :=
  inferInstanceAs (Decidable (_ <:+: _))

namespace StandsIn

variable {part whole : String}

theorem refl (part : String) : StandsIn part part := List.infix_rfl

theorem trans {middle : String} (h : StandsIn part middle) (h' : StandsIn middle whole) :
    StandsIn part whole :=
  List.IsInfix.trans h h'

theorem empty (whole : String) : StandsIn "" whole := List.nil_infix

theorem append_left (h : StandsIn part whole) (lead : String) : StandsIn part (lead ++ whole) := by
  rw [StandsIn, String.toList_append]
  exact List.IsInfix.trans h (List.suffix_append _ _).isInfix

theorem append_right (h : StandsIn part whole) (tail : String) :
    StandsIn part (whole ++ tail) := by
  rw [StandsIn, String.toList_append]
  exact List.IsInfix.trans h (List.prefix_append _ _).isInfix

theorem between (lead part tail : String) : StandsIn part (lead ++ part ++ tail) :=
  ((refl part).append_left lead).append_right tail

theorem join {parts : List String} (h : part ∈ parts) : StandsIn part (String.join parts) := by
  obtain ⟨before, after, rfl⟩ := List.append_of_mem h
  rw [String.join_append, String.join_cons, ← String.append_assoc]
  exact between _ part _

end StandsIn

/-! ### Constructs of the runtime -/

namespace Runtime

theorem standsIn_closure (result body : String) : StandsIn body (closure result body) :=
  .between _ body _

theorem standsIn_selfEvaluating (result body : String) :
    StandsIn body (selfEvaluating result body) :=
  (standsIn_closure result body).append_right _

theorem standsIn_loop (clause element name : String) :
    StandsIn element (loop clause element name) :=
  ((StandsIn.between _ element _).append_right _).trans (standsIn_selfEvaluating _ _)

theorem standsIn_ifArm (condition code : String) : StandsIn code (ifArm condition code) :=
  .between _ code _

theorem standsIn_elseIfArm (condition code : String) : StandsIn code (elseIfArm condition code) :=
  .between _ code _

theorem standsIn_elseArm (code : String) : StandsIn code (elseArm code) := .between _ code _

theorem standsIn_chain (arms : String) : StandsIn arms (chain arms) :=
  (StandsIn.between _ arms _).trans (standsIn_selfEvaluating _ _)

theorem standsIn_caseArm (value code : String) : StandsIn code (caseArm value code) :=
  .between _ code _

theorem standsIn_defaultArm (code : String) : StandsIn code (defaultArm code) := .between _ code _

theorem standsIn_switch (target arms : String) : StandsIn arms (switch target arms) :=
  (StandsIn.between _ arms _).trans (standsIn_selfEvaluating _ _)

theorem standsIn_template (preamble code : String) : StandsIn code (template preamble code) :=
  .between _ code _

theorem standsIn_element (rt : Runtime) (d : Descriptor) (children : String) :
    StandsIn children (rt.element d children) :=
  .between _ children _

theorem standsIn_entries {d : Dict} {entry : String × String} (h : entry ∈ d.entries) :
    StandsIn entry.2 (entries d) :=
  (StandsIn.between _ entry.2 _).trans (.join (List.mem_map_of_mem h))

variable {body code : String} {slots templates : Dict}

/-- The body, the contents of slots and the templates stand in the configuration of a component. -/
theorem standsIn_configurationParts (rt : Runtime) (attrs : Dict)
    (h : StandsIn code body ∨ (∃ entry ∈ slots.entries, StandsIn code entry.2) ∨
      ∃ entry ∈ templates.entries, StandsIn code entry.2) :
    StandsIn code (rt.configurationParts body slots templates attrs) := by
  have hfilled : ∀ {d : Dict} {entry : String × String}, entry ∈ d.entries → d.isEmpty = false := by
    intro d entry hentry
    rw [Dict.isEmpty, List.isEmpty_eq_false_iff]
    exact List.ne_nil_of_mem hentry
  rw [configurationParts]
  rcases h with h | ⟨entry, hentry, h⟩ | ⟨entry, hentry, h⟩
  · refine ((StandsIn.append_right ?_ _).append_right _).append_right _
    split
    · rename_i hempty
      rwa [hempty] at h
    · exact h.trans (.between _ body _)
  · refine ((StandsIn.append_left ?_ _).append_right _).append_right _
    rw [hfilled hentry]
    exact (h.trans (standsIn_entries hentry)).trans (.between _ _ _)
  · refine (StandsIn.append_left ?_ _).append_right _
    rw [hfilled hentry]
    exact (h.trans (standsIn_entries hentry)).trans (.between _ _ _)

theorem standsIn_appendArgument (call argument : String) :
    StandsIn argument (appendArgument call argument) := by
  rw [appendArgument]
  split <;> exact .between _ argument _

end Runtime

/-- What stands in the configuration of a component stands in its call. -/
theorem Component.standsIn_call_of_configurationParts (rt : Runtime) (run : String) (attrs : Dict)
    {parts : Parts} {code : String}
    (h : StandsIn code
      (rt.configurationParts parts.body.finish.code parts.slots parts.templates attrs)) :
    StandsIn code (call rt run attrs parts) := by
  rw [call]
  cases hconfiguration : rt.configuration parts.body.finish.code parts.slots parts.templates
    attrs with
  | none =>
      -- Without a configuration there is nothing that could stand in it.
      rw [Runtime.configuration] at hconfiguration
      split at hconfiguration
      · rename_i hempty
        rw [hempty] at h
        exact h.trans (.empty run)
      · cases hconfiguration
  | some argument =>
      rw [Runtime.configuration] at hconfiguration
      split at hconfiguration
      · cases hconfiguration
      · cases hconfiguration
        exact (h.trans (.between _ _ _)).trans (Runtime.standsIn_appendArgument run _)

/-- What stands in the parts of a component stands in its call. -/
theorem Component.standsIn_call (rt : Runtime) (run : String) (attrs : Dict) {parts : Parts}
    {code : String}
    (h : StandsIn code parts.body.finish.code ∨
      (∃ entry ∈ parts.slots.entries, StandsIn code entry.2) ∨
      ∃ entry ∈ parts.templates.entries, StandsIn code entry.2) :
    StandsIn code (call rt run attrs parts) :=
  standsIn_call_of_configurationParts rt run attrs (rt.standsIn_configurationParts attrs h)

/-! ### Dictionaries that are filled without replacing -/

namespace Dict

theorem mem_insertEntry_self (key value : String) (entries : List (String × String)) :
    (key, value) ∈ insertEntry key value entries := by
  induction entries with
  | nil => exact List.mem_singleton_self _
  | cons first rest ih =>
      rw [insertEntry]
      split
      · exact List.mem_cons_self
      · split
        · exact List.mem_cons_self
        · exact List.mem_cons_of_mem first ih

theorem mem_insertEntry_of_ne {key value : String} {entries : List (String × String)}
    {entry : String × String} (h : entry ∈ entries) (hne : key ≠ entry.1) :
    entry ∈ insertEntry key value entries := by
  induction entries with
  | nil => cases h
  | cons first rest ih =>
      rw [insertEntry]
      split
      · exact List.mem_cons_of_mem _ h
      · rcases List.mem_cons.mp h with rfl | hrest
        · rw [if_neg hne]
          exact List.mem_cons_self
        · split
          · exact List.mem_cons_of_mem _ hrest
          · exact List.mem_cons_of_mem _ (ih hrest)

/-- **Pairs with fresh keys are all there when they have been put in.** -/
theorem mem_insertAll_of_fresh {d : Dict} {pairs : List (String × String)}
    {entry : String × String} (hfresh : d.Fresh (pairs.map Prod.fst))
    (h : entry ∈ pairs ∨ entry ∈ d.entries ∧ entry.1 ∉ pairs.map Prod.fst) :
    entry ∈ (d.insertAll pairs).entries := by
  induction pairs generalizing d with
  | nil => exact h.elim (fun hnil => absurd hnil List.not_mem_nil) And.left
  | cons pair rest ih =>
      rw [List.map_cons] at hfresh h
      obtain ⟨hkey, -⟩ := List.nodup_cons.mp hfresh.1
      refine ih ((fresh_cons pair.2).mp hfresh).2 ?_
      rcases h with h | ⟨hold, hnot⟩
      · rcases List.mem_cons.mp h with rfl | hrest
        · exact .inr ⟨mem_insertEntry_self _ _ _, hkey⟩
        · exact .inl hrest
      · rw [List.mem_cons, not_or] at hnot
        exact .inr ⟨mem_insertEntry_of_ne hold (Ne.symm hnot.1), hnot.2⟩

end Dict

/-! ### Siblings -/

/-- The code of a sibling is written after what is there, and perhaps a separator after it. -/
theorem Sequence.code_push (s : Sequence) (code : String) :
    ∃ tail, (s.push code).code = s.code ++ (code ++ tail) := by
  rw [push]
  split
  · exact ⟨"", by rw [code_pushEnded ‹_›, String.append_empty]⟩
  · exact ⟨separator, s.code_pushSeparated code⟩

theorem Fragment.code_eq_empty {f : Fragment} (h : f.isShown = false) : f.code = "" := by
  simpa [isShown] using h

/-- The fragment brings no separator: it is a comment, or has no code. -/
def Fragment.IsQuiet (f : Fragment) : Prop := f.isShown = false ∨ ∃ code, f = .comment code

namespace Siblings

variable {s t : Siblings} {f : Fragment} {code : String}

/-- **What taking in a sibling can do.** A sibling without code is passed over. A comment, or a
sibling that plays no part, is written after the open chain; a condition opens a chain, and an
alternative extends the open one or ends it. -/
theorem push_cases (h : s.push f = .ok t) :
    (f.isShown = false ∧ t = s) ∨
    (∃ code, f = .comment code ∧ t = { done := s.finish.pushBare code }) ∨
    ((∀ code, f ≠ .comment code) ∧ f.branch? = none ∧ t = { done := s.finish.push f.code }) ∨
    (∃ condition, f.branch? = some (.ifCond condition) ∧
      t = { done := s.finish, chain := some (Runtime.ifArm condition f.code) }) ∨
    (∃ arms condition, s.chain = some arms ∧ f.branch? = some (.elseIf condition) ∧
      t = { s with chain := some (arms ++ Runtime.elseIfArm condition f.code) }) ∨
    ∃ arms, s.chain = some arms ∧ f.branch? = some .otherwise ∧
      t = { done := s.done.pushSeparated (Runtime.chain (arms ++ Runtime.elseArm f.code)) } := by
  cases hshown : f.isShown with
  | false =>
      rw [push_of_not_isShown hshown] at h
      cases h
      exact .inl ⟨rfl, rfl⟩
  | true =>
      refine .inr ?_
      cases f with
      | text code =>
          rw [push_text hshown] at h
          obtain rfl := Except.ok.inj h
          exact .inr (.inl ⟨by simp, rfl, rfl⟩)
      | comment code =>
          rw [push_comment hshown] at h
          cases h
          exact .inl ⟨code, rfl, rfl⟩
      | element code descriptor =>
          rw [push_element hshown, pushElement] at h
          simp only [Fragment.branch?, Fragment.code]
          cases hbranch : descriptor.branch with
          | none =>
              rw [hbranch] at h
              obtain rfl := Except.ok.inj h
              exact .inr (.inl ⟨by simp, rfl, rfl⟩)
          | some branch =>
              rw [hbranch] at h
              cases branch with
              | ifCond condition =>
                  cases h
                  exact .inr (.inr (.inl ⟨condition, rfl, rfl⟩))
              | elseIf condition =>
                  simp only [extend] at h
                  split at h
                  · rename_i arms hchain
                    cases h
                    exact .inr (.inr (.inr (.inl ⟨arms, condition, hchain, rfl, rfl⟩)))
                  · cases h
              | otherwise =>
                  simp only [extend] at h
                  split at h
                  · rename_i arms hchain
                    cases h
                    exact .inr (.inr (.inr (.inr ⟨arms, hchain, rfl, rfl⟩)))
                  · cases h
              | case value => cases h
              | default => cases h

/-- The code stands in what is written, or in the open chain. -/
def Keeps (s : Siblings) (code : String) : Prop :=
  StandsIn code s.done.code ∨ ∃ arms ∈ s.chain, StandsIn code arms

/-- The code is kept also when the last separator is left out. An open chain will bring that
separator, and stands after all that is written. -/
def KeepsBare (s : Siblings) (code : String) : Prop :=
  (s.chain = none ∧ StandsIn code s.done.withoutLast) ∨ s.chain ≠ none ∧ s.Keeps code

/-- What is kept stands in the sequence with the open chain written out. -/
theorem Keeps.standsIn_finish (h : s.Keeps code) : StandsIn code s.finish.code := by
  rcases h with h | ⟨arms, harms, h⟩
  · rw [finish]
    split
    · rw [Sequence.code_pushSeparated]
      exact h.append_right _
    · exact h
  · rw [finish, Option.mem_def.mp harms]
    simp only [Sequence.code_pushSeparated]
    exact ((h.trans (Runtime.standsIn_chain arms)).append_right _).append_left _

/-- What is kept stands in the sequence with the open chain written out after a last arm. -/
theorem Keeps.standsIn_ended {arms : String} (h : s.Keeps code) (hchain : s.chain = some arms)
    (last : String) : StandsIn code (s.done.code ++ Runtime.chain (arms ++ last)) := by
  rcases h with h | ⟨arms', harms, h⟩
  · exact h.append_right _
  · rw [hchain] at harms
    cases harms
    exact ((h.append_right last).trans (Runtime.standsIn_chain _)).append_left _

/-- The same without the last separator. -/
theorem KeepsBare.standsIn_withoutLast (h : s.KeepsBare code) :
    StandsIn code s.finish.withoutLast := by
  rcases h with ⟨hchain, h⟩ | ⟨hchain, h⟩
  · rwa [finish, hchain]
  · obtain ⟨arms, harms⟩ := Option.ne_none_iff_exists'.mp hchain
    rw [finish, harms]
    simp only [Sequence.withoutLast_pushSeparated]
    simpa only [String.append_empty] using h.standsIn_ended harms ""

/-- **A sibling that is taken in keeps the code that is kept.** -/
theorem Keeps.after_push (hs : s.Keeps code) (h : s.push f = .ok t) : t.Keeps code := by
  obtain ⟨-, rfl⟩ | ⟨comment, rfl, rfl⟩ | ⟨-, -, rfl⟩ | ⟨condition, -, rfl⟩ |
    ⟨arms, condition, hchain, -, rfl⟩ | ⟨arms, hchain, -, rfl⟩ := push_cases h
  · exact hs
  · left
    rw [Sequence.code_pushBare]
    exact hs.standsIn_finish.append_right _
  · left
    obtain ⟨tail, htail⟩ := Sequence.code_push s.finish f.code
    rw [htail]
    exact hs.standsIn_finish.append_right _
  · exact .inl hs.standsIn_finish
  · rcases hs with hs | ⟨arms', harms, hs⟩
    · exact .inl hs
    · rw [hchain] at harms
      cases harms
      exact .inr ⟨_, rfl, hs.append_right _⟩
  · left
    rw [Sequence.code_pushSeparated, ← String.append_assoc]
    exact (hs.standsIn_ended hchain _).append_right _

/-- **The code of a sibling that is taken in is kept.** -/
theorem keeps_of_push (h : s.push f = .ok t) : t.Keeps f.code := by
  obtain ⟨hshown, rfl⟩ | ⟨comment, rfl, rfl⟩ | ⟨-, -, rfl⟩ | ⟨condition, -, rfl⟩ |
    ⟨arms, condition, hchain, -, rfl⟩ | ⟨arms, hchain, -, rfl⟩ := push_cases h
  · rw [Fragment.code_eq_empty hshown]
    exact .inl (.empty _)
  · left
    rw [Sequence.code_pushBare]
    exact (StandsIn.refl _).append_left _
  · left
    obtain ⟨tail, htail⟩ := Sequence.code_push s.finish f.code
    rw [htail]
    exact ((StandsIn.refl _).append_right _).append_left _
  · exact .inr ⟨_, rfl, Runtime.standsIn_ifArm condition f.code⟩
  · exact .inr ⟨_, rfl, (Runtime.standsIn_elseIfArm condition f.code).append_left _⟩
  · left
    rw [Sequence.code_pushSeparated]
    exact ((((Runtime.standsIn_elseArm f.code).append_left _).trans
      (Runtime.standsIn_chain _)).append_right _).append_left _

/-- After a sibling with a separator the last separator is a later one. -/
theorem Keeps.after_push_bare (hs : s.Keeps code) (h : s.push f = .ok t) (hquiet : ¬ f.IsQuiet) :
    t.KeepsBare code := by
  have ht := hs.after_push h
  obtain ⟨hnot, -⟩ | ⟨comment, rfl, -⟩ | ⟨-, -, rfl⟩ | ⟨condition, -, rfl⟩ |
    ⟨arms, condition, hchain, -, rfl⟩ | ⟨arms, hchain, -, rfl⟩ := push_cases h
  · exact absurd (.inl hnot) hquiet
  · exact absurd (.inr ⟨comment, rfl⟩) hquiet
  · refine .inl ⟨rfl, ?_⟩
    simp only [Sequence.push]
    split
    · rw [Sequence.withoutLast_pushEnded]
      exact hs.standsIn_finish.append_right _
    · rw [Sequence.withoutLast_pushSeparated]
      exact hs.standsIn_finish.append_right _
  · exact .inr ⟨by simp, ht⟩
  · exact .inr ⟨by simp, ht⟩
  · refine .inl ⟨rfl, ?_⟩
    rw [Sequence.withoutLast_pushSeparated]
    exact hs.standsIn_ended hchain _

/-- After a comment the last separator is the same. -/
theorem KeepsBare.after_push (hs : s.KeepsBare code) (h : s.push f = .ok t) (hquiet : f.IsQuiet) :
    t.KeepsBare code := by
  rcases hquiet with hshown | ⟨comment, rfl⟩
  · rw [push_of_not_isShown hshown] at h
    cases h
    exact hs
  · cases hshown : (Fragment.comment comment).isShown with
    | false =>
        rw [push_of_not_isShown hshown] at h
        cases h
        exact hs
    | true =>
        rw [push_comment hshown] at h
        cases h
        refine .inl ⟨rfl, ?_⟩
        rw [Sequence.withoutLast_pushBare]
        exact hs.standsIn_withoutLast.append_right _

/-- The code of a sibling that is taken in is kept also without the last separator, unless that is
its own. -/
theorem keepsBare_of_push (h : s.push f = .ok t) :
    t.KeepsBare f.code ∨
      ¬ f.IsQuiet ∧ f.branch? = none ∧ Sequence.endsSeparated f.code = true ∧
        t.KeepsBare (withoutSeparator f.code) := by
  have ht := keeps_of_push h
  obtain ⟨hshown, rfl⟩ | ⟨comment, rfl, rfl⟩ | ⟨hcomment, hbranch, rfl⟩ | ⟨condition, -, rfl⟩ |
    ⟨arms, condition, hchain, -, rfl⟩ | ⟨arms, hchain, -, rfl⟩ := push_cases h
  · left
    rw [Fragment.code_eq_empty hshown] at ht ⊢
    by_cases hchain : t.chain = none
    · exact .inl ⟨hchain, .empty _⟩
    · exact .inr ⟨hchain, ht⟩
  · refine .inl (.inl ⟨rfl, ?_⟩)
    rw [Sequence.withoutLast_pushBare]
    exact (StandsIn.refl _).append_left _
  · cases hends : Sequence.endsSeparated f.code with
    | false =>
        refine .inl (.inl ⟨rfl, ?_⟩)
        simp only [Sequence.push, hends, Bool.false_eq_true, if_false]
        rw [Sequence.withoutLast_pushSeparated]
        exact (StandsIn.refl _).append_left _
    | true =>
        refine .inr ⟨?_, hbranch, rfl, .inl ⟨rfl, ?_⟩⟩
        · rintro (hshown | ⟨comment, hf⟩)
          · rw [Fragment.code_eq_empty hshown] at hends
            cases hends
          · exact hcomment comment hf
        · simp only [Sequence.push, hends, if_true]
          rw [Sequence.withoutLast_pushEnded]
          exact (StandsIn.refl _).append_left _
  · exact .inl (.inr ⟨by simp, ht⟩)
  · exact .inl (.inr ⟨by simp, ht⟩)
  · refine .inl (.inl ⟨rfl, ?_⟩)
    rw [Sequence.withoutLast_pushSeparated]
    exact (((Runtime.standsIn_elseArm f.code).append_left _).trans
      (Runtime.standsIn_chain _)).append_left _

/-! ### Runs of siblings -/

variable {fs : List Fragment}

theorem Keeps.foldlM (hs : s.Keeps code) (h : fs.foldlM push s = .ok t) : t.Keeps code := by
  induction fs generalizing s with
  | nil =>
      cases h
      exact hs
  | cons g rest ih =>
      obtain ⟨s', hpush, hrest⟩ := Pass.foldlM_cons_eq_ok.mp h
      exact ih (hs.after_push hpush) hrest

/-- Code that is kept in both ways stays so, whatever follows. -/
theorem KeepsBare.foldlM (hs : s.KeepsBare code) (hkeeps : s.Keeps code)
    (h : fs.foldlM push s = .ok t) : t.KeepsBare code := by
  induction fs generalizing s with
  | nil =>
      cases h
      exact hs
  | cons g rest ih =>
      obtain ⟨s', hpush, hrest⟩ := Pass.foldlM_cons_eq_ok.mp h
      refine ih ?_ (hkeeps.after_push hpush) hrest
      by_cases hquiet : g.IsQuiet
      · exact hs.after_push hpush hquiet
      · exact hkeeps.after_push_bare hpush hquiet

/-- Code that is kept loses no separator of its own if a sibling with a separator follows. -/
theorem Keeps.foldlM_bare (hs : s.Keeps code) (h : fs.foldlM push s = .ok t)
    (hfollowed : ¬ ∀ g ∈ fs, g.IsQuiet) : t.KeepsBare code := by
  induction fs generalizing s with
  | nil => exact absurd (by simp) hfollowed
  | cons g rest ih =>
      obtain ⟨s', hpush, hrest⟩ := Pass.foldlM_cons_eq_ok.mp h
      by_cases hquiet : g.IsQuiet
      · refine ih (hs.after_push hpush) hrest fun hall => hfollowed ?_
        exact List.forall_mem_cons.mpr ⟨hquiet, hall⟩
      · exact (hs.after_push_bare hpush hquiet).foldlM (hs.after_push hpush) hrest

theorem KeepsBare.foldlM_quiet (hs : s.KeepsBare code) (h : fs.foldlM push s = .ok t)
    (hquiet : ∀ g ∈ fs, g.IsQuiet) : t.KeepsBare code := by
  induction fs generalizing s with
  | nil =>
      cases h
      exact hs
  | cons g rest ih =>
      obtain ⟨s', hpush, hrest⟩ := Pass.foldlM_cons_eq_ok.mp h
      obtain ⟨hg, hall⟩ := List.forall_mem_cons.mp hquiet
      exact ih (hs.after_push hpush hg) hrest hall

/-- **The code of a sibling stands in the code of all of them.** -/
theorem standsIn_finish (h : fs.foldlM push s = .ok t) (hf : f ∈ fs) :
    StandsIn f.code t.finish.code := by
  obtain ⟨before, after, rfl⟩ := List.append_of_mem hf
  obtain ⟨u, -, hrest⟩ := Pass.foldlM_append_eq_ok.mp h
  obtain ⟨u', hpush, hafter⟩ := Pass.foldlM_cons_eq_ok.mp hrest
  exact ((keeps_of_push hpush).foldlM hafter).standsIn_finish

/-- **The code of a sibling stands in the code of all of them without the last separator**, unless
that separator is its own: then the sibling plays no part, only comments follow it, and its code
without the separator stands there. -/
theorem standsIn_withoutLast {before after : List Fragment}
    (h : (before ++ f :: after).foldlM push s = .ok t) :
    StandsIn f.code t.finish.withoutLast ∨
      ¬ f.IsQuiet ∧ f.branch? = none ∧ Sequence.endsSeparated f.code = true ∧
        (∀ g ∈ after, g.IsQuiet) ∧ StandsIn (withoutSeparator f.code) t.finish.withoutLast := by
  obtain ⟨u, -, hrest⟩ := Pass.foldlM_append_eq_ok.mp h
  obtain ⟨u', hpush, hafter⟩ := Pass.foldlM_cons_eq_ok.mp hrest
  have hkeeps := keeps_of_push hpush
  rcases keepsBare_of_push hpush with hbare | ⟨hquiet, hbranch, hends, hbare⟩
  · exact .inl (hbare.foldlM hkeeps hafter).standsIn_withoutLast
  · by_cases hall : ∀ g ∈ after, g.IsQuiet
    · exact .inr ⟨hquiet, hbranch, hends, hall,
        (hbare.foldlM_quiet hafter hall).standsIn_withoutLast⟩
    · exact .inl (hkeeps.foldlM_bare hafter hall).standsIn_withoutLast

end Siblings

/-! ### Arms and parts -/

/-- The code of an arm stands in the code of all arms. -/
theorem standsIn_join_arms {fs : List Fragment} {f : Fragment} (hf : f ∈ fs)
    (harm : f.branch?.any Branch.isArm = true) :
    StandsIn f.code (String.join (fs.map Fragment.arm)) := by
  refine StandsIn.trans ?_ (.join (List.mem_map_of_mem hf))
  obtain ⟨branch, hbranch, hisArm⟩ := (Option.any_eq_true ..).mp harm
  rw [Fragment.arm, hbranch]
  cases branch with
  | ifCond _ | elseIf _ | otherwise => cases hisArm
  | case value => exact Runtime.standsIn_caseArm value f.code
  | default => exact Runtime.standsIn_defaultArm f.code

/-- The code that a contribution brings. -/
def Contribution.code : Contribution → String
  | template _ closure => closure
  | slot _ _ fragment | body fragment => fragment.code

/-- **What a child contributes to a component stands in the call.** -/
theorem Component.standsIn_call_of_take (rt : Runtime) (run : String) (attrs : Dict)
    {contributions : List Contribution} {t : Parts}
    (h : contributions.foldlM Parts.take {} = .ok t) {c : Contribution} (hc : c ∈ contributions) :
    StandsIn c.code (call rt run attrs (.ofContributions contributions)) := by
  obtain ⟨htemplates, hslots, -, hbody, -, -⟩ := Parts.foldlM_take_eq_ok.mp h
  refine standsIn_call rt run attrs ?_
  cases c with
  | body fragment =>
      left
      have hmem : fragment ∈ contributions.filterMap Contribution.body? :=
        List.mem_filterMap.mpr ⟨_, hc, rfl⟩
      have hstands := Siblings.standsIn_finish hbody hmem
      rwa [Siblings.finish_of_foldlM_push hbody] at hstands
  | slot name tag fragment =>
      have hmem : (name, fragment.code) ∈ contributions.filterMap Contribution.slot? :=
        List.mem_filterMap.mpr ⟨_, hc, rfl⟩
      exact .inr (.inl ⟨_, Dict.mem_insertAll_of_fresh hslots (.inl hmem), .refl _⟩)
  | template name closure =>
      have hmem : (name, closure) ∈ contributions.filterMap Contribution.template? :=
        List.mem_filterMap.mpr ⟨_, hc, rfl⟩
      exact .inr (.inr ⟨_, Dict.mem_insertAll_of_fresh htemplates (.inl hmem), .refl _⟩)

end Stencil
