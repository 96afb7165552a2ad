import Stencil.Lowering.Pass
import Mathlib.Data.List.Forall2

/-!
# How passes end

A pass from a loop number either returns or fails, and in both cases it leaves a next free
number and a list of reports. The judgement `Ends` says all of it at once: under which
condition the pass returns, what it returns then, how many numbers it has taken when it is
over, and what it reports. A failure reports the beginning of what a success would have.

The passes of a tree walk have one shape: visit the members of a list in order, and take each
result into a state by a step that may fail (`gather`).

## Main results

* `Ends.bind`: two passes one after the other, with the numbers and the reports added up.
* `gather_ends`: a walk over a list returns exactly when every visit does and the results can
  be taken in one after the other; otherwise it has taken the numbers of the members up to the
  first one that cannot be admitted after those before it.
* `gather_of_mapM`, `mapM_of_gather`: when every visit returns, the walk does what the steps do;
  and when the walk returns, every visit has.
-/

namespace Stencil.Pass

variable {ω α β σ ν : Type}

/-! ### Returning and failing -/

/-- From `n` the pass returns `a`, leaves `next` as the next free number, and has reported
`seen`. -/
def Returns (m : Pass ω α) (n : Nat) (a : α) (next : Nat) (seen : List ω) : Prop :=
  m.run n = { result := .ok a, next, observed := seen }

/-- From `n` the pass fails, leaves `next` as the next free number, and has reported a
beginning of `seen`. -/
def Fails (m : Pass ω α) (n next : Nat) (seen : List ω) : Prop :=
  ∃ d reported, m.run n = { result := .error d, next, observed := reported } ∧ reported <+: seen

/-- Whether there is a result is seen from the result. -/
instance (r : Except Diagnostic α) : Decidable (∃ a, r = .ok a) :=
  match r with
  | .ok a => .isTrue ⟨a, rfl⟩
  | .error _ => .isFalse fun ⟨_, h⟩ => by cases h

/-- A function mapped over a pass changes its result only. -/
theorem run_map (g : α → β) (m : Pass ω α) (n : Nat) :
    (g <$> m).run n = { m.run n with result := (m.run n).result.map g } := by
  rw [map_eq_pure_bind]
  rcases hm : m.run n with ⟨result, next, observed⟩
  cases result with
  | error d => exact bind_apply_error hm
  | ok a =>
      refine (bind_apply_ok hm).trans ?_
      rw [pure_apply, List.append_nil]
      rfl

/-- A value is returned at once. -/
theorem returns_pure (a : α) (n : Nat) : (pure a : Pass ω α).Returns n a n [] := rfl

/-- The next free number is taken. -/
theorem returns_freshLoop (n : Nat) : (freshLoop : Pass ω Nat).Returns n n (n + 1) [] := rfl

/-- A report is made. -/
theorem returns_observe (a : ω) (n : Nat) : (observe a).Returns n () n [a] := rfl

/-- A failure takes no number. -/
theorem fails_fail (d : Diagnostic) (n : Nat) (seen : List ω) :
    (fail d : Pass ω α).Fails n n seen :=
  ⟨d, [], rfl, List.nil_prefix⟩

/-- A result that is there is returned. -/
theorem returns_ofExcept {r : Except Diagnostic α} {a : α} (h : r = .ok a) (n : Nat) :
    (ofExcept r : Pass ω α).Returns n a n [] := by
  rw [h]
  rfl

/-- What is returned of a result is the result. -/
theorem Returns.of_ofExcept {r : Except Diagnostic α} {n next : Nat} {a : α} {seen : List ω}
    (h : (ofExcept r : Pass ω α).Returns n a next seen) : r = .ok a ∧ next = n ∧ seen = [] := by
  have hrun : ({ result := r, next := n } : Outcome ω α) =
      { result := .ok a, next, observed := seen } := h
  cases hrun
  exact ⟨rfl, rfl, rfl⟩

/-- A result that is an error is a failure. -/
theorem fails_ofExcept {r : Except Diagnostic α} {d : Diagnostic} (h : r = .error d) (n : Nat)
    (seen : List ω) : (ofExcept r : Pass ω α).Fails n n seen := by
  rw [h]
  exact ⟨d, [], rfl, List.nil_prefix⟩

/-- Two passes that return, one after the other. -/
theorem Returns.bind {m : Pass ω α} {f : α → Pass ω β} {n k next : Nat} {a : α} {b : β}
    {seen more : List ω} (hm : m.Returns n a k seen) (hf : (f a).Returns k b next more) :
    (m >>= f).Returns n b next (seen ++ more) := by
  have hf : f a k = { result := .ok b, next, observed := more } := hf
  exact (bind_apply_ok hm).trans (by rw [hf])

/-- A pass that returns and then one that fails. -/
theorem Returns.bind_fails {m : Pass ω α} {f : α → Pass ω β} {n k next : Nat} {a : α}
    {seen more : List ω} (hm : m.Returns n a k seen) (hf : (f a).Fails k next more) :
    (m >>= f).Fails n next (seen ++ more) := by
  obtain ⟨d, reported, hrun, hreported⟩ := hf
  have hrun : f a k = { result := .error d, next, observed := reported } := hrun
  refine ⟨d, seen ++ reported, (bind_apply_ok hm).trans (by rw [hrun]), ?_⟩
  exact (List.prefix_append_right_inj seen).mpr hreported

/-- A pass that fails leaves the rest undone. -/
theorem Fails.bind {m : Pass ω α} {f : α → Pass ω β} {n next : Nat} {seen : List ω}
    (hm : m.Fails n next seen) (more : List ω) : (m >>= f).Fails n next (seen ++ more) := by
  obtain ⟨d, reported, hrun, hreported⟩ := hm
  exact ⟨d, reported, bind_apply_error hrun, hreported.trans (List.prefix_append _ _)⟩

/-- A pass in two steps that returns has returned from both. -/
theorem Returns.of_bind {m : Pass ω α} {f : α → Pass ω β} {n next : Nat} {b : β}
    {seen : List ω} (h : (m >>= f).Returns n b next seen) :
    ∃ a k first more, m.Returns n a k first ∧ (f a).Returns k b next more ∧
      seen = first ++ more := by
  rcases hm : m n with ⟨result, k, first⟩
  cases result with
  | error d =>
      have hrun : (m >>= f) n = _ := h
      rw [bind_apply_error hm] at hrun
      cases hrun
  | ok a =>
      have hrun : (m >>= f) n = _ := h
      rw [bind_apply_ok hm] at hrun
      rcases hf : f a k with ⟨result', k', more⟩
      rw [hf] at hrun
      cases hrun
      exact ⟨a, k, first, more, hm, hf, rfl⟩

/-- A function mapped over a pass is applied to what the pass returns. -/
theorem Returns.of_map {m : Pass ω α} {f : α → β} {n next : Nat} {b : β} {seen : List ω}
    (h : (f <$> m).Returns n b next seen) : ∃ a, m.Returns n a next seen ∧ f a = b := by
  rw [map_eq_pure_bind] at h
  obtain ⟨a, k, first, more, hm, hlast, rfl⟩ := h.of_bind
  cases hlast
  exact ⟨a, by rwa [List.append_nil], rfl⟩

/-- A pass does not both return and fail. -/
theorem Returns.not_fails {m : Pass ω α} {n next next' : Nat} {a : α} {seen seen' : List ω}
    (h : m.Returns n a next seen) : ¬ m.Fails n next' seen' := by
  rintro ⟨d, reported, hrun, -⟩
  rw [h] at hrun
  cases hrun

/-- A pass returns one thing only. -/
theorem Returns.unique {m : Pass ω α} {n next next' : Nat} {a a' : α} {seen seen' : List ω}
    (h : m.Returns n a next seen) (h' : m.Returns n a' next' seen') :
    a = a' ∧ next = next' ∧ seen = seen' := by
  rw [Returns, h] at h'
  cases h'
  exact ⟨rfl, rfl, rfl⟩

/-- Where a failure would be placed does not matter to what is returned. -/
theorem returns_located_iff {m : Pass ω α} {place : Diagnostic → Diagnostic} {n next : Nat} {a : α}
    {seen : List ω} : (m.located place).Returns n a next seen ↔ m.Returns n a next seen := by
  unfold Returns run
  rcases hm : m n with ⟨result, k, reported⟩
  cases result <;> simp [located, hm]

/-- Adding to the reports does not matter to what is returned. -/
theorem Returns.mapObserved {ω' : Type} {m : Pass ω α} (f : ω → ω') {n next : Nat} {a : α}
    {seen : List ω} (h : m.Returns n a next seen) :
    (m.mapObserved f).Returns n a next (seen.map f) := by
  have hrun : m n = _ := h
  show m.mapObserved f n = _
  rw [Pass.mapObserved, hrun]

theorem Returns.of_mapObserved {ω' : Type} {m : Pass ω α} {f : ω → ω'} {n next : Nat} {a : α}
    {seen : List ω'} (h : (m.mapObserved f).Returns n a next seen) :
    ∃ reported, m.Returns n a next reported := by
  have hrun : m.mapObserved f n = _ := h
  rw [Pass.mapObserved] at hrun
  rcases hm : m n with ⟨result, k, reported⟩
  rw [hm] at hrun
  cases hrun
  exact ⟨reported, hm⟩

/-- A pass whose result is there returns it. -/
theorem returns_of_result {m : Pass ω α} {n : Nat} {a : α} (h : (m.run n).result = .ok a) :
    m.Returns n a (m.run n).next (m.run n).observed := by
  rw [Returns, ← h]

/-- A pass that returns has a result. -/
theorem Returns.result {m : Pass ω α} {n next : Nat} {a : α} {seen : List ω}
    (h : m.Returns n a next seen) : (m.run n).result = .ok a := by
  rw [h]

/-- A pass whose result is there has not failed. -/
theorem Fails.result_ne {m : Pass ω α} {n next : Nat} {seen : List ω}
    (h : m.Fails n next seen) (a : α) : (m.run n).result ≠ .ok a :=
  fun ha => (returns_of_result ha).not_fails h

/-! ### Both endings at once -/

/-- From `n` the pass returns `a` if `ok` holds, and fails otherwise. In both cases it has
taken `taken` numbers; it has reported `seen`, or a beginning of it when it fails. -/
structure Ends (m : Pass ω α) (n : Nat) (ok : Prop) (a : α) (taken : Nat) (seen : List ω) :
    Prop where
  returns : ok → m.Returns n a (n + taken) seen
  fails : ¬ ok → m.Fails n (n + taken) seen

/-- A pass ends by returning exactly under its condition. -/
theorem Ends.result_iff {m : Pass ω α} {n taken : Nat} {ok : Prop} {a : α} {seen : List ω}
    (h : m.Ends n ok a taken seen) : (∃ b, (m.run n).result = .ok b) ↔ ok := by
  constructor
  · rintro ⟨b, hb⟩
    by_contra hok
    exact (h.fails hok).result_ne b hb
  · intro hok
    exact ⟨a, (h.returns hok).result⟩

/-- The condition may be put in other words, and the value too as long as the condition
holds. -/
theorem Ends.congr {m : Pass ω α} {n taken taken' : Nat} {ok ok' : Prop} {a a' : α}
    {seen : List ω} (h : m.Ends n ok a taken seen) (hok : ok' ↔ ok) (ha : ok → a = a')
    (htaken : taken = taken') : m.Ends n ok' a' taken' seen := by
  subst htaken
  refine ⟨fun hok' => ?_, fun hok' => h.fails fun hp => hok' (hok.mpr hp)⟩
  rw [← ha (hok.mp hok')]
  exact h.returns (hok.mp hok')

/-- Passes one after the other: the second is run only if the first returns. -/
theorem Ends.bind {m : Pass ω α} {f : α → Pass ω β} {n t t' : Nat} {p q : Prop} [Decidable p]
    {a : α} {b : β} {seen more : List ω} (hm : m.Ends n p a t seen)
    (hf : p → (f a).Ends (n + t) q b t' more) :
    (m >>= f).Ends n (p ∧ q) b (t + if p then t' else 0) (seen ++ more) := by
  constructor
  · rintro ⟨hp, hq⟩
    rw [if_pos hp, ← Nat.add_assoc]
    exact (hm.returns hp).bind ((hf hp).returns hq)
  · intro hpq
    by_cases hp : p
    · rw [if_pos hp, ← Nat.add_assoc]
      exact (hm.returns hp).bind_fails ((hf hp).fails fun hq => hpq ⟨hp, hq⟩)
    · rw [if_neg hp]
      exact (hm.fails hp).bind more

/-- A value returned at once. -/
theorem ends_pure (a : α) (n : Nat) : (pure a : Pass ω α).Ends n True a 0 [] :=
  ⟨fun _ => returns_pure a n, fun h => absurd trivial h⟩

/-- A check that takes no number, and what is done if it succeeds. -/
theorem Ends.check {m : Pass ω α} {f : α → Pass ω β} {n t : Nat} {p q : Prop} [Decidable p]
    {a : α} {b : β} {seen more : List ω} (hm : m.Ends n p a 0 seen)
    (hf : p → (f a).Ends n q b t more) :
    (m >>= f).Ends n (p ∧ q) b (if p then t else 0) (seen ++ more) := by
  have hboth := hm.bind hf
  rwa [Nat.zero_add] at hboth

/-- A function of the value that a pass returns. -/
theorem Ends.bind_pure {m : Pass ω α} {n t : Nat} {p : Prop} {a : α} {seen : List ω} (f : α → β)
    (hm : m.Ends n p a t seen) : (m >>= fun a => pure (f a)).Ends n p (f a) t seen := by
  constructor
  · intro hp
    simpa using (hm.returns hp).bind (f := fun a => pure (f a)) (returns_pure (f a) _)
  · intro hp
    simpa using (hm.fails hp).bind (f := fun a => pure (f a)) []

/-- The same with the function mapped over the pass. -/
theorem Ends.map {m : Pass ω α} {n t : Nat} {p : Prop} {a : α} {seen : List ω} (f : α → β)
    (hm : m.Ends n p a t seen) : (f <$> m).Ends n p (f a) t seen := by
  rw [map_eq_pure_bind]
  exact hm.bind_pure f

/-- Adding to the diagnostic of a failure changes nothing else. -/
theorem Ends.located {m : Pass ω α} {n t : Nat} {p : Prop} {a : α} {seen : List ω}
    (place : Diagnostic → Diagnostic) (hm : m.Ends n p a t seen) :
    (m.located place).Ends n p a t seen := by
  constructor
  · intro hp
    have hrun : m n = _ := hm.returns hp
    show m.located place n = _
    rw [Pass.located, hrun]
  · intro hp
    obtain ⟨d, reported, hrun, hreported⟩ := hm.fails hp
    have hrun : m n = _ := hrun
    refine ⟨place d, reported, ?_, hreported⟩
    show m.located place n = _
    rw [Pass.located, hrun]

/-- Naming the element at fault changes nothing else. -/
theorem Ends.within {m : Pass ω α} {n t : Nat} {p : Prop} {a : α} {seen : List ω}
    (context : String) (hm : m.Ends n p a t seen) : (m.within context).Ends n p a t seen :=
  hm.located _

/-- Adding to the reports changes nothing else. -/
theorem Ends.mapObserved {ω' : Type} {m : Pass ω α} {n t : Nat} {p : Prop} {a : α}
    {seen : List ω} (f : ω → ω') (hm : m.Ends n p a t seen) :
    (m.mapObserved f).Ends n p a t (seen.map f) := by
  constructor
  · intro hp
    have hrun : m n = _ := hm.returns hp
    show m.mapObserved f n = _
    rw [Pass.mapObserved, hrun]
  · intro hp
    obtain ⟨d, reported, hrun, hreported⟩ := hm.fails hp
    have hrun : m n = _ := hrun
    refine ⟨d, reported.map f, ?_, hreported.map f⟩
    show m.mapObserved f n = _
    rw [Pass.mapObserved, hrun]

/-- What a pass that returns has returned, and the next free number. -/
theorem Ends.of_ok {m : Pass ω α} {n t : Nat} {p : Prop} {a b : α} {seen : List ω}
    (h : m.Ends n p a t seen) (hb : (m.run n).result = .ok b) :
    p ∧ b = a ∧ (m.run n).next = n + t := by
  have hp : p := h.result_iff.mp ⟨b, hb⟩
  have hreturns := h.returns hp
  rw [hreturns.result] at hb
  refine ⟨hp, (Except.ok.inj hb).symm, ?_⟩
  rw [hreturns]

/-- The next free number of a pass that has failed. -/
theorem Ends.of_error {m : Pass ω α} {n t : Nat} {p : Prop} {a : α} {d : Diagnostic}
    {seen : List ω} (h : m.Ends n p a t seen) (hd : (m.run n).result = .error d) :
    (m.run n).next = n + t := by
  have hp : ¬ p := by
    intro hp
    rw [(h.returns hp).result] at hd
    cases hd
  obtain ⟨e, reported, hrun, -⟩ := h.fails hp
  rw [hrun]

/-! ### Walking over a list -/

section Gather

variable (visit : ν → Pass ω β) (step : σ → β → Except Diagnostic σ)

/-- Visits the members of a list in order and takes each result into the state. -/
def gather (s : σ) : List ν → Pass ω σ
  | [] => pure s
  | x :: rest => do
      let b ← visit x
      let s ← ofExcept (step s b)
      gather s rest

/-- The state after a list of results, if they can be taken in one after the other. -/
def reached (s : σ) (results : List β) : σ :=
  (results.foldlM step s).toOption.getD s

/-- The numbers taken by a walk: those of the members up to the first one that is not admitted
after the ones before it. -/
def takenAfter (admitted : List ν → Prop) [DecidablePred admitted] (taken : ν → Nat)
    (before : List ν) : List ν → Nat
  | [] => 0
  | x :: rest =>
      taken x + if admitted (before ++ [x]) then takenAfter admitted taken (before ++ [x]) rest
        else 0

variable (good : ν → Prop) (value : ν → β) (taken : ν → Nat) (seen : ν → List ω)

/-- Every visit of a walk ends as it should, from the number at which the one before it left
off. -/
def EachEnds (n : Nat) : List ν → Prop
  | [] => True
  | x :: rest =>
      (visit x).Ends n (good x) (value x) (taken x) (seen x) ∧
        (good x → EachEnds (n + taken x) rest)

variable {visit step good value taken seen}

/-- Taking in a list of results means taking in the first one and then the others. -/
theorem foldlM_cons_eq_ok {s t : σ} {b : β} {results : List β} :
    (b :: results).foldlM step s = .ok t ↔
      ∃ s', step s b = .ok s' ∧ results.foldlM step s' = .ok t := by
  rw [List.foldlM_cons]
  cases step s b with
  | error d => exact ⟨fun h => (by cases h), fun ⟨s', h, _⟩ => (by cases h)⟩
  | ok s' => exact ⟨fun h => ⟨s', rfl, h⟩, fun ⟨s'', h, hrest⟩ => by cases h; exact hrest⟩

/-- Taking in two lists of results means taking in one and then the other. -/
theorem foldlM_append_eq_ok {s t : σ} {first second : List β} :
    (first ++ second).foldlM step s = .ok t ↔
      ∃ s', first.foldlM step s = .ok s' ∧ second.foldlM step s' = .ok t := by
  rw [List.foldlM_append]
  cases first.foldlM step s with
  | error d => exact ⟨fun h => (by cases h), fun ⟨s', h, _⟩ => (by cases h)⟩
  | ok s' => exact ⟨fun h => ⟨s', rfl, h⟩, fun ⟨s'', h, hrest⟩ => by cases h; exact hrest⟩

theorem reached_of_foldlM {s t : σ} {results : List β} (h : results.foldlM step s = .ok t) :
    reached step s results = t := by
  rw [reached, h]
  rfl

/-- **One step of a walk**: visit, take in, go on. The walk is over when the visit fails or its
result cannot be taken in. -/
theorem gather_ends_cons {x : ν} {rest : List ν} {s : σ} {n k : Nat} {ok : σ → Prop} {t : σ}
    {more : List ω} (hx : (visit x).Ends n (good x) (value x) (taken x) (seen x))
    (hrest : ∀ s', good x → step s (value x) = .ok s' →
      (gather visit step s' rest).Ends (n + taken x) (ok s') t k more)
    (hstop : ¬ (good x ∧ ∃ s', step s (value x) = .ok s') → k = 0) :
    (gather visit step s (x :: rest)).Ends n
      (good x ∧ ∃ s', step s (value x) = .ok s' ∧ ok s') t (taken x + k)
      (seen x ++ more) := by
  rw [gather]
  by_cases hgood : good x
  · have hreturns := hx.returns hgood
    cases hstep : step s (value x) with
    | error d =>
        have hk : k = 0 := hstop (by simp [hstep])
        refine ⟨fun hok => absurd hok (by simp), fun _ => ?_⟩
        rw [hk]
        exact hreturns.bind_fails ((fails_ofExcept hstep (n + taken x) []).bind more)
    | ok s' =>
        have hends := hrest s' hgood hstep
        have htook := returns_ofExcept (ω := ω) hstep (n + taken x)
        constructor
        · rintro ⟨-, s'', hs'', hok⟩
          cases hs''
          rw [← Nat.add_assoc]
          exact hreturns.bind (htook.bind (hends.returns hok))
        · intro hnot
          rw [← Nat.add_assoc]
          exact hreturns.bind_fails
            (htook.bind_fails (hends.fails fun hok => hnot ⟨hgood, s', rfl, hok⟩))
  · have hk : k = 0 := hstop fun h => hgood h.1
    refine ⟨fun hok => absurd hok.1 hgood, fun _ => ?_⟩
    rw [hk]
    exact (hx.fails hgood).bind more

/-- A list is still admitted with one more member if that is good and its result can be taken in
after the others. -/
theorem admitted_append_singleton {admitted : List ν → Prop} {s₀ s : σ}
    (hadmitted : ∀ xs, admitted xs ↔
      (∀ x ∈ xs, good x) ∧ ∃ t, (xs.map value).foldlM step s₀ = .ok t)
    {before : List ν} (hbefore : ∀ x ∈ before, good x)
    (hs : (before.map value).foldlM step s₀ = .ok s) (x : ν) :
    admitted (before ++ [x]) ↔ good x ∧ ∃ s', step s (value x) = .ok s' := by
  have hlast : ((before ++ [x]).map value).foldlM step s₀ = step s (value x) := by
    rw [List.map_append, List.foldlM_append, hs]
    exact bind_pure (step s (value x))
  have hgood : (∀ y ∈ before ++ [x], good y) ↔ good x := by
    rw [List.forall_mem_append, List.forall_mem_singleton]
    exact and_iff_right hbefore
  rw [hadmitted, hlast, hgood]

/-- **A walk over a list.** What is admitted are the lists whose members are all good and
whose results can be taken in one after the other. The walk is looked at in its middle: the
members `before` are done, and `s` is the state they have left. -/
theorem gather_ends {admitted : List ν → Prop} [DecidablePred admitted] {s₀ : σ}
    (hadmitted : ∀ xs, admitted xs ↔
      (∀ x ∈ xs, good x) ∧ ∃ t, (xs.map value).foldlM step s₀ = .ok t)
    {xs : List ν} : ∀ {before : List ν} {s : σ} {n : Nat}, (∀ x ∈ before, good x) →
      (before.map value).foldlM step s₀ = .ok s → EachEnds visit good value taken seen n xs →
      (gather visit step s xs).Ends n (admitted (before ++ xs))
        (reached step s (xs.map value)) (takenAfter admitted taken before xs)
        (xs.flatMap seen) := by
  induction xs with
  | nil =>
      intro before s n hbefore hs _
      have hall : admitted (before ++ []) := by
        rw [List.append_nil]
        exact (hadmitted before).mpr ⟨hbefore, s, hs⟩
      exact (ends_pure s n).congr ⟨fun _ => trivial, fun _ => hall⟩ (fun _ => rfl) rfl
  | cons x rest ih =>
      intro before s n hbefore hs heach
      obtain ⟨hx, hrest⟩ := heach
      have hfold : ∀ xs, ((before ++ xs).map value).foldlM step s₀ =
          (xs.map value).foldlM step s := by
        intro xs
        rw [List.map_append, List.foldlM_append, hs]
        rfl
      have hnext := admitted_append_singleton hadmitted hbefore hs x
      have hends : (gather visit step s (x :: rest)).Ends n
          (good x ∧ ∃ s', step s (value x) = .ok s' ∧ admitted (before ++ [x] ++ rest))
          (reached step s ((x :: rest).map value))
          (taken x + if admitted (before ++ [x]) then
            takenAfter admitted taken (before ++ [x]) rest else 0)
          (seen x ++ rest.flatMap seen) := by
        refine gather_ends_cons hx (fun s' hgood hstep => ?_)
          (fun hstop => if_neg (hstop ∘ hnext.mp))
        have hbefore' : ∀ y ∈ before ++ [x], good y := by
          intro y hy
          rcases List.mem_append.mp hy with hy | hy
          · exact hbefore y hy
          · exact List.mem_singleton.mp hy ▸ hgood
        have hs' : ((before ++ [x]).map value).foldlM step s₀ = .ok s' := by
          rw [hfold]
          simpa using hstep
        rw [if_pos (hnext.mpr ⟨hgood, s', hstep⟩)]
        refine (ih hbefore' hs' (hrest hgood)).congr Iff.rfl (fun hok => ?_) rfl
        obtain ⟨-, t, ht⟩ := (hadmitted _).mp hok
        have hrest' : (rest.map value).foldlM step s' = .ok t := by
          rw [List.map_append, List.foldlM_append, hs'] at ht
          exact ht
        have hall : ((x :: rest).map value).foldlM step s = .ok t :=
          foldlM_cons_eq_ok.mpr ⟨s', hstep, hrest'⟩
        rw [reached_of_foldlM hrest', reached_of_foldlM hall]
      refine hends.congr ?_ (fun _ => rfl) rfl
      rw [List.append_assoc, List.singleton_append]
      constructor
      · intro hall
        obtain ⟨hgood, t, ht⟩ := (hadmitted _).mp hall
        rw [hfold] at ht
        obtain ⟨s', hstep, -⟩ := foldlM_cons_eq_ok.mp ht
        exact ⟨hgood x (by simp), s', hstep, hall⟩
      · rintro ⟨-, -, -, hall⟩
        exact hall

variable (step) in
/-- **Visits that all return.** When the visits of a walk return one after the other, the walk
does what the steps do with their results: it returns their state, or fails. -/
theorem gather_of_mapM {xs : List ν} {results : List β} {n next : Nat} {reports : List ω}
    (h : (xs.mapM visit).Returns n results next reports) (s : σ) :
    (∀ t, results.foldlM step s = .ok t →
      (gather visit step s xs).Returns n t next reports) ∧
    (∀ d, results.foldlM step s = .error d →
      ∃ stopped, (gather visit step s xs).Fails n stopped reports) := by
  induction xs generalizing s n results reports with
  | nil =>
      rw [List.mapM_nil] at h
      obtain ⟨rfl, rfl, rfl⟩ := (returns_pure (ω := ω) ([] : List β) n).unique h
      refine ⟨fun t ht => ?_, fun d hd => by cases hd⟩
      cases ht
      exact returns_pure _ _
  | cons x rest ih =>
      rw [List.mapM_cons] at h
      obtain ⟨b, k, first, more, hx, hmore, rfl⟩ := h.of_bind
      obtain ⟨bs, k', second, third, hrest, hlast, rfl⟩ := hmore.of_bind
      obtain ⟨rfl, rfl, rfl⟩ := (returns_pure (ω := ω) (b :: bs) k').unique hlast
      rw [List.append_nil]
      rw [gather, List.foldlM_cons]
      cases hstep : step s b with
      | error d =>
          refine ⟨fun t ht => (by cases ht), fun e _ => ⟨k, ?_⟩⟩
          exact hx.bind_fails ((fails_ofExcept hstep k []).bind second)
      | ok s' =>
          have htook := returns_ofExcept (ω := ω) hstep k
          obtain ⟨hok, herror⟩ := ih hrest s'
          refine ⟨fun t ht => hx.bind (htook.bind (hok t ht)), fun d hd => ?_⟩
          obtain ⟨stopped, hfails⟩ := herror d hd
          exact ⟨stopped, hx.bind_fails (htook.bind_fails hfails)⟩

/-- **A walk that returns** has made all its visits, one after the other, and its state is what
the steps make of their results. -/
theorem mapM_of_gather {xs : List ν} {s t : σ} {n next : Nat} {reports : List ω}
    (h : (gather visit step s xs).Returns n t next reports) :
    ∃ results, (xs.mapM visit).Returns n results next reports ∧ results.foldlM step s = .ok t := by
  induction xs generalizing s n reports with
  | nil =>
      obtain ⟨rfl, rfl, rfl⟩ := (returns_pure (ω := ω) s n).unique h
      exact ⟨[], returns_pure _ _, rfl⟩
  | cons x rest ih =>
      rw [gather] at h
      obtain ⟨b, k, first, more, hx, hmore, rfl⟩ := h.of_bind
      obtain ⟨s', k', second, third, htook, hrest, rfl⟩ := hmore.of_bind
      obtain ⟨hstep, rfl, rfl⟩ := htook.of_ofExcept
      obtain ⟨bs, hbs, hfold⟩ := ih hrest
      refine ⟨b :: bs, ?_, foldlM_cons_eq_ok.mpr ⟨s', hstep, hfold⟩⟩
      rw [List.mapM_cons]
      have hlast := hbs.bind (f := fun bs => pure (b :: bs)) (returns_pure (b :: bs) next)
      rw [List.append_nil] at hlast
      exact hx.bind hlast

end Gather

/-- What is known of every visit is known of each of a list of visits. -/
theorem forall₂_of_mapM {visit : ν → Pass ω β} {R : ν → β → Prop}
    (hvisit : ∀ x n b, ((visit x).run n).result = .ok b → R x b) {xs : List ν} {results : List β}
    {n next : Nat} {reports : List ω} (h : (xs.mapM visit).Returns n results next reports) :
    List.Forall₂ R xs results := by
  induction xs generalizing n results reports with
  | nil =>
      rw [List.mapM_nil] at h
      obtain ⟨rfl, -, -⟩ := (returns_pure (ω := ω) ([] : List β) n).unique h
      exact .nil
  | cons x rest ih =>
      rw [List.mapM_cons] at h
      obtain ⟨b, k, first, more, hx, hmore, -⟩ := h.of_bind
      obtain ⟨bs, k', second, third, hrest, hlast, -⟩ := hmore.of_bind
      obtain ⟨rfl, rfl, -⟩ := (returns_pure (ω := ω) (b :: bs) k').unique hlast
      exact .cons (hvisit x n b hx.result) (ih hrest)

end Stencil.Pass
