import Stencil.Proofs.Placement

/-!
# With what passes fail

The endings of a pass tell when it fails, but not with which diagnostic. The judgement `Meets` says
what is known of the value if the pass returns and of the diagnostic if it fails, whatever number it
starts from. Of a walk over a list it is known in addition how far it comes: a walk that fails stops
at one member, after the others have returned one after the other.

## Main results

* `Meets.bind`, `Meets.within`: the rules for passes put together.
* `gather_withPlaces_meets`: a walk over children, with an invariant of the children that are done.
* `exists_stopsAt`, `StopsAt.unique`: **a walk that fails stops at exactly one member**.
* `Tag.descriptor_meets`: attributes fail to make a descriptor by the first two parts that they ask
  for.
-/

namespace Stencil

namespace Pass

variable {ω α β σ ν : Type}

/-! ### What is known of either ending -/

/-- From every number, what the pass returns is `good`, and what it fails with is `bad`. -/
def Meets (m : Pass ω α) (good : α → Prop) (bad : Diagnostic → Prop) : Prop :=
  ∀ n, (∀ a, (m.run n).result = .ok a → good a) ∧ ∀ d, (m.run n).result = .error d → bad d

section Rules

variable {good good' : α → Prop} {bad bad' : Diagnostic → Prop} {m : Pass ω α}

theorem Meets.mono (h : m.Meets good bad) (hgood : ∀ a, good a → good' a)
    (hbad : ∀ d, bad d → bad' d) : m.Meets good' bad' :=
  fun n => ⟨fun a ha => hgood a ((h n).1 a ha), fun d hd => hbad d ((h n).2 d hd)⟩

theorem meets_pure {a : α} (h : good a) : (pure a : Pass ω α).Meets good bad := by
  refine fun n => ⟨fun b hb => ?_, fun d hd => ?_⟩
  · cases hb
    exact h
  · cases hd

theorem meets_observe (a : ω) : (observe a).Meets (fun _ => True) bad :=
  fun _ => ⟨fun _ _ => trivial, fun _ hd => by cases hd⟩

theorem meets_fail {d : Diagnostic} (h : bad d) : (fail d : Pass ω α).Meets good bad := by
  refine fun n => ⟨fun a ha => ?_, fun e he => ?_⟩
  · cases ha
  · cases he
    exact h

theorem meets_ofExcept {r : Except Diagnostic α} (hok : ∀ a, r = .ok a → good a)
    (herror : ∀ d, r = .error d → bad d) : (ofExcept r : Pass ω α).Meets good bad :=
  fun _ => ⟨hok, herror⟩

/-- **Two passes one after the other**: the second is looked at only for what the first returns. -/
theorem Meets.bind {f : α → Pass ω β} {fine : β → Prop} (h : m.Meets good bad)
    (hf : ∀ a, good a → (f a).Meets fine bad) : (m >>= f).Meets fine bad := by
  intro n
  obtain ⟨hgood, hbad⟩ := h n
  rcases hrun : m n with ⟨result, k, seen⟩
  simp only [run, hrun] at hgood hbad
  cases result with
  | error e =>
      simp only [run, bind_apply_error hrun]
      refine ⟨fun b hb => (by cases hb), fun d hd => ?_⟩
      cases hd
      exact hbad e rfl
  | ok a =>
      simp only [run, bind_apply_ok hrun]
      exact hf a (hgood a rfl) k

theorem Meets.map {f : α → β} {fine : β → Prop} (h : m.Meets good bad)
    (hf : ∀ a, good a → fine (f a)) : (f <$> m).Meets fine bad := by
  rw [map_eq_pure_bind]
  exact h.bind fun a ha => meets_pure (hf a ha)

theorem Meets.located {place : Diagnostic → Diagnostic} (h : m.Meets good bad)
    (hplace : ∀ d, bad d → bad' (place d)) : (m.located place).Meets good bad' := by
  intro n
  obtain ⟨hgood, hbad⟩ := h n
  rcases hrun : m n with ⟨result, k, seen⟩
  simp only [run, hrun] at hgood hbad
  cases result with
  | error e =>
      simp only [run, Pass.located, hrun]
      refine ⟨fun a ha => (by cases ha), fun d hd => ?_⟩
      cases hd
      exact hplace e (hbad e rfl)
  | ok a =>
      simp only [run, Pass.located, hrun]
      exact ⟨hgood, fun d hd => by cases hd⟩

theorem Meets.within {context : String} (h : m.Meets good bad)
    (hcontext : ∀ d, bad d → bad' (d.inContext context)) : (m.within context).Meets good bad' :=
  h.located hcontext

end Rules

/-- **A walk over a list**, with an invariant of the members that are done and the state. -/
theorem gather_meets {visit : ν → Pass ω β} {step : σ → β → Except Diagnostic σ} {all : List ν}
    (inv : List ν → σ → Prop) (good : ν → β → Prop) {bad : Diagnostic → Prop}
    (hvisit : ∀ before x after, all = before ++ x :: after → (visit x).Meets (good x) bad)
    (hstep : ∀ before x after, all = before ++ x :: after → ∀ s b, inv before s → good x b →
      (∀ t, step s b = .ok t → inv (before ++ [x]) t) ∧ ∀ d, step s b = .error d → bad d)
    (before xs : List ν) (hall : all = before ++ xs) {s : σ} (hs : inv before s) :
    (gather visit step s xs).Meets (inv all) bad := by
  induction xs generalizing before s with
  | nil =>
      rw [List.append_nil] at hall
      rw [gather, hall]
      exact meets_pure hs
  | cons x rest ih =>
      have hall' : all = before ++ [x] ++ rest := by rw [hall, List.append_assoc]; rfl
      rw [gather]
      refine (hvisit before x rest hall).bind fun b hb => ?_
      obtain ⟨hok, herror⟩ := hstep before x rest hall s b hs hb
      exact (meets_ofExcept hok herror).bind fun t ht => ih (before ++ [x]) hall' ht

/-! ### How far a walk comes -/

/-- The visits of the first `k` members return one after the other, and the visit of the next
member `x` fails with `d`. -/
def StopsAt (visit : ν → Pass ω β) (xs : List ν) (n k : Nat) (x : ν) (d : Diagnostic) : Prop :=
  ∃ results m seen, ((xs.take k).mapM visit).Returns n results m seen ∧ xs[k]? = some x ∧
    ((visit x).run m).result = .error d

section StopsAt

variable {visit : ν → Pass ω β}

theorem stopsAt_zero {x y : ν} {xs : List ν} {n : Nat} {d : Diagnostic} :
    StopsAt visit (x :: xs) n 0 y d ↔ x = y ∧ ((visit x).run n).result = .error d := by
  constructor
  · rintro ⟨results, m, seen, hreturns, hx, hd⟩
    rw [List.take_zero, List.mapM_nil] at hreturns
    cases hreturns
    cases hx
    exact ⟨rfl, hd⟩
  · rintro ⟨rfl, hd⟩
    exact ⟨[], n, [], returns_pure [] n, rfl, hd⟩

theorem stopsAt_succ {x y : ν} {xs : List ν} {n k : Nat} {d : Diagnostic} :
    StopsAt visit (x :: xs) n (k + 1) y d ↔
      ∃ b m seen, (visit x).Returns n b m seen ∧ StopsAt visit xs m k y d := by
  constructor
  · rintro ⟨results, m, seen, hreturns, hy, hd⟩
    rw [List.take_succ_cons, List.mapM_cons] at hreturns
    obtain ⟨b, k', first, more, hb, hrest, -⟩ := hreturns.of_bind
    obtain ⟨bs, k'', second, third, hbs, hlast, -⟩ := hrest.of_bind
    cases hlast
    exact ⟨b, k', first, hb, bs, m, second, hbs, hy, hd⟩
  · rintro ⟨b, m, first, hb, bs, m', second, hbs, hy, hd⟩
    refine ⟨b :: bs, m', first ++ (second ++ []), ?_, hy, hd⟩
    rw [List.take_succ_cons, List.mapM_cons]
    exact hb.bind (hbs.bind (returns_pure (b :: bs) m'))

/-- **A walk that fails stops at a member**, and it is the failure of that member. -/
theorem exists_stopsAt {xs : List ν} {n : Nat} {d : Diagnostic}
    (h : ((xs.mapM visit).run n).result = .error d) : ∃ k x, StopsAt visit xs n k x d := by
  induction xs generalizing n with
  | nil =>
      rw [List.mapM_nil] at h
      cases h
  | cons x rest ih =>
      rw [List.mapM_cons] at h
      rcases hrun : visit x n with ⟨result, k, seen⟩
      cases result with
      | error e =>
          simp only [run, bind_apply_error hrun] at h
          cases h
          exact ⟨0, x, stopsAt_zero.mpr ⟨rfl, by rw [run, hrun]⟩⟩
      | ok b =>
          have hrest : ((rest.mapM visit).run k).result = .error d := by
            rcases hmore : rest.mapM visit k with ⟨result, k', more⟩
            cases result with
            | error e =>
                simp only [run, bind_apply_ok hrun, bind_apply_error hmore] at h
                cases h
                rw [run, hmore]
            | ok bs =>
                simp only [run, bind_apply_ok hrun, bind_apply_ok hmore] at h
                cases h
          obtain ⟨i, y, hstops⟩ := ih hrest
          exact ⟨i + 1, y, stopsAt_succ.mpr ⟨b, k, seen, hrun, hstops⟩⟩

/-- **A walk stops at one member only.** -/
theorem StopsAt.unique {xs : List ν} {n k k' : Nat} {x x' : ν} {d d' : Diagnostic}
    (h : StopsAt visit xs n k x d) (h' : StopsAt visit xs n k' x' d') : k = k' := by
  induction xs generalizing n k k' with
  | nil =>
      obtain ⟨_, _, _, -, hx, -⟩ := h
      cases hx
  | cons y rest ih =>
      cases k with
      | zero =>
          cases k' with
          | zero => rfl
          | succ k' =>
              obtain ⟨rfl, hd⟩ := stopsAt_zero.mp h
              obtain ⟨b, m, seen, hb, -⟩ := stopsAt_succ.mp h'
              rw [hb.result] at hd
              cases hd
      | succ k =>
          obtain ⟨b, m, seen, hb, hrest⟩ := stopsAt_succ.mp h
          cases k' with
          | zero =>
              obtain ⟨rfl, hd⟩ := stopsAt_zero.mp h'
              rw [hb.result] at hd
              cases hd
          | succ k' =>
              obtain ⟨b', m', seen', hb', hrest'⟩ := stopsAt_succ.mp h'
              obtain ⟨-, rfl, -⟩ := hb.unique hb'
              rw [ih hrest hrest']

end StopsAt

end Pass

/-- **A walk over children**, which are visited at their places. -/
theorem gather_withPlaces_meets {β σ : Type} {visit : Place × Node → Lowering β}
    {step : σ → β → Except Diagnostic σ} {nodes : List Node} (inv : List Node → σ → Prop)
    (good : Node → β → Prop) {bad : Diagnostic → Prop}
    (hvisit : ∀ before node after, nodes = before ++ node :: after → ∀ here,
      (visit (here, node)).Meets (good node) bad)
    (hstep : ∀ before node after, nodes = before ++ node :: after → ∀ s b, inv before s →
      good node b →
        (∀ t, step s b = .ok t → inv (before ++ [node]) t) ∧ ∀ d, step s b = .error d → bad d)
    {s₀ : σ} (hs : inv [] s₀) :
    (Pass.gather visit step s₀ (withPlaces [] 0 nodes)).Meets (inv nodes) bad := by
  have hnodes : ∀ {before after : List (Place × Node)} {x},
      withPlaces [] 0 nodes = before ++ x :: after →
        nodes = before.map Prod.snd ++ x.2 :: after.map Prod.snd := by
    intro before after x h
    rw [← map_snd_withPlaces [] 0 nodes, h, List.map_append, List.map_cons]
  have hgather := Pass.gather_meets (fun before s => inv (before.map Prod.snd) s)
    (fun x => good x.2)
    (fun before x after h => hvisit _ x.2 _ (hnodes h) x.1)
    (fun before x after h s b hinv hgood => by
      rw [List.map_append, List.map_singleton]
      exact hstep _ x.2 _ (hnodes h) s b hinv hgood)
    [] (withPlaces [] 0 nodes) rfl hs
  rwa [map_snd_withPlaces] at hgather

/-! ### Opening tags -/

namespace Descriptor

/-- A second part among siblings is refused with the first one. -/
theorem add_eq_conflict {d : Descriptor} {a : Attribute} {first second : Branch}
    (hd : d.branch = some first) (ha : a.branch? = some second) :
    d.add a = .error (.branchConflict d.tag first.directive second.directive) := by
  unfold Attribute.branch? at ha
  unfold add
  split at ha
  case h_6 => cases ha
  all_goals
    rename_i hrole
    cases ha
    rw [hrole]
    simp [direct, setBranch, hd]

end Descriptor

namespace Tag

/-- Attributes that ask for two parts among siblings, what is there already included, fail by the
first two of them. -/
theorem collect_meets (d : Descriptor) (attributes : List Attribute) :
    (collect d attributes).Meets (· = d.extended attributes) fun e =>
      ∃ first second more, d.branch.toList ++ branchesOf attributes = first :: second :: more ∧
        e = { cause := .branchConflict d.tag first.directive second.directive } := by
  induction attributes generalizing d with
  | nil => exact Pass.meets_pure d.extended_nil.symm
  | cons a rest ih =>
      rw [collect]
      refine (Pass.meets_observe a).bind fun _ _ => ?_
      by_cases h : d.branch = none ∨ a.branch? = none
      · rw [Descriptor.add_eq_ok h, d.extended_cons a rest]
        refine (ih (d.extended [a])).mono (fun _ => id) fun e he => ?_
        obtain ⟨first, second, more, hparts, rfl⟩ := he
        refine ⟨first, second, more, ?_, rfl⟩
        rw [branchesOf_cons, ← List.append_assoc, ← Descriptor.toList_branch_extended h, hparts]
      · obtain ⟨hd, ha⟩ := not_or.mp h
        obtain ⟨first, hfirst⟩ := Option.ne_none_iff_exists'.mp hd
        obtain ⟨second, hsecond⟩ := Option.ne_none_iff_exists'.mp ha
        rw [Descriptor.add_eq_conflict hfirst hsecond]
        refine Pass.meets_fail ⟨first, second, branchesOf rest, ?_, rfl⟩
        rw [branchesOf_cons, hfirst, hsecond]
        rfl

/-- The descriptor of a tag fails by the first two parts that the tag asks for. -/
theorem descriptor_meets (tag : Tag) :
    tag.descriptor.Meets (· = tag.described) fun e =>
      ∃ first second more, tag.branches = first :: second :: more ∧
        e = { cause := .branchConflict tag.name first.directive second.directive } :=
  collect_meets { tag := tag.name } tag.attributes

end Tag

end Stencil
