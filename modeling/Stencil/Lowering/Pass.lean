import Stencil.Diagnostic
import Stencil.Markup.Node

/-!
# Passes

A pass is a computation that numbers loops, reports what it sees and may fail. It starts from
the next free loop number and ends with an `Outcome`: the result or a diagnostic, the next
free number, and the reports, in order. The number and the reports are there on failure too,
as the failure left them. A `Lowering` is a pass that reports attributes.

Main statement: passes are a lawful monad, in which the reports of two steps are concatenated
and a failure leaves the rest undone.
-/

namespace Stencil

/-- How a pass ended. -/
structure Outcome (ω α : Type) where
  result : Except Diagnostic α
  /-- The next free loop number. -/
  next : Nat
  /-- What was reported on the way, in order. -/
  observed : List ω := []

/-- A computation from the next free loop number. -/
def Pass (ω α : Type) : Type := Nat → Outcome ω α

/-- A pass that reports the attributes it meets. -/
abbrev Lowering (α : Type) : Type := Pass Attribute α

namespace Pass

variable {ω α β γ : Type}

/-- Runs a pass from a loop number. -/
def run (m : Pass ω α) (next : Nat) : Outcome ω α := m next

instance : Monad (Pass ω) where
  pure a := fun n => { result := .ok a, next := n }
  bind m f := fun n =>
    match m n with
    | { result := .ok a, next, observed } =>
      let rest := f a next
      { rest with observed := observed ++ rest.observed }
    | { result := .error d, next, observed } => { result := .error d, next, observed }

/-- Fails with a diagnostic. -/
def fail (d : Diagnostic) : Pass ω α := fun n =>
  { result := .error d, next := n }

/-- Goes on with a result, or fails with its diagnostic. -/
def ofExcept (r : Except Diagnostic α) : Pass ω α := fun n =>
  { result := r, next := n }

/-- Reports what is seen. -/
def observe (a : ω) : Pass ω Unit := fun n =>
  { result := .ok (), next := n, observed := [a] }

/-- Takes the next loop number. -/
def freshLoop : Pass ω Nat := fun n =>
  { result := .ok n, next := n + 1 }

/-- Adds to the diagnostic of a failure. -/
def located (place : Diagnostic → Diagnostic) (m : Pass ω α) : Pass ω α := fun n =>
  let outcome := m n
  { outcome with
    result := match outcome.result with
      | .ok a => .ok a
      | .error d => .error (place d) }

/-- Sets the element at fault in a failure that does not name one. -/
def within (context : String) (m : Pass ω α) : Pass ω α :=
  m.located fun d => d.inContext context

/-- Adds to every report. -/
def mapObserved {ω' : Type} (f : ω → ω') (m : Pass ω α) : Pass ω' α := fun n =>
  let outcome := m n
  { outcome with observed := outcome.observed.map f }

/-! ### The laws of the monad -/

theorem ext {m m' : Pass ω α} (h : ∀ n, m n = m' n) : m = m' := funext h

theorem pure_apply (a : α) (n : Nat) :
    (pure a : Pass ω α) n = { result := .ok a, next := n } := rfl

/-- A step that succeeds hands on its value and its number, and its reports come first. -/
theorem bind_apply_ok {m : Pass ω α} {f : α → Pass ω β} {n next : Nat} {observed : List ω}
    {a : α} (h : m n = { result := .ok a, next, observed }) :
    (m >>= f) n = { f a next with observed := observed ++ (f a next).observed } := by
  show (match m n with
    | { result := .ok a, next, observed } =>
      let rest := f a next
      { rest with observed := observed ++ rest.observed }
    | { result := .error d, next, observed } => { result := .error d, next, observed }) = _
  rw [h]

/-- A step that fails is all that is done. -/
theorem bind_apply_error {m : Pass ω α} {f : α → Pass ω β} {n next : Nat} {observed : List ω}
    {d : Diagnostic} (h : m n = { result := .error d, next, observed }) :
    (m >>= f) n = { result := .error d, next, observed } := by
  show (match m n with
    | { result := .ok a, next, observed } =>
      let rest := f a next
      { rest with observed := observed ++ rest.observed }
    | { result := .error d, next, observed } => { result := .error d, next, observed }) = _
  rw [h]

theorem id_map_eq (m : Pass ω α) : id <$> m = m := ext fun n => by
  show (m >>= fun a => pure a) n = m n
  rcases h : m n with ⟨result, next, observed⟩
  cases result with
  | ok a => rw [bind_apply_ok h, pure_apply]; simp
  | error d => rw [bind_apply_error h]

theorem pure_bind_eq (a : α) (f : α → Pass ω β) : pure a >>= f = f a :=
  ext fun n => by
    rw [bind_apply_ok (pure_apply a n)]
    simp

theorem bind_assoc_eq (m : Pass ω α) (f : α → Pass ω β) (g : β → Pass ω γ) :
    m >>= f >>= g = m >>= fun a => f a >>= g := ext fun n => by
  rcases h : m n with ⟨result, next, observed⟩
  cases result with
  | error d => rw [bind_apply_error h, bind_apply_error (bind_apply_error h)]
  | ok a =>
    rw [bind_apply_ok h]
    rcases h' : f a next with ⟨result', next', observed'⟩
    cases result' with
    | error d =>
      rw [bind_apply_error h', bind_apply_error ((bind_apply_ok h).trans (by rw [h']))]
    | ok b =>
      rw [bind_apply_ok h', bind_apply_ok ((bind_apply_ok h).trans (by rw [h']))]
      simp [List.append_assoc]

instance : LawfulMonad (Pass ω) :=
  LawfulMonad.mk' (Pass ω) id_map_eq pure_bind_eq bind_assoc_eq

end Pass

end Stencil
