import Mathlib.Tactic.Common

/-!
# Computations that may fail

The rules for taking a monadic computation in `Except` apart: a sequence
returns exactly when its parts return, and a failing part decides the outcome.
-/

namespace Fallible

universe u

@[simp] theorem ok_bind {ε : Type*} {α β : Type u} (a : α) (f : α → Except ε β) :
    (Except.ok a >>= f) = f a := rfl

@[simp] theorem error_bind {ε : Type*} {α β : Type u} (e : ε) (f : α → Except ε β) :
    (Except.error e >>= f) = Except.error e := rfl

theorem bind_eq_ok {ε : Type*} {α β : Type u} {x : Except ε α} {f : α → Except ε β} {b : β} :
    (x >>= f) = Except.ok b ↔ ∃ a, x = Except.ok a ∧ f a = Except.ok b := by
  cases x with
  | error e =>
      constructor
      · intro h
        cases h
      · rintro ⟨a, h, -⟩
        cases h
  | ok a =>
      constructor
      · intro h
        exact ⟨a, rfl, h⟩
      · rintro ⟨a', h, hf⟩
        cases h
        exact hf

/-- The computation returns a value. -/
def Returns {ε : Type*} {α : Type u} (x : Except ε α) : Prop := ∃ a, x = Except.ok a

@[simp] theorem returns_ok {ε : Type*} {α : Type u} (a : α) :
    Returns (Except.ok a : Except ε α) := ⟨a, rfl⟩

@[simp] theorem not_returns_error {ε : Type*} {α : Type u} (e : ε) :
    ¬ Returns (Except.error e : Except ε α) := by
  rintro ⟨a, h⟩
  cases h

/-- A check that throws, in front of a computation. -/
theorem ite_error_eq_ok_iff {ε α : Type*} {p : Prop} [Decidable p] {e : ε} {x : Except ε α}
    {a : α} : (if p then Except.error e else x) = Except.ok a ↔ ¬ p ∧ x = Except.ok a := by
  by_cases h : p
  · simp [h]
  · simp [h]

/-- A checked conversion of a list that returns is the plain conversion. -/
theorem mapM_guard_eq {ε : Type*} {α β : Type u} {p : α → Prop} [DecidablePred p]
    {g : α → β} {e : α → ε} {xs : List α} {ys : List β}
    (h : xs.mapM (fun x => if p x then Except.ok (g x) else Except.error (e x)) =
      Except.ok ys) : ys = xs.map g := by
  induction xs generalizing ys with
  | nil =>
      cases h
      rfl
  | cons x xs ih =>
      rw [List.mapM_cons] at h
      obtain ⟨y, hy, h⟩ := bind_eq_ok.mp h
      obtain ⟨ys', hys, h⟩ := bind_eq_ok.mp h
      cases h
      split at hy
      · cases hy
        rw [List.map_cons, ih hys]
      · cases hy

end Fallible
