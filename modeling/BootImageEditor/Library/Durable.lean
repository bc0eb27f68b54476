import BootImageEditor.Library.Fallible

/-!
# Computations on a state that outlives failure

A durable computation changes a state and may fail, and what it changed before it
failed stays changed. The rules take a sequence apart: how it returns, and in
which state a failure leaves things.
-/

namespace Fallible

universe u

/-- A computation on a state, with the state it leaves whether or not it fails. -/
def Durable (σ ε α : Type u) : Type u := σ → Except ε α × σ

namespace Durable

variable {σ ε α β : Type u}

def run (x : Durable σ ε α) (s : σ) : Except ε α × σ := x s

instance : Monad (Durable σ ε) where
  pure a := fun s => (.ok a, s)
  bind x f := fun s =>
    match x.run s with
    | (.ok a, s') => (f a).run s'
    | (.error e, s') => (.error e, s')

def get : Durable σ ε σ := fun s => (.ok s, s)

/-- A computation that does not touch the state. -/
def lift (x : Except ε α) : Durable σ ε α := fun s => (x, s)

/-- A change of the state that is made as a whole or not at all. -/
def update (f : σ → Except ε σ) : Durable σ ε PUnit := fun s =>
  match f s with
  | .ok s' => (.ok ⟨⟩, s')
  | .error e => (.error e, s)

/-! ## Running -/

@[simp] theorem run_pure (a : α) (s : σ) :
    (pure a : Durable σ ε α).run s = (.ok a, s) := rfl

@[simp] theorem run_get (s : σ) : (get : Durable σ ε σ).run s = (.ok s, s) := rfl

@[simp] theorem run_lift (x : Except ε α) (s : σ) :
    (lift x : Durable σ ε α).run s = (x, s) := rfl

theorem run_bind (x : Durable σ ε α) (f : α → Durable σ ε β) (s : σ) :
    (x >>= f).run s =
      match x.run s with
      | (.ok a, s') => (f a).run s'
      | (.error e, s') => (.error e, s') := rfl

@[simp] theorem run_get_bind (f : σ → Durable σ ε β) (s : σ) :
    (get >>= f).run s = (f s).run s := rfl

theorem run_bind_eq_ok {x : Durable σ ε α} {f : α → Durable σ ε β} {s t : σ} {b : β} :
    (x >>= f).run s = (.ok b, t) ↔
      ∃ a s', x.run s = (.ok a, s') ∧ (f a).run s' = (.ok b, t) := by
  rw [run_bind]
  rcases h : x.run s with ⟨r, s'⟩
  cases r with
  | error e =>
      constructor
      · intro h'
        cases h'
      · rintro ⟨a, s₁, h₁, -⟩
        cases h₁
  | ok a =>
      constructor
      · intro h'
        exact ⟨a, s', rfl, h'⟩
      · rintro ⟨a₁, s₁, h₁, h'⟩
        cases h₁
        exact h'

theorem run_lift_eq_ok {x : Except ε α} {s t : σ} {a : α} :
    (lift x : Durable σ ε α).run s = (.ok a, t) ↔ x = .ok a ∧ s = t := by
  rw [run_lift, Prod.mk.injEq]

theorem run_update_eq_ok {f : σ → Except ε σ} {s t : σ} {u : PUnit} :
    (update f).run s = (.ok u, t) ↔ f s = .ok t := by
  have hrun : (update f).run s =
      match f s with
      | .ok s' => (.ok ⟨⟩, s')
      | .error e => (.error e, s) := rfl
  rw [hrun]
  cases f s with
  | error e =>
      constructor
      · intro h
        cases h
      · intro h
        cases h
  | ok s' =>
      constructor
      · intro h
        cases h
        rfl
      · intro h
        cases h
        rfl

/-! ## Failing -/

/-- When the computation fails from `s`, it leaves `t`. -/
def FailsIn (x : Durable σ ε α) (s t : σ) : Prop := ∀ e s', x.run s = (.error e, s') → s' = t

theorem failsIn_pure (a : α) (s t : σ) : (pure a : Durable σ ε α).FailsIn s t := by
  intro e s' h
  cases h

/-- A computation that does not touch the state leaves it as it was. -/
theorem failsIn_lift_iff {x : Except ε α} {s t : σ} :
    (lift x : Durable σ ε α).FailsIn s t ↔ (Returns x ∨ s = t) := by
  cases x with
  | ok a =>
      refine iff_of_true ?_ (Or.inl ⟨a, rfl⟩)
      intro e s' h
      cases h
  | error e =>
      constructor
      · intro h
        exact Or.inr (h e s rfl)
      · intro h e' s' hrun
        cases hrun
        exact h.resolve_left (not_returns_error e)

theorem failsIn_update (f : σ → Except ε σ) (s : σ) : (update f).FailsIn s s := by
  intro e s' h
  have hrun : (update f).run s =
      match f s with
      | .ok s' => (.ok ⟨⟩, s')
      | .error e => (.error e, s) := rfl
  rw [hrun] at h
  cases hf : f s with
  | ok s₁ =>
      rw [hf] at h
      cases h
  | error e₁ =>
      rw [hf] at h
      cases h
      rfl

/-- A sequence leaves `t` on failure when its first part does, and its second part does
from wherever the first part ends. -/
theorem failsIn_bind_iff {x : Durable σ ε α} {f : α → Durable σ ε β} {s t : σ} :
    (x >>= f).FailsIn s t ↔
      x.FailsIn s t ∧ ∀ a s', x.run s = (.ok a, s') → (f a).FailsIn s' t := by
  unfold FailsIn
  rw [run_bind]
  rcases h : x.run s with ⟨r, s₁⟩
  cases r with
  | error e =>
      constructor
      · intro hall
        refine ⟨?_, ?_⟩
        · intro e' s' herr
          cases herr
          exact hall e s₁ rfl
        · intro a s' hok
          cases hok
      · intro hall e' s' herr
        cases herr
        exact hall.1 e s₁ rfl
  | ok a =>
      constructor
      · intro hall
        refine ⟨?_, ?_⟩
        · intro e s' herr
          cases herr
        · intro a₁ s' hok
          cases hok
          exact hall
      · intro hall
        exact hall.2 a s₁ rfl

@[simp] theorem failsIn_get_bind_iff {f : σ → Durable σ ε β} {s t : σ} :
    (get >>= f).FailsIn s t ↔ (f s).FailsIn s t := Iff.rfl

/-- A value that is there is passed on. -/
theorem failsIn_lift_ok_bind_iff {a : α} {f : α → Durable σ ε β} {s t : σ} :
    (lift (.ok a) >>= f).FailsIn s t ↔ (f a).FailsIn s t := Iff.rfl

/-- An exception ends the sequence where it is. -/
theorem failsIn_lift_error_bind_iff {e : ε} {f : α → Durable σ ε β} {s t : σ} :
    (lift (.error e) >>= f).FailsIn s t ↔ s = t := by
  rw [failsIn_bind_iff, failsIn_lift_iff]
  constructor
  · rintro ⟨h, -⟩
    exact h.resolve_left (not_returns_error e)
  · intro h
    refine ⟨.inr h, ?_⟩
    intro a s' hrun
    cases hrun

end Durable

end Fallible
