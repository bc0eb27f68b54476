import Mathlib.Tactic.Common

/-!
# Procedures that leave early

A procedure works on a state. It ends with a value, leaves early with a code and the state it
has reached by then, or is cut short, with neither. `Meets` is its weakest precondition for
runs that are not cut short; the rules follow the way a procedure is put together.
-/

namespace Procedures

/-- A procedure with codes in `ε` and states in `σ`. -/
abbrev Procedure (ε σ : Type) := ExceptT ε (StateT σ Option)

variable {ε ε' σ α β : Type}

namespace Procedure

/-- The run from a state. -/
def runFrom (x : Procedure ε σ α) (s : σ) : Option (Except ε α × σ) := x.run.run s

/-- The procedure is cut short. -/
def cutShort : Procedure ε σ α := ExceptT.mk fun _ => none

/-- Leave with `e` where `p` holds. -/
def exitIf (p : Prop) [Decidable p] (e : ε) : Procedure ε σ Unit :=
  if p then throw e else pure ()

/-- Go on only where `p` holds. -/
def require (p : Prop) [Decidable p] : Procedure ε σ Unit :=
  if p then pure () else cutShort

/-- The code of a procedure, whether it left early with it or came to its end. -/
def outcome (x : Procedure ε σ ε) : Procedure ε' σ ε :=
  ExceptT.mk fun s => (x.runFrom s).map fun r =>
    (.ok (match r.1 with
      | .ok e => e
      | .error e => e), r.2)

@[simp] theorem runFrom_pure (a : α) (s : σ) :
    (pure a : Procedure ε σ α).runFrom s = some (.ok a, s) := rfl

@[simp] theorem runFrom_throw (e : ε) (s : σ) :
    (throw e : Procedure ε σ α).runFrom s = some (.error e, s) := rfl

@[simp] theorem runFrom_get (s : σ) : (get : Procedure ε σ σ).runFrom s = some (.ok s, s) := rfl

@[simp] theorem runFrom_modify (f : σ → σ) (s : σ) :
    (modify f : Procedure ε σ PUnit).runFrom s = some (.ok ⟨⟩, f s) := rfl

@[simp] theorem runFrom_cutShort (s : σ) : (cutShort : Procedure ε σ α).runFrom s = none := rfl

@[simp] theorem runFrom_exitIf (p : Prop) [Decidable p] (e : ε) (s : σ) :
    (exitIf p e : Procedure ε σ Unit).runFrom s =
      some (if p then .error e else .ok (), s) := by
  unfold exitIf
  split
  · rfl
  · rfl

@[simp] theorem runFrom_require (p : Prop) [Decidable p] (s : σ) :
    (require p : Procedure ε σ Unit).runFrom s = if p then some (.ok (), s) else none := by
  unfold require
  split
  · rfl
  · rfl

/-- What comes after a check only matters where the check passes. -/
theorem exitIf_bind_congr {p : Prop} [Decidable p] {e : ε} {f g : Unit → Procedure ε σ α}
    (h : ¬ p → f () = g ()) : (exitIf p e >>= f) = exitIf p e >>= g := by
  unfold exitIf
  split
  · rfl
  · next hp => exact h hp

end Procedure

open Procedure

/-! ## What holds after a run -/

/-- A run from `s` that is not cut short ends in `Q`, or leaves early in `R`. -/
def Meets (x : Procedure ε σ α) (s : σ) (Q : α → σ → Prop) (R : ε → σ → Prop) : Prop :=
  ∀ r s', x.runFrom s = some (r, s') →
    match r with
    | .ok a => Q a s'
    | .error e => R e s'

section

variable {s : σ} {Q : α → σ → Prop} {R : ε → σ → Prop}

theorem Meets.of_runFrom {x : Procedure ε σ α} (h : Meets x s Q R) {a : α} {s' : σ}
    (hrun : x.runFrom s = some (.ok a, s')) : Q a s' :=
  h _ _ hrun

theorem Meets.of_runFrom_error {x : Procedure ε σ α} (h : Meets x s Q R) {e : ε} {s' : σ}
    (hrun : x.runFrom s = some (.error e, s')) : R e s' :=
  h _ _ hrun

theorem Meets.mono {x : Procedure ε σ α} {Q' : α → σ → Prop} {R' : ε → σ → Prop}
    (h : Meets x s Q R) (hQ : ∀ a s', Q a s' → Q' a s') (hR : ∀ e s', R e s' → R' e s') :
    Meets x s Q' R' := by
  rintro (e | a) s' hrun
  · exact hR e s' (h.of_runFrom_error hrun)
  · exact hQ a s' (h.of_runFrom hrun)

end

end Procedures
