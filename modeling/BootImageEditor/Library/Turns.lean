import Mathlib.Data.Nat.Notation

/-!
# Loops that may fail

A `while (true)` loop is given by its turn: from a state it fails, ends with a
result, or goes on in a new state. `runTurns` runs a number of turns; the rules
bound the number of turns by a measure, carry an invariant to the result, and
compare two loops turn by turn.
-/

namespace Fallible

/-- What a turn that does not fail comes to. -/
inductive Turn (σ α : Type*) where
  | next (s : σ)
  | done (a : α)

/-- At most `n` turns of a loop; `none` when the loop has not ended by then. -/
def runTurns {σ ε α : Type*} (turn : σ → Except ε (Turn σ α)) : ℕ → σ → Option (Except ε α)
  | 0, _ => none
  | n + 1, s =>
      match turn s with
      | .error e => some (.error e)
      | .ok (.done a) => some (.ok a)
      | .ok (.next s') => runTurns turn n s'

theorem runTurns_done {σ ε α : Type*} {turn : σ → Except ε (Turn σ α)} {n : ℕ} {s : σ} {a : α}
    (h : turn s = .ok (.done a)) : runTurns turn (n + 1) s = some (.ok a) := by
  rw [runTurns, h]

theorem runTurns_next {σ ε α : Type*} {turn : σ → Except ε (Turn σ α)} {n : ℕ} {s s' : σ}
    (h : turn s = .ok (.next s')) : runTurns turn (n + 1) s = runTurns turn n s' := by
  rw [runTurns, h]

/-- A loop that returns does so in its first turn or after it. -/
theorem runTurns_succ_eq_ok_iff {σ ε α : Type*} {turn : σ → Except ε (Turn σ α)} {n : ℕ} {s : σ}
    {a : α} :
    runTurns turn (n + 1) s = some (.ok a) ↔
      turn s = .ok (.done a) ∨
        ∃ s', turn s = .ok (.next s') ∧ runTurns turn n s' = some (.ok a) := by
  rw [runTurns]
  cases turn s with
  | error e => simp
  | ok t =>
      cases t with
      | next s' => simp
      | done b => simp

/-- A measure that every turn which goes on brings down bounds the number of turns. -/
theorem isSome_runTurns {σ ε α : Type*} {turn : σ → Except ε (Turn σ α)} {I : σ → Prop}
    (measure : σ → ℕ)
    (hnext : ∀ s s', I s → turn s = .ok (.next s') → I s' ∧ measure s' < measure s)
    {n : ℕ} {s : σ} (hs : I s) (hn : measure s < n) : (runTurns turn n s).isSome := by
  induction n generalizing s with
  | zero => exact absurd hn (Nat.not_lt_zero _)
  | succ n ih =>
      rw [runTurns]
      cases hturn : turn s with
      | error e => rfl
      | ok t =>
          cases t with
          | done a => rfl
          | next s' =>
              have hnext' := hnext s s' hs hturn
              exact ih hnext'.1 (Nat.lt_of_lt_of_le hnext'.2 (Nat.le_of_lt_succ hn))

/-- An invariant of the turns holds when the loop ends. -/
theorem runTurns_invariant {σ ε α : Type*} {turn : σ → Except ε (Turn σ α)} {I : σ → Prop}
    {Q : α → Prop} (hnext : ∀ s s', I s → turn s = .ok (.next s') → I s')
    (hdone : ∀ s a, I s → turn s = .ok (.done a) → Q a) {n : ℕ} {s : σ} {a : α} (hs : I s)
    (h : runTurns turn n s = some (.ok a)) : Q a := by
  induction n generalizing s with
  | zero => cases h
  | succ n ih =>
      rcases runTurns_succ_eq_ok_iff.mp h with hturn | ⟨s', hturn, hrun⟩
      · exact hdone s a hs hturn
      · exact ih (hnext s s' hs hturn) hrun

/-- A loop whose turns are matched by those of another one returns only where the
other one returns as well. -/
theorem runTurns_simulation {σ τ ε ε' α β : Type*} {turn : σ → Except ε (Turn σ α)}
    {turn' : τ → Except ε' (Turn τ β)} {R : σ → τ → Prop} {Q : α → β → Prop}
    (hnext : ∀ s s' t, R s t → turn s = .ok (.next s') →
      ∃ t', turn' t = .ok (.next t') ∧ R s' t')
    (hdone : ∀ s a t, R s t → turn s = .ok (.done a) → ∃ b, turn' t = .ok (.done b) ∧ Q a b)
    {n : ℕ} {s : σ} {t : τ} {a : α} (hst : R s t) (h : runTurns turn n s = some (.ok a)) :
    ∃ b, runTurns turn' n t = some (.ok b) ∧ Q a b := by
  induction n generalizing s t with
  | zero => cases h
  | succ n ih =>
      rcases runTurns_succ_eq_ok_iff.mp h with hturn | ⟨s', hturn, hrun⟩
      · obtain ⟨b, hb, hab⟩ := hdone s a t hst hturn
        exact ⟨b, runTurns_done hb, hab⟩
      · obtain ⟨t', ht', hst'⟩ := hnext s s' t hst hturn
        rw [runTurns_next ht']
        exact ih hst' hrun

end Fallible
