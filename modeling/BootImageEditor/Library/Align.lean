import Mathlib.Algebra.Order.Ring.Nat
import Mathlib.Tactic.Common

/-!
# Rounding up to a multiple

`roundUp p n` is the least multiple of `p` from `n` on, and `gap p n` the number
of padding bytes between them. Programs compute it from the remainder, or by
clearing low bits; both forms are related to it here.
-/

namespace Codec

def roundUp (p n : ℕ) : ℕ := (n + (p - 1)) / p * p

/-- Padding from `n` up to the next multiple of `p`. -/
def gap (p n : ℕ) : ℕ := roundUp p n - n

theorem dvd_roundUp (p n : ℕ) : p ∣ roundUp p n := Nat.dvd_mul_left p _

theorem roundUp_mod (p n : ℕ) : roundUp p n % p = 0 := Nat.mul_mod_left _ p

theorem le_roundUp {p : ℕ} (hp : 0 < p) (n : ℕ) : n ≤ roundUp p n := by
  have h := Nat.div_add_mod (n + (p - 1)) p
  have hlt := Nat.mod_lt (n + (p - 1)) hp
  rw [Nat.mul_comm] at h
  unfold roundUp
  omega

theorem roundUp_lt {p : ℕ} (hp : 0 < p) (n : ℕ) : roundUp p n < n + p := by
  have h := Nat.div_mul_le_self (n + (p - 1)) p
  unfold roundUp
  omega

theorem add_gap {p : ℕ} (hp : 0 < p) (n : ℕ) : n + gap p n = roundUp p n := by
  have h := le_roundUp hp n
  unfold gap
  omega

theorem gap_lt {p : ℕ} (hp : 0 < p) (n : ℕ) : gap p n < p := by
  have hsum := add_gap hp n
  have hlt := roundUp_lt hp n
  omega

/-- Every multiple from `n` on is at least `roundUp p n`. -/
theorem roundUp_le {p n m : ℕ} (hp : 0 < p) (hnm : n ≤ m) (hm : m % p = 0) :
    roundUp p n ≤ m := by
  obtain ⟨k, rfl⟩ := Nat.dvd_of_mod_eq_zero hm
  have hk : (n + (p - 1)) / p ≤ k := by
    rw [← Nat.lt_succ_iff, Nat.div_lt_iff_lt_mul hp, Nat.succ_mul]
    have := Nat.mul_comm p k
    omega
  calc roundUp p n ≤ k * p := Nat.mul_le_mul_right p hk
    _ = p * k := Nat.mul_comm k p

theorem roundUp_eq_self {p n : ℕ} (hp : 0 < p) (h : n % p = 0) : roundUp p n = n :=
  le_antisymm (roundUp_le hp le_rfl h) (le_roundUp hp n)

/-- The form with a remainder. -/
theorem roundUp_of_mod_ne_zero {p n : ℕ} (hp : 0 < p) (h : n % p ≠ 0) :
    roundUp p n = n + p - n % p := by
  have hlt := Nat.mod_lt n hp
  have hdiv := Nat.div_add_mod n p
  have hmul : (n + p - n % p) % p = 0 := by
    have hform : n + p - n % p = p * (n / p + 1) := by
      rw [Nat.mul_add]
      omega
    rw [hform, Nat.mul_mod_right]
  apply le_antisymm
  · exact roundUp_le hp (by omega) hmul
  · by_contra hcon
    -- two multiples less than `p` apart are equal
    obtain ⟨a, ha⟩ := Nat.dvd_of_mod_eq_zero hmul
    obtain ⟨b, hb⟩ := dvd_roundUp p n
    have hle := le_roundUp hp n
    have hne : roundUp p n ≠ n := by
      intro heq
      have := roundUp_mod p n
      rw [heq] at this
      exact h this
    have hba : b < a := by
      by_contra hba
      have := Nat.mul_le_mul_left p (Nat.le_of_not_lt hba)
      omega
    have hmul' : p * b + p ≤ p * a := by
      calc p * b + p = p * (b + 1) := by rw [Nat.mul_add, Nat.mul_one]
        _ ≤ p * a := Nat.mul_le_mul_left p hba
    omega

theorem gap_eq_zero_iff {p n : ℕ} (hp : 0 < p) : gap p n = 0 ↔ n % p = 0 := by
  have hle := le_roundUp hp n
  constructor
  · intro h
    have heq : roundUp p n = n := by
      unfold gap at h
      omega
    rw [← heq]
    exact roundUp_mod p n
  · intro h
    rw [gap, roundUp_eq_self hp h, Nat.sub_self]

/-- The form that programs clear bits with. -/
theorem gap_eq_mod {p : ℕ} (hp : 0 < p) (n : ℕ) : gap p n = (p - n % p) % p := by
  have hlt := Nat.mod_lt n hp
  by_cases h : n % p = 0
  · rw [h, Nat.sub_zero, Nat.mod_self, gap_eq_zero_iff hp]
    exact h
  · have hmod : (p - n % p) % p = p - n % p := Nat.mod_eq_of_lt (by omega)
    rw [gap, roundUp_of_mod_ne_zero hp h, hmod]
    omega

/-- Padding does not depend on whole pages before it. -/
theorem gap_add {p m : ℕ} (hp : 0 < p) (hm : m % p = 0) (n : ℕ) : gap p (m + n) = gap p n := by
  rw [gap_eq_mod hp, gap_eq_mod hp, Nat.add_mod, hm, Nat.zero_add, Nat.mod_mod]

end Codec
