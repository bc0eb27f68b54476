import BootImageEditor.Library.Endian
import Mathlib.Data.Nat.ModEq
import Mathlib.Data.Nat.Prime.Basic
import Mathlib.FieldTheory.Finite.Basic

/-!
# Montgomery multiplication

Numbers are lists of 32-bit words, least significant first. A Montgomery product of
`a` and `b` with radix `R` is any `v` with `R * v` congruent to `a * b`; nothing is
said about `v` being reduced. A loop that takes in one word of `a` at a time computes
one, and squarings and multiplications of Montgomery forms compute powers.
-/

namespace Codec

/-- The number whose words, least significant first, are the list. -/
def ofLeWords : List UInt32 → ℕ
  | [] => 0
  | w :: ws => w.toNat + 2 ^ 32 * ofLeWords ws

theorem ofLeWords_lt (ws : List UInt32) : ofLeWords ws < (2 ^ 32) ^ ws.length := by
  induction ws with
  | nil => simp [ofLeWords]
  | cons w ws ih =>
      have hw := w.toNat_lt
      rw [ofLeWords, List.length_cons, pow_succ' (2 ^ 32) ws.length]
      omega

theorem ofLeWords_append (xs ys : List UInt32) :
    ofLeWords (xs ++ ys) = ofLeWords xs + (2 ^ 32) ^ xs.length * ofLeWords ys := by
  induction xs with
  | nil => simp [ofLeWords]
  | cons x xs ih =>
      rw [List.cons_append, ofLeWords, ofLeWords, ih, List.length_cons, pow_succ']
      ring

theorem ofLeWords_replicate_zero (n : ℕ) : ofLeWords (List.replicate n 0) = 0 := by
  induction n with
  | zero => rfl
  | succ n ih =>
      rw [List.replicate_succ, ofLeWords, ih]
      rfl

/-! ## Bytes of words -/

theorem leBytes_add (k n m : ℕ) : leBytes (k + n) m = leBytes k m ++ leBytes n (m / 256 ^ k) := by
  induction k generalizing m with
  | zero => simp [leBytes]
  | succ k ih =>
      rw [Nat.add_right_comm, leBytes, ih, leBytes, List.cons_append, Nat.div_div_eq_div_mul,
        ← pow_succ']

theorem leBytes_mod (k m : ℕ) : leBytes k m = leBytes k (m % 256 ^ k) := by
  have h := leBytes_ofLeBytes (leBytes k m)
  rw [length_leBytes, ofLeBytes_leBytes] at h
  exact h.symm

namespace Montgomery

/-- One word `a` of the multiplier is taken in: what is divided by the base stays below
the radix and one modulus more. -/
theorem step_lt {B N R c a b d t : ℕ} (h : B * t = c + a * b + d * N) (hc : c < R)
    (hb : b < R) (ha : a < B) (hd : d < B) : t < R + N := by
  have hab : a * b ≤ (B - 1) * (R - 1) := Nat.mul_le_mul (by omega) (by omega)
  have hdN : d * N ≤ (B - 1) * N := Nat.mul_le_mul_right N (by omega)
  by_contra hcon
  have hlow : B * (R + N) ≤ B * t := Nat.mul_le_mul_left B (Nat.le_of_not_lt hcon)
  obtain ⟨B, rfl⟩ : ∃ B', B = B' + 1 := ⟨B - 1, by omega⟩
  obtain ⟨R, rfl⟩ : ∃ R', R = R' + 1 := ⟨R - 1, by omega⟩
  rw [Nat.add_sub_cancel, Nat.add_sub_cancel] at hab
  rw [Nat.add_sub_cancel] at hdN
  nlinarith

/-- A loop over the words of `a`, least significant first, whose state stands for a
number: every turn adds the product with one word and divides by the base. -/
theorem foldl_modEq {σ : Type*} {Inv : σ → Prop} {val : σ → ℕ} {step : σ → UInt32 → σ}
    {N b : ℕ} (hinv : ∀ c a, Inv c → Inv (step c a))
    (hstep : ∀ c a, Inv c → 2 ^ 32 * val (step c a) ≡ val c + a.toNat * b [MOD N])
    (as : List UInt32) (c : σ) (hc : Inv c) :
    Inv (as.foldl step c) ∧
      (2 ^ 32) ^ as.length * val (as.foldl step c) ≡ val c + ofLeWords as * b [MOD N] := by
  induction as generalizing c with
  | nil =>
      refine ⟨hc, ?_⟩
      simp only [List.foldl_nil, List.length_nil, pow_zero, one_mul, ofLeWords, zero_mul, add_zero]
      rfl
  | cons a as ih =>
      obtain ⟨hfinal, hmod⟩ := ih (step c a) (hinv c a hc)
      refine ⟨hfinal, ?_⟩
      rw [List.foldl_cons, List.length_cons, pow_succ', mul_assoc, ofLeWords]
      calc 2 ^ 32 * ((2 ^ 32) ^ as.length * val (as.foldl step (step c a)))
          ≡ 2 ^ 32 * (val (step c a) + ofLeWords as * b) [MOD N] := hmod.mul_left _
        _ = 2 ^ 32 * val (step c a) + 2 ^ 32 * (ofLeWords as * b) := Nat.mul_add _ _ _
        _ ≡ val c + a.toNat * b + 2 ^ 32 * (ofLeWords as * b) [MOD N] :=
            (hstep c a hc).add_right _
        _ = val c + (a.toNat + 2 ^ 32 * ofLeWords as) * b := by ring

/-! ## Montgomery forms -/

section

variable {N R : ℕ} (hcop : N.gcd R = 1)

include hcop

/-- A product with the square of the radix is a Montgomery form. -/
theorem enter {a rr v : ℕ} (hrr : rr ≡ R * R [MOD N]) (hv : R * v ≡ a * rr [MOD N]) :
    v ≡ a * R [MOD N] := by
  apply Nat.ModEq.cancel_left_of_coprime hcop
  calc R * v ≡ a * rr [MOD N] := hv
    _ ≡ a * (R * R) [MOD N] := hrr.mul_left a
    _ = R * (a * R) := by ring

/-- A product of two Montgomery forms is the form of the product. -/
theorem mul {x y u w v : ℕ} (hx : x ≡ u * R [MOD N]) (hy : y ≡ w * R [MOD N])
    (hv : R * v ≡ x * y [MOD N]) : v ≡ u * w * R [MOD N] := by
  apply Nat.ModEq.cancel_left_of_coprime hcop
  calc R * v ≡ x * y [MOD N] := hv
    _ ≡ u * R * (w * R) [MOD N] := hx.mul hy
    _ = R * (u * w * R) := by ring

/-- A product of a form and a plain number is a plain product. -/
theorem leave {x y u v : ℕ} (hx : x ≡ u * R [MOD N]) (hv : R * v ≡ x * y [MOD N]) :
    v ≡ u * y [MOD N] := by
  apply Nat.ModEq.cancel_left_of_coprime hcop
  calc R * v ≡ x * y [MOD N] := hv
    _ ≡ u * R * y [MOD N] := hx.mul_right y
    _ = R * (u * y) := by ring

end

/-- Repeated squaring of forms. -/
theorem iterate_square {σ : Type*} {Inv : σ → Prop} {val : σ → ℕ} {square : σ → σ} {N R e : ℕ}
    (hsquare : ∀ x u, Inv x → val x ≡ u * R [MOD N] →
      Inv (square x) ∧ val (square x) ≡ u ^ e * R [MOD N])
    (n : ℕ) {x : σ} {u : ℕ} (hinv : Inv x) (hx : val x ≡ u * R [MOD N]) :
    Inv (square^[n] x) ∧ val (square^[n] x) ≡ u ^ e ^ n * R [MOD N] := by
  induction n generalizing x u with
  | zero => exact ⟨hinv, by simpa using hx⟩
  | succ n ih =>
      obtain ⟨hinv', hx'⟩ := hsquare x u hinv hx
      have h := ih hinv' hx'
      rw [Function.iterate_succ_apply]
      rw [← pow_mul, ← pow_succ'] at h
      exact h

end Montgomery

/-! ## Exponents that cancel -/

/-- Raising to `m` leaves every number as it is, modulo a prime `p` with `p - 1` dividing
`m - 1`. -/
theorem pow_modEq_self_of_prime {p m : ℕ} (hp : p.Prime) (hm : m ≡ 1 [MOD p - 1]) (h1 : 0 < m)
    (x : ℕ) : x ^ m ≡ x [MOD p] := by
  by_cases hdvd : p ∣ x
  · have hx : x ≡ 0 [MOD p] := (Nat.modEq_zero_iff_dvd).mpr hdvd
    calc x ^ m ≡ 0 ^ m [MOD p] := hx.pow m
      _ = 0 := zero_pow (by omega)
      _ ≡ x [MOD p] := hx.symm
  · have hcop : x.Coprime p := ((Nat.Prime.coprime_iff_not_dvd hp).mpr hdvd).symm
    obtain ⟨k, hk⟩ := (Nat.modEq_iff_dvd' h1).mp hm.symm
    have hpow : x ^ (p - 1) ≡ 1 [MOD p] := by
      have h := Nat.ModEq.pow_totient hcop
      rwa [Nat.totient_prime hp] at h
    have hm' : m = (p - 1) * k + 1 := by omega
    calc x ^ m = (x ^ (p - 1)) ^ k * x := by rw [hm', pow_succ, pow_mul]
      _ ≡ 1 ^ k * x [MOD p] := (hpow.pow k).mul_right x
      _ = x := by rw [one_pow, one_mul]

/-- The same modulo a product of distinct primes: decryption undoes encryption. -/
theorem pow_modEq_self_of_primes {ps : List ℕ} (hprime : ∀ p ∈ ps, p.Prime) (hnodup : ps.Nodup)
    {m : ℕ} (hm : ∀ p ∈ ps, m ≡ 1 [MOD p - 1]) (h1 : 0 < m) (x : ℕ) :
    x ^ m ≡ x [MOD ps.prod] := by
  induction ps with
  | nil => exact Nat.modEq_one
  | cons p ps ih =>
      obtain ⟨hnotMem, hnodup'⟩ := List.nodup_cons.mp hnodup
      have hp := hprime p List.mem_cons_self
      have hcop : p.Coprime ps.prod := by
        refine Nat.coprime_list_prod_right_iff.mpr fun q hq => ?_
        refine (Nat.coprime_primes hp (hprime q (List.mem_cons_of_mem p hq))).mpr ?_
        rintro rfl
        exact hnotMem hq
      rw [List.prod_cons]
      refine (Nat.modEq_and_modEq_iff_modEq_mul hcop).mp ⟨?_, ?_⟩
      · exact pow_modEq_self_of_prime hp (hm p List.mem_cons_self) h1 x
      · exact ih (fun q hq => hprime q (List.mem_cons_of_mem p hq)) hnodup'
          fun q hq => hm q (List.mem_cons_of_mem p hq)

end Codec
