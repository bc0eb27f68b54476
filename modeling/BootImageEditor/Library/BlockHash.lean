import BootImageEditor.Library.Align
import BootImageEditor.Library.Endian
import Mathlib.Data.List.Basic

/-!
# Hashes over blocks

A message is padded to whole blocks, and a compression function takes in one block after
the other. A context that is fed with pieces keeps the state after the whole blocks so far
and the bytes behind them; nothing depends on where the pieces were cut.
-/

namespace Codec

/-- The multiple behind `n`, by its place. -/
theorem roundUp_eq_of_between {p n k : ℕ} (hlow : k * p < n) (hhigh : n ≤ (k + 1) * p) :
    roundUp p n = (k + 1) * p := by
  have hdiv : (n + (p - 1)) / p = k + 1 := by
    rw [Nat.succ_mul] at hhigh
    apply Nat.div_eq_of_lt_le
    · rw [Nat.succ_mul]
      omega
    · rw [Nat.succ_mul, Nat.succ_mul]
      omega
  rw [roundUp, hdiv]

namespace BlockHash

variable {σ : Type*} (B : ℕ) (compress : σ → Bytes → σ)

/-- The state after `n` blocks of the message. -/
def absorb : ℕ → σ → Bytes → σ
  | 0, s, _ => s
  | n + 1, s, m => absorb n (compress s (m.take B)) (m.drop B)

/-- `n` blocks, and `k` more. -/
theorem absorb_add (n k : ℕ) (s : σ) (m : Bytes) :
    absorb B compress (n + k) s m =
      absorb B compress k (absorb B compress n s m) (m.drop (n * B)) := by
  induction n generalizing s m with
  | zero => simp [absorb]
  | succ n ih =>
      rw [Nat.add_right_comm, absorb, ih, absorb, List.drop_drop, Nat.succ_mul, Nat.add_comm B]

/-- What is behind the blocks does not matter. -/
theorem absorb_append (n : ℕ) (s : σ) (m r : Bytes) (h : n * B ≤ m.length) :
    absorb B compress n s (m ++ r) = absorb B compress n s m := by
  induction n generalizing s m with
  | zero => rfl
  | succ n ih =>
      rw [Nat.succ_mul] at h
      have htake : (m ++ r).take B = m.take B := List.take_append_of_le_length (by omega)
      have hdrop : (m ++ r).drop B = m.drop B ++ r := List.drop_append_of_le_length (by omega)
      rw [absorb, absorb, htake, hdrop, ih _ _ (by rw [List.length_drop]; omega)]

theorem absorb_take (n : ℕ) (s : σ) (m : Bytes) (h : n * B ≤ m.length) :
    absorb B compress n s (m.take (n * B)) = absorb B compress n s m := by
  have hlen : (m.take (n * B)).length = n * B := by
    rw [List.length_take, Nat.min_eq_left h]
  calc absorb B compress n s (m.take (n * B))
      = absorb B compress n s (m.take (n * B) ++ m.drop (n * B)) :=
        (absorb_append B compress n s _ _ (le_of_eq hlen.symm)).symm
    _ = absorb B compress n s m := by rw [List.take_append_drop]

/-- A block is read from the front of what is left. -/
theorem foldl_range_eq_absorb (n : ℕ) (s : σ) (m : Bytes) :
    (List.range n).foldl (fun s i => compress s ((m.drop (i * B)).take B)) s =
      absorb B compress n s m := by
  induction n generalizing s m with
  | zero => rfl
  | succ n ih =>
      have htail : ∀ (l : List ℕ) (s : σ),
          (l.map (· + 1)).foldl (fun s i => compress s ((m.drop (i * B)).take B)) s =
            l.foldl (fun s i => compress s (((m.drop B).drop (i * B)).take B)) s := by
        intro l
        induction l with
        | nil => exact fun _ => rfl
        | cons i l ihl =>
            intro s
            rw [List.map_cons, List.foldl_cons, List.foldl_cons, ihl, List.drop_drop, Nat.succ_mul,
              Nat.add_comm B]
      rw [List.range_succ_eq_map, List.foldl_cons, htail, ih, absorb, Nat.zero_mul, List.drop_zero]

/-- The padding: a bit, zeros, and the number of bits in `w` bytes, of which 64 bits are
kept. -/
def pad (w : ℕ) (m : Bytes) : Bytes :=
  m ++ (0x80 :: List.replicate (gap B (m.length + 1 + w)) 0) ++
    ByteOrder.bigEndian.encode w (8 * m.length % 2 ^ 64)

theorem length_pad (hB : 0 < B) (w : ℕ) (m : Bytes) :
    (pad B w m).length = roundUp B (m.length + 1 + w) := by
  have h := add_gap hB (m.length + 1 + w)
  rw [pad, List.length_append, List.length_append, List.length_cons, List.length_replicate,
    ByteOrder.length_encode]
  omega

/-- The state after the padded message. -/
def digest (w : ℕ) (s : σ) (m : Bytes) : σ :=
  absorb B compress ((pad B w m).length / B) s (pad B w m)

/-- A state, and bytes that do not fill a block, stand for the message `m`. -/
structure Represents (s₀ : σ) (m : Bytes) (s : σ) (rest : Bytes) : Prop where
  state : s = absorb B compress (m.length / B) s₀ m
  rest_eq : rest = m.drop (m.length / B * B)

namespace Represents

variable {B compress}

theorem length_rest {s₀ s : σ} {m rest : Bytes} (h : Represents B compress s₀ m s rest) :
    rest.length = m.length % B := by
  have hdiv := Nat.div_add_mod m.length B
  rw [Nat.mul_comm] at hdiv
  rw [h.rest_eq, List.length_drop]
  omega

/-- Blocks behind the rest are taken in from the rest on. -/
theorem absorb_more {s₀ s : σ} {m rest : Bytes} (h : Represents B compress s₀ m s rest)
    (k : ℕ) (data : Bytes) :
    absorb B compress (m.length / B + k) s₀ (m ++ data) =
      absorb B compress k s (rest ++ data) := by
  have hle := Nat.div_mul_le_self m.length B
  rw [absorb_add, absorb_append _ _ _ _ _ _ hle, ← h.state, List.drop_append_of_le_length hle,
    ← h.rest_eq]

/-- More data that still does not fill a block. -/
theorem append_of_lt {s₀ s : σ} {m rest data : Bytes}
    (h : Represents B compress s₀ m s rest) (hlt : rest.length + data.length < B) :
    Represents B compress s₀ (m ++ data) s (rest ++ data) := by
  have hlen := h.length_rest
  have hdiv := Nat.div_add_mod m.length B
  have hsame : (m ++ data).length / B = m.length / B := by
    rw [List.length_append]
    apply Nat.div_eq_of_lt_le
    · rw [Nat.mul_comm]
      omega
    · rw [Nat.succ_mul, Nat.mul_comm]
      omega
  have hle := Nat.div_mul_le_self m.length B
  refine ⟨?_, ?_⟩
  · rw [hsame, absorb_append _ _ _ _ _ _ hle, h.state]
  · rw [hsame, List.drop_append_of_le_length hle, h.rest_eq]

/-- More data that fills blocks. -/
theorem append_blocks {s₀ s : σ} {m rest data : Bytes} (h : Represents B compress s₀ m s rest)
    (k : ℕ) (hk : k = (rest.length + data.length) / B) (hB : 0 < B) :
    Represents B compress s₀ (m ++ data) (absorb B compress k s (rest ++ data))
      ((rest ++ data).drop (k * B)) := by
  have hlen := h.length_rest
  have hdiv := Nat.div_add_mod m.length B
  have hsum : (m ++ data).length / B = m.length / B + k := by
    have htotal : (m ++ data).length = rest.length + data.length + B * (m.length / B) := by
      rw [List.length_append]
      omega
    rw [htotal, Nat.add_mul_div_left _ _ hB, hk, Nat.add_comm]
  have hle := Nat.div_mul_le_self m.length B
  refine ⟨?_, ?_⟩
  · rw [hsum, h.absorb_more]
  · rw [hsum, Nat.add_mul, ← List.drop_drop, List.drop_append_of_le_length hle, h.rest_eq]

/-- The blocks that the padding leaves. -/
theorem digest_eq (hB : 0 < B) {s₀ s : σ} {m rest : Bytes} (h : Represents B compress s₀ m s rest)
    {w k : ℕ} (hk : k * B = roundUp B (rest.length + 1 + w)) :
    digest B compress w s₀ m = absorb B compress k s
      (rest ++ (0x80 :: List.replicate (k * B - (rest.length + 1 + w)) 0) ++
        ByteOrder.bigEndian.encode w (8 * m.length % 2 ^ 64)) := by
  have hlen := h.length_rest
  have hdiv := Nat.div_add_mod m.length B
  have hmul : B * (m.length / B) % B = 0 := Nat.mul_mod_right B _
  have htotal : m.length + 1 + w = B * (m.length / B) + (rest.length + 1 + w) := by omega
  have hgap : gap B (m.length + 1 + w) = gap B (rest.length + 1 + w) := by
    rw [htotal, gap_add hB hmul]
  have hround : roundUp B (m.length + 1 + w) = (m.length / B + k) * B := by
    have h1 := add_gap hB (m.length + 1 + w)
    have h2 := add_gap hB (rest.length + 1 + w)
    rw [hgap] at h1
    rw [Nat.add_mul, hk, Nat.mul_comm (m.length / B) B]
    omega
  have hzeros : gap B (rest.length + 1 + w) = k * B - (rest.length + 1 + w) := by
    rw [gap, hk]
  rw [digest, length_pad B hB, hround, Nat.mul_div_cancel _ hB, pad, List.append_assoc,
    h.absorb_more, ← List.append_assoc, hgap, hzeros]

end Represents

end BlockHash

end Codec
