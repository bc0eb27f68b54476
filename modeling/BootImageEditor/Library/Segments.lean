import Mathlib.Algebra.Order.Ring.Nat
import Mathlib.Data.List.Basic
import Mathlib.Data.List.Forall2
import Mathlib.Tactic.Common

/-!
# Segments of a list

A record is a concatenation of fields, and a reader takes a field out of it by its
offset and its length: `slice offset count`. Fields of equal lengths can be
compared one by one.
-/

namespace Codec

variable {α : Type*}

/-- The `count` elements from `offset` on. -/
def slice (offset count : ℕ) (l : List α) : List α := (l.drop offset).take count

theorem length_slice {offset count : ℕ} {l : List α} (h : offset + count ≤ l.length) :
    (slice offset count l).length = count := by
  rw [slice, List.length_take, List.length_drop]
  omega

/-- Taking a segment out of the middle. -/
theorem slice_middle {offset count : ℕ} (a b c : List α) (ha : a.length = offset)
    (hb : b.length = count) : slice offset count (a ++ (b ++ c)) = b := by
  rw [slice, List.drop_left' ha, List.take_left' hb]

theorem slice_zero {count : ℕ} (a b : List α) (ha : a.length = count) :
    slice 0 count (a ++ b) = a := by
  rw [slice, List.drop_zero, List.take_left' ha]

/-- A segment behind the first part is a segment of the rest. -/
theorem slice_append_right {a : List α} {offset : ℕ} (h : a.length ≤ offset) (count : ℕ)
    (b : List α) : slice offset count (a ++ b) = slice (offset - a.length) count b := by
  obtain ⟨k, rfl⟩ := Nat.exists_eq_add_of_le h
  rw [slice, List.drop_length_add_append, Nat.add_sub_cancel_left, slice]

/-- A segment of the first part. -/
theorem slice_append_left {a : List α} {offset count : ℕ} (h : offset + count ≤ a.length)
    (b : List α) : slice offset count (a ++ b) = slice offset count a := by
  rw [slice, List.drop_append_of_le_length (by omega), List.take_append_of_le_length, slice]
  rw [List.length_drop]
  omega

/-- The `i`-th field of a record, at the sum of the lengths before it. -/
theorem slice_flatten {fields : List (List α)} {i : ℕ} {field : List α}
    (h : fields[i]? = some field) (r : List α) :
    slice ((fields.take i).map List.length).sum field.length (fields.flatten ++ r) = field := by
  induction fields generalizing i with
  | nil => simp at h
  | cons f fields ih =>
      cases i with
      | zero =>
          simp only [List.getElem?_cons_zero, Option.some.injEq] at h
          rw [← h, List.flatten_cons, List.append_assoc]
          exact slice_zero f _ rfl
      | succ i =>
          rw [List.getElem?_cons_succ] at h
          rw [List.take_succ_cons, List.map_cons, List.sum_cons, List.flatten_cons,
            List.append_assoc, slice_append_right (by omega), Nat.add_sub_cancel_left]
          exact ih h

theorem flatten_inj {xs ys : List (List α)}
    (hlen : List.Forall₂ (fun x y => x.length = y.length) xs ys) (h : xs.flatten = ys.flatten) :
    xs = ys := by
  induction hlen with
  | nil => rfl
  | cons hxy _ ih =>
      rw [List.flatten_cons, List.flatten_cons] at h
      obtain ⟨hhead, htail⟩ := List.append_inj h hxy
      rw [hhead, ih htail]

/-- A run that is shifted by two elements passes the shift on to what follows it. -/
theorem shift_append {P : α → Prop} {T A B : List α} {p q : α} (hp : P p) (hq : P q)
    (h : T ++ A = p :: q :: (T ++ B)) : ∃ p' q', P p' ∧ P q' ∧ A = p' :: q' :: B := by
  induction T generalizing p q with
  | nil => exact ⟨p, q, hp, hq, h⟩
  | cons t T ih =>
      rw [List.cons_append, List.cons_append, List.cons.injEq] at h
      obtain ⟨rfl, h⟩ := h
      exact ih hq hp h

end Codec
