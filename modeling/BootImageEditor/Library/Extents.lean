import Mathlib.Algebra.Order.Ring.Nat
import Mathlib.Data.List.Basic
import Mathlib.Tactic.Common

/-!
# Extents

Pieces that cover ranges of positions, each with a value for every position of its range. A
list of pieces stands for the partial function that they make together. As long as no two
pieces overlap, it does not matter where in the list a piece is put.
-/

namespace Codec

/-- What a piece covers, and with what. -/
structure Extents (α β : Type*) where
  lo : α → ℕ
  hi : α → ℕ
  cell : α → ℕ → Option β
  covers : ∀ a i, (cell a i).isSome = true ↔ lo a ≤ i ∧ i < hi a

namespace Extents

variable {α β : Type*} (E : Extents α β)

/-- The value at a position. -/
def read (l : List α) (i : ℕ) : Option β := l.findSome? (E.cell · i)

/-- One piece after the other. -/
def Ordered (l : List α) : Prop := l.Pairwise fun a b => E.hi a ≤ E.lo b

/-- No position is covered twice. -/
def Apart (a b : α) : Prop := E.hi a ≤ E.lo b ∨ E.hi b ≤ E.lo a

variable {E}

theorem cell_eq_none_iff {a : α} {i : ℕ} : E.cell a i = none ↔ ¬ (E.lo a ≤ i ∧ i < E.hi a) := by
  rw [← E.covers, Option.not_isSome_iff_eq_none]

theorem read_nil (i : ℕ) : E.read [] i = none := rfl

theorem read_cons (a : α) (l : List α) (i : ℕ) :
    E.read (a :: l) i = (E.cell a i).or (E.read l i) := by
  rw [read, List.findSome?_cons]
  cases E.cell a i <;> rfl

theorem read_append (l r : List α) (i : ℕ) : E.read (l ++ r) i = (E.read l i).or (E.read r i) :=
  List.findSome?_append

theorem read_eq_none_iff {l : List α} {i : ℕ} :
    E.read l i = none ↔ ∀ a ∈ l, ¬ (E.lo a ≤ i ∧ i < E.hi a) := by
  rw [read, List.findSome?_eq_none_iff]
  simp only [cell_eq_none_iff]

theorem cell_or_of_apart {a b : α} (h : E.Apart a b) (i : ℕ) :
    E.cell a i = none ∨ E.cell b i = none := by
  rw [cell_eq_none_iff, cell_eq_none_iff]
  rcases h with h | h <;> omega

/-- Of two parts of which one is silent, either may come first. -/
theorem or_comm_of_none {x y : Option β} (h : x = none ∨ y = none) : x.or y = y.or x := by
  rcases h with rfl | rfl <;> cases ‹Option β› <;> rfl

theorem read_flatten (ls : List (List α)) (i : ℕ) :
    E.read ls.flatten i = (ls.map E.read).findSome? (· i) := by
  induction ls with
  | nil => rfl
  | cons l ls ih =>
      rw [List.flatten_cons, read_append, ih, List.map_cons, List.findSome?_cons]
      cases E.read l i <;> rfl

/-- Of two lists of which one lies behind the other, one is silent. -/
theorem read_or_of_le {l r : List α} (h : ∀ a ∈ l, ∀ b ∈ r, E.hi a ≤ E.lo b) (i : ℕ) :
    E.read l i = none ∨ E.read r i = none := by
  rw [or_iff_not_imp_left]
  intro hl
  simp only [read_eq_none_iff, not_forall, not_not] at hl
  obtain ⟨a, ha, hin⟩ := hl
  rw [read_eq_none_iff]
  intro b hb hr
  have hab := h a ha b hb
  omega

/-- Pieces that do not cover anything of each other's lie one behind the other. -/
theorem apart_of_read {l : List α} {x a : α} (ha : a ∈ l) (hne : E.lo a < E.hi a)
    (hx : E.lo x < E.hi x) (h : ∀ i, E.lo x ≤ i → i < E.hi x → E.read l i = none) :
    E.Apart a x := by
  unfold Apart
  by_contra hover
  rw [not_or] at hover
  have hfree := h (max (E.lo a) (E.lo x)) (le_max_right _ _) (max_lt (by omega) hx)
  rw [read_eq_none_iff] at hfree
  exact hfree a ha ⟨le_max_left _ _, max_lt hne (by omega)⟩

/-- A piece in front of the first one is in front of all. -/
theorem Ordered.cons {a b : α} {l : List α} (h : E.Ordered (b :: l)) (hne : E.lo b ≤ E.hi b)
    (hab : E.hi a ≤ E.lo b) : E.Ordered (a :: b :: l) := by
  refine List.pairwise_cons.mpr ⟨?_, h⟩
  intro x hx
  rcases List.mem_cons.mp hx with rfl | hx
  · exact hab
  · have hbx := (List.pairwise_cons.mp h).1 x hx
    omega

/-- A piece of which the others do not see more than the end. -/
theorem Ordered.replace {a b : α} {l : List α} (h : E.Ordered (a :: l)) (hab : E.hi b = E.hi a) :
    E.Ordered (b :: l) := by
  obtain ⟨hhead, htail⟩ := List.pairwise_cons.mp h
  exact List.pairwise_cons.mpr ⟨fun x hx => hab ▸ hhead x hx, htail⟩

/-- Bounds of what is covered are bounds of the pieces. -/
theorem lo_ge_of_read {l : List α} {n : ℕ} (hne : ∀ a ∈ l, E.lo a < E.hi a)
    (h : ∀ i, i < n → E.read l i = none) {a : α} (ha : a ∈ l) : n ≤ E.lo a := by
  by_contra hlt
  have hnone := h (E.lo a) (by omega)
  rw [read_eq_none_iff] at hnone
  exact hnone a ha ⟨le_rfl, hne a ha⟩

end Extents

end Codec
