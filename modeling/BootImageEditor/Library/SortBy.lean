import Mathlib.Data.List.Sort

/-!
# Stable sorting by a key

`sortBy key l` orders a list by a key and keeps the order of equal keys. The
list that results is the only ordered rearrangement when the keys are distinct,
and sorting commutes with selecting elements.
-/

namespace Codec

variable {α κ : Type*} [LinearOrder κ]

def sortBy (key : α → κ) (l : List α) : List α :=
  l.insertionSort (fun a b => key a ≤ key b)

theorem perm_sortBy (key : α → κ) (l : List α) : (sortBy key l).Perm l :=
  List.perm_insertionSort _ l

theorem mem_sortBy {key : α → κ} {l : List α} {a : α} : a ∈ sortBy key l ↔ a ∈ l :=
  (perm_sortBy key l).mem_iff

theorem pairwise_sortBy (key : α → κ) (l : List α) :
    (sortBy key l).Pairwise (fun a b => key a ≤ key b) := by
  have : Std.Total (fun a b : α => key a ≤ key b) := ⟨fun a b => le_total (key a) (key b)⟩
  have : IsTrans α (fun a b => key a ≤ key b) := ⟨fun _ _ _ hab hbc => hab.trans hbc⟩
  exact List.pairwise_insertionSort _ l

/-- A list with increasing keys is what every rearrangement of it is sorted to. -/
theorem sortBy_eq_of_perm {key : α → κ} {l l' : List α} (hperm : l'.Perm l)
    (h : l.Pairwise (fun a b => key a < key b)) : sortBy key l' = l := by
  have hnodup : (l.map key).Nodup := List.pairwise_map.mpr (h.imp ne_of_lt)
  have hantisymm : ∀ a b, a ∈ sortBy key l' → b ∈ l → key a ≤ key b → key b ≤ key a → a = b := by
    intro a b ha hb hab hba
    exact List.inj_on_of_nodup_map hnodup (hperm.mem_iff.mp (mem_sortBy.mp ha)) hb
      (le_antisymm hab hba)
  exact List.Perm.eq_of_pairwise hantisymm (pairwise_sortBy key l') (h.imp le_of_lt)
    ((perm_sortBy key l').trans hperm)

theorem orderedInsert_of_forall_le {key : α → κ} {a : α} {l : List α}
    (h : ∀ b ∈ l, key a ≤ key b) :
    l.orderedInsert (fun a b => key a ≤ key b) a = a :: l := by
  cases l with
  | nil => rfl
  | cons b l => exact List.orderedInsert_cons_of_le _ _ (h b (by simp))

theorem filter_orderedInsert (p : α → Bool) {key : α → κ} (a : α) {l : List α}
    (h : l.Pairwise (fun a b => key a ≤ key b)) :
    (l.orderedInsert (fun a b => key a ≤ key b) a).filter p =
      if p a then (l.filter p).orderedInsert (fun a b => key a ≤ key b) a
      else l.filter p := by
  induction l with
  | nil => by_cases hp : p a <;> simp [hp]
  | cons b l ih =>
      obtain ⟨hb, hl⟩ := List.pairwise_cons.mp h
      by_cases hab : key a ≤ key b
      · -- everything from `b` on is at least `a`, so `a` goes to the front
        have hall : ∀ c ∈ (b :: l).filter p, key a ≤ key c := by
          intro c hc
          rcases List.mem_cons.mp (List.mem_of_mem_filter hc) with rfl | hc
          · exact hab
          · exact hab.trans (hb c hc)
        rw [List.orderedInsert_cons_of_le (fun a b => key a ≤ key b) l hab,
          orderedInsert_of_forall_le hall, List.filter_cons]
      · rw [List.orderedInsert_of_not_le (fun a b => key a ≤ key b) l hab, List.filter_cons, ih hl,
          List.filter_cons]
        by_cases hpa : p a <;> by_cases hpb : p b <;> simp [hpa, hpb, hab]

/-- Selecting from the sorted list is sorting the selected elements. -/
theorem filter_sortBy (p : α → Bool) (key : α → κ) (l : List α) :
    (sortBy key l).filter p = sortBy key (l.filter p) := by
  induction l with
  | nil => rfl
  | cons a l ih =>
      have hcons : sortBy key (a :: l) =
          (sortBy key l).orderedInsert (fun a b => key a ≤ key b) a := rfl
      rw [hcons, filter_orderedInsert p a (pairwise_sortBy key l), ih, List.filter_cons]
      by_cases hpa : p a
      · simp only [hpa, if_true]
        rfl
      · simp [hpa]

/-- Exchanging an element for one with the same key keeps its position. -/
theorem sortBy_exchange {key : α → κ} {l l' rest before after : List α} {a b : α}
    (hl : l.Perm (a :: rest)) (hl' : l'.Perm (b :: rest)) (hkey : key a = key b)
    (hdistinct : (l.map key).Nodup) (hsorted : sortBy key l = before ++ a :: after) :
    sortBy key l' = before ++ b :: after := by
  have hperm : (before ++ a :: after).Perm (a :: rest) := hsorted ▸ (perm_sortBy key l).trans hl
  have hrest : (before ++ after).Perm rest := List.Perm.cons_inv (List.perm_middle.symm.trans hperm)
  have hkeys : (before ++ b :: after).map key = (sortBy key l).map key := by
    rw [hsorted]
    simp [hkey]
  have hnodup : ((sortBy key l).map key).Nodup :=
    (List.Perm.nodup_iff ((perm_sortBy key l).map key)).mpr hdistinct
  have hle : ((sortBy key l).map key).Pairwise (· ≤ ·) :=
    List.pairwise_map.mpr (pairwise_sortBy key l)
  have hlt : ((sortBy key l).map key).Pairwise (· < ·) :=
    (hle.and hnodup).imp (fun h => lt_of_le_of_ne h.1 h.2)
  refine sortBy_eq_of_perm ?_ (List.pairwise_map.mp (hkeys ▸ hlt))
  exact (hl'.trans (hrest.symm.cons b)).trans List.perm_middle.symm

end Codec
