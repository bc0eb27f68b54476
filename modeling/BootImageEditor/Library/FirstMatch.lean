import Mathlib.Data.List.Perm.Basic

/-!
# The first hit of a search

A search goes through a list round after round, with a partial function for each round, and
stops at the first element where the function of the round is defined. What it finds depends
on the order of the list, unless the hits of the deciding round are all the same.
-/

namespace Codec

variable {α β : Type*}

/-- The first hit of the first round that has one. -/
def firstMatch (rounds : List (α → Option β)) (l : List α) : Option β :=
  rounds.findSome? fun f => l.findSome? f

@[simp] theorem firstMatch_nil (l : List α) : firstMatch ([] : List (α → Option β)) l = none := rfl

theorem firstMatch_cons (f : α → Option β) (rounds : List (α → Option β)) (l : List α) :
    firstMatch (f :: rounds) l = (l.findSome? f).or (firstMatch rounds l) := by
  unfold firstMatch
  rw [List.findSome?_cons]
  cases l.findSome? f with
  | none => rfl
  | some b => rfl

/-- The search finds the same in every order of the list. -/
def OrderFree (rounds : List (α → Option β)) (l : List α) : Prop :=
  ∀ l₁ l₂, l₁.Perm l → l₂.Perm l → firstMatch rounds l₁ = firstMatch rounds l₂

/-- The hits of a round. -/
def AllSame (bs : List β) : Prop := ∀ b ∈ bs, ∀ b' ∈ bs, b = b'

/-- The round that decides has one hit, or the same one several times. -/
def Decided : List (α → Option β) → List α → Prop
  | [], _ => True
  | f :: rounds, l => AllSame (l.filterMap f) ∧ (l.filterMap f = [] → Decided rounds l)

/-! ## One round -/

theorem findSome?_eq_of_allSame {f : α → Option β} {l l' : List α} (hperm : l'.Perm l)
    (h : AllSame (l.filterMap f)) : l'.findSome? f = l.findSome? f := by
  have hhits := hperm.filterMap f
  rw [← List.head?_filterMap, ← List.head?_filterMap]
  cases hl' : l'.filterMap f with
  | nil =>
      rw [hl', List.nil_perm] at hhits
      rw [hhits]
  | cons b' bs' =>
      cases hl : l.filterMap f with
      | nil =>
          rw [hl', hl] at hhits
          cases hhits.length_eq
      | cons b bs =>
          have hmem : b' ∈ l.filterMap f := by
            rw [← hhits.mem_iff, hl']
            exact List.mem_cons_self
          have hmem' : b ∈ l.filterMap f := by
            rw [hl]
            exact List.mem_cons_self
          rw [List.head?_cons, List.head?_cons, h b' hmem b hmem']

/-- Every hit is found first in some order. -/
theorem exists_perm_findSome? {f : α → Option β} {l : List α} {b : β}
    (h : b ∈ l.filterMap f) : ∃ l' : List α, l'.Perm l ∧ l'.findSome? f = some b := by
  obtain ⟨a, ha, hb⟩ := List.mem_filterMap.mp h
  obtain ⟨before, after, rfl⟩ := List.append_of_mem ha
  refine ⟨a :: (before ++ after), List.perm_middle.symm, ?_⟩
  rw [List.findSome?_cons, hb]

/-- Without a hit the round is passed over, in every order. -/
theorem findSome?_eq_none_of_perm {f : α → Option β} {l l' : List α} (hperm : l'.Perm l)
    (h : l.filterMap f = []) : l'.findSome? f = none := by
  have hhits := hperm.filterMap f
  rw [h, List.perm_nil] at hhits
  rw [← List.head?_filterMap, hhits]
  rfl

/-! ## All rounds -/

theorem orderFree_iff (rounds : List (α → Option β)) (l : List α) :
    OrderFree rounds l ↔ Decided rounds l := by
  induction rounds with
  | nil =>
      refine iff_of_true ?_ trivial
      intro l₁ l₂ _ _
      rfl
  | cons f rounds ih =>
      by_cases hnone : l.filterMap f = []
      · have hsame : AllSame (l.filterMap f) := by
          rw [hnone]
          intro b hb
          cases hb
        have hrest : OrderFree (f :: rounds) l ↔ OrderFree rounds l := by
          have hpass : ∀ l', l'.Perm l → firstMatch (f :: rounds) l' = firstMatch rounds l' := by
            intro l' hperm
            rw [firstMatch_cons, findSome?_eq_none_of_perm hperm hnone, Option.none_or]
          constructor
          · intro h l₁ l₂ h₁ h₂
            rw [← hpass l₁ h₁, ← hpass l₂ h₂]
            exact h l₁ l₂ h₁ h₂
          · intro h l₁ l₂ h₁ h₂
            rw [hpass l₁ h₁, hpass l₂ h₂]
            exact h l₁ l₂ h₁ h₂
        rw [hrest, ih]
        exact ⟨fun h => ⟨hsame, fun _ => h⟩, fun h => h.2 hnone⟩
      · constructor
        · intro h
          refine ⟨?_, fun hnil => absurd hnil hnone⟩
          intro b hb b' hb'
          obtain ⟨l₁, h₁, hfirst₁⟩ := exists_perm_findSome? hb
          obtain ⟨l₂, h₂, hfirst₂⟩ := exists_perm_findSome? hb'
          have heq := h l₁ l₂ h₁ h₂
          rw [firstMatch_cons, firstMatch_cons, hfirst₁, hfirst₂, Option.some_or,
            Option.some_or] at heq
          exact Option.some.inj heq
        · intro h l₁ l₂ h₁ h₂
          have hsome : ∃ b, l.findSome? f = some b := by
            rw [← List.head?_filterMap]
            exact Option.isSome_iff_exists.mp (List.isSome_head?.mpr hnone)
          obtain ⟨b, hb⟩ := hsome
          rw [firstMatch_cons, firstMatch_cons, findSome?_eq_of_allSame h₁ h.1,
            findSome?_eq_of_allSame h₂ h.1, hb, Option.some_or, Option.some_or]

/-! ## Hits that name their element -/

theorem length_le_one_iff_allSame {l : List α} (hnodup : l.Nodup) : l.length ≤ 1 ↔ AllSame l := by
  match l, hnodup with
  | [], _ => exact iff_of_true (Nat.zero_le 1) fun a ha => absurd ha List.not_mem_nil
  | [c], _ =>
      refine iff_of_true (Nat.le_refl 1) ?_
      intro a ha b hb
      rw [List.mem_singleton.mp ha, List.mem_singleton.mp hb]
  | a :: b :: l, hnodup =>
      refine iff_of_false (by simp) ?_
      intro hsame
      have hab : a = b := hsame a List.mem_cons_self b (List.mem_cons_of_mem a List.mem_cons_self)
      exact (List.nodup_cons.mp hnodup).1 (hab ▸ List.mem_cons_self)

theorem mem_named_iff {g : α → Option β} {l : List α} {a : α} {b : β} :
    (a, b) ∈ l.filterMap (fun a => (g a).map (a, ·)) ↔ a ∈ l ∧ g a = some b := by
  rw [List.mem_filterMap]
  constructor
  · rintro ⟨a', ha', h⟩
    obtain ⟨b', hb', heq⟩ := Option.map_eq_some_iff.mp h
    obtain ⟨rfl, rfl⟩ := Prod.mk.inj heq
    exact ⟨ha', hb'⟩
  · rintro ⟨ha, hb⟩
    exact ⟨a, ha, by rw [hb]; rfl⟩

/-- In a list without repetitions the hits that name their element are the same only where
there is at most one. -/
theorem allSame_named_iff {g : α → Option β} {l : List α} (hnodup : l.Nodup) :
    AllSame (l.filterMap fun a => (g a).map (a, ·)) ↔
      (l.filter fun a => (g a).isSome).length ≤ 1 := by
  rw [length_le_one_iff_allSame (hnodup.filter _)]
  constructor
  · intro h a ha a' ha'
    obtain ⟨hal, hsome⟩ := List.mem_filter.mp ha
    obtain ⟨hal', hsome'⟩ := List.mem_filter.mp ha'
    obtain ⟨b, hb⟩ := Option.isSome_iff_exists.mp hsome
    obtain ⟨b', hb'⟩ := Option.isSome_iff_exists.mp hsome'
    have heq := h (a, b) (mem_named_iff.mpr ⟨hal, hb⟩) (a', b') (mem_named_iff.mpr ⟨hal', hb'⟩)
    exact (Prod.mk.inj heq).1
  · rintro h ⟨a, b⟩ hab ⟨a', b'⟩ hab'
    obtain ⟨hal, hb⟩ := mem_named_iff.mp hab
    obtain ⟨hal', hb'⟩ := mem_named_iff.mp hab'
    have haa' : a = a' := h a (List.mem_filter.mpr ⟨hal, by rw [hb]; rfl⟩) a'
      (List.mem_filter.mpr ⟨hal', by rw [hb']; rfl⟩)
    rw [haa'] at hb ⊢
    rw [Option.some.inj (hb.symm.trans hb')]

end Codec
