import BootImageEditor.Bootimg.Packer
import Mathlib.Order.Bounds.Basic

/-!
# Padding

How far a position is from the next page is computed in five places, by masks, by remainders,
on signed and on unsigned words. For page sizes that are powers of two they agree, also where
the rounded position does not fit in its word.
-/

namespace BootImageEditor

open Codec Fallible Helper

namespace Bootimg

/-- With `r` bytes behind it the position `x` is at the next page. -/
structure IsPadding (p x r : ℕ) : Prop where
  lt : r < p
  least : IsLeast {m | x ≤ m ∧ p ∣ m} (x + r)

theorem isPadding_gap {p : ℕ} (hp : 0 < p) (x : ℕ) : IsPadding p x (gap p x) := by
  have hsum := add_gap hp x
  refine ⟨gap_lt hp x, ⟨?_, ?_⟩⟩
  · exact ⟨Nat.le_add_right x _, hsum ▸ dvd_roundUp p x⟩
  · intro m hm
    rw [hsum]
    exact roundUp_le hp hm.1 (Nat.mod_eq_zero_of_dvd hm.2)

section

variable {page : UInt32} {k : ℕ} (hpage : page.toNat = 2 ^ k)

include hpage

/-- The rounded position may wrap, and the difference is the same. -/
theorem toNat_roundToMultiple_sub (x : UInt32) :
    (roundToMultiple x page - x).toNat = gap page.toNat x.toNat := by
  have hpos := BootImgInfo.page_pos hpage
  have hle := le_roundUp hpos x.toNat
  have hlt := gap_lt hpos x.toNat
  have hgap : gap page.toNat x.toNat = roundUp page.toNat x.toNat - x.toNat := rfl
  have hround := roundToMultiple_ofNat hpos x.toNat_lt page.toNat_lt
  have hsub : roundToMultiple x page - x = UInt32.ofNat (gap page.toNat x.toNat) := by
    rw [UInt32.ofNat_toNat, UInt32.ofNat_toNat] at hround
    rw [hround, hgap, UInt32.ofNat_sub hle, UInt32.ofNat_toNat]
  have hpageLt := page.toNat_lt
  rw [hsub, UInt32.toNat_ofNat_of_lt' (by simp only [UInt32.size]; omega)]

theorem toInt_roundToMultipleLong_sub (hk : k < 31) (x : UInt32) :
    (roundToMultipleLong (Int64.ofNat x.toNat) page.toInt32 - Int64.ofNat x.toNat).toInt =
      gap page.toNat x.toNat := by
  have hpos := BootImgInfo.page_pos hpage
  have hle := BootImgInfo.page_le hpage hk
  have hx := x.toNat_lt
  have hgap : gap page.toNat x.toNat = roundUp page.toNat x.toNat - x.toNat := rfl
  have hlt := gap_lt hpos x.toNat
  have hint : page.toInt32 = Int32.ofNat page.toNat := by
    rw [← UInt32.toInt32_ofNat', UInt32.ofNat_toNat]
  have hround := roundToMultipleLong_ofNat hpos (n := x.toNat) (by omega)
    (by unfold intMax; omega : page.toNat ≤ intMax)
  rw [hint, hround, ← Int64.ofNat_sub _ _ (le_roundUp hpos x.toNat), ← hgap,
    Int64.toInt_ofNat_of_lt (by omega)]

theorem paddingWith_page (hk : k < 31) (vm : Jvm) {data : Bytes} (hdata : data.length ≤ intMax)
    (paddingHead : Bool) :
    paddingWith vm data page paddingHead =
      if data.length + gap page.toNat data.length ≤ intMax then
        .ok (if paddingHead then zeros (gap page.toNat data.length) ++ data
          else data ++ zeros (gap page.toNat data.length))
      else .error .outOfMemory := by
  have hle := BootImgInfo.page_le hpage hk
  have hpos := BootImgInfo.page_pos hpage
  have heq := @paddingWith_eq vm data page.toNat hpos (by unfold intMax; omega) hdata paddingHead
  rw [UInt32.ofNat_toNat] at heq
  rw [heq]
  cases paddingHead with
  | false => simp [join]
  | true => simp [join, Nat.add_comm]

end

/-- The padding of a position is the same wherever it is computed, and it leads to the next
multiple of the page size; `paddingWith` puts it behind or before the data. -/
theorem padding_agrees (page : UInt32) (k : ℕ) (hpage : page.toNat = 2 ^ k) (hk : k < 31) :
    (∀ x : UInt32, ∃ r, IsPadding page.toNat x.toNat r ∧
      (BootImgInfo.getPaddingSize x page).toNat = r ∧
      (roundToMultiple x page - x).toNat = r ∧
      (x.toNat < 2 ^ 31 →
        (BootImgInfo.getPaddingSizeInt x.toInt32 page.toInt32).toInt = r ∧
        (roundToMultipleLong (Int64.ofNat x.toNat) page.toInt32 - Int64.ofNat x.toNat).toInt = r ∧
        ∀ bf : ByteBuffer, bf.content.length = x.toNat →
          Packer.padFile bf page.toInt32 = bf.put (zeros r))) ∧
    ∀ (vm : Jvm) (data : Bytes) (paddingHead : Bool), data.length ≤ intMax →
      ∃ r, IsPadding page.toNat data.length r ∧
        paddingWith vm data page paddingHead =
          if data.length + r ≤ intMax then
            .ok (if paddingHead then zeros r ++ data else data ++ zeros r)
          else .error .outOfMemory := by
  have hpos := BootImgInfo.page_pos hpage
  constructor
  · intro x
    refine ⟨gap page.toNat x.toNat, isPadding_gap hpos x.toNat,
      BootImgInfo.toNat_getPaddingSize hpage x, toNat_roundToMultiple_sub hpage x, ?_⟩
    intro _
    refine ⟨BootImgInfo.toInt_getPaddingSizeInt hpage hk x,
      toInt_roundToMultipleLong_sub hpage hk x, ?_⟩
    intro bf hbf
    rw [Packer.padFile_eq_put hpage hk bf (hbf ▸ x.toNat_lt), hbf]
  · intro vm data paddingHead hdata
    exact ⟨gap page.toNat data.length, isPadding_gap hpos data.length,
      paddingWith_page hpage hk vm hdata paddingHead⟩

theorem padding_agrees_pages :
    (∀ x : UInt32, ∃ r, IsPadding 2048 x.toNat r ∧
      (BootImgInfo.getPaddingSize x 2048).toNat = r ∧
      (roundToMultiple x 2048 - x).toNat = r ∧
      (x.toNat < 2 ^ 31 →
        (BootImgInfo.getPaddingSizeInt x.toInt32 2048).toInt = r ∧
        (roundToMultipleLong (Int64.ofNat x.toNat) 2048 - Int64.ofNat x.toNat).toInt = r ∧
        ∀ bf : ByteBuffer, bf.content.length = x.toNat →
          Packer.padFile bf 2048 = bf.put (zeros r))) ∧
    ∀ (vm : Jvm) (data : Bytes) (paddingHead : Bool), data.length ≤ intMax →
      ∃ r, IsPadding 2048 data.length r ∧
        paddingWith vm data 2048 paddingHead =
          if data.length + r ≤ intMax then
            .ok (if paddingHead then zeros r ++ data else data ++ zeros r)
          else .error .outOfMemory :=
  padding_agrees 2048 11 rfl (by norm_num)

end Bootimg

end BootImageEditor
