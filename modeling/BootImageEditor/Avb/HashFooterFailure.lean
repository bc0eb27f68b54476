import BootImageEditor.Avb.HashFooterImage

/-!
# When adding a hash footer fails

`addHashFooter` trims the file before it knows whether the rest goes through, and writes
before it knows whether the vbmeta leaves room. This module says after which inputs a failing
run has left the file as it was.
-/

namespace BootImageEditor

open Codec Fallible Struct3 Helper

namespace Avb

/-- Appending leaves `image` when it fails: there is room for the vbmeta and the lengths
add up, or the bytes written by then are `image` again. -/
structure AppendKeeps {vm : Jvm} {crypto : Crypto} {partitionName : KString} {info : AVBInfo}
    {trimmedImage : Bytes} (partitionSize : Int64) (image : Bytes)
    (q : Prepared vm crypto partitionName info trimmedImage) : Prop where
  room : q.dontCare partitionSize < 0 → q.withVbmeta = image
  length : 0 ≤ q.dontCare partitionSize → vm.assertionsEnabled = true →
    partitionSize ≠ fileLength (q.withFooter partitionSize) → q.withFooter partitionSize = image

/-! ## Steps -/

theorem failsIn_write_bind_iff {α : Type} {bytes s t : Bytes} {f : PUnit → FileOp α} :
    (write bytes >>= f).FailsIn s t ↔ (f ⟨⟩).FailsIn (s ++ bytes) t := Iff.rfl

theorem returns_assert_iff {vm : Jvm} {p : Prop} [Decidable p] :
    Returns (vm.assert p) ↔ (vm.assertionsEnabled = true → p) := by
  constructor
  · rintro ⟨u, h⟩
    exact assert_eq_ok_iff.mp h
  · intro h
    exact ⟨(), assert_eq_ok_iff.mpr h⟩

/-- The writes do not fail: the size of the zeros and the closing assertion decide. -/
theorem failsIn_appendHashFooter_iff {vm : Jvm} {crypto : Crypto} {partitionName : KString}
    {info : AVBInfo} {partitionSize : Int64} {I image : Bytes}
    (q : Prepared vm crypto partitionName info I) :
    (appendHashFooter vm partitionSize (placed partitionSize I q.packed q.footer)).FailsIn
      I image ↔ AppendKeeps partitionSize image q := by
  have himg : byteArray (placed partitionSize I q.packed q.footer).imgPaddingNeeded.toInt32 =
      .ok (zeros (gap 4096 I.length)) := byteArray_imgPadding I
  have hcare : (placed partitionSize I q.packed q.footer).dontCareChunkSize.toInt32.toInt =
      q.dontCare partitionSize := rfl
  rw [appendHashFooter, himg, Durable.failsIn_lift_ok_bind_iff, failsIn_write_bind_iff,
    failsIn_write_bind_iff]
  by_cases hneg : q.dontCare partitionSize < 0
  · have hfail : byteArray (placed partitionSize I q.packed q.footer).dontCareChunkSize.toInt32 =
        .error .negativeArraySize := by
      rw [byteArray, hcare, if_pos hneg]
    rw [hfail, Durable.failsIn_lift_error_bind_iff]
    constructor
    · intro h
      exact ⟨fun _ => h, fun hpos => absurd hneg (by omega)⟩
    · intro h
      exact h.room hneg
  · have hzeros : byteArray
        (placed partitionSize I q.packed q.footer).dontCareChunkSize.toInt32 =
          .ok (zeros (q.dontCare partitionSize).toNat) :=
      byteArray_eq_ok_iff.mpr ⟨by omega, rfl⟩
    rw [hzeros, Durable.failsIn_lift_ok_bind_iff, failsIn_write_bind_iff,
      failsIn_write_bind_iff, Durable.failsIn_get_bind_iff, Durable.failsIn_lift_iff,
      returns_assert_iff]
    constructor
    · intro h
      refine ⟨fun hlt => absurd hlt hneg, ?_⟩
      intro _ hvm hne
      exact h.resolve_left fun hassert => hne (hassert hvm)
    · intro h
      by_cases hassert : vm.assertionsEnabled = true →
          partitionSize = fileLength (q.withFooter partitionSize)
      · exact .inl hassert
      · rw [Classical.not_imp] at hassert
        exact .inr (h.length (by omega) hassert.1 hassert.2)

/-- Only the steps after trimming can leave another file. -/
theorem failsIn_addHashFooter_iff {vm : Jvm} {crypto : Crypto} {partitionSize : Int64}
    {partitionName : KString} {info : AVBInfo} {image : Bytes} :
    (addHashFooter vm crypto partitionSize partitionName info).FailsIn image image ↔
      ∀ I, imageSizeCheck partitionSize image = .ok () → trimmed vm image = .ok I →
        (Returns (hashFooter vm crypto partitionSize partitionName info I) ∨ I = image) ∧
        ∀ hf, hashFooter vm crypto partitionSize partitionName info I = .ok hf →
          (appendHashFooter vm partitionSize hf).FailsIn I image := by
  rw [addHashFooter, Durable.failsIn_get_bind_iff]
  constructor
  · intro h I hcheck htrimmed
    have hafterCheck := (Durable.failsIn_bind_iff.mp h).2 () image
      (Durable.run_lift_eq_ok.mpr ⟨hcheck, rfl⟩)
    have hafterTrim := (Durable.failsIn_bind_iff.mp hafterCheck).2 ⟨⟩ I
      (Durable.run_update_eq_ok.mpr htrimmed)
    rw [Durable.failsIn_get_bind_iff, Durable.failsIn_bind_iff, Durable.failsIn_lift_iff]
      at hafterTrim
    refine ⟨hafterTrim.1, ?_⟩
    intro hf hhf
    exact (Durable.failsIn_bind_iff.mp
      (hafterTrim.2 hf I (Durable.run_lift_eq_ok.mpr ⟨hhf, rfl⟩))).1
  · intro h
    refine Durable.failsIn_bind_iff.mpr ⟨Durable.failsIn_lift_iff.mpr (.inr rfl), ?_⟩
    intro u s hrun
    obtain ⟨hcheck, rfl⟩ := Durable.run_lift_eq_ok.mp hrun
    refine Durable.failsIn_bind_iff.mpr ⟨Durable.failsIn_update _ _, ?_⟩
    intro u' I hrun'
    obtain ⟨hreturns, happend⟩ := h I hcheck (Durable.run_update_eq_ok.mp hrun')
    rw [Durable.failsIn_get_bind_iff]
    refine Durable.failsIn_bind_iff.mpr ⟨Durable.failsIn_lift_iff.mpr hreturns, ?_⟩
    intro hf s hrun''
    obtain ⟨hhf, rfl⟩ := Durable.run_lift_eq_ok.mp hrun''
    refine Durable.failsIn_bind_iff.mpr ⟨happend hf hhf, ?_⟩
    intro u'' s' _
    exact Durable.failsIn_pure _ _ _

/-! ## The whole run -/

/-- A failing `addHashFooter` leaves the file as it was exactly when nothing was trimmed or
the parts can be made, and appending them cannot fail after a change. -/
theorem addHashFooter_keeps_iff (vm : Jvm) (crypto : Crypto) (partitionSize : Int64)
    (partitionName : KString) (info : AVBInfo) (image : Bytes) (hfile : image.length < 2 ^ 63) :
    (addHashFooter vm crypto partitionSize partitionName info).FailsIn image image ↔
      ∀ I, imageSizeCheck partitionSize image = .ok () → trimmed vm image = .ok I →
        (I = image ∨ Nonempty (Prepared vm crypto partitionName info I)) ∧
        ∀ q : Prepared vm crypto partitionName info I, AppendKeeps partitionSize image q := by
  rw [failsIn_addHashFooter_iff]
  refine forall_congr' fun I => forall_congr' fun hcheck => forall_congr' fun htrimmed => ?_
  have hle := length_trimmed_le htrimmed
  have hroom := ((imageSizeCheck_eq_ok_iff hfile).mp hcheck).2
  have hsize : I.length + 4096 < 2 ^ 63 := by
    have hlt := partitionSize.toInt_lt
    omega
  have hprepared : Returns (hashFooter vm crypto partitionSize partitionName info I) ↔
      Nonempty (Prepared vm crypto partitionName info I) := by
    constructor
    · rintro ⟨hf, hhf⟩
      obtain ⟨q, -⟩ := (hashFooter_eq_ok_iff hsize).mp hhf
      exact ⟨q⟩
    · rintro ⟨q⟩
      exact ⟨_, (hashFooter_eq_ok_iff hsize).mpr ⟨q, rfl⟩⟩
  have happend : (∀ hf, hashFooter vm crypto partitionSize partitionName info I = .ok hf →
      (appendHashFooter vm partitionSize hf).FailsIn I image) ↔
        ∀ q : Prepared vm crypto partitionName info I, AppendKeeps partitionSize image q := by
    constructor
    · intro h q
      exact (failsIn_appendHashFooter_iff q).mp
        (h _ ((hashFooter_eq_ok_iff hsize).mpr ⟨q, rfl⟩))
    · intro h hf hhf
      obtain ⟨q, rfl⟩ := (hashFooter_eq_ok_iff hsize).mp hhf
      exact (failsIn_appendHashFooter_iff q).mpr (h q)
  rw [hprepared, happend, or_comm]

/-- A file without a footer is kept when the partition has no hash descriptor. -/
theorem addHashFooter_keeps_iff_applies :
    (addHashFooter ⟨true, .littleEndian⟩ sampleCrypto 73728 (units "boot")
      { auxBlob := some {} }).FailsIn (zeros 100) (zeros 100) := by
  refine (addHashFooter_keeps_iff ⟨true, .littleEndian⟩ _ 73728 (units "boot")
    { auxBlob := some {} } (zeros 100) (by decide)).mpr ?_
  intro I _ htrimmed
  have hsame : trimmed ⟨true, .littleEndian⟩ (zeros 100) = .ok (zeros 100) := by decide +kernel
  obtain rfl : I = zeros 100 := Except.ok.inj (htrimmed.symm.trans hsame)
  refine ⟨.inl rfl, ?_⟩
  intro q
  have hfail : updateHashDescriptor ⟨true, .littleEndian⟩ sampleCrypto (zeros 100)
      (units "boot") { auxBlob := some {} } =
        .error (.illegalArgument "unknown algorithm") := by decide +kernel
  cases hfail.symm.trans q.updated_eq

/-- A footer is cut off although the partition has no hash descriptor. -/
theorem addHashFooter_trims :
    ¬ (addHashFooter ⟨true, .littleEndian⟩ sampleCrypto 73728 (units "boot")
        { auxBlob := some {} }).FailsIn
      (zeros 100 ++ Footer.layout { originalImageSize := 100 })
      (zeros 100 ++ Footer.layout { originalImageSize := 100 }) := by
  intro h
  have hrun : (addHashFooter ⟨true, .littleEndian⟩ sampleCrypto 73728 (units "boot")
      { auxBlob := some {} }).run
        (zeros 100 ++ Footer.layout { originalImageSize := 100 }) =
      (.error (.illegalArgument "unknown algorithm"), zeros 100) := by decide +kernel
  have hlength := congrArg List.length (h _ _ hrun)
  rw [List.length_append, length_zeros, Footer.length_layout] at hlength
  omega

end Avb

end BootImageEditor
