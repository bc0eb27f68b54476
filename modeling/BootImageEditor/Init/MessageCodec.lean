import BootImageEditor.Init.BootloaderMsg

/-!
# The message there and back

A message whose fields fit is encoded to 2048 bytes, and decoding gives its command, its
recovery text and its stage back. The status and the reserved bytes are not encoded: the
stage comes back in place of the status, and zeros in place of the reserved bytes.
-/

namespace BootImageEditor

open Codec Fallible Struct3

namespace Init

/-- A text that fits a field of `n` bytes, without NUL and lone surrogates. -/
structure Slot (n : ℕ) (s : KString) : Prop where
  fits : (Utf8.encode s).length ≤ n
  wellFormed : Utf8.WellFormed s
  noNul : (0 : UInt16) ∉ s

theorem Slot.cString_extend {n : ℕ} {s : KString} (h : Slot n s) :
    Utf8.cString (extend n (Utf8.encode s)) = s :=
  Utf8.cString_encode_zeros h.wellFormed h.noNul _

namespace BootloaderMsg

/-- Every field fits its place in the message. -/
structure Valid (m : BootloaderMsg) : Prop where
  command : Slot 32 m.command
  status : Slot 32 m.status
  recovery : Slot 768 m.recovery
  stage : Slot 32 m.stage
  reserved : m.reserved.length ≤ 1184

theorem Valid.fits {m : BootloaderMsg} (h : m.Valid) : m.Fits :=
  ⟨h.command.fits, h.stage.fits, h.recovery.fits⟩

/-- The message is encoded, and decoded from these bytes. -/
def RoundTrips (vm : Jvm) (m : BootloaderMsg) : Prop :=
  ∃ bytes, m.encode vm = .ok bytes ∧ bytes.length = 2048 ∧
    ofStream vm (.fileInputStream bytes) = .ok { m with reserved := extend 1184 m.reserved }

/-- What comes back of a message whose texts can be read back. -/
theorem ofStream_encoded (vm : Jvm) {m : BootloaderMsg} (hcommand : Slot 32 m.command)
    (hrecovery : Slot 768 m.recovery) (hstage : Slot 32 m.stage) :
    ofStream vm (.fileInputStream m.fields.flatten) =
      .ok { m with status := m.stage, reserved := zeros 1184 } := by
  have hfits : m.Fits := ⟨hcommand.fits, hstage.fits, hrecovery.fits⟩
  rw [ofStream_fields vm hfits, hcommand.cString_extend, hrecovery.cString_extend,
    hstage.cString_extend]

theorem extend_eq_zeros_iff {n : ℕ} {bs : Bytes} (h : bs.length ≤ n) :
    extend n bs = zeros n ↔ ∀ b ∈ bs, b = 0 := by
  constructor
  · intro heq b hb
    have hmem : b ∈ zeros n := by
      rw [← heq]
      exact List.mem_append_left _ hb
    exact List.eq_of_mem_replicate hmem
  · intro hall
    have hbs : bs = zeros bs.length := List.eq_replicate_iff.mpr ⟨rfl, hall⟩
    rw [extend, hbs, length_zeros, zeros, zeros, zeros, List.replicate_append_replicate,
      Nat.add_sub_cancel' h]

/-- A message comes back exactly where its status is its stage and its reserved bytes are
zero. -/
theorem roundTrips_iff (vm : Jvm) (m : BootloaderMsg) (h : m.Valid) :
    RoundTrips vm m ↔ m.status = m.stage ∧ ∀ b ∈ m.reserved, b = 0 := by
  have hencode := encode_of_fits vm h.fits
  have hdecode := ofStream_encoded vm h.command h.recovery h.stage
  constructor
  · rintro ⟨bytes, hbytes, -, hback⟩
    obtain rfl := Except.ok.inj (hencode.symm.trans hbytes)
    have heq := Except.ok.inj (hdecode.symm.trans hback)
    have hstatus : m.stage = m.status := congrArg BootloaderMsg.status heq
    have hreserved : zeros 1184 = extend 1184 m.reserved :=
      congrArg BootloaderMsg.reserved heq
    exact ⟨hstatus.symm, (extend_eq_zeros_iff h.reserved).mp hreserved.symm⟩
  · rintro ⟨hstatus, hzero⟩
    refine ⟨m.fields.flatten, hencode, length_flatten_fields h.fits, ?_⟩
    rw [hdecode, (extend_eq_zeros_iff h.reserved).mpr hzero, ← hstatus]

/-- A message with a status. -/
def statusMessage : BootloaderMsg := { status := units "ok" }

theorem statusMessage_valid : statusMessage.Valid := by
  have hempty : ∀ n, Slot n [] := fun n => ⟨Nat.zero_le n, trivial, List.not_mem_nil⟩
  refine ⟨hempty 32, ⟨?_, ?_, ?_⟩, hempty 768, hempty 32, Nat.zero_le _⟩
  · decide
  · exact Utf8.wellFormed_ascii (by decide)
  · decide

theorem roundTrips_iff_status :
    RoundTrips ⟨false, .littleEndian⟩ statusMessage ↔
      statusMessage.status = statusMessage.stage ∧ ∀ b ∈ statusMessage.reserved, b = 0 :=
  roundTrips_iff _ _ statusMessage_valid

/-- The status is lost. -/
theorem not_roundTrips_status :
    ¬ ∀ (vm : Jvm) (m : BootloaderMsg), m.Valid → RoundTrips vm m := by
  intro h
  obtain ⟨bytes, hbytes, -, hback⟩ := h ⟨false, .littleEndian⟩ _ statusMessage_valid
  have hencode := encode_of_fits ⟨false, .littleEndian⟩ statusMessage_valid.fits
  obtain rfl := Except.ok.inj (hencode.symm.trans hbytes)
  have hdecode := ofStream_encoded ⟨false, .littleEndian⟩ statusMessage_valid.command
    statusMessage_valid.recovery statusMessage_valid.stage
  have heq := congrArg BootloaderMsg.status (Except.ok.inj (hdecode.symm.trans hback))
  exact absurd heq (by decide)

end BootloaderMsg

end Init

end BootImageEditor
