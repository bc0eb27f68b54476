import BootImageEditor.Library.Durable
import BootImageEditor.Avb.DescriptorParse

/-!
# The bootloader message

A message of 2048 bytes in the file `misc.file` tells the bootloader what to do at the next
start. `BootloaderMsg` is the object, the state of a run is the content of the file, or
`none` when there is no file.
-/

namespace BootImageEditor

open Codec Fallible Struct3

namespace Init

/-- The content of `misc.file`. -/
abbrev Misc := Option Bytes

abbrev MiscOp (α : Type) := Durable Misc Throwable α

structure BootloaderMsg where
  command : KString := []
  status : KString := []
  recovery : KString := []
  stage : KString := []
  reserved : Bytes := []
  deriving DecidableEq

namespace BootloaderMsg

def formatString : KString := units "32s32s768s32s1184b"

/-- `encode()`. The field of the status is given the stage, and no reserved bytes are kept. -/
def encode (vm : Jvm) (m : BootloaderMsg) : Result Bytes :=
  packFormat vm formatString
    [.string m.command, .string m.stage, .string m.recovery, .string m.stage, .byteArray []]

/-- `constructor(fis: FileInputStream)`. -/
def ofStream (vm : Jvm) (fis : InputStream) : Result BootloaderMsg := do
  let (info, _) ← unpackFormat vm formatString fis
  match info with
  | [.string command, .string status, .string recovery, .string stage, .byteArray reserved] =>
      .ok { command, status, recovery, stage, reserved }
  | _ => .error .classCast

/-- `readBootloaderMsg()`. -/
def readBootloaderMsg (vm : Jvm) (misc : Misc) (m : BootloaderMsg) : Result BootloaderMsg :=
  match misc with
  | none => .ok m
  | some content => do
      let (info, _) ← unpackFormat vm formatString (.fileInputStream content)
      match info with
      | [.string command, .string status, .string recovery, .string stage,
          .byteArray reserved] => .ok { command, status, recovery, stage, reserved }
      | _ => .error .classCast

/-- `writeBootloaderMessage()`: opening the file for output empties it, before the message is
encoded. -/
def writeBootloaderMessage (vm : Jvm) (m : BootloaderMsg) : MiscOp Unit := do
  Durable.update fun _ => .ok (some [])
  let bytes ← Durable.lift (m.encode vm)
  Durable.update fun _ => .ok (some bytes)

/-- `updateBootloaderMessageInStruct(options)`. -/
def updateBootloaderMessageInStruct (options : List KString) (m : BootloaderMsg) :
    BootloaderMsg :=
  { m with
    command := units "boot-recovery"
    recovery := options.foldl
      (fun recovery it => recovery ++ if it.getLast? = some 0x0A then it else it ++ units "\n")
      (units "recovery\n") }

/-- `updateBootloaderMessage(command, recovery, options)`. -/
def updateBootloaderMessage (command recovery : KString) (options : Option (List KString))
    (m : BootloaderMsg) : BootloaderMsg :=
  { m with
    command
    recovery := (options.getD []).foldl
      (fun recovery it => recovery ++ if it.getLast? = some 0x0A then it else it ++ units "\n")
      (recovery ++ units "\n") }

/-- `writeBootloaderMessage(options)`. -/
def writeBootloaderMessageOptions (vm : Jvm) (options : List KString) (m : BootloaderMsg) :
    MiscOp Unit :=
  (m.updateBootloaderMessageInStruct options).writeBootloaderMessage vm

/-- `writeRebootBootloader()`: the guard looks at the command of the object. -/
def writeRebootBootloader (vm : Jvm) (m : BootloaderMsg) : MiscOp Unit :=
  if isNotBlank m.command then
    Durable.lift (.error (.illegalState "Bootloader command pending."))
  else { m with command := units "bootonce-bootloader" }.writeBootloaderMessage vm

/-! ## Encoding and reading back -/

def formats : List Format := [.text 32, .text 32, .text 768, .text 32, .bytes 1184]

theorem new_formatString (vm : Jvm) :
    Struct3.new vm formatString = .ok ⟨.littleEndian, formats⟩ := rfl

def fields (m : BootloaderMsg) : List Bytes :=
  [extend 32 (Utf8.encode m.command), extend 32 (Utf8.encode m.stage),
    extend 768 (Utf8.encode m.recovery), extend 32 (Utf8.encode m.stage), zeros 1184]

/-- The texts fit their fields. -/
def Fits (m : BootloaderMsg) : Prop :=
  (Utf8.encode m.command).length ≤ 32 ∧ (Utf8.encode m.stage).length ≤ 32 ∧
    (Utf8.encode m.recovery).length ≤ 768

instance (m : BootloaderMsg) : Decidable m.Fits := inferInstanceAs (Decidable (_ ∧ _ ∧ _))

/-- A text is packed when it fits, and filled up with zeros. -/
theorem packItem_text_eq_ok_iff (vm : Jvm) {n : ℕ} {s : KString} {bs : Bytes} :
    packItem vm .littleEndian (.text n) (.string s) = .ok bs ↔
      (Utf8.encode s).length ≤ n ∧ bs = extend n (Utf8.encode s) := by
  have hpack : packItem vm .littleEndian (.text n) (.string s) =
      appendByteArray (Utf8.encode s) n := rfl
  rw [hpack, appendByteArray, ite_error_eq_ok_iff, Except.ok.injEq, Nat.not_lt, eq_comm]
  rfl

theorem packItem_text_of_le (vm : Jvm) {n : ℕ} {s : KString} (h : (Utf8.encode s).length ≤ n) :
    packItem vm .littleEndian (.text n) (.string s) = .ok (extend n (Utf8.encode s)) :=
  (packItem_text_eq_ok_iff vm).mpr ⟨h, rfl⟩

theorem encode_eq_packItems (vm : Jvm) (m : BootloaderMsg) {bs : Bytes} :
    m.encode vm = .ok bs ↔ packItems vm .littleEndian formats
      [.string m.command, .string m.stage, .string m.recovery, .string m.stage,
        .byteArray []] = .ok bs :=
  Avb.packFormat_eq_ok_iff (new_formatString vm) rfl (by decide)
    (by simp [AllFill, Fills, formats, Format.text, Format.bytes])

theorem encode_of_fits (vm : Jvm) {m : BootloaderMsg} (h : m.Fits) :
    m.encode vm = .ok m.fields.flatten := by
  obtain ⟨hcommand, hstage, hrecovery⟩ := h
  have hreserved : packItem vm .littleEndian (.bytes 1184) (.byteArray []) =
      .ok (zeros 1184) := rfl
  rw [encode_eq_packItems]
  simp only [formats, packItems, packItem_text_of_le vm hcommand, packItem_text_of_le vm hstage,
    packItem_text_of_le vm hrecovery, hreserved, ok_bind, Except.ok.injEq]
  simp [fields]

/-- `encode()` returns when the texts fit, and only then. -/
theorem encode_eq_ok_iff (vm : Jvm) {m : BootloaderMsg} {bs : Bytes} :
    m.encode vm = .ok bs ↔ m.Fits ∧ bs = m.fields.flatten := by
  constructor
  · intro h
    have hfits : m.Fits := by
      obtain ⟨command, hcommand, h'⟩ := bind_eq_ok.mp ((encode_eq_packItems vm m).mp h)
      obtain ⟨rest, h', -⟩ := bind_eq_ok.mp h'
      obtain ⟨stage, hstage, h'⟩ := bind_eq_ok.mp h'
      obtain ⟨rest', h', -⟩ := bind_eq_ok.mp h'
      obtain ⟨recovery, hrecovery, -⟩ := bind_eq_ok.mp h'
      exact ⟨((packItem_text_eq_ok_iff vm).mp hcommand).1,
        ((packItem_text_eq_ok_iff vm).mp hstage).1,
        ((packItem_text_eq_ok_iff vm).mp hrecovery).1⟩
    exact ⟨hfits, Except.ok.inj (h.symm.trans (encode_of_fits vm hfits))⟩
  · rintro ⟨hfits, rfl⟩
    exact encode_of_fits vm hfits

theorem forall₂_formats_fields {m : BootloaderMsg} (h : m.Fits) :
    List.Forall₂ (fun f b => b.length = f.size) formats m.fields := by
  obtain ⟨hcommand, hstage, hrecovery⟩ := h
  simp [formats, fields, Avb.length_extend hcommand, Avb.length_extend hstage,
    Avb.length_extend hrecovery]

theorem length_flatten_fields {m : BootloaderMsg} (h : m.Fits) :
    m.fields.flatten.length = 2048 :=
  Avb.length_flatten_of_forall₂ (forall₂_formats_fields h)

/-- Decoding a message that was encoded: the texts up to a NUL, the stage also as status. -/
theorem ofStream_fields (vm : Jvm) {m : BootloaderMsg} (h : m.Fits) :
    ofStream vm (.fileInputStream m.fields.flatten) = .ok
      { command := Utf8.cString (extend 32 (Utf8.encode m.command))
        status := Utf8.cString (extend 32 (Utf8.encode m.stage))
        recovery := Utf8.cString (extend 768 (Utf8.encode m.recovery))
        stage := Utf8.cString (extend 32 (Utf8.encode m.stage))
        reserved := zeros 1184 } := by
  have hinfo := Avb.unpackFormat_fields m.fields (r := [])
    (s := .fileInputStream m.fields.flatten) (new_formatString vm) (forall₂_formats_fields h)
    (by decide) (by simp) (fun hend => absurd hend.2.2 (by decide))
  unfold ofStream
  simp only [hinfo, ok_bind]
  rfl

theorem readBootloaderMsg_some (vm : Jvm) (content : Bytes) (m : BootloaderMsg) :
    readBootloaderMsg vm (some content) m = ofStream vm (.fileInputStream content) := rfl

/-- Reading a message that was written. -/
theorem readBootloaderMsg_fields (vm : Jvm) {m : BootloaderMsg} (h : m.Fits)
    (m₀ : BootloaderMsg) : ∃ m', readBootloaderMsg vm (some m.fields.flatten) m₀ = .ok m' ∧
      m'.command = Utf8.cString (extend 32 (Utf8.encode m.command)) := by
  rw [readBootloaderMsg_some, ofStream_fields vm h]
  exact ⟨_, rfl, rfl⟩

/-- Writing a message whose texts fit leaves exactly its bytes in the file. -/
theorem run_writeBootloaderMessage (vm : Jvm) {m : BootloaderMsg} (h : m.Fits) (misc : Misc) :
    (m.writeBootloaderMessage vm).run misc = (.ok (), some m.fields.flatten) := by
  unfold writeBootloaderMessage
  rw [encode_of_fits vm h]
  rfl

end BootloaderMsg

/-- The command that is stored in the file: there is one when the file holds a message that
can be read. -/
def storedCommand (vm : Jvm) (misc : Misc) : Option KString :=
  match misc with
  | none => none
  | some _ =>
      match BootloaderMsg.readBootloaderMsg vm misc {} with
      | .ok m => some m.command
      | .error _ => none

/-- A command is pending. -/
def Pending (vm : Jvm) (misc : Misc) : Prop :=
  ∃ command, storedCommand vm misc = some command ∧ isNotBlank command = true

theorem storedCommand_fields (vm : Jvm) {m : BootloaderMsg} (h : m.Fits) :
    storedCommand vm (some m.fields.flatten) =
      some (Utf8.cString (extend 32 (Utf8.encode m.command))) := by
  obtain ⟨m', hread, hcommand⟩ := BootloaderMsg.readBootloaderMsg_fields vm h {}
  unfold storedCommand
  rw [hread]
  simp only [hcommand]

end Init

end BootImageEditor
