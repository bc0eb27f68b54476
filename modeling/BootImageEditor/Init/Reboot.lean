import BootImageEditor.Init.BootloaderMsg

/-!
# Reboot requests

`handlePowerctlMessage` turns a value of `sys.powerctl` into a reboot. Requests for the
bootloader are guarded against a command that is still pending in `misc.file`, but the guard
looks at a message made for the request, which is always blank: a request overwrites whatever
is stored. `Honours` says what is expected of a run of requests, and `AllBlank` when that
comes out.
-/

namespace BootImageEditor

open Codec Fallible Struct3

namespace Init

/-- Java's `Properties`. -/
abbrev Properties := List (KString × KString)

def dynamicPartitionKey : KString := units "ro.boot.dynamic_partitions"

/-- A call of `handlePowerctlMessage`. -/
structure Request where
  inValue : KString
  props : Option Properties

namespace Request

def args (r : Request) : List KString := r.inValue.splitOn 0x2C

/-- `bDynamicPartition`: `true`, or nothing. -/
def dynamicPartition (r : Request) : Bool :=
  match r.props with
  | none => false
  | some props => props.lookup dynamicPartitionKey = some (units "true")

end Request

/-- `rebootTarget.replace("-", "_")`. -/
def replaceDashes (s : KString) : KString := s.map fun u => if u = 0x2D then 0x5F else u

/-- What a request writes for its target, and the target of the reboot. -/
def handleTarget (vm : Jvm) (dynamicPartition : Bool) (target : KString) : MiscOp KString :=
  let fresh : BootloaderMsg := {}
  if target = units "fastboot" then
    if dynamicPartition then do
      fresh.writeBootloaderMessageOptions vm [units "--fastboot"]
      pure (units "recovery")
    else do
      fresh.writeRebootBootloader vm
      pure (units "bootloader")
  else if target = units "bootloader" then do
    fresh.writeRebootBootloader vm
    pure target
  else if target = units "sideload" ∨ target = units "sideload-auto-reboot" then do
    fresh.writeBootloaderMessageOptions vm [units "--" ++ replaceDashes target]
    pure (units "recovery")
  else pure target

/-- `handlePowerctlMessage(inValue, props)`: the command and the target that `doReboot` is
given. -/
def handlePowerctlMessage (vm : Jvm) (r : Request) : MiscOp (KString × KString) :=
  let unrecognized : Throwable := .illegalArgument "powerctl: unrecognized command"
  match r.args with
  | [] => Durable.lift (.error unrecognized)
  | action :: rest =>
    if 2 < rest.length then Durable.lift (.error unrecognized)
    else if action = units "shutdown" then
      pure (if rest = [units "thermal"] then units "ANDROID_RB_THERMOFF"
        else units "ANDROID_RB_POWEROFF", [])
    else if action = units "reboot" then
      match rest with
      | [] => pure (units "ANDROID_RB_RESTART2", [])
      | target :: more => do
          let rebootTarget ← handleTarget vm r.dynamicPartition target
          match more with
          | [detail] =>
              pure (units "ANDROID_RB_RESTART2",
                if isNotBlank detail then rebootTarget ++ units "," ++ detail else rebootTarget)
          | _ => pure (units "ANDROID_RB_RESTART2", rebootTarget)
    else Durable.lift (.error unrecognized)

/-! ## One request -/

/-- The request leads to `writeRebootBootloader`. -/
def Request.ForBootloader (r : Request) : Prop :=
  ∃ target more, r.args = units "reboot" :: target :: more ∧ more.length ≤ 1 ∧
    (target = units "bootloader" ∨ target = units "fastboot" ∧ r.dynamicPartition = false)

/-- The message that a request for the bootloader writes. -/
def rebootMessage : BootloaderMsg := { command := units "bootonce-bootloader" }

theorem rebootMessage_fits : rebootMessage.Fits := by decide +kernel

/-- The guard does not see what is stored: the message is written over it. -/
theorem run_writeRebootBootloader (vm : Jvm) (misc : Misc) :
    (BootloaderMsg.writeRebootBootloader vm {}).run misc =
      (.ok (), some rebootMessage.fields.flatten) := by
  have hblank : isNotBlank ({} : BootloaderMsg).command = false := rfl
  unfold BootloaderMsg.writeRebootBootloader
  rw [hblank, if_neg (by decide)]
  exact BootloaderMsg.run_writeBootloaderMessage vm rebootMessage_fits misc

theorem run_handleTarget (vm : Jvm) {dynamicPartition : Bool} {target : KString}
    (h : target = units "bootloader" ∨
      target = units "fastboot" ∧ dynamicPartition = false) (misc : Misc) :
    (handleTarget vm dynamicPartition target).run misc =
      (.ok (units "bootloader"), some rebootMessage.fields.flatten) := by
  have hrun := run_writeRebootBootloader vm misc
  unfold handleTarget
  rcases h with rfl | ⟨rfl, rfl⟩
  · have hne : ¬ units "bootloader" = units "fastboot" := by decide
    rw [if_neg hne, if_pos rfl, Durable.run_bind, hrun]
    rfl
  · rw [if_pos rfl, if_neg (by decide), Durable.run_bind, hrun]
    rfl

/-- A request for the bootloader returns, and leaves its own message, whatever was stored. -/
theorem run_handlePowerctlMessage (vm : Jvm) {r : Request} (h : r.ForBootloader) (misc : Misc) :
    ∃ result, (handlePowerctlMessage vm r).run misc =
      (.ok result, some rebootMessage.fields.flatten) := by
  obtain ⟨target, more, hargs, hmore, htarget⟩ := h
  have hne : ¬ units "reboot" = units "shutdown" := by decide
  have hsize : ¬ 2 < (target :: more).length := by
    rw [List.length_cons]
    omega
  unfold handlePowerctlMessage
  rw [hargs]
  simp only
  rw [if_neg hsize, if_neg hne, if_pos trivial, Durable.run_bind,
    run_handleTarget vm htarget misc]
  match more, hmore with
  | [], _ => exact ⟨_, rfl⟩
  | [detail], _ => exact ⟨_, rfl⟩

/-- What is expected of a request for the bootloader: while a command is pending it throws and
leaves the file as it is, and otherwise its command is stored. -/
def Honoured (vm : Jvm) (misc : Misc) (r : Request) : Prop :=
  r.ForBootloader →
    (Pending vm misc → (handlePowerctlMessage vm r).run misc =
      (.error (.illegalState "Bootloader command pending."), misc)) ∧
    (¬ Pending vm misc →
      storedCommand vm ((handlePowerctlMessage vm r).run misc).2 =
        some (units "bootonce-bootloader"))

theorem honoured_iff (vm : Jvm) (misc : Misc) (r : Request) :
    Honoured vm misc r ↔ (r.ForBootloader → ¬ Pending vm misc) := by
  unfold Honoured
  constructor
  · intro h hfor hpending
    obtain ⟨result, hrun⟩ := run_handlePowerctlMessage vm hfor misc
    have hthrow := (h hfor).1 hpending
    rw [hrun] at hthrow
    cases (Prod.mk.inj hthrow).1
  · intro h hfor
    obtain ⟨result, hrun⟩ := run_handlePowerctlMessage vm hfor misc
    refine ⟨fun hpending => absurd hpending (h hfor), fun _ => ?_⟩
    rw [hrun, storedCommand_fields vm rebootMessage_fits]
    decide +kernel

/-! ## Runs of requests -/

/-- The file after a request, which may have thrown. -/
def after (vm : Jvm) (misc : Misc) (r : Request) : Misc :=
  ((handlePowerctlMessage vm r).run misc).2

/-- Every request of a run is honoured. -/
def Honours (vm : Jvm) : Misc → List Request → Prop
  | _, [] => True
  | misc, r :: rs => Honoured vm misc r ∧ Honours vm (after vm misc r) rs

/-- No request of a run for the bootloader comes while a command is pending. -/
def NonePending (vm : Jvm) : Misc → List Request → Prop
  | _, [] => True
  | misc, r :: rs =>
      (r.ForBootloader → ¬ Pending vm misc) ∧ NonePending vm (after vm misc r) rs

/-- A run of requests, from any content of the file, protects pending commands exactly when
there are none to protect: every request for the bootloader comes while the stored command is
blank or missing. -/
theorem honours_iff (vm : Jvm) (misc : Misc) (rs : List Request) :
    Honours vm misc rs ↔ NonePending vm misc rs := by
  induction rs generalizing misc with
  | nil => exact Iff.rfl
  | cons r rs ih => rw [Honours, NonePending, honoured_iff, ih]

/-- Two requests for the bootloader: the second one comes while the command of the first one
is pending. -/
theorem honours_twice :
    let vm : Jvm := ⟨false, .littleEndian⟩
    let r : Request := ⟨units "reboot,bootloader", none⟩
    ¬ Honours vm none [r, r] := by
  intro vm r h
  have hfor : r.ForBootloader :=
    ⟨units "bootloader", [], by decide +kernel, by decide, .inl rfl⟩
  obtain ⟨result, hrun⟩ := run_handlePowerctlMessage vm hfor none
  obtain ⟨-, hsecond, -⟩ := h
  refine (honoured_iff vm _ r).mp hsecond hfor ⟨units "bootonce-bootloader", ?_, by decide⟩
  rw [after, hrun, storedCommand_fields vm rebootMessage_fits]
  decide +kernel

end Init

end BootImageEditor
