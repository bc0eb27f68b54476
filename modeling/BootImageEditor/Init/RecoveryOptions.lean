import BootImageEditor.Init.MessageCodec

/-!
# Recovery options

The recovery text of a message is the line `recovery` and one line for each option; an option
that ends with a newline gets no second one. The text is written to the misc file, which is
emptied before the message is encoded: a message that does not fit wipes it.
-/

namespace BootImageEditor

open Codec Fallible Struct3

namespace Init

/-- An option without the newline it may end with. -/
def chomp (it : KString) : KString :=
  if it.getLast? = some 0x0A then it.dropLast else it

/-- Lines, each with its newline. -/
def terminated (lines : List KString) : KString := lines.flatMap (· ++ [0x0A])

/-- The bytes of the recovery text. -/
def recoverySize (options : List KString) : ℕ :=
  9 + (options.map fun it => (Utf8.encode (chomp it)).length + 1).sum

@[simp] theorem terminated_nil : terminated [] = [] := rfl

theorem terminated_cons (line : KString) (lines : List KString) :
    terminated (line :: lines) = line ++ 0x0A :: terminated lines := by
  rw [terminated, List.flatMap_cons, List.append_assoc]
  rfl

/-- The newline that is added, or the one that is there. -/
theorem ite_getLast?_eq (it : KString) :
    (if it.getLast? = some 0x0A then it else it ++ units "\n") = chomp it ++ [0x0A] := by
  unfold chomp
  by_cases h : it.getLast? = some 0x0A
  · rw [if_pos h, if_pos h, List.dropLast_append_getLast? 0x0A h]
  · rw [if_neg h, if_neg h]
    rfl

theorem mem_of_mem_chomp {it : KString} {u : UInt16} (h : u ∈ chomp it) : u ∈ it := by
  unfold chomp at h
  split at h
  · exact List.mem_of_mem_dropLast h
  · exact h

theorem wellFormed_chomp {it : KString} (h : Utf8.WellFormed it) :
    Utf8.WellFormed (chomp it) := by
  unfold chomp
  by_cases hlast : it.getLast? = some 0x0A
  · rw [if_pos hlast]
    rw [← List.dropLast_append_getLast? 0x0A hlast] at h
    exact ((Utf8.wellFormed_append_cons_iff (by decide) _ _).mp h).1
  · rw [if_neg hlast]
    exact h

theorem splitOn_terminated {lines : List KString} (h : ∀ line ∈ lines, 0x0A ∉ line) :
    (terminated lines).splitOn 0x0A = lines ++ [[]] := by
  induction lines with
  | nil => rfl
  | cons line lines ih =>
      rw [terminated_cons, List.splitOn_append_cons_self_of_not_mem (h line List.mem_cons_self),
        ih fun l hl => h l (List.mem_cons_of_mem line hl), List.cons_append]

theorem getLast?_terminated {lines : List KString} (h : lines ≠ []) :
    (terminated lines).getLast? = some 0x0A := by
  obtain ⟨front, last, rfl⟩ := (List.eq_nil_or_concat' lines).resolve_left h
  rw [terminated, List.flatMap_append, List.flatMap_singleton, ← List.append_assoc,
    List.getLast?_append]
  rfl

theorem length_encode_terminated (lines : List KString) :
    (Utf8.encode (terminated lines)).length =
      (lines.map fun line => (Utf8.encode line).length + 1).sum := by
  induction lines with
  | nil => rfl
  | cons line lines ih =>
      have hnewline : Utf8.encodeLone 0x0A = [0x0A] := by decide
      rw [terminated_cons, Utf8.encode_append_cons (by decide), Utf8.encode_cons (by decide),
        hnewline, List.length_append, List.length_append, ih, List.map_cons, List.sum_cons,
        List.length_singleton]
      omega

theorem wellFormed_terminated {lines : List KString} (h : ∀ line ∈ lines, Utf8.WellFormed line) :
    Utf8.WellFormed (terminated lines) := by
  induction lines with
  | nil => trivial
  | cons line lines ih =>
      rw [terminated_cons]
      apply (Utf8.wellFormed_append_cons_iff (by decide) _ _).mpr
      refine ⟨h line List.mem_cons_self, ?_⟩
      exact Utf8.wellFormed_cons (by decide) (ih fun l hl => h l (List.mem_cons_of_mem line hl))

theorem zero_notMem_terminated {lines : List KString} (h : ∀ line ∈ lines, (0 : UInt16) ∉ line) :
    (0 : UInt16) ∉ terminated lines := by
  induction lines with
  | nil => exact List.not_mem_nil
  | cons line lines ih =>
      rw [terminated_cons, List.mem_append, List.mem_cons]
      rintro (hline | hnewline | hlines)
      · exact h line List.mem_cons_self hline
      · cases hnewline
      · exact ih (fun l hl => h l (List.mem_cons_of_mem line hl)) hlines

/-! ## The text of a message -/

/-- The lines of the recovery text. -/
def recoveryLines (options : List KString) : List KString :=
  units "recovery" :: options.map chomp

namespace BootloaderMsg

/-- The loop over the options adds a line for each. -/
theorem foldl_options (options : List KString) (text : KString) :
    options.foldl (fun recovery it =>
      recovery ++ if it.getLast? = some 0x0A then it else it ++ units "\n") text =
        text ++ terminated (options.map chomp) := by
  induction options generalizing text with
  | nil => exact (List.append_nil text).symm
  | cons it options ih =>
      rw [List.foldl_cons, ih, ite_getLast?_eq, List.map_cons, terminated_cons]
      simp

theorem recovery_updateBootloaderMessageInStruct (options : List KString) (m : BootloaderMsg) :
    (m.updateBootloaderMessageInStruct options).recovery = terminated (recoveryLines options) :=
  foldl_options options (units "recovery\n")

theorem recovery_updateBootloaderMessage (command : KString) (options : List KString)
    (m : BootloaderMsg) :
    (m.updateBootloaderMessage command (units "recovery") (some options)).recovery =
      terminated (recoveryLines options) :=
  foldl_options options (units "recovery" ++ units "\n")

theorem length_encode_recovery (options : List KString) :
    (Utf8.encode (terminated (recoveryLines options))).length = recoverySize options := by
  have hfirst : (Utf8.encode (units "recovery")).length + 1 = 9 := by decide
  rw [length_encode_terminated, recoveryLines, List.map_cons, List.sum_cons, hfirst,
    List.map_map]
  rfl

theorem fits_updateBootloaderMessageInStruct_iff (options : List KString) (m : BootloaderMsg) :
    (m.updateBootloaderMessageInStruct options).Fits ↔
      (Utf8.encode m.stage).length ≤ 32 ∧ recoverySize options ≤ 768 := by
  have hcommand : (Utf8.encode (units "boot-recovery")).length ≤ 32 := by decide
  rw [Fits, recovery_updateBootloaderMessageInStruct, length_encode_recovery]
  exact and_iff_right hcommand

/-! ## Failing writes -/

/-- What is expected of a write: when it fails the file is what it was, and when it returns
the file holds the encoded message. -/
structure AllOrNothing (vm : Jvm) (m : BootloaderMsg) (misc : Misc) (x : MiscOp Unit) : Prop where
  fails : x.FailsIn misc misc
  returns : ∀ misc', x.run misc = (.ok (), misc') →
    ∃ bytes, m.encode vm = .ok bytes ∧ bytes.length = 2048 ∧ misc' = some bytes

/-- A message that does not fit leaves an empty file. -/
theorem run_writeBootloaderMessage_of_not_fits (vm : Jvm) {m : BootloaderMsg} (h : ¬ m.Fits)
    (misc : Misc) : ∃ e, (m.writeBootloaderMessage vm).run misc = (.error e, some []) := by
  cases hencode : m.encode vm with
  | error e =>
      refine ⟨e, ?_⟩
      unfold writeBootloaderMessage
      rw [hencode]
      rfl
  | ok bytes => exact absurd ((encode_eq_ok_iff vm).mp hencode).1 h

theorem allOrNothing_iff (vm : Jvm) (m : BootloaderMsg) (misc : Misc) :
    AllOrNothing vm m misc (m.writeBootloaderMessage vm) ↔ m.Fits ∨ misc = some [] := by
  by_cases hfits : m.Fits
  · have hrun := run_writeBootloaderMessage vm hfits misc
    refine iff_of_true ⟨?_, ?_⟩ (.inl hfits)
    · intro e misc' h
      rw [hrun] at h
      cases h
    · intro misc' h
      rw [hrun] at h
      cases h
      exact ⟨_, encode_of_fits vm hfits, length_flatten_fields hfits, rfl⟩
  · obtain ⟨e, hrun⟩ := run_writeBootloaderMessage_of_not_fits vm hfits misc
    constructor
    · intro h
      exact .inr (h.fails e _ hrun).symm
    · intro h
      have hempty := h.resolve_left hfits
      refine ⟨?_, ?_⟩
      · intro e' misc' h'
        rw [hrun] at h'
        cases h'
        exact hempty.symm
      · intro misc' h'
        rw [hrun] at h'
        cases h'

/-- A write is all or nothing exactly where the message fits, or there was nothing to lose: an
empty file. -/
theorem writeBootloaderMessage_allOrNothing_iff (vm : Jvm) (m : BootloaderMsg) (misc : Misc) :
    (AllOrNothing vm m misc (m.writeBootloaderMessage vm) ↔ m.Fits ∨ misc = some []) ∧
      ∀ options, AllOrNothing vm (m.updateBootloaderMessageInStruct options) misc
          (m.writeBootloaderMessageOptions vm options) ↔
        ((Utf8.encode m.stage).length ≤ 32 ∧ recoverySize options ≤ 768) ∨ misc = some [] := by
  constructor
  · exact allOrNothing_iff vm m misc
  · intro options
    rw [← fits_updateBootloaderMessageInStruct_iff options m]
    exact allOrNothing_iff vm _ misc

/-- A stage that is too long wipes the file. -/
theorem writeBootloaderMessage_wipes :
    ¬ ∀ (vm : Jvm) (m : BootloaderMsg) (misc : Misc),
      AllOrNothing vm m misc (m.writeBootloaderMessage vm) := by
  intro h
  have hatomic := h ⟨false, .littleEndian⟩ { stage := List.replicate 33 0x61 } (some [1])
  have hfits : ¬ ({ stage := List.replicate 33 0x61 } : BootloaderMsg).Fits := by decide
  rcases (allOrNothing_iff _ _ _).mp hatomic with hfit | hempty
  · exact hfits hfit
  · cases hempty

/-! ## Delivery -/

/-- The text ends with a newline, and its lines are `recovery` and the options. -/
def IsRecoveryText (options : List KString) (text : KString) : Prop :=
  text.getLast? = some 0x0A ∧ text.splitOn 0x0A = recoveryLines options ++ [[]]

/-- The options are written, and a fresh object reads them back; `updateBootloaderMessage`
makes the same text. -/
def Delivers (vm : Jvm) (m : BootloaderMsg) (options : List KString) (misc : Misc) : Prop :=
  ∃ written m', (m.writeBootloaderMessageOptions vm options).run misc = (.ok (), written) ∧
    readBootloaderMsg vm written {} = .ok m' ∧ m'.command = units "boot-recovery" ∧
    IsRecoveryText options m'.recovery ∧
    ∀ command, (m.updateBootloaderMessage command (units "recovery") (some options)).recovery =
      m'.recovery

/-- The read of a fresh object after a write of options: the text, up to what UTF-8 keeps
of it. -/
theorem run_writeBootloaderMessageOptions (vm : Jvm) {m : BootloaderMsg} {options : List KString}
    (hstage : (Utf8.encode m.stage).length ≤ 32) (hsize : recoverySize options ≤ 768)
    (misc : Misc) : ∃ written m',
      (m.writeBootloaderMessageOptions vm options).run misc = (.ok (), written) ∧
        readBootloaderMsg vm written {} = .ok m' ∧ m'.command = units "boot-recovery" ∧
        m'.recovery = Utf8.cString (extend 768
          (Utf8.encode (terminated (recoveryLines options)))) := by
  have hfits := (fits_updateBootloaderMessageInStruct_iff options m).mpr ⟨hstage, hsize⟩
  have hcommand : Slot 32 (units "boot-recovery") := by
    refine ⟨?_, ?_, ?_⟩
    · decide
    · exact Utf8.wellFormed_ascii (by decide)
    · decide
  refine ⟨_, _, run_writeBootloaderMessage vm hfits misc, ofStream_fields vm hfits,
    hcommand.cString_extend, ?_⟩
  rw [recovery_updateBootloaderMessageInStruct]

theorem isRecoveryText_terminated {options : List KString}
    (hlines : ∀ it ∈ options, 0x0A ∉ chomp it) :
    IsRecoveryText options (terminated (recoveryLines options)) := by
  refine ⟨getLast?_terminated (List.cons_ne_nil _ _), splitOn_terminated ?_⟩
  intro line hline
  rcases List.mem_cons.mp hline with rfl | hline
  · decide
  · obtain ⟨it, hit, rfl⟩ := List.mem_map.mp hline
    exact hlines it hit

theorem forall_recoveryLines {p : KString → Prop} {options : List KString}
    (hfirst : p (units "recovery")) (h : ∀ it ∈ options, p (chomp it)) :
    ∀ line ∈ recoveryLines options, p line := by
  intro line hline
  rcases List.mem_cons.mp hline with rfl | hline
  · exact hfirst
  · obtain ⟨it, hit, rfl⟩ := List.mem_map.mp hline
    exact h it hit

/-- Options without NUL and lone surrogates, of one line each, are delivered when they fit. -/
theorem delivers_of_wellFormed (vm : Jvm) (m : BootloaderMsg) (options : List KString)
    (misc : Misc) (hnul : ∀ it ∈ options, (0 : UInt16) ∉ it)
    (hlines : ∀ it ∈ options, 0x0A ∉ chomp it)
    (hwellFormed : ∀ it ∈ options, Utf8.WellFormed it)
    (hstage : (Utf8.encode m.stage).length ≤ 32) (hsize : recoverySize options ≤ 768) :
    Delivers vm m options misc := by
  obtain ⟨written, m', hrun, hread, hcommand, hrecovery⟩ :=
    run_writeBootloaderMessageOptions vm hstage hsize misc
  have hslot : Slot 768 (terminated (recoveryLines options)) := by
    refine ⟨?_, ?_, ?_⟩
    · rw [length_encode_recovery]
      exact hsize
    · exact wellFormed_terminated (forall_recoveryLines (Utf8.wellFormed_ascii (by decide))
        fun it hit => wellFormed_chomp (hwellFormed it hit))
    · exact zero_notMem_terminated (forall_recoveryLines (by decide)
        fun it hit hmem => hnul it hit (mem_of_mem_chomp hmem))
  rw [hslot.cString_extend] at hrecovery
  refine ⟨written, m', hrun, hread, hcommand, ?_, ?_⟩
  · rw [hrecovery]
    exact isRecoveryText_terminated hlines
  · intro command
    rw [hrecovery, recovery_updateBootloaderMessage]

/-- An option with a newline and one without. -/
theorem delivers_wipe_locale :
    Delivers ⟨false, .littleEndian⟩ {} [units "--wipe_data", units "--locale=en\n"] none :=
  delivers_of_wellFormed _ _ _ _ (by decide) (by decide)
    (by
      intro it hit
      simp only [List.mem_cons, List.not_mem_nil, or_false] at hit
      rcases hit with rfl | rfl
      · exact Utf8.wellFormed_ascii (by decide)
      · exact Utf8.wellFormed_ascii (by decide))
    (by decide) (by decide)

/-- A lone surrogate is delivered as a question mark. -/
theorem not_delivers_surrogate :
    ¬ ∀ (vm : Jvm) (m : BootloaderMsg) (options : List KString) (misc : Misc),
      (∀ it ∈ options, (0 : UInt16) ∉ it) → (∀ it ∈ options, 0x0A ∉ chomp it) →
      (Utf8.encode m.stage).length ≤ 32 → recoverySize options ≤ 768 →
        Delivers vm m options misc := by
  intro h
  obtain ⟨written, m', hrun, hread, -, htext, -⟩ :=
    h ⟨false, .littleEndian⟩ {} [[0xD800]] none (by decide) (by decide) (by decide) (by decide)
  obtain ⟨written₁, m₁, hrun₁, hread₁, -, hrecovery₁⟩ :=
    @run_writeBootloaderMessageOptions ⟨false, .littleEndian⟩ {} [[0xD800]] (by decide)
      (by decide) none
  obtain ⟨-, rfl⟩ := Prod.mk.inj (hrun.symm.trans hrun₁)
  obtain rfl := Except.ok.inj (hread.symm.trans hread₁)
  have hlines := htext.2
  rw [hrecovery₁] at hlines
  exact absurd hlines (by decide +kernel)

end BootloaderMsg

end Init

end BootImageEditor
