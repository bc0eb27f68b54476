import BootImageEditor.Avb.DescriptorSection

/-!
# Records of unknown kind

A section may hold records whose tags no class knows. `parseDescriptors2` chooses the class by
the low 32 bits of the tag, so of these tags only those whose low bits name no class survive.
-/

namespace BootImageEditor

open Codec Fallible Struct3 Helper

namespace Avb

namespace WireDescriptor

theorem getElem?_decodedFrom (crypto : Crypto) (seq : Int32) (pre : List WireDescriptor)
    (w : WireDescriptor) (post : List WireDescriptor) :
    ∃ seq', (decodedFrom crypto seq (pre ++ w :: post))[pre.length]? =
      some (w.decoded crypto seq') := by
  induction pre generalizing seq with
  | nil => exact ⟨seq + 1, rfl⟩
  | cons v pre ih => exact ih (seq + 1)

/-- Records with printable texts take less than `2^62` bytes, if a list can hold them. -/
theorem length_sectionBytes_le {ws : List WireDescriptor}
    (hbody : ∀ w ∈ ws, w.body.length ≤ intMax) :
    (sectionBytes ws).length ≤ ws.length * (16 + intMax) := by
  induction ws with
  | nil => simp
  | cons w ws ih =>
      rw [List.forall_mem_cons] at hbody
      have htail := ih hbody.2
      have hhead := hbody.1
      rw [sectionBytes_cons, List.length_append, length_bytes, List.length_cons, Nat.succ_mul]
      omega

theorem length_body_le_of_readable {vm : Jvm} {w : WireDescriptor} (h : w.Readable vm) :
    w.body.length ≤ intMax := by
  have hlen := length_bytes_of_printable h.2.2
  rw [length_bytes] at hlen
  omega

/-- What the record of an unknown tag comes back as: the tag and, encoded again, the bytes. -/
def Survives (vm : Jvm) (crypto : Crypto) (s : InputStream) (pre : List WireDescriptor)
    (w : Wire.Unknown) (post : List WireDescriptor) : Prop :=
  ∃ ds d, UnknownDescriptor.parseDescriptors2 vm crypto s
      (Int64.ofNat (sectionBytes (pre ++ unknown w :: post)).length) = .ok ds ∧
    ds[pre.length]? = some (.unknown d) ∧ d.tag = w.tag ∧
    d.encode vm = .ok (unknown w).bytes

/-- A record of an unknown tag, anywhere in a section of acceptable records, survives parsing
exactly when the low 32 bits of its tag name no class either, the text that is logged for it
fits a `String`, and it is not an empty record at the very end of a `ByteArrayInputStream`. -/
theorem survives_iff (vm : Jvm) (crypto : Crypto) (s : InputStream) (pre : List WireDescriptor)
    (w : Wire.Unknown) (post : List WireDescriptor) (r : Bytes)
    (hrest : s.rest = sectionBytes (pre ++ unknown w :: post) ++ r)
    (hpre : ∀ v ∈ pre, v.Readable vm) (hpost : ∀ v ∈ post, v.Readable vm)
    (hend : EndsReadable s.kind post r) (hcount : (pre ++ unknown w :: post).length ≤ intMax)
    (hsize : w.data.length < 2 ^ 31) :
    Survives vm crypto s pre w post ↔
      5 ≤ w.tag.toUInt32.toNat ∧ UnknownDescriptor.textLength w.tag w.data.length ≤ intMax ∧
        ¬ (w.data = [] ∧ post = [] ∧ s.kind = .byteArray ∧ r = []) := by
  have hmax : intMax = 2 ^ 31 - 1 := rfl
  have hne : pre ++ unknown w :: post ≠ [] := by simp
  have hbody : ∀ v ∈ pre ++ unknown w :: post, v.body.length ≤ intMax := by
    intro v hv
    rcases List.mem_append.mp hv with hv | hv
    · exact length_body_le_of_readable (hpre v hv)
    · rcases List.mem_cons.mp hv with rfl | hv
      · show w.data.length ≤ intMax
        omega
      · exact length_body_le_of_readable (hpost v hv)
  have htotal : (sectionBytes (pre ++ unknown w :: post)).length < 2 ^ 63 := by
    have hle := length_sectionBytes_le hbody
    have hmul := Nat.mul_le_mul_right (16 + intMax) hcount
    rw [hmax] at hle hmul
    omega
  have hends : EndsReadable s.kind (pre ++ unknown w :: post) r ↔
      ¬ (w.data = [] ∧ post = [] ∧ s.kind = .byteArray ∧ r = []) := by
    have hlast : (pre ++ unknown w :: post).getLast? = (unknown w :: post).getLast? := by
      rw [List.getLast?_append_of_ne_nil pre (List.cons_ne_nil _ post)]
    unfold EndsReadable at hend ⊢
    rw [hlast]
    by_cases hnil : post = []
    · subst hnil
      constructor
      · rintro h ⟨hdata, -, hkind, hr⟩
        exact h hkind hr (unknown w) rfl hdata
      · intro h hkind hr v hv hbare
        obtain rfl : unknown w = v := Option.some.inj hv
        exact h ⟨hbare, rfl, hkind, hr⟩
    · rw [List.getLast?_cons_of_ne_nil hnil]
      exact iff_of_true hend (fun h => hnil h.2.1)
  have hreadable : (∀ v ∈ pre ++ unknown w :: post, v.Readable vm) ↔
      (unknown w).Readable vm := by
    simp only [List.forall_mem_append, List.forall_mem_cons]
    exact ⟨fun h => h.2.1, fun h => ⟨hpre, h, hpost⟩⟩
  unfold Survives
  simp only [parseDescriptors2_section_iff hne hrest hbody htotal, hends, hreadable]
  constructor
  · rintro ⟨ds, d, ⟨hread, hlast, -, -⟩, -⟩
    exact ⟨hread.2.1, hread.2.2, hlast⟩
  · rintro ⟨htag, hprint, hlast⟩
    obtain ⟨seq, hseq⟩ := getElem?_decodedFrom crypto 0 pre (unknown w) post
    have hread : (unknown w).Readable vm := ⟨fun h => h.2, htag, hprint⟩
    have hlen := length_bytes_of_printable hread.2.2
    refine ⟨_, _, ⟨hread, hlast, hcount, rfl⟩, hseq, rfl, ?_⟩
    exact encode_raw vm hlen seq

/-- A record of a vendor's tag between a property and the end of a file. -/
theorem survives_iff_applies :
    let vm : Jvm := ⟨true, .littleEndian⟩
    let crypto : Crypto := ⟨fun _ _ => [], fun _ => .error .io, fun _ => .error .io,
      fun _ _ => .error .io, zeros⟩
    let pre : List WireDescriptor := [.property ⟨[0x61], [0x62]⟩]
    let w : Wire.Unknown := ⟨77, zeros 8, by decide⟩
    let s : InputStream := .fileInputStream (sectionBytes (pre ++ [unknown w]))
    Survives vm crypto s pre w [] ↔
      5 ≤ w.tag.toUInt32.toNat ∧ UnknownDescriptor.textLength w.tag w.data.length ≤ intMax ∧
        ¬ (w.data = [] ∧ ([] : List WireDescriptor) = [] ∧ s.kind = .byteArray ∧
          ([] : Bytes) = []) := by
  intro vm crypto pre w s
  refine survives_iff vm crypto s pre w [] [] (by rw [List.append_nil]; rfl) ?_ (by simp)
    (fun hkind => by cases hkind) (by decide) (by decide)
  intro v hv
  obtain rfl := List.mem_singleton.mp hv
  exact ⟨by decide, trivial, by decide +kernel⟩

/-- The tag `2^32` is taken for the tag of a property, whose constructor refuses it. -/
theorem survives_two_pow_32 :
    let vm : Jvm := ⟨false, .littleEndian⟩
    let crypto : Crypto := ⟨fun _ _ => [], fun _ => .error .io, fun _ => .error .io,
      fun _ _ => .error .io, zeros⟩
    let w : Wire.Unknown := ⟨4294967296, zeros 8, by decide⟩
    ¬ Survives vm crypto (.fileInputStream (sectionBytes [unknown w])) [] w [] := by
  rintro vm crypto w ⟨ds, d, hds, -⟩
  obtain ⟨hread, -⟩ := (parseDescriptors2_section_iff (r := []) (by simp) (by simp) (by decide)
    (by decide)).mp hds
  have htag : 5 ≤ w.tag.toUInt32.toNat := (hread (unknown w) (by simp)).2.1
  exact absurd htag (by decide)

end WireDescriptor

end Avb

end BootImageEditor
