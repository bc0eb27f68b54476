import BootImageEditor.Avb.Blob

/-!
# Descriptor sections

`parseDescriptors2` cuts a section into its records, and `encodeDescriptors` writes
the descriptors of the six lists one after the other, in the order of their
sequence numbers. Both are described over whole sections: what parsing a
section yields, and which bytes a list of descriptors is encoded to.
-/

namespace BootImageEditor

open Codec Fallible Struct3 Helper

namespace Avb

namespace UnknownDescriptor

/-- The length of the text `toString()` makes. -/
def textLength (tag : UInt64) (size : ℕ) : ℕ :=
  36 + (decimal tag.toNat).length + (decimal size).length + 2 * size

theorem toString_eq_ok_iff {d : UnknownDescriptor} {text : KString} :
    d.toString = .ok text ↔ textLength d.tag d.data.length ≤ intMax ∧
      text = units "UnknownDescriptor(tag=" ++ decimal d.tag.toNat ++ units ", SIZE=" ++
        decimal d.data.length ++ units ", data=" ++ toHexString d.data := by
  have hlen : (units "UnknownDescriptor(tag=" ++ decimal d.tag.toNat ++ units ", SIZE=" ++
      decimal d.data.length ++ units ", data=" ++ toHexString d.data).length =
        textLength d.tag d.data.length := by
    have htag : (units "UnknownDescriptor(tag=").length = 22 := rfl
    have hsize : (units ", SIZE=").length = 7 := rfl
    have hdata : (units ", data=").length = 7 := rfl
    simp only [List.length_append, htag, hsize, hdata, length_toHexString, textLength]
    omega
  unfold toString
  simp only [hlen]
  by_cases h : textLength d.tag d.data.length ≤ intMax
  · rw [if_pos h, Except.ok.injEq, eq_comm]
    exact (and_iff_right h).symm
  · rw [if_neg h]
    exact Iff.intro (fun h' => by cases h') (fun h' => absurd h'.1 h)

/-- A record whose text fits a `String` has less than `2^30` bytes of payload. -/
theorem size_lt_of_textLength {tag : UInt64} {size : ℕ} (h : textLength tag size ≤ intMax) :
    size < 2 ^ 30 := by
  unfold textLength intMax at h
  omega

end UnknownDescriptor

namespace WireDescriptor

/-! ## One record -/

/-- The object a record stands for, at a place of the section. -/
def decoded (crypto : Crypto) (seq : Int32) : WireDescriptor → AnyDescriptor
  | property w => .property (w.decoded seq)
  | hashTree w => .hashTree (w.decoded seq)
  | hash w => .hash (w.decoded seq)
  | kernelCmdline w => .kernelCmdline (w.decoded seq)
  | chainPartition w => .chainPartition (w.decoded crypto seq)
  | unknown w => .unknown
      { tag := w.tag, numBytesFollowing := UInt64.ofNat w.data.length, sequence := seq,
        data := w.data }

@[simp] theorem sequence_decoded (crypto : Crypto) (seq : Int32) (w : WireDescriptor) :
    (w.decoded crypto seq).sequence = seq := by
  cases w <;> rfl

/-- The record ends in an empty array or text, without padding after it. -/
def EndsBare : WireDescriptor → Prop
  | property _ => False
  | hashTree w => w.EndsBare
  | hash w => w.EndsBare
  | kernelCmdline w => w.EndsBare
  | chainPartition w => w.EndsBare
  | unknown _ => False

instance (w : WireDescriptor) : Decidable w.EndsBare :=
  match w with
  | property _ => isFalse id
  | hashTree w => inferInstanceAs (Decidable w.EndsBare)
  | hash w => inferInstanceAs (Decidable w.EndsBare)
  | kernelCmdline w => inferInstanceAs (Decidable w.EndsBare)
  | chainPartition w => inferInstanceAs (Decidable w.EndsBare)
  | unknown _ => isFalse id

/-- The low 32 bits of the tag of an unknown record do not name a known class. -/
def TagOpaque : WireDescriptor → Prop
  | unknown w => 5 ≤ w.tag.toUInt32.toNat
  | _ => True

/-- The text that is logged for the record fits a `String`. -/
def Printable (w : WireDescriptor) : Prop :=
  UnknownDescriptor.textLength w.tag w.body.length ≤ intMax

instance (w : WireDescriptor) : Decidable w.Printable := inferInstanceAs (Decidable (_ ≤ _))

/-- Parsing the record succeeds. -/
def Readable (vm : Jvm) (w : WireDescriptor) : Prop :=
  ¬ (vm.assertionsEnabled = true ∧ w.EndsBare) ∧ w.TagOpaque ∧ w.Printable

/-- A record as `UnknownDescriptor` reads it. -/
def raw (seq : Int32) (w : WireDescriptor) : UnknownDescriptor :=
  { tag := w.tag
    numBytesFollowing := UInt64.ofNat w.body.length
    sequence := seq
    data := w.body }

end WireDescriptor

/-- The first fields of a record are its tag and its size. -/
theorem head_of_unpackFormat {vm : Jvm} {fmt : KString} {fs : List Format}
    (hnew : Struct3.new vm fmt = .ok ⟨.bigEndian, .one .ulong :: .one .ulong :: fs⟩)
    {s s' : InputStream} {tag nbf : UInt64} {r : Bytes}
    (hrest : s.rest = be 8 tag.toNat ++ (be 8 nbf.toNat ++ r)) {info : List Value}
    (h : unpackFormat vm fmt s = .ok (info, s')) : ∃ vs, info = .ulong tag :: .ulong nbf :: vs := by
  have hitem : ∀ {s : InputStream} {n : UInt64} {r : Bytes}, s.rest = be 8 n.toNat ++ r →
      unpackItem vm .bigEndian (.one .ulong) s = .ok (.ulong n, s.advance 8) := by
    intro s n r hrest
    rw [unpackItem_eq hrest (by simp) (fun h => by cases h), decodeItem_ulong,
      UInt64.ofNat_toNat, if_neg]
    · rfl
    · rintro ⟨-, hnil⟩
      have hlen := congrArg List.length (hrest.symm.trans hnil)
      simp at hlen
  have hnext : (s.advance 8).rest = be 8 nbf.toNat ++ r := by
    rw [InputStream.rest_advance, hrest]
    exact List.drop_left' (length_be 8 tag.toNat)
  rw [unpackFormat_eq hnew, unpack] at h
  simp only [unpackLoop, hitem hrest, hitem hnext, ok_bind] at h
  obtain ⟨⟨values, s₁⟩, hvalues, h⟩ := bind_eq_ok.mp h
  obtain ⟨⟨values', s₂⟩, -, hvalues⟩ := bind_eq_ok.mp hvalues
  cases hvalues
  cases h
  exact ⟨values', rfl⟩

/-- What a constructor has accepted is of its class, and it keeps tag, size and number. -/
theorem PropertyDescriptor.frame_of_ofStream {vm : Jvm} {s : InputStream}
    {tag nbf : UInt64} {r : Bytes} {seq : Int32} {d : PropertyDescriptor}
    (hrest : s.rest = be 8 tag.toNat ++ (be 8 nbf.toNat ++ r))
    (h : ofStream vm s seq = .ok d) : tag = 0 ∧ d.toDescriptor = ⟨tag, nbf, seq⟩ := by
  obtain ⟨⟨info, s₁⟩, hinfo, h⟩ := bind_eq_ok.mp h
  obtain ⟨vs, rfl⟩ := head_of_unpackFormat (new_formatString vm) hrest hinfo
  simp only at h
  split at h
  · next heq =>
      cases heq
      split at h
      · cases h
      · next hcheck =>
        obtain ⟨⟨info2, s₂⟩, -, h⟩ := bind_eq_ok.mp h
        simp only at h
        split at h
        · cases h
          exact ⟨not_not.mp (fun hne => hcheck (.inl hne)), rfl⟩
        · cases h
  · cases h

theorem HashTreeDescriptor.frame_of_ofStream {vm : Jvm} {s : InputStream}
    {tag nbf : UInt64} {r : Bytes} {seq : Int32} {d : HashTreeDescriptor}
    (hrest : s.rest = be 8 tag.toNat ++ (be 8 nbf.toNat ++ r))
    (h : ofStream vm s seq = .ok d) : tag = 1 ∧ d.toDescriptor = ⟨tag, nbf, seq⟩ := by
  obtain ⟨⟨info, s₁⟩, hinfo, h⟩ := bind_eq_ok.mp h
  obtain ⟨vs, rfl⟩ := head_of_unpackFormat (new_formatString vm) hrest hinfo
  simp only at h
  split at h
  · next heq =>
      cases heq
      split at h
      · cases h
      · next hcheck =>
        obtain ⟨⟨info2, s₂⟩, -, h⟩ := bind_eq_ok.mp h
        simp only at h
        split at h
        · cases h
          exact ⟨not_not.mp (fun hne => hcheck (.inl hne)), rfl⟩
        · cases h
  · cases h

theorem HashDescriptor.frame_of_ofStream {vm : Jvm} {s : InputStream}
    {tag nbf : UInt64} {r : Bytes} {seq : Int32} {d : HashDescriptor}
    (hrest : s.rest = be 8 tag.toNat ++ (be 8 nbf.toNat ++ r))
    (h : ofStream vm s seq = .ok d) : tag = 2 ∧ d.toDescriptor = ⟨tag, nbf, seq⟩ := by
  obtain ⟨⟨info, s₁⟩, hinfo, h⟩ := bind_eq_ok.mp h
  obtain ⟨vs, rfl⟩ := head_of_unpackFormat (new_formatString vm) hrest hinfo
  simp only at h
  split at h
  · next heq =>
      cases heq
      split at h
      · cases h
      · next hcheck =>
        obtain ⟨⟨info2, s₂⟩, -, h⟩ := bind_eq_ok.mp h
        obtain ⟨u, -, h⟩ := bind_eq_ok.mp h
        simp only at h
        split at h
        · cases h
          exact ⟨not_not.mp (fun hne => hcheck (.inl hne)), rfl⟩
        · cases h
  · cases h

theorem KernelCmdlineDescriptor.frame_of_ofStream {vm : Jvm} {s : InputStream}
    {tag nbf : UInt64} {r : Bytes} {seq : Int32} {d : KernelCmdlineDescriptor}
    (hrest : s.rest = be 8 tag.toNat ++ (be 8 nbf.toNat ++ r))
    (h : ofStream vm s seq = .ok d) : tag = 3 ∧ d.toDescriptor = ⟨tag, nbf, seq⟩ := by
  obtain ⟨⟨info, s₁⟩, hinfo, h⟩ := bind_eq_ok.mp h
  obtain ⟨vs, rfl⟩ := head_of_unpackFormat (new_formatString vm) hrest hinfo
  simp only at h
  split at h
  · next heq =>
      cases heq
      split at h
      · cases h
      · next hcheck =>
        obtain ⟨⟨info2, s₂⟩, -, h⟩ := bind_eq_ok.mp h
        simp only at h
        split at h
        · cases h
          exact ⟨not_not.mp (fun hne => hcheck (.inl hne)), rfl⟩
        · cases h
  · cases h

theorem ChainPartitionDescriptor.frame_of_ofStream {vm : Jvm} {crypto : Crypto} {s : InputStream}
    {tag nbf : UInt64} {r : Bytes} {seq : Int32} {d : ChainPartitionDescriptor}
    (hrest : s.rest = be 8 tag.toNat ++ (be 8 nbf.toNat ++ r))
    (h : ofStream vm crypto s seq = .ok d) : tag = 4 ∧ d.toDescriptor = ⟨tag, nbf, seq⟩ := by
  obtain ⟨st, -, h⟩ := bind_eq_ok.mp h
  split at h
  · cases h
  obtain ⟨⟨info, s₁⟩, hinfo, h⟩ := bind_eq_ok.mp h
  obtain ⟨vs, rfl⟩ := head_of_unpackFormat (Wire.ChainPartition.new_formatString vm) hrest hinfo
  simp only at h
  split at h
  · next heq =>
      cases heq
      split at h
      · cases h
      · next hcheck =>
        obtain ⟨⟨info2, s₂⟩, -, h⟩ := bind_eq_ok.mp h
        simp only at h
        split at h
        · cases h
          exact ⟨not_not.mp (fun hne => hcheck (.inl hne)), rfl⟩
        · cases h
  · cases h

namespace WireDescriptor

theorem layout_raw (seq : Int32) (w : WireDescriptor) : (w.raw seq).layout = w.bytes := by
  simp [UnknownDescriptor.layout, raw, bytes, Wire.record]

theorem length_bytes_of_printable {w : WireDescriptor} (h : w.Printable) :
    w.bytes.length ≤ intMax := by
  have hlt := UnknownDescriptor.size_lt_of_textLength h
  rw [length_bytes]
  unfold intMax
  omega

theorem encode_raw (vm : Jvm) {w : WireDescriptor} (h : w.bytes.length ≤ intMax) (seq : Int32) :
    (w.raw seq).encode vm = .ok w.bytes := by
  rw [UnknownDescriptor.encode_eq_ok_iff, layout_raw]
  exact ⟨h, rfl⟩

/-- A constructor that refuses records which end bare, followed by its case. -/
theorem guarded_eq_ok_iff {α : Type} {p : Prop} [Decidable p] {e : Throwable} {x : α}
    {f : α → AnyDescriptor} {d : AnyDescriptor} :
    ((if p then (.error e : Result α) else .ok x) >>= fun y => .ok (f y)) = .ok d ↔
      ¬ p ∧ d = f x := by
  by_cases hp : p
  · rw [if_pos hp, error_bind]
    exact Iff.intro (fun h => by cases h) (fun h => absurd hp h.1)
  · rw [if_neg hp, ok_bind, Except.ok.injEq, eq_comm]
    exact (and_iff_right hp).symm

section

variable {vm : Jvm} {crypto : Crypto} {seq : Int32}

theorem analyze_raw_property (w : Wire.Property) (h : (property w).bytes.length ≤ intMax) :
    ((property w).raw seq).analyze vm crypto = .ok (.property (w.decoded seq)) := by
  have hread := Wire.Property.ofStream_record vm w h seq
  have htag : ((property w).raw seq).tag.toUInt32.toNat = 0 := rfl
  simp only [UnknownDescriptor.analyze, htag, encode_raw vm h seq, ok_bind]
  exact bind_eq_ok.mpr ⟨_, hread, rfl⟩

theorem analyze_raw_hashTree (w : Wire.HashTree) (h : (hashTree w).bytes.length ≤ intMax) :
    ((hashTree w).raw seq).analyze vm crypto =
      ((if vm.assertionsEnabled = true ∧ w.EndsBare then .error .assertion
        else .ok (w.decoded seq)) >>= fun p => .ok (.hashTree p)) := by
  have hread := Wire.HashTree.ofStream_record vm w h seq
  have htag : ((hashTree w).raw seq).tag.toUInt32.toNat = 1 := rfl
  simp only [UnknownDescriptor.analyze, htag, encode_raw vm h seq, ok_bind]
  rw [← hread]
  rfl

theorem analyze_raw_hash (w : Wire.Hash) (h : (hash w).bytes.length ≤ intMax) :
    ((hash w).raw seq).analyze vm crypto =
      ((if vm.assertionsEnabled = true ∧ w.EndsBare then .error .assertion
        else .ok (w.decoded seq)) >>= fun p => .ok (.hash p)) := by
  have hread := Wire.Hash.ofStream_record vm w h seq
  have htag : ((hash w).raw seq).tag.toUInt32.toNat = 2 := rfl
  simp only [UnknownDescriptor.analyze, htag, encode_raw vm h seq, ok_bind]
  rw [← hread]
  rfl

theorem analyze_raw_kernelCmdline (w : Wire.KernelCmdline)
    (h : (kernelCmdline w).bytes.length ≤ intMax) :
    ((kernelCmdline w).raw seq).analyze vm crypto =
      ((if vm.assertionsEnabled = true ∧ w.EndsBare then .error .assertion
        else .ok (w.decoded seq)) >>= fun p => .ok (.kernelCmdline p)) := by
  have hread := Wire.KernelCmdline.ofStream_record vm w h seq
  have htag : ((kernelCmdline w).raw seq).tag.toUInt32.toNat = 3 := rfl
  simp only [UnknownDescriptor.analyze, htag, encode_raw vm h seq, ok_bind]
  rw [← hread]
  rfl

theorem analyze_raw_chainPartition (w : Wire.ChainPartition)
    (h : (chainPartition w).bytes.length ≤ intMax) :
    ((chainPartition w).raw seq).analyze vm crypto =
      ((if vm.assertionsEnabled = true ∧ w.EndsBare then .error .assertion
        else .ok (w.decoded crypto seq)) >>= fun p => .ok (.chainPartition p)) := by
  have hread := Wire.ChainPartition.ofStream_record vm crypto w h seq
  have htag : ((chainPartition w).raw seq).tag.toUInt32.toNat = 4 := rfl
  simp only [UnknownDescriptor.analyze, htag, encode_raw vm h seq, ok_bind]
  rw [← hread]
  rfl

/-- A class constructor sees the whole tag, not its low 32 bits, and refuses that of an unknown
record. -/
theorem five_le_of_analyze_raw {w : Wire.Unknown} (hprint : (unknown w).Printable)
    {d : AnyDescriptor} (hd : ((unknown w).raw seq).analyze vm crypto = .ok d) :
    5 ≤ w.tag.toUInt32.toNat := by
  have hencode := encode_raw vm (length_bytes_of_printable hprint) seq
  have htag : ((unknown w).raw seq).tag = w.tag := rfl
  have hge := w.tag_ge
  have hrest : (InputStream.byteArrayInputStream (unknown w).bytes).rest =
      be 8 w.tag.toNat ++ (be 8 (UInt64.ofNat w.data.length).toNat ++ w.data) := by
    have hlen : w.data.length < 2 ^ 64 := by
      have hlen' := UnknownDescriptor.size_lt_of_textLength hprint
      simp only [body] at hlen'
      omega
    rw [UInt64.toNat_ofNat_of_lt' hlen]
    simp [bytes, Wire.record, tag, body]
  have hno : ∀ (n : UInt64), n.toNat < 5 → w.tag ≠ n := by
    rintro n hn rfl
    omega
  unfold UnknownDescriptor.analyze at hd
  simp only [htag, hencode, ok_bind] at hd
  split at hd
  · obtain ⟨p, hp, -⟩ := bind_eq_ok.mp hd
    exact absurd (PropertyDescriptor.frame_of_ofStream hrest hp).1 (hno 0 (by decide))
  · obtain ⟨p, hp, -⟩ := bind_eq_ok.mp hd
    exact absurd (HashTreeDescriptor.frame_of_ofStream hrest hp).1 (hno 1 (by decide))
  · obtain ⟨p, hp, -⟩ := bind_eq_ok.mp hd
    exact absurd (HashDescriptor.frame_of_ofStream hrest hp).1 (hno 2 (by decide))
  · obtain ⟨p, hp, -⟩ := bind_eq_ok.mp hd
    exact absurd (KernelCmdlineDescriptor.frame_of_ofStream hrest hp).1 (hno 3 (by decide))
  · obtain ⟨p, hp, -⟩ := bind_eq_ok.mp hd
    exact absurd (ChainPartitionDescriptor.frame_of_ofStream hrest hp).1 (hno 4 (by decide))
  · next h0 h1 h2 h3 h4 =>
      by_contra hlt
      have hcases : w.tag.toUInt32.toNat = 0 ∨ w.tag.toUInt32.toNat = 1 ∨
          w.tag.toUInt32.toNat = 2 ∨ w.tag.toUInt32.toNat = 3 ∨
          w.tag.toUInt32.toNat = 4 := by omega
      rcases hcases with h' | h' | h' | h' | h'
      · exact h0 h'
      · exact h1 h'
      · exact h2 h'
      · exact h3 h'
      · exact h4 h'

theorem analyze_raw_unknown {w : Wire.Unknown} (hlow : 5 ≤ w.tag.toUInt32.toNat) :
    ((unknown w).raw seq).analyze vm crypto = .ok (.unknown ((unknown w).raw seq)) := by
  have htag : ((unknown w).raw seq).tag = w.tag := rfl
  unfold UnknownDescriptor.analyze
  simp only [htag]
  split
  · omega
  · omega
  · omega
  · omega
  · omega
  · rfl

/-- Reading a record again as the class its tag names. -/
theorem analyze_raw_eq_ok_iff {w : WireDescriptor} (hprint : w.Printable) {d : AnyDescriptor} :
    (w.raw seq).analyze vm crypto = .ok d ↔ w.Readable vm ∧ d = w.decoded crypto seq := by
  have h := length_bytes_of_printable hprint
  have hreadable : w.Readable vm ↔
      ¬ (vm.assertionsEnabled = true ∧ w.EndsBare) ∧ w.TagOpaque := by
    unfold Readable
    rw [← and_assoc, and_iff_left hprint]
  rw [hreadable]
  cases w with
  | property w =>
      rw [analyze_raw_property w h, Except.ok.injEq, eq_comm]
      simp [EndsBare, TagOpaque, decoded]
  | hashTree w =>
      rw [analyze_raw_hashTree w h, guarded_eq_ok_iff]
      simp [EndsBare, TagOpaque, decoded]
  | hash w =>
      rw [analyze_raw_hash w h, guarded_eq_ok_iff]
      simp [EndsBare, TagOpaque, decoded]
  | kernelCmdline w =>
      rw [analyze_raw_kernelCmdline w h, guarded_eq_ok_iff]
      simp [EndsBare, TagOpaque, decoded]
  | chainPartition w =>
      rw [analyze_raw_chainPartition w h, guarded_eq_ok_iff]
      simp [EndsBare, TagOpaque, decoded]
  | unknown w =>
      simp only [EndsBare, TagOpaque, and_false, not_false_eq_true, true_and]
      constructor
      · intro hd
        have hlow := five_le_of_analyze_raw hprint hd
        rw [analyze_raw_unknown hlow] at hd
        exact ⟨hlow, (Except.ok.inj hd).symm⟩
      · rintro ⟨hlow, rfl⟩
        exact analyze_raw_unknown hlow

end

/-- The count of a size field below the limit of arrays. -/
theorem toInt_size {n : ℕ} (h : n ≤ intMax) :
    (UInt64.ofNat n).toUInt32.toInt32.toInt = n := by
  rw [UInt64.toUInt32_ofNat', UInt32.toInt32_ofNat']
  exact toInt_int32_ofNat h

/-- `UnknownDescriptor(stream, seq)` takes one record. -/
theorem ofStream_bytes {vm : Jvm} {w : WireDescriptor} (h : w.body.length ≤ intMax)
    {s : InputStream} {r : Bytes} (hrest : s.rest = w.bytes ++ r) (seq : Int32) :
    UnknownDescriptor.ofStream vm s seq =
      if w.body = [] ∧ s.kind = .byteArray ∧ r = [] then
        .error (.illegalArgument "descriptor SIZE mismatch")
      else .ok (w.raw seq, s.advance w.bytes.length) := by
  rw [length_bytes]
  have hbytes : w.bytes ++ r = [be 8 w.tag.toNat, be 8 w.body.length].flatten ++ (w.body ++ r) := by
    simp [bytes, Wire.record]
  have hinfo := unpackFormat_fields [be 8 w.tag.toNat, be 8 w.body.length]
    (UnknownDescriptor.new_formatString vm) (by simp) (by decide) (hrest.trans hbytes)
    (fun hx => absurd hx.2.2 (by decide))
  have hnext : (s.advance 16).rest = w.body ++ r := by
    rw [InputStream.rest_advance, hrest, hbytes]
    exact List.drop_left' (by simp)
  have hsize : formatsSize [Format.one .ulong, Format.one .ulong] = 16 := rfl
  have hcount := toInt_size h
  unfold UnknownDescriptor.ofStream
  rw [hinfo, ok_bind, hsize]
  simp only [List.zipWith_cons_cons, List.zipWith_nil_left, decodeItem_ulong,
    UInt64.ofNat_toNat, hcount, Int.toNat_natCast]
  rw [if_neg (by omega), InputStream.read_available hnext]
  by_cases hend : w.body = [] ∧ s.kind = .byteArray ∧ r = []
  · rw [if_pos hend]
    have hend' : w.body = [] ∧ (s.advance 16).kind = .byteArray ∧ r = [] := hend
    rw [if_pos hend']
    simp only
    rw [if_pos (by omega)]
    rfl
  · rw [if_neg hend]
    have hend' : ¬ (w.body = [] ∧ (s.advance 16).kind = .byteArray ∧ r = []) := hend
    rw [if_neg hend']
    simp only [InputStream.advance_advance]
    rw [if_neg (by simp)]
    rfl

/-! ## A whole section -/

/-- What the records of a section stand for, numbered from `seq + 1` on. -/
def decodedFrom (crypto : Crypto) : Int32 → List WireDescriptor → List AnyDescriptor
  | _, [] => []
  | seq, w :: ws => w.decoded crypto (seq + 1) :: decodedFrom crypto (seq + 1) ws

theorem toInt_succ {seq : Int32} (h : seq.toInt < intMax) : (seq + 1).toInt = seq.toInt + 1 := by
  have hlow := seq.le_toInt
  have hone : (1 : Int32).toInt = 1 := rfl
  unfold intMax at h
  rw [Int32.toInt_add, hone]
  exact Int.bmod_eq_of_le (by omega) (by omega)

/-- The numbers go up, as long as they are numbers of an `Int`. -/
theorem sequence_of_mem_decodedFrom {crypto : Crypto} {ws : List WireDescriptor} {seq : Int32}
    (h : seq.toInt + ws.length ≤ intMax) {d : AnyDescriptor}
    (hd : d ∈ decodedFrom crypto seq ws) : seq.toInt < d.sequence.toInt := by
  induction ws generalizing seq with
  | nil => cases hd
  | cons w ws ih =>
      rw [List.length_cons] at h
      have hnext : (seq + 1).toInt = seq.toInt + 1 := toInt_succ (by push_cast at h; omega)
      rcases List.mem_cons.mp hd with rfl | hd
      · rw [sequence_decoded, hnext]
        omega
      · have hlt := ih (by rw [hnext]; push_cast at h; omega) hd
        omega

theorem pairwise_decodedFrom {crypto : Crypto} {ws : List WireDescriptor} {seq : Int32}
    (h : seq.toInt + ws.length ≤ intMax) :
    (decodedFrom crypto seq ws).Pairwise (fun a b => a.sequence.toInt < b.sequence.toInt) := by
  induction ws generalizing seq with
  | nil => exact List.Pairwise.nil
  | cons w ws ih =>
      rw [List.length_cons] at h
      have hnext : (seq + 1).toInt = seq.toInt + 1 := toInt_succ (by push_cast at h; omega)
      have hrest : (seq + 1).toInt + ws.length ≤ intMax := by
        rw [hnext]
        push_cast at h
        omega
      refine List.pairwise_cons.mpr ⟨?_, ih hrest⟩
      intro d hd
      rw [sequence_decoded]
      exact sequence_of_mem_decodedFrom hrest hd

theorem length_bytes_ge (w : WireDescriptor) : 16 ≤ w.bytes.length := by
  rw [length_bytes]
  omega

@[simp] theorem sectionBytes_nil : sectionBytes [] = [] := rfl

@[simp] theorem sectionBytes_cons (w : WireDescriptor) (ws : List WireDescriptor) :
    sectionBytes (w :: ws) = w.bytes ++ sectionBytes ws := List.flatMap_cons

/-- Every record takes at least sixteen bytes. -/
theorem length_sectionBytes_ge (ws : List WireDescriptor) :
    16 * ws.length ≤ (sectionBytes ws).length := by
  induction ws with
  | nil => simp
  | cons w ws ih =>
      have hw := w.length_bytes_ge
      rw [sectionBytes_cons, List.length_append, List.length_cons]
      omega

theorem sectionBytes_eq_nil_iff {ws : List WireDescriptor} : sectionBytes ws = [] ↔ ws = [] := by
  constructor
  · intro h
    have hlen := length_sectionBytes_ge ws
    rw [h, List.length_nil] at hlen
    exact List.length_eq_zero_iff.mp (by omega)
  · rintro rfl
    rfl

/-- The size of the section read so far, after one more record. -/
theorem nextSize_eq {w : WireDescriptor} {cur : ℕ} (h : w.bytes.length ≤ intMax)
    (seq : Int32) :
    UnknownDescriptor.nextSize (Int64.ofNat cur) (w.raw seq) =
      Int64.ofNat (cur + w.bytes.length) := by
  rw [length_bytes] at h ⊢
  have hsum : int32Size (w.raw seq).data + 16 = Int32.ofNat (16 + w.body.length) := by
    rw [Int32.ofNat_add]
    exact Int32.add_comm _ _
  have hlong : (Int32.ofNat (16 + w.body.length)).toInt64 = Int64.ofNat (16 + w.body.length) := by
    apply Int64.toInt_inj.mp
    rw [Int32.toInt_toInt64, toInt_int32_ofNat h,
      Int64.toInt_ofNat_of_lt (by unfold intMax at h; omega)]
  rw [UnknownDescriptor.nextSize, hsum, hlong, Int64.ofNat_add cur]

end WireDescriptor

namespace UnknownDescriptor

theorem addTo_eq_ok_iff {α : Type} {ret ret' : List α} {x : α} :
    addTo ret x = .ok ret' ↔ ret.length < intMax ∧ ret' = ret ++ [x] := by
  unfold addTo
  by_cases h : ret.length < intMax
  · rw [if_pos h, Except.ok.injEq, eq_comm]
    exact (and_iff_right h).symm
  · rw [if_neg h]
    exact Iff.intro (fun h' => by cases h') (fun h' => absurd h'.1 h)

/-- What a turn of `parseDescriptors2` that does not fail has done. -/
theorem parseTurn2_eq_ok_iff {vm : Jvm} {crypto : Crypto} {totalSize : Int64} {l : ParseState2}
    {t : Turn ParseState2 (List AnyDescriptor × InputStream)} :
    parseTurn2 vm crypto totalSize l = .ok t ↔
      ∃ desc stream d, ofStream vm l.stream (l.seq + 1) = .ok (desc, stream) ∧
        textLength desc.tag desc.data.length ≤ intMax ∧ desc.analyze vm crypto = .ok d ∧
        l.ret.length < intMax ∧
        if nextSize l.currentSize desc = totalSize then t = .done (l.ret ++ [d], stream)
        else nextSize l.currentSize desc < totalSize ∧
          t = .next ⟨⟨stream, l.ret ++ [d], nextSize l.currentSize desc⟩, l.seq + 1⟩ := by
  constructor
  · intro h
    obtain ⟨⟨desc, stream⟩, hdesc, h⟩ := bind_eq_ok.mp h
    obtain ⟨text, htext, h⟩ := bind_eq_ok.mp h
    obtain ⟨d, hd, h⟩ := bind_eq_ok.mp h
    obtain ⟨ret, hret, h⟩ := bind_eq_ok.mp h
    obtain ⟨hroom, rfl⟩ := addTo_eq_ok_iff.mp hret
    refine ⟨desc, stream, d, hdesc, (toString_eq_ok_iff.mp htext).1, hd, hroom, ?_⟩
    by_cases heq : nextSize l.currentSize desc = totalSize
    · rw [if_pos heq] at h ⊢
      cases h
      rfl
    · rw [if_neg heq] at h ⊢
      by_cases hlt : totalSize < nextSize l.currentSize desc
      · rw [if_pos hlt] at h
        cases h
      · rw [if_neg hlt] at h
        cases h
        exact ⟨Int64.lt_of_le_of_ne (Int64.not_lt.mp hlt) heq, rfl⟩
  · rintro ⟨desc, stream, d, hdesc, htext, hd, hroom, h⟩
    unfold parseTurn2
    simp only [hdesc, ok_bind, toString_eq_ok_iff.mpr ⟨htext, rfl⟩, hd,
      addTo_eq_ok_iff.mpr ⟨hroom, rfl⟩]
    by_cases heq : nextSize l.currentSize desc = totalSize
    · rw [if_pos heq] at h ⊢
      rw [h]
    · rw [if_neg heq] at h ⊢
      rw [if_neg (Int64.lt_asymm h.1), h.2]

/-- `parseDescriptors2` returns what its loop returns. -/
theorem parseDescriptors2_eq_ok_iff {vm : Jvm} {crypto : Crypto} {s : InputStream}
    {totalSize : Int64} {ds : List AnyDescriptor} :
    parseDescriptors2 vm crypto s totalSize = .ok ds ↔
      ∃ s', runTurns (parseTurn2 vm crypto totalSize) (intMax + 1) ⟨⟨s, [], 0⟩, 0⟩ =
        some (.ok (ds, s')) := by
  unfold parseDescriptors2 parseLoop2
  cases hrun : runTurns (parseTurn2 vm crypto totalSize) (intMax + 1) ⟨⟨s, [], 0⟩, 0⟩ with
  | none => simp
  | some r =>
      cases r with
      | error e => simp
      | ok p =>
          obtain ⟨ds', s'⟩ := p
          simp

end UnknownDescriptor

namespace WireDescriptor

/-- One turn of the loop, at a record with `n` bytes of the section after it. -/
theorem parseTurn2_bytes {vm : Jvm} {crypto : Crypto} {w : WireDescriptor} {s : InputStream}
    {r : Bytes} {cur n : ℕ} {seq : Int32} {ret : List AnyDescriptor}
    {t : Turn UnknownDescriptor.ParseState2 (List AnyDescriptor × InputStream)}
    (hrest : s.rest = w.bytes ++ r) (hbody : w.body.length ≤ intMax)
    (h : cur + w.bytes.length + n < 2 ^ 63) :
    UnknownDescriptor.parseTurn2 vm crypto (Int64.ofNat (cur + w.bytes.length + n))
        ⟨⟨s, ret, Int64.ofNat cur⟩, seq⟩ = .ok t ↔
      ¬ (w.body = [] ∧ s.kind = .byteArray ∧ r = []) ∧ w.Readable vm ∧ ret.length < intMax ∧
      t = if n = 0 then .done (ret ++ [w.decoded crypto (seq + 1)], s.advance w.bytes.length)
        else .next ⟨⟨s.advance w.bytes.length, ret ++ [w.decoded crypto (seq + 1)],
          Int64.ofNat (cur + w.bytes.length)⟩, seq + 1⟩ := by
  have hlt : n ≠ 0 →
      Int64.ofNat (cur + w.bytes.length) < Int64.ofNat (cur + w.bytes.length + n) := by
    intro hn
    rw [Int64.lt_iff_toInt_lt, Int64.toInt_ofNat_of_lt (by omega),
      Int64.toInt_ofNat_of_lt (by omega)]
    omega
  have heq : Int64.ofNat (cur + w.bytes.length) = Int64.ofNat (cur + w.bytes.length + n) ↔
      n = 0 := by
    rw [← Int64.toInt_inj, Int64.toInt_ofNat_of_lt (by omega),
      Int64.toInt_ofNat_of_lt (by omega)]
    omega
  rw [UnknownDescriptor.parseTurn2_eq_ok_iff]
  simp only [ofStream_bytes hbody hrest]
  by_cases hend : w.body = [] ∧ s.kind = .byteArray ∧ r = []
  · simp only [if_pos hend]
    constructor
    · rintro ⟨desc, stream, d, hdesc, -⟩
      cases hdesc
    · intro h'
      exact absurd hend h'.1
  · simp only [if_neg hend]
    rw [and_iff_right hend]
    constructor
    · rintro ⟨desc, stream, d, hdesc, hprint, hd, hroom, ht⟩
      cases hdesc
      obtain ⟨hread, rfl⟩ := (analyze_raw_eq_ok_iff hprint).mp hd
      rw [nextSize_eq (length_bytes_of_printable hprint)] at ht
      simp only [heq] at ht
      refine ⟨hread, hroom, ?_⟩
      by_cases hn : n = 0
      · rw [if_pos hn] at ht ⊢
        exact ht
      · rw [if_neg hn] at ht ⊢
        exact ht.2
    · rintro ⟨hread, hroom, ht⟩
      have hprint : w.Printable := hread.2.2
      refine ⟨w.raw (seq + 1), _, w.decoded crypto (seq + 1), rfl, hprint,
        (analyze_raw_eq_ok_iff hprint).mpr ⟨hread, rfl⟩, hroom, ?_⟩
      rw [nextSize_eq (length_bytes_of_printable hprint)]
      simp only [heq]
      by_cases hn : n = 0
      · rw [if_pos hn] at ht ⊢
        exact ht
      · rw [if_neg hn] at ht ⊢
        exact ⟨hlt hn, ht⟩

/-- The bytes after a section let its last record be read from a byte array. -/
def EndsReadable (kind : StreamKind) (ws : List WireDescriptor) (r : Bytes) : Prop :=
  kind = .byteArray → r = [] → ∀ w ∈ ws.getLast?, w.body ≠ []

theorem endsReadable_cons_iff {kind : StreamKind} {w : WireDescriptor}
    {ws : List WireDescriptor} {r : Bytes} (hws : ws ≠ []) :
    EndsReadable kind (w :: ws) r ↔ EndsReadable kind ws r := by
  unfold EndsReadable
  rw [List.getLast?_cons_of_ne_nil hws]

theorem endsReadable_singleton_iff {kind : StreamKind} {w : WireDescriptor} {r : Bytes} :
    EndsReadable kind [w] r ↔ ¬ (w.body = [] ∧ kind = .byteArray ∧ r = []) := by
  unfold EndsReadable
  constructor
  · rintro h ⟨hnil, hkind, hr⟩
    exact h hkind hr w rfl hnil
  · intro h hkind hr v hv hnil
    obtain rfl : w = v := Option.some.inj hv
    exact h ⟨hnil, hkind, hr⟩

/-- Parsing a section, where it succeeds, yields what its records stand for. -/
theorem runTurns_sound {vm : Jvm} {crypto : Crypto} {ws : List WireDescriptor} (hne : ws ≠ [])
    {s s' : InputStream} {r : Bytes} {cur turns : ℕ} {seq : Int32} {ret ds : List AnyDescriptor}
    (hrest : s.rest = sectionBytes ws ++ r) (hbody : ∀ w ∈ ws, w.body.length ≤ intMax)
    (h : cur + (sectionBytes ws).length < 2 ^ 63)
    (hds : runTurns (UnknownDescriptor.parseTurn2 vm crypto
        (Int64.ofNat (cur + (sectionBytes ws).length))) turns
      ⟨⟨s, ret, Int64.ofNat cur⟩, seq⟩ = some (.ok (ds, s'))) :
    (∀ w ∈ ws, w.Readable vm) ∧ EndsReadable s.kind ws r ∧ ret.length + ws.length ≤ intMax ∧
      ds = ret ++ decodedFrom crypto seq ws ∧
      s' = s.advance (sectionBytes ws).length := by
  induction ws generalizing s cur turns seq ret with
  | nil => exact absurd rfl hne
  | cons w ws ih =>
      rw [sectionBytes_cons, List.append_assoc] at hrest
      rw [sectionBytes_cons, List.length_append, ← Nat.add_assoc] at h hds
      rw [sectionBytes_cons, List.length_append]
      rw [List.forall_mem_cons] at hbody ⊢
      cases turns with
      | zero => cases hds
      | succ turns =>
          rw [runTurns_succ_eq_ok_iff] at hds
          simp only [parseTurn2_bytes hrest hbody.1 h] at hds
          by_cases hn : (sectionBytes ws).length = 0
          · obtain rfl := sectionBytes_eq_nil_iff.mp (List.length_eq_zero_iff.mp hn)
            simp only [if_pos hn] at hds
            rw [sectionBytes_nil, List.nil_append] at hds
            rcases hds with ⟨hend, hread, hroom, ht⟩ | ⟨l, ⟨-, -, -, ht⟩, -⟩
            · cases ht
              exact ⟨⟨hread, by simp⟩, endsReadable_singleton_iff.mpr hend, hroom, rfl, rfl⟩
            · cases ht
          · simp only [if_neg hn] at hds
            rcases hds with ⟨-, -, -, ht⟩ | ⟨l, ⟨-, hread, -, ht⟩, hrun⟩
            · cases ht
            · cases ht
              have hws : ws ≠ [] := fun h' => hn (by rw [h']; rfl)
              obtain ⟨hall, hend, hroom, hdec, hstream⟩ :=
                ih hws (InputStream.rest_advance_of_append hrest) hbody.2 h hrun
              rw [List.length_append, List.length_singleton] at hroom
              refine ⟨⟨hread, hall⟩, (endsReadable_cons_iff hws).mpr hend,
                by rw [List.length_cons]; omega, ?_, ?_⟩
              · rw [hdec, List.append_assoc]
                rfl
              · rw [hstream, InputStream.advance_advance]

/-- A section of readable records is parsed. -/
theorem runTurns_complete {vm : Jvm} {crypto : Crypto} {ws : List WireDescriptor}
    (hne : ws ≠ []) (hread : ∀ w ∈ ws, w.Readable vm) {s : InputStream}
    {r : Bytes} {cur turns : ℕ} {seq : Int32} {ret : List AnyDescriptor}
    (hend : EndsReadable s.kind ws r) (hturns : ws.length ≤ turns)
    (hroom : ret.length + ws.length ≤ intMax)
    (hrest : s.rest = sectionBytes ws ++ r) (h : cur + (sectionBytes ws).length < 2 ^ 63) :
    runTurns (UnknownDescriptor.parseTurn2 vm crypto
        (Int64.ofNat (cur + (sectionBytes ws).length))) turns
      ⟨⟨s, ret, Int64.ofNat cur⟩, seq⟩ =
        some (.ok (ret ++ decodedFrom crypto seq ws, s.advance (sectionBytes ws).length)) := by
  induction ws generalizing s cur turns seq ret with
  | nil => exact absurd rfl hne
  | cons w ws ih =>
      rw [sectionBytes_cons, List.append_assoc] at hrest
      rw [sectionBytes_cons, List.length_append, ← Nat.add_assoc] at h ⊢
      rw [List.forall_mem_cons] at hread
      have hbody : w.body.length ≤ intMax := by
        have hlen := length_bytes_of_printable hread.1.2.2
        rw [length_bytes] at hlen
        omega
      cases turns with
      | zero => simp at hturns
      | succ turns =>
          rw [List.length_cons] at hturns hroom
          rw [runTurns_succ_eq_ok_iff]
          simp only [parseTurn2_bytes hrest hbody h]
          by_cases hn : (sectionBytes ws).length = 0
          · obtain rfl := sectionBytes_eq_nil_iff.mp (List.length_eq_zero_iff.mp hn)
            left
            refine ⟨?_, hread.1, by omega, ?_⟩
            · rintro ⟨hnil, hkind, hr⟩
              rw [sectionBytes_nil, List.nil_append] at hr
              exact endsReadable_singleton_iff.mp hend ⟨hnil, hkind, hr⟩
            · rw [if_pos hn, hn, Nat.add_zero]
              rfl
          · right
            have hws : ws ≠ [] := fun h' => hn (by rw [h']; rfl)
            refine ⟨_, ⟨?_, hread.1, by omega, if_neg hn |>.symm⟩, ?_⟩
            · rintro ⟨-, -, hr⟩
              exact hn (by rw [(List.append_eq_nil_iff.mp hr).1]; rfl)
            · rw [ih hws hread.2 (s := s.advance w.bytes.length) 
                ((endsReadable_cons_iff hws).mp hend) (by omega)
                (by rw [List.length_append, List.length_singleton]; omega)
                (InputStream.rest_advance_of_append hrest) h, List.append_assoc,
                InputStream.advance_advance]
              rfl

/-- What a section stands for. -/
def decodedSection (crypto : Crypto) (ws : List WireDescriptor) : List AnyDescriptor :=
  decodedFrom crypto 0 ws

theorem length_body_le_of_mem {ws : List WireDescriptor} (h : (sectionBytes ws).length ≤ intMax)
    {w : WireDescriptor} (hw : w ∈ ws) : w.body.length ≤ intMax := by
  induction ws with
  | nil => cases hw
  | cons v ws ih =>
      rw [sectionBytes_cons, List.length_append] at h
      rcases List.mem_cons.mp hw with rfl | hw
      · rw [length_bytes] at h
        omega
      · exact ih (by omega) hw

/-- A section is accepted exactly when its records are readable, its end can be read and
the list can take them, and then it yields what the records stand for. -/
theorem parseDescriptors2_section_iff {vm : Jvm} {crypto : Crypto} {ws : List WireDescriptor}
    (hne : ws ≠ []) {s : InputStream} {r : Bytes} (hrest : s.rest = sectionBytes ws ++ r)
    (hbody : ∀ w ∈ ws, w.body.length ≤ intMax) (h : (sectionBytes ws).length < 2 ^ 63)
    {ds : List AnyDescriptor} :
    UnknownDescriptor.parseDescriptors2 vm crypto s (Int64.ofNat (sectionBytes ws).length) =
        .ok ds ↔
      (∀ w ∈ ws, w.Readable vm) ∧ EndsReadable s.kind ws r ∧ ws.length ≤ intMax ∧
        ds = decodedSection crypto ws := by
  rw [UnknownDescriptor.parseDescriptors2_eq_ok_iff]
  rw [← Nat.zero_add (sectionBytes ws).length] at h ⊢
  constructor
  · rintro ⟨s', hrun⟩
    obtain ⟨hread, hend, hcount, hdec, -⟩ := runTurns_sound hne hrest hbody h hrun
    exact ⟨hread, hend, by simpa using hcount, hdec⟩
  · rintro ⟨hread, hend, hcount, rfl⟩
    exact ⟨_, runTurns_complete hne hread hend (by omega) (by simpa using hcount)
      hrest h⟩

/-- A file that holds a section of readable records which fits an array. -/
theorem parseDescriptors2_file {vm : Jvm} {crypto : Crypto} {ws : List WireDescriptor}
    (hne : ws ≠ []) (hread : ∀ w ∈ ws, w.Readable vm) {s : InputStream} (hkind : s.kind = .file)
    {r : Bytes} (hrest : s.rest = sectionBytes ws ++ r)
    (h : (sectionBytes ws).length ≤ intMax) :
    UnknownDescriptor.parseDescriptors2 vm crypto s (Int64.ofNat (sectionBytes ws).length) =
      .ok (decodedSection crypto ws) := by
  have hge := length_sectionBytes_ge ws
  have hmax : intMax < 2 ^ 63 := by decide
  refine (parseDescriptors2_section_iff hne hrest (fun w hw => length_body_le_of_mem h hw)
    (by omega)).mpr ⟨hread, ?_, by omega, rfl⟩
  rw [hkind]
  intro hfile
  cases hfile

end WireDescriptor

/-! ## Encoding the lists -/

namespace AnyDescriptor

/-- The bytes of descriptors one after the other. -/
def layouts (ds : List AnyDescriptor) : Bytes := ds.flatMap layout

@[simp] theorem layouts_nil : layouts [] = [] := rfl

@[simp] theorem layouts_cons (d : AnyDescriptor) (ds : List AnyDescriptor) :
    layouts (d :: ds) = d.layout ++ layouts ds := List.flatMap_cons

end AnyDescriptor

namespace AuxBlob

theorem encodeLoop_eq_ok_iff {vm : Jvm} {ds : List AnyDescriptor} {ret bs : Bytes}
    (hret : ret.length ≤ intMax) :
    encodeLoop vm ds ret = .ok bs ↔ (∀ d ∈ ds, d.AlgorithmFits) ∧
      (ret ++ AnyDescriptor.layouts ds).length ≤ intMax ∧
      bs = ret ++ AnyDescriptor.layouts ds := by
  induction ds generalizing ret with
  | nil =>
      rw [encodeLoop, Except.ok.injEq, AnyDescriptor.layouts_nil, List.append_nil]
      exact ⟨fun h => ⟨by simp, hret, h.symm⟩, fun h => h.2.2.symm⟩
  | cons d ds ih =>
      rw [encodeLoop, AnyDescriptor.layouts_cons, List.forall_mem_cons]
      constructor
      · intro h
        obtain ⟨b, hb, h⟩ := bind_eq_ok.mp h
        obtain ⟨ret', hjoin, h⟩ := bind_eq_ok.mp h
        obtain ⟨hfits, -, hbd⟩ := AnyDescriptor.encode_eq_ok_iff.mp hb
        obtain ⟨hlen, hret'⟩ := join_eq_ok_iff.mp hjoin
        have hflat : [ret, b].flatten = ret ++ d.layout := by rw [hbd]; simp
        rw [hflat] at hlen hret'
        obtain ⟨hall, hle, hbs⟩ := (ih (hret' ▸ hlen)).mp h
        rw [hret', List.append_assoc] at hle hbs
        exact ⟨⟨hfits, hall⟩, hle, hbs⟩
      · rintro ⟨⟨hfits, hall⟩, hle, hbs⟩
        rw [← List.append_assoc] at hle hbs
        have hlen : (ret ++ d.layout).length ≤ intMax := by
          rw [List.length_append] at hle
          omega
        have hd : d.layout.length ≤ intMax := by
          rw [List.length_append] at hlen
          omega
        have hflat : [ret, d.layout].flatten = ret ++ d.layout := by simp
        have hjoin : join [ret, d.layout] = .ok (ret ++ d.layout) :=
          join_eq_ok_iff.mpr ⟨by rw [hflat]; exact hlen, hflat.symm⟩
        rw [AnyDescriptor.encode_eq_ok_iff.mpr ⟨hfits, hd, rfl⟩, ok_bind, hjoin, ok_bind]
        exact (ih hlen).mpr ⟨hall, hle, hbs⟩

/-- `encodeDescriptors()` writes the layouts in the order of the sequence
numbers, unless a name of a hash algorithm or the result is too long. -/
theorem encodeDescriptors_eq_ok_iff {vm : Jvm} {aux : AuxBlob} {bs : Bytes} :
    aux.encodeDescriptors vm = .ok bs ↔ (∀ d ∈ aux.descList, d.AlgorithmFits) ∧
      (AnyDescriptor.layouts aux.sortedDescriptors).length ≤ intMax ∧
      bs = AnyDescriptor.layouts aux.sortedDescriptors := by
  have hmem : (∀ d ∈ aux.sortedDescriptors, d.AlgorithmFits) ↔
      ∀ d ∈ aux.descList, d.AlgorithmFits := by
    simp only [sortedDescriptors, mem_sortBy]
  rw [encodeDescriptors, encodeLoop_eq_ok_iff (by simp [intMax]), hmem, List.nil_append]

/-- Distributing a descriptor adds it to the six lists. -/
theorem perm_descList_add (aux : AuxBlob) (d : AnyDescriptor) :
    (aux.add d).descList.Perm (d :: aux.descList) := by
  rw [List.perm_iff_count]
  intro a
  cases d <;> simp only [add, descList, List.map_append, List.map_cons, List.map_nil,
    List.count_append, List.count_cons, List.count_nil] <;> omega

theorem perm_descList_addAll (aux : AuxBlob) (ds : List AnyDescriptor) :
    (aux.addAll ds).descList.Perm (ds ++ aux.descList) := by
  induction ds generalizing aux with
  | nil => exact List.Perm.refl _
  | cons d ds ih =>
      have hadd : (aux.addAll (d :: ds)).descList.Perm (ds ++ (aux.add d).descList) :=
        ih (aux.add d)
      exact hadd.trans (((perm_descList_add aux d).append_left ds).trans List.perm_middle)

/-- Distributing descriptors with increasing numbers and sorting them again gives
the descriptors back. -/
theorem sortedDescriptors_addAll {ds : List AnyDescriptor}
    (h : ds.Pairwise (fun a b => a.sequence.toInt < b.sequence.toInt)) :
    (addAll {} ds).sortedDescriptors = ds := by
  have hperm := perm_descList_addAll {} ds
  have hnil : descList {} = [] := rfl
  rw [hnil, List.append_nil] at hperm
  exact sortBy_eq_of_perm hperm h

end AuxBlob

end Avb

end BootImageEditor
