import BootImageEditor.Avb.DescriptorDecode

/-!
# The loops over a section

Both loops add up the sizes of the records they read and stop at `totalSize`. A turn that
goes on has logged its record, and a list takes one element for every turn, so the sum is
exact as long as the loop goes on, and every turn brings it sixteen bytes nearer to
`totalSize`. Only a turn that stops may have added a size that is no `Int`.
-/

namespace BootImageEditor

open Codec Fallible Struct3 Helper

namespace Avb

namespace AnyDescriptor

def toDescriptor : AnyDescriptor → Descriptor
  | property d => d.toDescriptor
  | hashTree d => d.toDescriptor
  | hash d => d.toDescriptor
  | kernelCmdline d => d.toDescriptor
  | chainPartition d => d.toDescriptor
  | unknown d => d.toDescriptor

/-- The size of the record a descriptor was read from. -/
def frameSize : AnyDescriptor → ℕ
  | unknown d => 16 + d.data.length
  | d => 16 + d.toDescriptor.numBytesFollowing.toNat

end AnyDescriptor

namespace UnknownDescriptor

def frameSize (d : UnknownDescriptor) : ℕ := 16 + d.data.length

/-- Reading the bytes of a record again as an object of a class. -/
theorem reread_inv {C : Type} {vm : Jvm} {d : UnknownDescriptor} {a : AnyDescriptor}
    {read : InputStream → Result C} (f : C → AnyDescriptor)
    (hread : ∀ {s : InputStream} {nbf : UInt64} {p : C},
      s.rest = be 8 d.tag.toNat ++ (be 8 nbf.toNat ++ d.data) → read s = .ok p →
        (f p).toDescriptor = ⟨d.tag, nbf, d.sequence⟩)
    (hsize : ∀ p, (f p).frameSize = 16 + (f p).toDescriptor.numBytesFollowing.toNat)
    (h : (do
      let s ← (do
        let bytes ← d.encode vm
        .ok (InputStream.byteArrayInputStream bytes) : Result InputStream)
      let p ← read s
      .ok (f p)) = .ok a) :
    a.toDescriptor.tag = d.tag ∧ a.toDescriptor.sequence = d.sequence ∧
      a.frameSize = d.frameSize := by
  obtain ⟨s, hs, h⟩ := bind_eq_ok.mp h
  obtain ⟨bytes, hbytes, hs⟩ := bind_eq_ok.mp hs
  cases hs
  obtain ⟨p, hp, h⟩ := bind_eq_ok.mp h
  cases h
  obtain ⟨hlen, rfl⟩ := encode_eq_ok_iff.mp hbytes
  have hlt : d.data.length < 2 ^ 64 := by
    simp [layout, intMax] at hlen
    omega
  have hnbf : (UInt64.ofNat d.data.length).toNat = d.data.length := UInt64.toNat_ofNat_of_lt' hlt
  have hrest : (InputStream.byteArrayInputStream d.layout).rest =
      be 8 d.tag.toNat ++ (be 8 (UInt64.ofNat d.data.length).toNat ++ d.data) := by
    rw [hnbf]
    simp [layout]
  have hframe := hread hrest hp
  rw [hsize, hframe, hnbf]
  exact ⟨rfl, rfl, rfl⟩

/-- Reading a record again as the class its tag names keeps tag, number and size. -/
theorem analyze_inv {vm : Jvm} {crypto : Crypto} {d : UnknownDescriptor} {a : AnyDescriptor}
    (h : d.analyze vm crypto = .ok a) :
    a.toDescriptor.tag = d.tag ∧ a.toDescriptor.sequence = d.sequence ∧
      a.frameSize = d.frameSize := by
  unfold analyze at h
  split at h
  · exact reread_inv .property (fun hrest hp => (PropertyDescriptor.frame_of_ofStream hrest hp).2)
      (fun p => rfl) h
  · exact reread_inv .hashTree (fun hrest hp => (HashTreeDescriptor.frame_of_ofStream hrest hp).2)
      (fun p => rfl) h
  · exact reread_inv .hash (fun hrest hp => (HashDescriptor.frame_of_ofStream hrest hp).2)
      (fun p => rfl) h
  · exact reread_inv .kernelCmdline
      (fun hrest hp => (KernelCmdlineDescriptor.frame_of_ofStream hrest hp).2)
      (fun p => rfl) h
  · exact reread_inv .chainPartition
      (fun hrest hp => (ChainPartitionDescriptor.frame_of_ofStream hrest hp).2)
      (fun p => rfl) h
  · cases h
    exact ⟨rfl, rfl, rfl⟩

/-! ## One record of any stream -/

/-- The number a record is given changes nothing else. -/
theorem ofStream_seq {vm : Jvm} {s s' : InputStream} {seq : Int32} {d : UnknownDescriptor}
    (h : ofStream vm s seq = .ok (d, s')) (seq' : Int32) :
    ofStream vm s seq' = .ok ({ d with sequence := seq' }, s') := by
  obtain ⟨tag, nbf, s₁, n, hinfo, hn, hcount, rfl, rfl⟩ := ofStream_eq_ok_iff.mp h
  exact ofStream_eq_ok_iff.mpr ⟨tag, nbf, s₁, n, hinfo, hn, hcount, rfl, rfl⟩

/-- A record within the stream is taken from it whole. -/
theorem stream_of_ofStream {vm : Jvm} {s s' : InputStream} {seq : Int32} {d : UnknownDescriptor}
    (h : ofStream vm s seq = .ok (d, s')) (hlen : d.frameSize ≤ s.rest.length) :
    s' = s.advance d.frameSize := by
  obtain ⟨tag, nbf, s₁, n, hinfo, -, -, rfl, rfl⟩ := ofStream_eq_ok_iff.mp h
  have hsixteen : formatsSize [Format.one .ulong, Format.one .ulong] = 16 := rfl
  simp only [frameSize, s₁.length_read] at hlen ⊢
  obtain ⟨-, rfl⟩ := unpackFormat_inv (new_formatString vm) (by decide)
    (by rw [hsixteen]; omega) hinfo
  rw [InputStream.advance_advance, hsixteen]

theorem length_data_le {vm : Jvm} {s s' : InputStream} {seq : Int32} {d : UnknownDescriptor}
    (h : ofStream vm s seq = .ok (d, s')) : d.data.length ≤ intMax := by
  have hlen := length_of_ofStream h
  rw [toInt_cut] at hlen
  unfold intMax
  split at hlen
  · omega
  · omega

/-- The sum the loops keep: exact for a record that is logged, and otherwise short of
`2^32` when the size of the record is no `Int`. -/
theorem toInt_nextSize {cur : Int64} {d : UnknownDescriptor} (hdata : d.data.length ≤ intMax)
    (hlow : 0 ≤ cur.toInt) (hhigh : cur.toInt < 2 ^ 62) :
    (nextSize cur d).toInt =
      if d.frameSize ≤ intMax then cur.toInt + d.frameSize
      else cur.toInt + d.frameSize - 2 ^ 32 := by
  have hmax : intMax = 2 ^ 31 - 1 := rfl
  have hsum : int32Size d.data + 16 = Int32.ofNat d.frameSize := by
    rw [frameSize, Int32.ofNat_add]
    exact Int32.add_comm _ _
  have hint : (Int32.ofNat d.frameSize).toInt =
      if d.frameSize ≤ intMax then (d.frameSize : ℤ) else d.frameSize - 2 ^ 32 := by
    by_cases hle : d.frameSize ≤ intMax
    · rw [if_pos hle, toInt_int32_ofNat hle]
    · have hword : Int32.size = 2 ^ 32 := rfl
      rw [if_neg hle, Int32.toInt_ofNat', hword, Int.bmod_eq_iff (by omega)]
      unfold frameSize at hle ⊢
      refine ⟨?_, ?_, ?_⟩
      all_goals omega
  unfold nextSize
  rw [hsum, Int64.toInt_add, Int32.toInt_toInt64, hint]
  unfold frameSize
  split
  · exact Int.bmod_eq_of_le (by omega) (by omega)
  · rw [Int.bmod_eq_of_le (by omega) (by omega)]
    omega

/-! ## Turns -/

/-- What a turn of `parseDescriptors` that does not fail has done. -/
theorem parseTurn_eq_ok_iff {vm : Jvm} {totalSize : Int64} {l : ParseState UnknownDescriptor}
    {t : Turn (ParseState UnknownDescriptor) (List UnknownDescriptor × InputStream)} :
    parseTurn vm totalSize l = .ok t ↔
      ∃ desc stream, ofStream vm l.stream 0 = .ok (desc, stream) ∧ l.ret.length < intMax ∧
        if nextSize l.currentSize desc = totalSize then t = .done (l.ret ++ [desc], stream)
        else nextSize l.currentSize desc < totalSize ∧
          textLength desc.tag desc.data.length ≤ intMax ∧
          t = .next ⟨stream, l.ret ++ [desc], nextSize l.currentSize desc⟩ := by
  constructor
  · intro h
    obtain ⟨⟨desc, stream⟩, hdesc, h⟩ := bind_eq_ok.mp h
    obtain ⟨ret, hret, h⟩ := bind_eq_ok.mp h
    obtain ⟨hroom, rfl⟩ := addTo_eq_ok_iff.mp hret
    refine ⟨desc, stream, hdesc, hroom, ?_⟩
    by_cases heq : nextSize l.currentSize desc = totalSize
    · rw [if_pos heq] at h ⊢
      cases h
      rfl
    · rw [if_neg heq] at h ⊢
      by_cases hlt : totalSize < nextSize l.currentSize desc
      · rw [if_pos hlt] at h
        cases h
      · rw [if_neg hlt] at h
        obtain ⟨text, htext, h⟩ := bind_eq_ok.mp h
        cases h
        exact ⟨Int64.lt_of_le_of_ne (Int64.not_lt.mp hlt) heq, (toString_eq_ok_iff.mp htext).1,
          rfl⟩
  · rintro ⟨desc, stream, hdesc, hroom, h⟩
    unfold parseTurn
    simp only [hdesc, ok_bind, addTo_eq_ok_iff.mpr ⟨hroom, rfl⟩]
    by_cases heq : nextSize l.currentSize desc = totalSize
    · rw [if_pos heq] at h ⊢
      rw [h]
    · rw [if_neg heq] at h ⊢
      rw [if_neg (Int64.lt_asymm h.1), toString_eq_ok_iff.mpr ⟨h.2.1, rfl⟩, ok_bind, h.2.2]

/-- What holds of the variables while a loop runs: the sum is exact and has not reached
`totalSize`. -/
structure Running {α : Type} (size : α → ℕ) (totalSize : Int64) (l : ParseState α) : Prop where
  sum_eq : l.currentSize.toInt = ((l.ret.map size).sum : ℕ)
  low : 16 * l.ret.length ≤ (l.ret.map size).sum
  high : (l.ret.map size).sum ≤ l.ret.length * 2 ^ 31
  room : l.ret.length ≤ intMax
  before : l.ret ≠ [] → l.currentSize.toInt < totalSize.toInt

theorem Running.start {α : Type} (size : α → ℕ) (totalSize : Int64) (s : InputStream) :
    Running size totalSize ⟨s, [], 0⟩ :=
  ⟨rfl, by simp, by simp, by simp, fun h => absurd rfl h⟩

theorem Running.bounds {α : Type} {size : α → ℕ} {totalSize : Int64} {l : ParseState α}
    (h : Running size totalSize l) : 0 ≤ l.currentSize.toInt ∧ l.currentSize.toInt < 2 ^ 62 := by
  have hroom := Nat.mul_le_mul_right (2 ^ 31) h.room
  have hhigh := h.high
  have hmax : intMax * 2 ^ 31 < 2 ^ 62 := by decide
  rw [h.sum_eq]
  omega

theorem sum_append_singleton {α : Type} (size : α → ℕ) (ret : List α) (x : α) :
    ((ret ++ [x]).map size).sum = (ret.map size).sum + size x := by
  rw [List.map_append, List.sum_append, List.map_singleton, List.sum_singleton]

/-- A record that is logged is added exactly. -/
theorem Running.nextSize_eq {α : Type} {size : α → ℕ} {totalSize : Int64} {l : ParseState α}
    (h : Running size totalSize l) {d : UnknownDescriptor}
    (htext : textLength d.tag d.data.length ≤ intMax) {x : α} (hx : size x = d.frameSize) :
    (nextSize l.currentSize d).toInt = (((l.ret ++ [x]).map size).sum : ℕ) := by
  have hlt := size_lt_of_textLength htext
  have hmax : intMax = 2 ^ 31 - 1 := rfl
  have hframe : d.frameSize = 16 + d.data.length := rfl
  rw [toInt_nextSize (by omega) h.bounds.1 h.bounds.2, if_pos (by omega), h.sum_eq,
    sum_append_singleton, hx]
  push_cast
  rfl

theorem Running.next {α : Type} {size : α → ℕ} {totalSize : Int64} {l : ParseState α}
    (h : Running size totalSize l) {d : UnknownDescriptor}
    (htext : textLength d.tag d.data.length ≤ intMax) (hroom : l.ret.length < intMax)
    (hbefore : nextSize l.currentSize d < totalSize) {x : α} (hx : size x = d.frameSize)
    (stream : InputStream) :
    Running size totalSize ⟨stream, l.ret ++ [x], nextSize l.currentSize d⟩ := by
  have hlt := size_lt_of_textLength htext
  have hframe : d.frameSize = 16 + d.data.length := rfl
  have hlow := h.low
  have hhigh := h.high
  refine ⟨h.nextSize_eq htext hx, ?_, ?_, ?_, fun _ => Int64.lt_iff_toInt_lt.mp hbefore⟩
  · show 16 * (l.ret ++ [x]).length ≤ ((l.ret ++ [x]).map size).sum
    rw [sum_append_singleton, List.length_append, List.length_singleton]
    omega
  · show ((l.ret ++ [x]).map size).sum ≤ (l.ret ++ [x]).length * 2 ^ 31
    rw [sum_append_singleton, List.length_append, List.length_singleton]
    omega
  · show (l.ret ++ [x]).length ≤ intMax
    rw [List.length_append, List.length_singleton]
    omega

/-! ## Termination -/

/-- `max(1, ceil(totalSize / 16))`. -/
def turnBound (totalSize : Int64) : ℕ := max 1 ((totalSize.toInt + 15) / 16).toNat

/-- Every turn that goes on takes one of the turns that the bound allows. -/
theorem Running.length_lt {α : Type} {size : α → ℕ} {totalSize : Int64} {l : ParseState α}
    (h : Running size totalSize l) : l.ret.length < turnBound totalSize := by
  unfold turnBound
  by_cases hnil : l.ret = []
  · rw [hnil, List.length_nil]
    omega
  · have hbefore := h.before hnil
    have hlow := h.low
    rw [h.sum_eq] at hbefore
    omega

theorem isSome_runTurns_parseTurn (vm : Jvm) (s : InputStream) (totalSize : Int64) :
    (runTurns (parseTurn vm totalSize) (turnBound totalSize) ⟨s, [], 0⟩).isSome := by
  have hstart := Running.start frameSize totalSize s
  refine isSome_runTurns (I := Running frameSize totalSize)
    (fun l => turnBound totalSize - 1 - l.ret.length) ?_ hstart ?_
  · intro l l' hl hturn
    obtain ⟨desc, stream, -, hroom, ht⟩ := parseTurn_eq_ok_iff.mp hturn
    split at ht
    · cases ht
    · obtain ⟨hbefore, htext, ht⟩ := ht
      cases ht
      have hnext := hl.next htext hroom hbefore (x := desc) rfl stream
      have hlt := hnext.length_lt
      refine ⟨hnext, ?_⟩
      rw [List.length_append, List.length_singleton] at hlt ⊢
      omega
  · have hlt := hstart.length_lt
    simp only [List.length_nil] at hlt ⊢
    omega

theorem isSome_runTurns_parseTurn2 (vm : Jvm) (crypto : Crypto) (s : InputStream)
    (totalSize : Int64) :
    (runTurns (parseTurn2 vm crypto totalSize) (turnBound totalSize)
      ⟨⟨s, [], 0⟩, 0⟩).isSome := by
  have hstart := Running.start AnyDescriptor.frameSize totalSize s
  refine isSome_runTurns
    (I := fun l => Running AnyDescriptor.frameSize totalSize l.toParseState)
    (fun l => turnBound totalSize - 1 - l.ret.length) ?_ hstart ?_
  · intro l l' hl hturn
    obtain ⟨desc, stream, d, -, htext, hd, hroom, ht⟩ := parseTurn2_eq_ok_iff.mp hturn
    split at ht
    · cases ht
    · obtain ⟨hbefore, ht⟩ := ht
      cases ht
      have hnext := hl.next htext hroom hbefore (analyze_inv hd).2.2 stream
      have hlt := hnext.length_lt
      refine ⟨hnext, ?_⟩
      rw [List.length_append, List.length_singleton] at hlt ⊢
      omega
  · have hlt := hstart.length_lt
    simp only [List.length_nil] at hlt ⊢
    omega

/-! ## What the loops return -/

/-- The numbers of the first `n` descriptors. -/
def numbers (n : ℕ) : List ℤ := (List.range n).map (fun i : ℕ => (i : ℤ) + 1)

theorem numbers_succ (n : ℕ) : numbers (n + 1) = numbers n ++ [(n : ℤ) + 1] := by
  rw [numbers, List.range_succ, List.map_append]
  rfl

/-- What holds of the variables while the loop of `parseDescriptors2` runs on a stream. -/
structure Running2 (s : InputStream) (totalSize : Int64) (l : ParseState2) : Prop where
  running : Running AnyDescriptor.frameSize totalSize l.toParseState
  seq_eq : l.seq.toInt = l.ret.length
  numbered : l.ret.map (fun d => d.toDescriptor.sequence.toInt) = numbers l.ret.length
  stream_eq : totalSize.toInt ≤ s.rest.length →
    l.stream = s.advance (l.ret.map AnyDescriptor.frameSize).sum

/-- What `parseDescriptors2` has done when it returns. -/
structure Partitioned (s : InputStream) (totalSize : Int64)
    (result : List AnyDescriptor × InputStream) : Prop where
  sum_eq : ((result.1.map AnyDescriptor.frameSize).sum : ℤ) = totalSize.toInt
  numbered : result.1.map (fun d => d.toDescriptor.sequence.toInt) = numbers result.1.length
  stream_eq : totalSize.toInt ≤ s.rest.length →
    result.2 = s.advance (result.1.map AnyDescriptor.frameSize).sum

/-- A record that was read and analyzed within `totalSize`. -/
theorem Running2.step {vm : Jvm} {crypto : Crypto} {s : InputStream} {totalSize : Int64}
    {l : ParseState2} (h : Running2 s totalSize l) {desc : UnknownDescriptor}
    {stream : InputStream} {d : AnyDescriptor}
    (hdesc : ofStream vm l.stream (l.seq + 1) = .ok (desc, stream))
    (htext : textLength desc.tag desc.data.length ≤ intMax)
    (hd : desc.analyze vm crypto = .ok d) (hroom : l.ret.length < intMax)
    (hle : (nextSize l.currentSize desc).toInt ≤ totalSize.toInt) :
    (l.seq + 1).toInt = (l.ret ++ [d]).length ∧
      (l.ret ++ [d]).map (fun d => d.toDescriptor.sequence.toInt) =
        numbers (l.ret ++ [d]).length ∧
      (totalSize.toInt ≤ s.rest.length →
        stream = s.advance ((l.ret ++ [d]).map AnyDescriptor.frameSize).sum) := by
  obtain ⟨-, hseq, hsize⟩ := analyze_inv hd
  have hnext : (l.seq + 1).toInt = l.ret.length + 1 := by
    rw [WireDescriptor.toInt_succ (by rw [h.seq_eq]; omega), h.seq_eq]
  have hdseq : desc.sequence = l.seq + 1 := by
    obtain ⟨tag, nbf, s₁, n, -, -, -, rfl, -⟩ := ofStream_eq_ok_iff.mp hdesc
    rfl
  refine ⟨?_, ?_, fun hlen => ?_⟩
  · rw [hnext, List.length_append, List.length_singleton]
    push_cast
    rfl
  · rw [List.map_append, h.numbered, List.length_append, List.length_singleton, numbers_succ,
      List.map_singleton, hseq, hdseq, hnext]
  · have hsum := h.running.nextSize_eq htext hsize
    rw [hsum, sum_append_singleton, hsize] at hle
    have hstream := h.stream_eq hlen
    have hfits : desc.frameSize ≤ l.stream.rest.length := by
      rw [hstream, InputStream.rest_advance, List.length_drop]
      omega
    rw [stream_of_ofStream hdesc hfits, hstream, InputStream.advance_advance,
      sum_append_singleton, hsize]

theorem partitioned_of_runTurns {vm : Jvm} {crypto : Crypto} {s : InputStream}
    {totalSize : Int64} {turns : ℕ} {result : List AnyDescriptor × InputStream}
    (h : runTurns (parseTurn2 vm crypto totalSize) turns ⟨⟨s, [], 0⟩, 0⟩ =
      some (.ok result)) : Partitioned s totalSize result := by
  have hstart : Running2 s totalSize ⟨⟨s, [], 0⟩, 0⟩ :=
    ⟨Running.start _ _ s, rfl, rfl, fun _ => rfl⟩
  refine runTurns_invariant (I := Running2 s totalSize) ?_ ?_ hstart h
  · intro l l' hl hturn
    obtain ⟨desc, stream, d, hdesc, htext, hd, hroom, ht⟩ := parseTurn2_eq_ok_iff.mp hturn
    split at ht
    · cases ht
    · obtain ⟨hbefore, ht⟩ := ht
      cases ht
      have hle := le_of_lt (Int64.lt_iff_toInt_lt.mp hbefore)
      obtain ⟨hseq, hnumbered, hstream⟩ := hl.step hdesc htext hd hroom hle
      exact ⟨hl.running.next htext hroom hbefore (analyze_inv hd).2.2 stream, hseq, hnumbered,
        hstream⟩
  · intro l a hl hturn
    obtain ⟨desc, stream, d, hdesc, htext, hd, hroom, ht⟩ := parseTurn2_eq_ok_iff.mp hturn
    split at ht
    · next heq =>
        cases ht
        have hle := le_of_eq (congrArg Int64.toInt heq)
        obtain ⟨-, hnumbered, hstream⟩ := hl.step hdesc htext hd hroom hle
        refine ⟨?_, hnumbered, hstream⟩
        rw [← heq, hl.running.nextSize_eq htext (analyze_inv hd).2.2]
    · obtain ⟨-, ht⟩ := ht
      cases ht

/-- `parseDescriptors` agrees with `parseDescriptors2` on the records they have read. -/
structure Agrees (ds : List AnyDescriptor) (us : List UnknownDescriptor) : Prop where
  length_eq : us.length = ds.length
  tags_eq : us.map (fun d => d.tag) = ds.map (fun d => d.toDescriptor.tag)
  sizes_eq : us.map frameSize = ds.map AnyDescriptor.frameSize

theorem Agrees.append {ds : List AnyDescriptor} {us : List UnknownDescriptor}
    (h : Agrees ds us) {d : AnyDescriptor} {u : UnknownDescriptor}
    (htag : d.toDescriptor.tag = u.tag) (hsize : d.frameSize = u.frameSize) :
    Agrees (ds ++ [d]) (us ++ [u]) := by
  refine ⟨?_, ?_, ?_⟩
  · rw [List.length_append, List.length_append, h.length_eq]
    rfl
  · rw [List.map_append, List.map_append, h.tags_eq, List.map_singleton, List.map_singleton, htag]
  · rw [List.map_append, List.map_append, h.sizes_eq, List.map_singleton, List.map_singleton,
      hsize]

/-- Where `parseDescriptors2` returns, `parseDescriptors` returns as well. -/
theorem runTurns_parseTurn_of_parseTurn2 {vm : Jvm} {crypto : Crypto} {s s' : InputStream}
    {totalSize : Int64} {turns : ℕ} {ds : List AnyDescriptor}
    (h : runTurns (parseTurn2 vm crypto totalSize) turns ⟨⟨s, [], 0⟩, 0⟩ =
      some (.ok (ds, s'))) :
    ∃ us, runTurns (parseTurn vm totalSize) turns ⟨s, [], 0⟩ = some (.ok (us, s')) ∧
      Agrees ds us := by
  have hstart : Agrees [] [] := ⟨rfl, rfl, rfl⟩
  suffices hsim : ∃ b, runTurns (parseTurn vm totalSize) turns ⟨s, [], 0⟩ = some (.ok b) ∧
      Agrees ds b.1 ∧ b.2 = s' by
    obtain ⟨⟨us, s₁⟩, hus, hagrees, rfl⟩ := hsim
    exact ⟨us, hus, hagrees⟩
  refine runTurns_simulation
    (R := fun (l : ParseState2) (l' : ParseState UnknownDescriptor) =>
      Agrees l.ret l'.ret ∧ l'.stream = l.stream ∧ l'.currentSize = l.currentSize)
    (Q := fun (a : List AnyDescriptor × InputStream) (b : List UnknownDescriptor × InputStream) =>
      Agrees a.1 b.1 ∧ b.2 = a.2) ?_ ?_ ⟨hstart, rfl, rfl⟩ h
  · rintro l l₁ ⟨stream', ret', cur'⟩ ⟨hagrees, rfl, rfl⟩ hturn
    obtain ⟨desc, stream, d, hdesc, htext, hd, hroom, ht⟩ := parseTurn2_eq_ok_iff.mp hturn
    obtain ⟨htag, -, hsize⟩ := analyze_inv hd
    split at ht
    · cases ht
    · next heq =>
        obtain ⟨hbefore, ht⟩ := ht
        cases ht
        refine ⟨⟨stream, ret' ++ [{ desc with sequence := 0 }], nextSize l.currentSize desc⟩,
          parseTurn_eq_ok_iff.mpr ⟨_, stream, ofStream_seq hdesc 0,
            by rw [hagrees.length_eq]; exact hroom, ?_⟩, hagrees.append htag hsize, rfl, rfl⟩
        show ite (nextSize l.currentSize desc = totalSize) _ _
        rw [if_neg heq]
        exact ⟨hbefore, htext, rfl⟩
  · rintro l a ⟨stream', ret', cur'⟩ ⟨hagrees, rfl, rfl⟩ hturn
    obtain ⟨desc, stream, d, hdesc, htext, hd, hroom, ht⟩ := parseTurn2_eq_ok_iff.mp hturn
    obtain ⟨htag, -, hsize⟩ := analyze_inv hd
    split at ht
    · next heq =>
        cases ht
        refine ⟨⟨ret' ++ [{ desc with sequence := 0 }], stream⟩,
          parseTurn_eq_ok_iff.mpr ⟨_, stream, ofStream_seq hdesc 0,
            by rw [hagrees.length_eq]; exact hroom, ?_⟩, hagrees.append htag hsize, rfl⟩
        show ite (nextSize l.currentSize desc = totalSize) _ _
        rw [if_pos heq]
    · obtain ⟨-, ht⟩ := ht
      cases ht

/-- The first record has a size that is no `Int`, and `totalSize` is the negative number that
this size wraps to. -/
def WrapsToTotal (s : InputStream) (totalSize : Int64) : Prop :=
  ∃ n, intMax < 16 + n ∧ n ≤ intMax ∧ readField s.rest 8 8 % 2 ^ 32 = n ∧
    16 + n ≤ s.rest.length ∧ totalSize.toInt = 16 + n - 2 ^ 32

/-- The fixed part of a record takes sixteen bytes of any stream. -/
theorem rest_of_unpackFormat {vm : Jvm} {s s₁ : InputStream} {info : List Value}
    (h : unpackFormat vm formatString s = .ok (info, s₁)) : s₁.rest = s.rest.drop 16 := by
  have hitem : ∀ {s s' : InputStream} {v : Value},
      unpackItem vm .bigEndian (.one .ulong) s = .ok (v, s') → s'.rest = s.rest.drop 8 := by
    intro s s' v hv
    have heq : unpackItem vm .bigEndian (.one .ulong) s = getULong vm .bigEndian s := rfl
    rw [heq, getULong, getWith, readFully] at hv
    obtain ⟨⟨data, s₂⟩, hdata, hv⟩ := bind_eq_ok.mp hv
    obtain ⟨u, -, hdata⟩ := bind_eq_ok.mp hdata
    cases hdata
    cases hv
    exact s.rest_read 8
  rw [unpackFormat_eq (new_formatString vm), unpack] at h
  simp only [unpackLoop] at h
  obtain ⟨⟨v, s₂⟩, hv, h⟩ := bind_eq_ok.mp h
  obtain ⟨⟨vs, s₃⟩, hvs, h⟩ := bind_eq_ok.mp h
  obtain ⟨⟨w, s₄⟩, hw, hvs⟩ := bind_eq_ok.mp hvs
  cases hvs
  cases h
  rw [hitem hw, hitem hv, List.drop_drop]

/-- A large record that was read stands in the stream. -/
theorem readField_of_ofStream {vm : Jvm} {s s' : InputStream} {seq : Int32}
    {d : UnknownDescriptor} (h : ofStream vm s seq = .ok (d, s')) (hpos : 0 < d.data.length) :
    readField s.rest 8 8 % 2 ^ 32 = d.data.length ∧ d.frameSize ≤ s.rest.length := by
  obtain ⟨tag, nbf, s₁, n, hinfo, hn, hcount, rfl, -⟩ := ofStream_eq_ok_iff.mp h
  simp only [frameSize, s₁.length_read] at hpos ⊢
  have hle := InputStream.le_length_of_read hcount
  rw [rest_of_unpackFormat hinfo, List.length_drop] at hle
  have hsixteen : formatsSize [Format.one .ulong, Format.one .ulong] = 16 := rfl
  obtain ⟨hvalues, -⟩ := unpackFormat_inv (new_formatString vm) (by decide)
    (by rw [hsixteen]; omega) hinfo
  have hnbf : nbf = UInt64.ofNat (readField s.rest 8 8) := by
    simp only [decodeItems, decodeItem_one_ulong, size_one_ulong, toULong_readField] at hvalues
    injection hvalues with h1 h2
    injection h2 with h2 h3
    injection h2
  rw [toInt_cut, hnbf, toNat_ofNat_readField] at hn
  refine ⟨?_, by omega⟩
  split at hn
  · omega
  · omega

/-- A record that stands in the stream is read. -/
theorem ofStream_of_readField (vm : Jvm) {s : InputStream} (seq : Int32) {n : ℕ}
    (hn : readField s.rest 8 8 % 2 ^ 32 = n) (hmax : n ≤ intMax) (hpos : 0 < n)
    (hlen : 16 + n ≤ s.rest.length) :
    ∃ d s', ofStream vm s seq = .ok (d, s') ∧ d.data.length = n := by
  have hsixteen : formatsSize [Format.one .ulong, Format.one .ulong] = 16 := rfl
  have htake : (s.rest.take 16).length = 16 := by
    rw [List.length_take]
    omega
  have hinfo : unpackFormat vm formatString s =
      .ok ([.ulong (UInt64.ofNat (readField s.rest 0 8)),
        .ulong (UInt64.ofNat (readField s.rest 8 8))], s.advance 16) := by
    have hfits : (s.rest.take 16).length =
        formatsSize (Struct3.mk .bigEndian [.one .ulong, .one .ulong]).formats := htake
    have hitems : decodeItems .bigEndian [.one .ulong, .one .ulong] (s.rest.take 16) =
        decodeItems .bigEndian [.one .ulong, .one .ulong] s.rest :=
      decodeItems_take (le_of_eq hsixteen)
    rw [unpackFormat_eq (new_formatString vm),
      unpack_eq (List.take_append_drop 16 s.rest).symm hfits (by decide),
      if_neg (fun h => absurd h.2.2 (by decide))]
    simp only [hitems]
    simp only [decodeItems, decodeItem_one_ulong, size_one_ulong, toULong_readField]
    rfl
  have hrest : (s.advance 16).rest = (s.rest.drop 16).take n ++ (s.rest.drop 16).drop n := by
    rw [InputStream.rest_advance, List.take_append_drop]
  have hdata : ((s.rest.drop 16).take n).length = n := by
    rw [List.length_take, List.length_drop]
    omega
  have hread : (n : ℤ) = ((s.advance 16).read n).1 := by
    have hread := InputStream.read_of_append hrest (by omega)
    rw [hdata] at hread
    rw [hread]
  refine ⟨_, _, ofStream_eq_ok_iff.mpr ⟨_, _, _, n, hinfo, ?_, hread, rfl, rfl⟩, ?_⟩
  · rw [toInt_cut, toNat_ofNat_readField, hn, if_pos (by unfold intMax at hmax; omega)]
  · exact InputStream.length_read _ n

/-- What holds of the variables while the loop of `parseDescriptors` runs on a stream. -/
structure Running1 (s : InputStream) (totalSize : Int64) (l : ParseState UnknownDescriptor) :
    Prop where
  running : Running frameSize totalSize l
  first : l.ret = [] → l.stream = s

/-- Unless the first record wraps to `totalSize`, what `parseDescriptors` returns adds up to
it. -/
theorem sum_of_runTurns_parseTurn {vm : Jvm} {s : InputStream} {totalSize : Int64} {turns : ℕ}
    {result : List UnknownDescriptor × InputStream} (hwrap : ¬ WrapsToTotal s totalSize)
    (h : runTurns (parseTurn vm totalSize) turns ⟨s, [], 0⟩ = some (.ok result)) :
    ((result.1.map frameSize).sum : ℤ) = totalSize.toInt := by
  have hstart : Running1 s totalSize ⟨s, [], 0⟩ := ⟨Running.start _ _ s, fun _ => rfl⟩
  refine runTurns_invariant (I := Running1 s totalSize)
    (Q := fun result => ((result.1.map frameSize).sum : ℤ) = totalSize.toInt) ?_ ?_ hstart h
  · intro l l' hl hturn
    obtain ⟨desc, stream, -, hroom, ht⟩ := parseTurn_eq_ok_iff.mp hturn
    split at ht
    · cases ht
    · obtain ⟨hbefore, htext, ht⟩ := ht
      cases ht
      exact ⟨hl.running.next htext hroom hbefore rfl stream, fun hnil => by simp at hnil⟩
  · intro l a hl hturn
    obtain ⟨desc, stream, hdesc, hroom, ht⟩ := parseTurn_eq_ok_iff.mp hturn
    split at ht
    · next heq =>
        cases ht
        have hdata := length_data_le hdesc
        have hmax : intMax = 2 ^ 31 - 1 := rfl
        have hframe : desc.frameSize = 16 + desc.data.length := rfl
        have htotal := toInt_nextSize hdata hl.running.bounds.1 hl.running.bounds.2
        rw [heq] at htotal
        rw [sum_append_singleton]
        by_cases hle : desc.frameSize ≤ intMax
        · rw [if_pos hle] at htotal
          rw [htotal, hl.running.sum_eq]
          push_cast
          rfl
        · rw [if_neg hle] at htotal
          by_cases hnil : l.ret = []
          · -- the sum was zero and the record is the first of the stream
            have hzero := hl.running.sum_eq
            rw [hnil] at hzero
            rw [hl.first hnil] at hdesc
            obtain ⟨hfield, hfits⟩ := readField_of_ofStream hdesc (by omega)
            refine absurd ⟨desc.data.length, by omega, hdata, hfield, by omega, ?_⟩ hwrap
            rw [htotal, hzero, hframe]
            simp
          · have hbefore := hl.running.before hnil
            omega
    · obtain ⟨-, -, ht⟩ := ht
      cases ht

/-- If it does, the loop of `parseDescriptors` returns after this record. -/
theorem parseTurn_of_wraps (vm : Jvm) {s : InputStream} {totalSize : Int64}
    (h : WrapsToTotal s totalSize) :
    ∃ d s', parseTurn vm totalSize ⟨s, [], 0⟩ = .ok (.done ([d], s')) ∧
      totalSize.toInt < d.frameSize := by
  obtain ⟨n, hlow, hmax, hn, hlen, htotal⟩ := h
  have hint : intMax = 2 ^ 31 - 1 := rfl
  obtain ⟨d, s', hd, hdata⟩ := ofStream_of_readField vm 0 hn hmax (by omega) hlen
  have hframe : d.frameSize = 16 + n := by rw [frameSize, hdata]
  have hzero : (0 : Int64).toInt = 0 := rfl
  have hnext : nextSize 0 d = totalSize := by
    apply Int64.toInt_inj.mp
    rw [toInt_nextSize (by omega) (by omega) (by omega), if_neg (by omega), htotal, hframe, hzero]
    push_cast
    ring
  refine ⟨d, s', parseTurn_eq_ok_iff.mpr ⟨d, s', hd, by simp [intMax], ?_⟩, by omega⟩
  rw [if_pos hnext]
  rfl

/-! ## The loops on every stream -/

theorem parseLoop_eq_ok_iff {vm : Jvm} {s : InputStream} {totalSize : Int64}
    {result : List UnknownDescriptor × InputStream} :
    parseLoop vm s totalSize = .ok result ↔
      runTurns (parseTurn vm totalSize) (intMax + 1) ⟨s, [], 0⟩ = some (.ok result) := by
  unfold parseLoop
  cases runTurns (parseTurn vm totalSize) (intMax + 1) ⟨s, [], 0⟩ <;> simp

theorem parseLoop2_eq_ok_iff {vm : Jvm} {crypto : Crypto} {s : InputStream} {totalSize : Int64}
    {result : List AnyDescriptor × InputStream} :
    parseLoop2 vm crypto s totalSize = .ok result ↔
      runTurns (parseTurn2 vm crypto totalSize) (intMax + 1) ⟨⟨s, [], 0⟩, 0⟩ =
        some (.ok result) := by
  unfold parseLoop2
  cases runTurns (parseTurn2 vm crypto totalSize) (intMax + 1) ⟨⟨s, [], 0⟩, 0⟩ <;> simp

/-- `parseDescriptors` returns what its loop returns. -/
theorem parseDescriptors_eq_ok_iff {vm : Jvm} {s : InputStream} {totalSize : Int64}
    {us : List UnknownDescriptor} :
    parseDescriptors vm s totalSize = .ok us ↔ ∃ s', parseLoop vm s totalSize = .ok (us, s') := by
  unfold parseDescriptors
  cases parseLoop vm s totalSize with
  | error e => simp
  | ok result =>
      obtain ⟨us', s'⟩ := result
      simp

/-- Both loops end within the bound; `parseDescriptors2` cuts its section into frames that add
up to `totalSize`, takes exactly these bytes and numbers the descriptors from one on, and
`parseDescriptors` finds the same frames; and neither returns from a section its frames run
past. -/
def CutsSection (vm : Jvm) (crypto : Crypto) (s : InputStream) (totalSize : Int64) : Prop :=
  (runTurns (parseTurn vm totalSize) (turnBound totalSize) ⟨s, [], 0⟩).isSome ∧
  (runTurns (parseTurn2 vm crypto totalSize) (turnBound totalSize) ⟨⟨s, [], 0⟩, 0⟩).isSome ∧
  (∀ ds s', parseLoop2 vm crypto s totalSize = .ok (ds, s') →
    totalSize.toInt ≤ s.rest.length →
      ((ds.map AnyDescriptor.frameSize).sum : ℤ) = totalSize.toInt ∧
      s' = s.advance totalSize.toInt.toNat ∧
      ds.map (fun d => d.toDescriptor.sequence.toInt) = numbers ds.length ∧
      ∃ us, parseLoop vm s totalSize = .ok (us, s') ∧
        parseDescriptors vm s totalSize = .ok us ∧ Agrees ds us) ∧
  (∀ us, parseDescriptors vm s totalSize = .ok us →
    ((us.map frameSize).sum : ℤ) ≤ totalSize.toInt) ∧
  (∀ ds, parseDescriptors2 vm crypto s totalSize = .ok ds →
    ((ds.map AnyDescriptor.frameSize).sum : ℤ) ≤ totalSize.toInt)

theorem not_cutsSection_of_wraps (vm : Jvm) (crypto : Crypto) {s : InputStream}
    {totalSize : Int64} (hwrap : WrapsToTotal s totalSize) :
    ¬ CutsSection vm crypto s totalSize := by
  rintro ⟨-, -, -, hsum, -⟩
  obtain ⟨d, s', hturn, hlt⟩ := parseTurn_of_wraps vm hwrap
  have hle := hsum [d] (parseDescriptors_eq_ok_iff.mpr
    ⟨s', parseLoop_eq_ok_iff.mpr (runTurns_done hturn)⟩)
  rw [List.map_singleton, List.sum_singleton] at hle
  omega

/-- The loops cut every section of every stream exactly, unless `totalSize` is the negative
number that the size of a first record of at least `2^31` bytes wraps to. -/
theorem cutsSection_iff (vm : Jvm) (crypto : Crypto) (s : InputStream) (totalSize : Int64) :
    CutsSection vm crypto s totalSize ↔ ¬ WrapsToTotal s totalSize := by
  constructor
  · intro h hwrap
    exact not_cutsSection_of_wraps vm crypto hwrap h
  · intro hwrap
    refine ⟨isSome_runTurns_parseTurn vm s totalSize,
      isSome_runTurns_parseTurn2 vm crypto s totalSize, ?_, ?_, ?_⟩
    · intro ds s' hds hlen
      have hrun := parseLoop2_eq_ok_iff.mp hds
      have hparts := partitioned_of_runTurns hrun
      obtain ⟨us, hus, hagrees⟩ := runTurns_parseTurn_of_parseTurn2 hrun
      have hsum := hparts.sum_eq
      have hloop := parseLoop_eq_ok_iff.mpr hus
      refine ⟨hsum, ?_, hparts.numbered, us, hloop,
        parseDescriptors_eq_ok_iff.mpr ⟨s', hloop⟩, hagrees⟩
      refine (hparts.stream_eq hlen).trans ?_
      rw [← hsum, Int.toNat_natCast]
    · intro us hus
      obtain ⟨s', hloop⟩ := parseDescriptors_eq_ok_iff.mp hus
      exact le_of_eq (sum_of_runTurns_parseTurn hwrap (parseLoop_eq_ok_iff.mp hloop))
    · intro ds hds
      obtain ⟨s', hrun⟩ := parseDescriptors2_eq_ok_iff.mp hds
      exact le_of_eq (partitioned_of_runTurns hrun).sum_eq

/-- A record of `2^31 - 16` bytes of payload, and `totalSize` the number its size wraps to. -/
theorem cutsSection_wraps :
    let vm : Jvm := ⟨false, .littleEndian⟩
    let crypto : Crypto := ⟨fun _ _ => [], fun _ => .error .io, fun _ => .error .io,
      fun _ _ => .error .io, zeros⟩
    let n : ℕ := 2147483632
    let s : InputStream :=
      .fileInputStream ([be 8 7, be 8 n].flatten ++ List.replicate n 0)
    ¬ CutsSection vm crypto s (-2147483648) := by
  intro vm crypto n s
  have hrest : s.rest = [be 8 7, be 8 n].flatten ++ List.replicate n 0 := rfl
  have hfield : readField s.rest 8 8 = n :=
    readField_header (i := 1) hrest rfl rfl (by decide)
  have hlen : s.rest.length = 16 + n := by
    show ([be 8 7, be 8 n].flatten ++ List.replicate n 0).length = 16 + n
    rw [List.length_append, List.length_replicate]
    rfl
  refine not_cutsSection_of_wraps vm crypto ⟨n, by decide, by decide, ?_, ?_, by decide⟩
  · rw [hfield]
    rfl
  · rw [hlen]

end UnknownDescriptor

end Avb

end BootImageEditor
