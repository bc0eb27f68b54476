import BootImageEditor.Struct3.Unpack

/-!
# What unpacking consumes without assertions

The readers of `unpack` check their byte counts in assertions only. Without assertions a short
read leaves zeros in the array and nothing is thrown, and a padding item of count 0 still
samples one byte and then skips `-1`: a file moves back by it, a byte array does not. The only
exception left is the one of a file that would move before its start.
-/

namespace BootImageEditor

open Codec Fallible

namespace InputStream

/-- A read moves by what is there. -/
theorem read_stream_eq (s : InputStream) (n : ℕ) :
    (s.read n).2.2 = s.advance (min n s.rest.length) := by
  unfold read
  by_cases hzero : n = 0
  · rw [if_pos hzero, hzero, Nat.zero_min, advance_zero]
  · rw [if_neg hzero]
    by_cases hrest : s.rest = []
    · rw [if_pos hrest, hrest, List.length_nil, Nat.min_zero, advance_zero]
    · rw [if_neg hrest]
      simp only [List.length_take]

@[simp] theorem advance_pos (s : InputStream) (n : ℕ) : (s.advance n).pos = s.pos + n := rfl

@[simp] theorem advance_data (s : InputStream) (n : ℕ) : (s.advance n).data = s.data := rfl

theorem length_rest (s : InputStream) : s.rest.length = s.data.length - s.pos := by
  rw [rest, List.length_drop]

end InputStream

namespace Struct3

/-- The `0x` items: they sample a byte that they do not cover. -/
def Unsampled (f : Format) : Prop := f.typeName = .random ∧ f.multiple = 0

instance (f : Format) : Decidable (Unsampled f) :=
  inferInstanceAs (Decidable (f.typeName = .random ∧ f.multiple = 0))

/-! ## One item -/

/-- Every reader but that of padding moves by its bytes, as far as they are there. -/
theorem getWith_disabled {vm : Jvm} (hvm : vm.assertionsEnabled = false) (n : ℕ)
    (value : Bytes → Value) (s : InputStream) :
    ∃ v, getWith vm n value s = .ok (v, s.advance (min n s.rest.length)) := by
  refine ⟨value (s.read n).2.1, ?_⟩
  rw [getWith, readFully, ← InputStream.read_stream_eq]
  simp only [Jvm.assert_disabled hvm, ok_bind]

theorem unpackItem_disabled {vm : Jvm} (hvm : vm.assertionsEnabled = false) (order : ByteOrder)
    {f : Format} (hf : f.typeName ≠ .random) (s : InputStream) :
    ∃ v, unpackItem vm order f s = .ok (v, s.advance (min f.size s.rest.length)) := by
  have hsize : f.size = f.typeName.width * f.multiple := rfl
  have hexp : f.typeName.primitive = false → f.size = f.typeName.width :=
    Format.size_of_exploded
  unfold unpackItem
  cases htype : f.typeName <;>
    simp only [htype, FormatType.primitive, FormatType.width, Nat.one_mul] at hsize hexp ⊢
  case random => exact absurd htype hf
  case byte | ubyte | string =>
    rw [hsize]
    exact getWith_disabled hvm _ _ s
  all_goals
    rw [hexp trivial]
    exact getWith_disabled hvm _ _ s

/-- A format without padding takes what is there of its bytes. -/
theorem unpackLoop_unpadded {vm : Jvm} (hvm : vm.assertionsEnabled = false) (order : ByteOrder)
    {fs : List Format} (hfs : ∀ f ∈ fs, f.typeName ≠ .random) (s : InputStream) :
    ∃ vs, unpackLoop vm order fs s =
        .ok (vs, s.advance (min (formatsSize fs) s.rest.length)) ∧ vs.length = fs.length := by
  induction fs generalizing s with
  | nil => exact ⟨[], by simp [unpackLoop, formatsSize], rfl⟩
  | cons f fs ih =>
      obtain ⟨v, hv⟩ := unpackItem_disabled hvm order (hfs f List.mem_cons_self) s
      obtain ⟨vs, hvs, hcount⟩ := ih (fun g hg => hfs g (List.mem_cons_of_mem f hg))
        (s.advance (min f.size s.rest.length))
      refine ⟨v :: vs, ?_, by simp [hcount]⟩
      rw [unpackLoop, hv, ok_bind]
      simp only [hvs, ok_bind, InputStream.advance_advance]
      rw [InputStream.rest_advance, List.length_drop, formatsSize_cons]
      congr 4
      omega

/-- A padding item samples one byte, if there is one, and skips. -/
theorem getPadding_disabled {vm : Jvm} (hvm : vm.assertionsEnabled = false) (n : ℕ)
    (s : InputStream) :
    getPadding vm n s =
      ((s.advance (min 1 s.rest.length)).skip ((n : ℤ) - 1)).map
        (fun r => (.byte ((s.read 1).2.1.headD 0).toInt8, r.2)) := by
  rw [getPadding, readFully]
  simp only [Jvm.assert_disabled hvm, ok_bind, InputStream.read_stream_eq]
  cases (s.advance (min 1 s.rest.length)).skip ((n : ℤ) - 1) with
  | error e => rfl
  | ok r => rfl

/-! ## Byte arrays -/

/-- What an item moves a byte array by when there is enough: a `0x` item keeps the byte it
sampled. -/
def stride (f : Format) : ℕ := f.size + if Unsampled f then 1 else 0

def strides (fs : List Format) : ℕ := (fs.map stride).sum

theorem strides_cons (f : Format) (fs : List Format) :
    strides (f :: fs) = stride f + strides fs := by
  simp [strides]

theorem strides_eq (fs : List Format) :
    strides fs = formatsSize fs + fs.countP (fun f => Unsampled f) := by
  induction fs with
  | nil => rfl
  | cons f fs ih =>
      rw [strides_cons, formatsSize_cons, List.countP_cons, ih, stride]
      simp only [decide_eq_true_eq]
      omega

theorem unpackItem_byteArray {vm : Jvm} (hvm : vm.assertionsEnabled = false)
    (order : ByteOrder) (f : Format) {s : InputStream} (hs : s.kind = .byteArray) :
    ∃ v, unpackItem vm order f s = .ok (v, s.advance (min (stride f) s.rest.length)) := by
  by_cases hf : f.typeName = .random
  · have hsize : f.size = f.multiple := by
      rw [Format.size, hf]
      exact Nat.one_mul _
    rw [unpackItem, hf]
    simp only [getPadding_disabled hvm, InputStream.skip, InputStream.advance_kind, hs,
      Except.map, InputStream.advance_advance, InputStream.rest_advance, List.length_drop]
    refine ⟨.byte ((s.read 1).2.1.headD 0).toInt8, ?_⟩
    have hmoved : min 1 s.rest.length +
        (min (max ((f.multiple : ℤ) - 1) 0) ((s.rest.length - min 1 s.rest.length : ℕ) : ℤ)).toNat =
          min (stride f) s.rest.length := by
      rw [stride, hsize]
      by_cases hzero : f.multiple = 0
      · have hun : Unsampled f := ⟨hf, hzero⟩
        rw [if_pos hun]
        omega
      · have hun : ¬ Unsampled f := fun h => hzero h.2
        rw [if_neg hun]
        omega
    rw [hmoved]
  · have hstride : stride f = f.size := by
      rw [stride, if_neg (fun h => hf h.1), Nat.add_zero]
    rw [hstride]
    exact unpackItem_disabled hvm order hf s

theorem unpackLoop_byteArray {vm : Jvm} (hvm : vm.assertionsEnabled = false)
    (order : ByteOrder) (fs : List Format) {s : InputStream} (hs : s.kind = .byteArray) :
    ∃ vs, unpackLoop vm order fs s = .ok (vs, s.advance (min (strides fs) s.rest.length)) ∧
      vs.length = fs.length := by
  induction fs generalizing s with
  | nil => exact ⟨[], by simp [unpackLoop, strides], rfl⟩
  | cons f fs ih =>
      obtain ⟨v, hv⟩ := unpackItem_byteArray hvm order f hs
      obtain ⟨vs, hvs, hlen⟩ := ih (s := s.advance (min (stride f) s.rest.length)) hs
      refine ⟨v :: vs, ?_, by simp [hlen]⟩
      rw [unpackLoop, hv, ok_bind]
      simp only [hvs, ok_bind, InputStream.advance_advance]
      rw [InputStream.rest_advance, List.length_drop, strides_cons]
      congr 4
      omega

/-! ## Files -/

/-- A padding item of a file moves freely, but not before the start. -/
theorem unpackItem_padding {vm : Jvm} (hvm : vm.assertionsEnabled = false) (order : ByteOrder)
    {f : Format} {s : InputStream} (hs : s.kind = .file) (hf : f.typeName = .random) :
    ∃ v, unpackItem vm order f s =
      if s.pos + min 1 s.rest.length + f.multiple = 0 then .error .io
      else .ok (v, { s with pos := s.pos + min 1 s.rest.length + f.multiple - 1 }) := by
  refine ⟨.byte ((s.read 1).2.1.headD 0).toInt8, ?_⟩
  rw [unpackItem, hf]
  simp only [getPadding_disabled hvm, InputStream.skip, InputStream.advance_kind, hs,
    InputStream.advance_pos]
  by_cases hzero : s.pos + min 1 s.rest.length + f.multiple = 0
  · rw [if_pos (by omega), if_pos hzero]
    rfl
  · rw [if_neg (by omega), if_neg hzero]
    have hmoved : (((s.pos + min 1 s.rest.length : ℕ) : ℤ) + ((f.multiple : ℤ) - 1)).toNat =
        s.pos + min 1 s.rest.length + f.multiple - 1 := by omega
    simp only [Except.map, hmoved, InputStream.advance_data]

/-- One item at enough bytes moves a file by its size, but for a `0x` item at the end. -/
theorem unpackItem_file {vm : Jvm} (hvm : vm.assertionsEnabled = false) (order : ByteOrder)
    {f : Format} {s : InputStream} (hs : s.kind = .file) (hlen : f.size ≤ s.rest.length)
    (hf : ¬ (Unsampled f ∧ s.rest = [])) :
    ∃ v, unpackItem vm order f s = .ok (v, s.advance f.size) := by
  by_cases hrandom : f.typeName = .random
  · have hsize : f.size = f.multiple := by
      rw [Format.size, hrandom]
      exact Nat.one_mul _
    have hpos : 1 ≤ s.rest.length := by
      by_contra hnil
      have hzero : s.rest.length = 0 := by omega
      exact hf ⟨⟨hrandom, by omega⟩, List.length_eq_zero_iff.mp hzero⟩
    obtain ⟨v, hv⟩ := unpackItem_padding hvm order hs hrandom
    rw [if_neg (by omega)] at hv
    have hmoved : s.pos + min 1 s.rest.length + f.multiple - 1 = s.pos + f.size := by omega
    rw [hmoved] at hv
    exact ⟨v, hv⟩
  · obtain ⟨v, hv⟩ := unpackItem_disabled hvm order hrandom s
    rw [Nat.min_eq_left hlen] at hv
    exact ⟨v, hv⟩

/-- A `0x` item at the end of a file moves back by one byte, or throws at position 0. -/
theorem unpackItem_unsampled {vm : Jvm} (hvm : vm.assertionsEnabled = false) (order : ByteOrder)
    {f : Format} {s s' : InputStream} {v : Value} (hs : s.kind = .file) (hf : Unsampled f)
    (hrest : s.rest = []) (h : unpackItem vm order f s = .ok (v, s')) :
    s.pos ≠ 0 ∧ s' = { s with pos := s.pos - 1 } := by
  obtain ⟨w, hw⟩ := unpackItem_padding hvm order hs hf.1
  rw [h, hrest, List.length_nil, Nat.min_zero, hf.2] at hw
  obtain ⟨hpos, hw⟩ := ite_error_eq_ok_iff.mp hw.symm
  cases hw
  exact ⟨hpos, rfl⟩

/-- A `0x` item with only empty items behind it. -/
def EndsUnsampled : List Format → Prop
  | [] => False
  | f :: fs => (Unsampled f ∧ formatsSize fs = 0) ∨ EndsUnsampled fs

/-- Enough bytes in a file, and no `0x` item read at its end. -/
theorem unpackLoop_file {vm : Jvm} (hvm : vm.assertionsEnabled = false) (order : ByteOrder)
    {fs : List Format} {s : InputStream} (hs : s.kind = .file)
    (hlen : formatsSize fs ≤ s.rest.length)
    (hend : ¬ (formatsSize fs = s.rest.length ∧ EndsUnsampled fs)) :
    ∃ vs, unpackLoop vm order fs s = .ok (vs, s.advance (formatsSize fs)) ∧
      vs.length = fs.length := by
  induction fs generalizing s with
  | nil => exact ⟨[], rfl, rfl⟩
  | cons f fs ih =>
      rw [formatsSize_cons] at hlen hend
      have hitem : ¬ (Unsampled f ∧ s.rest = []) := by
        rintro ⟨hf, hrest⟩
        rw [hrest, List.length_nil] at hlen hend
        exact hend ⟨by omega, Or.inl ⟨hf, by omega⟩⟩
      obtain ⟨v, hv⟩ := unpackItem_file hvm order hs (by omega) hitem
      have hrest : (s.advance f.size).rest.length = s.rest.length - f.size := by
        rw [InputStream.rest_advance, List.length_drop]
      obtain ⟨vs, hvs, hcount⟩ := ih (s := s.advance f.size) hs (by omega)
        (fun h => hend ⟨by omega, Or.inr h.2⟩)
      refine ⟨v :: vs, ?_, by simp [hcount]⟩
      rw [unpackLoop, hv, ok_bind]
      simp only [hvs, ok_bind, InputStream.advance_advance, formatsSize_cons]

/-- Items of no bytes never move a file forward, and from its end they move it back by one
byte at most. -/
theorem pos_of_empty {vm : Jvm} (hvm : vm.assertionsEnabled = false) {order : ByteOrder}
    {fs : List Format} {s s' : InputStream} {vs : List Value} (hs : s.kind = .file)
    (hsize : formatsSize fs = 0) (h : unpackLoop vm order fs s = .ok (vs, s')) :
    s'.pos ≤ s.pos ∧ (s.data.length ≤ s.pos + 1 → s.data.length ≤ s'.pos + 1) := by
  induction fs generalizing s vs with
  | nil =>
      cases h
      exact ⟨le_refl _, id⟩
  | cons f fs ih =>
      rw [formatsSize_cons] at hsize
      obtain ⟨⟨v, s₁⟩, hv, h⟩ := bind_eq_ok.mp h
      obtain ⟨⟨vs', s₂⟩, hvs, h⟩ := bind_eq_ok.mp h
      cases h
      by_cases hf : Unsampled f ∧ s.rest = []
      · obtain ⟨hpos, rfl⟩ := unpackItem_unsampled hvm order hs hf.1 hf.2 hv
        have hrest := s.length_rest
        rw [hf.2, List.length_nil] at hrest
        obtain ⟨hle, hge⟩ := ih (s := { s with pos := s.pos - 1 }) hs (by omega) hvs
        simp only at hle hge
        exact ⟨by omega, fun _ => hge (by omega)⟩
      · obtain ⟨w, hw⟩ := unpackItem_file hvm order hs (by omega) hf
        rw [hv] at hw
        cases hw
        have hzero : f.size = 0 := by omega
        rw [hzero] at hvs
        exact ih hs (by omega) hvs

/-- A `0x` item read at the end of a file leaves the stream short of the end of the format, by
one byte if the file has any. -/
theorem pos_of_endsUnsampled {vm : Jvm} (hvm : vm.assertionsEnabled = false)
    {order : ByteOrder} {fs : List Format} {s s' : InputStream} {vs : List Value}
    (hs : s.kind = .file) (hlen : formatsSize fs = s.rest.length) (hend : EndsUnsampled fs)
    (h : unpackLoop vm order fs s = .ok (vs, s')) :
    s'.pos < s.pos + formatsSize fs ∧
      (s.pos ≤ s.data.length → s.pos + formatsSize fs ≤ s'.pos + 1) := by
  induction fs generalizing s vs with
  | nil => exact hend.elim
  | cons f fs ih =>
      rw [formatsSize_cons] at hlen ⊢
      obtain ⟨⟨v, s₁⟩, hv, h⟩ := bind_eq_ok.mp h
      obtain ⟨⟨vs', s₂⟩, hvs, h⟩ := bind_eq_ok.mp h
      cases h
      have hrest := s.length_rest
      by_cases hf : Unsampled f ∧ s.rest = []
      · obtain ⟨hpos, rfl⟩ := unpackItem_unsampled hvm order hs hf.1 hf.2 hv
        rw [hf.2, List.length_nil] at hrest hlen
        obtain ⟨hle, hge⟩ :=
          pos_of_empty hvm (s := { s with pos := s.pos - 1 }) hs (by omega) hvs
        simp only at hle hge
        refine ⟨by omega, ?_⟩
        intro hstart
        have hlast := hge (by omega)
        omega
      · obtain ⟨w, hw⟩ := unpackItem_file hvm order hs (by omega) hf
        rw [hv] at hw
        cases hw
        have hnext : EndsUnsampled fs := by
          rcases hend with ⟨hun, hsize⟩ | hend
          · have hzero : f.size = 0 := by
              rw [Format.size, hun.2, Nat.mul_zero]
            have hnil : s.rest = [] := List.length_eq_zero_iff.mp (by omega)
            exact absurd ⟨hun, hnil⟩ hf
          · exact hend
        have hdrop : (s.advance f.size).rest.length = s.rest.length - f.size := by
          rw [InputStream.rest_advance, List.length_drop]
        obtain ⟨hlt, hge⟩ := ih (s := s.advance f.size) hs (by omega) hnext hvs
        simp only [InputStream.advance_pos, InputStream.advance_data] at hlt hge
        refine ⟨by omega, ?_⟩
        intro hstart
        have hlast := hge (by omega)
        omega

/-- On an empty file: at some item the `0x` items so far outnumber the bytes moved over by the
other padding items. -/
def Falls : ℕ → List Format → Prop
  | _, [] => False
  | pos, f :: fs =>
      if f.typeName = .random then
        pos + f.multiple = 0 ∨ Falls (pos + f.multiple - 1) fs
      else Falls pos fs

theorem not_endsUnsampled {fs : List Format} (hfs : ∀ f ∈ fs, f.typeName ≠ .random) :
    ¬ EndsUnsampled fs := by
  induction fs with
  | nil => exact id
  | cons f fs ih =>
      rintro (⟨hun, -⟩ | hend)
      · exact hfs f List.mem_cons_self hun.1
      · exact ih (fun g hg => hfs g (List.mem_cons_of_mem f hg)) hend

theorem not_falls {fs : List Format} (hfs : ∀ f ∈ fs, f.typeName ≠ .random) (pos : ℕ) :
    ¬ Falls pos fs := by
  induction fs with
  | nil => exact id
  | cons f fs ih =>
      rw [Falls, if_neg (hfs f List.mem_cons_self)]
      exact ih fun g hg => hfs g (List.mem_cons_of_mem f hg)

theorem unpackLoop_cons_error_iff {vm : Jvm} {order : ByteOrder} {f : Format}
    {fs : List Format} {s : InputStream} :
    (∃ e, unpackLoop vm order (f :: fs) s = .error e) ↔
      (∃ e, unpackItem vm order f s = .error e) ∨
        ∃ v s₁, unpackItem vm order f s = .ok (v, s₁) ∧
          ∃ e, unpackLoop vm order fs s₁ = .error e := by
  rw [unpackLoop]
  cases hitem : unpackItem vm order f s with
  | error e => simp
  | ok r =>
      obtain ⟨v, s₁⟩ := r
      rw [ok_bind]
      cases hloop : unpackLoop vm order fs s₁ with
      | error e => simp [hloop]
      | ok r => simp [hloop]

/-- The only exception: moving before the start of an empty file. -/
theorem unpackLoop_file_error_iff {vm : Jvm} (hvm : vm.assertionsEnabled = false)
    {order : ByteOrder} {fs : List Format} {s : InputStream} (hs : s.kind = .file) :
    (∃ e, unpackLoop vm order fs s = .error e) ↔ s.data = [] ∧ Falls s.pos fs := by
  induction fs generalizing s with
  | nil => simp [unpackLoop, Falls]
  | cons f fs ih =>
      have hrest := s.length_rest
      have hempty : s.data = [] ↔ s.data.length = 0 := List.length_eq_zero_iff.symm
      rw [unpackLoop_cons_error_iff, Falls]
      by_cases hf : f.typeName = .random
      · obtain ⟨v, hv⟩ := unpackItem_padding hvm order hs hf
        rw [if_pos hf]
        by_cases hzero : s.pos + min 1 s.rest.length + f.multiple = 0
        · rw [if_pos hzero] at hv
          constructor
          · intro _
            exact ⟨hempty.mpr (by omega), Or.inl (by omega)⟩
          · intro _
            exact Or.inl ⟨.io, hv⟩
        · rw [if_neg hzero] at hv
          have hnext := ih (s := { s with
            pos := s.pos + min 1 s.rest.length + f.multiple - 1 }) hs
          simp only [hv, reduceCtorEq, exists_false, false_or, Except.ok.injEq, Prod.mk.injEq]
          constructor
          · rintro ⟨w, s₁, ⟨-, rfl⟩, herror⟩
            obtain ⟨hdata, hfalls⟩ := hnext.mp herror
            have hnil : s.rest.length = 0 := by
              have := hempty.mp hdata
              omega
            simp only [hnil, Nat.min_zero, Nat.add_zero] at hfalls
            exact ⟨hdata, Or.inr hfalls⟩
          · rintro ⟨hdata, hfalls⟩
            have hnil : s.rest.length = 0 := by
              have := hempty.mp hdata
              omega
            refine ⟨v, _, ⟨rfl, rfl⟩, hnext.mpr ⟨hdata, ?_⟩⟩
            simp only [hnil, Nat.min_zero, Nat.add_zero] at hzero ⊢
            exact hfalls.resolve_left hzero
      · obtain ⟨v, hv⟩ := unpackItem_disabled hvm order hf s
        rw [if_neg hf]
        have hnext := ih (s := s.advance (min f.size s.rest.length)) hs
        simp only [hv, reduceCtorEq, exists_false, false_or, Except.ok.injEq, Prod.mk.injEq]
        constructor
        · rintro ⟨w, s₁, ⟨-, rfl⟩, herror⟩
          obtain ⟨hdata, hfalls⟩ := hnext.mp herror
          have hnil : s.rest.length = 0 := by
            have := hempty.mp hdata
            omega
          rw [hnil, Nat.min_zero] at hfalls
          exact ⟨hdata, hfalls⟩
        · rintro ⟨hdata, hfalls⟩
          have hnil : s.rest.length = 0 := by
            have := hempty.mp hdata
            omega
          refine ⟨v, _, ⟨rfl, rfl⟩, hnext.mpr ⟨hdata, ?_⟩⟩
          rw [hnil, Nat.min_zero]
          exact hfalls

/-! ## The size of the format -/

/-- `unpack` consumes exactly `calcSize()` bytes if they are available, and throws if they are
not. -/
def Consumes (vm : Jvm) (fmt : KString) (st : Struct3) (s : InputStream) : Prop :=
  (st.calcSize.toInt ≤ s.rest.length →
    ∃ values s', unpackFormat vm fmt s = .ok (values, s') ∧ values.length = st.formats.length ∧
      (s'.pos : ℤ) = s.pos + st.calcSize.toInt) ∧
  ((s.rest.length : ℤ) < st.calcSize.toInt → ∃ e, unpackFormat vm fmt s = .error e)

/-- The streams on which `unpack` behaves so: a byte array that ends with the format, or is long
enough for a format without `0x`; a file long enough, with no `0x` read at its end; an empty
file at which the format falls before the start; or a file that ends with the size of a format
without padding, as that size is computed. -/
def Measured (st : Struct3) (s : InputStream) : Prop :=
  match s.kind with
  | .byteArray =>
      (s.rest.length : ℤ) = st.calcSize.toInt ∨
        (formatsSize st.formats ≤ intMax ∧ formatsSize st.formats ≤ s.rest.length ∧
          ∀ f ∈ st.formats, ¬ Unsampled f)
  | .file =>
      (formatsSize st.formats ≤ intMax ∧
        ((formatsSize st.formats ≤ s.rest.length ∧
            ¬ (formatsSize st.formats = s.rest.length ∧ EndsUnsampled st.formats)) ∨
          (s.rest.length < formatsSize st.formats ∧ s.data = [] ∧ Falls s.pos st.formats))) ∨
      ((s.rest.length : ℤ) = st.calcSize.toInt ∧ ∀ f ∈ st.formats, f.typeName ≠ .random)

/-- `calcSize()` is the size of the format, or less than it. -/
theorem calcSize_toInt_cases (st : Struct3) :
    st.calcSize.toInt = formatsSize st.formats ∧ formatsSize st.formats ≤ intMax ∨
      st.calcSize.toInt < (formatsSize st.formats : ℤ) - 1 ∧ intMax < formatsSize st.formats := by
  by_cases hsize : formatsSize st.formats ≤ intMax
  · exact Or.inl ⟨calcSize_toInt hsize, hsize⟩
  · have hlt := st.calcSize.toInt_lt
    have hint : st.calcSize.toInt = ((formatsSize st.formats : ℕ) : ℤ).bmod (2 ^ 32) := by
      rw [calcSize_eq, Int32.toInt_ofNat']
      rfl
    rw [Int.bmod_def] at hint
    unfold intMax at hsize ⊢
    refine Or.inr ⟨?_, by omega⟩
    split at hint <;> omega

theorem consumes_byteArray_iff {vm : Jvm} {fmt : KString} {st : Struct3} {s : InputStream}
    (hvm : vm.assertionsEnabled = false) (hnew : new vm fmt = .ok st) (hs : s.kind = .byteArray) :
    Consumes vm fmt st s ↔ Measured st s := by
  obtain ⟨vs, hvs, hcount⟩ := unpackLoop_byteArray hvm st.byteOrder st.formats hs
  have hstrides := strides_eq st.formats
  have hcases := calcSize_toInt_cases st
  have hnone : st.formats.countP (fun f => Unsampled f) = 0 ↔
      ∀ f ∈ st.formats, ¬ Unsampled f := by
    simp [List.countP_eq_zero]
  unfold Consumes Measured
  rw [hs]
  simp only [unpackFormat_eq hnew, unpack, hvs, reduceCtorEq, exists_false, imp_false,
    Except.ok.injEq, Prod.mk.injEq]
  rw [← hnone]
  constructor
  · rintro ⟨henough, hshort⟩
    obtain ⟨vs', s', ⟨-, rfl⟩, -, hpos⟩ := henough (by omega)
    clear henough
    rw [InputStream.advance_pos, Nat.cast_add] at hpos
    omega
  · intro h
    refine ⟨fun _ => ⟨vs, _, ⟨rfl, rfl⟩, hcount, ?_⟩, by omega⟩
    rw [InputStream.advance_pos, Nat.cast_add]
    omega

/-- A file and a format without padding. -/
theorem consumes_unpadded_iff {vm : Jvm} {fmt : KString} {st : Struct3} {s : InputStream}
    (hvm : vm.assertionsEnabled = false) (hnew : new vm fmt = .ok st) (hs : s.kind = .file)
    (hpadding : ∀ f ∈ st.formats, f.typeName ≠ .random) :
    Consumes vm fmt st s ↔ Measured st s := by
  obtain ⟨vs, hvs, hcount⟩ := unpackLoop_unpadded hvm st.byteOrder hpadding s
  have hcases := calcSize_toInt_cases st
  have hend := not_endsUnsampled hpadding
  have hfalls := not_falls hpadding s.pos
  unfold Consumes Measured
  rw [hs]
  simp only [unpackFormat_eq hnew, unpack, hvs, reduceCtorEq, exists_false, imp_false,
    Except.ok.injEq, Prod.mk.injEq, hend, hfalls, and_false, not_false_eq_true, and_true, or_false]
  constructor
  · rintro ⟨henough, hshort⟩
    obtain ⟨vs', s', ⟨-, rfl⟩, -, hpos⟩ := henough (by omega)
    clear henough
    rw [InputStream.advance_pos, Nat.cast_add] at hpos
    exact or_iff_not_imp_right.mpr fun hne => by
      have hne' : (s.rest.length : ℤ) ≠ st.calcSize.toInt := fun h => hne ⟨h, hpadding⟩
      omega
  · intro h
    have hmoved : ((min (formatsSize st.formats) s.rest.length : ℕ) : ℤ) = st.calcSize.toInt := by
      rcases h with h | ⟨h, -⟩ <;> omega
    refine ⟨fun _ => ⟨vs, _, ⟨rfl, rfl⟩, hcount, ?_⟩, by omega⟩
    rw [InputStream.advance_pos, Nat.cast_add, hmoved]

/-- A file and a format with padding. -/
theorem consumes_padded_iff {vm : Jvm} {fmt : KString} {st : Struct3} {s : InputStream}
    (hvm : vm.assertionsEnabled = false) (hnew : new vm fmt = .ok st) (hs : s.kind = .file)
    (hpadding : ¬ ∀ f ∈ st.formats, f.typeName ≠ .random)
    (hsize : formatsSize st.formats ≤ intMax ∨ formatsSize st.formats ≤ s.rest.length) :
    Consumes vm fmt st s ↔ Measured st s := by
  have hcases := calcSize_toInt_cases st
  have hrest := s.length_rest
  have hmeasured : Measured st s ↔ formatsSize st.formats ≤ intMax ∧
      ((formatsSize st.formats ≤ s.rest.length ∧
          ¬ (formatsSize st.formats = s.rest.length ∧ EndsUnsampled st.formats)) ∨
        (s.rest.length < formatsSize st.formats ∧ s.data = [] ∧ Falls s.pos st.formats)) := by
    unfold Measured
    rw [hs]
    exact or_iff_left fun h => hpadding h.2
  rw [hmeasured, Consumes]
  simp only [unpackFormat_eq hnew]
  by_cases hlen : formatsSize st.formats ≤ s.rest.length
  · by_cases hend : formatsSize st.formats = s.rest.length ∧ EndsUnsampled st.formats
    · -- the format is read to the end of the file, and a `0x` behind it moves back
      constructor
      · rintro ⟨henough, -⟩
        obtain ⟨vs, s', hvs, -, hpos⟩ := henough (by omega)
        clear henough
        obtain ⟨hlt, hge⟩ := pos_of_endsUnsampled hvm hs hend.1 hend.2 hvs
        unfold intMax at hcases
        omega
      · rintro ⟨-, ⟨-, hnot⟩ | ⟨hshort, -⟩⟩
        · exact absurd hend hnot
        · omega
    · obtain ⟨vs, hvs, hcount⟩ := unpackLoop_file hvm st.byteOrder hs hlen hend
      constructor
      · rintro ⟨henough, -⟩
        obtain ⟨vs', s', hvs', -, hpos⟩ := henough (by omega)
        rw [unpack, hvs] at hvs'
        cases hvs'
        clear henough
        rw [InputStream.advance_pos, Nat.cast_add] at hpos
        exact ⟨by omega, Or.inl ⟨hlen, hend⟩⟩
      · rintro ⟨hmax, -⟩
        refine ⟨fun _ => ⟨vs, _, hvs, hcount, ?_⟩, by omega⟩
        rw [InputStream.advance_pos, Nat.cast_add]
        omega
  · have herror : (∃ e, unpackLoop vm st.byteOrder st.formats s = .error e) ↔
        s.data = [] ∧ Falls s.pos st.formats := unpackLoop_file_error_iff hvm hs
    constructor
    · rintro ⟨-, hshort⟩
      exact ⟨by omega, Or.inr ⟨by omega, herror.mp (hshort (by omega))⟩⟩
    · rintro ⟨hmax, ⟨hle, -⟩ | ⟨-, hfalls⟩⟩
      · exact absurd hle hlen
      · exact ⟨by omega, fun _ => herror.mpr hfalls⟩

/-- Without assertions: on a measured stream exactly `calcSize()` bytes are consumed, and on no
other, where the format is below the limit of an `Int` or has no padding, or the stream is a byte
array or holds the bytes of the format. -/
theorem unpack_consumes {vm : Jvm} {fmt : KString} {st : Struct3}
    (hvm : vm.assertionsEnabled = false) (hnew : new vm fmt = .ok st) (s : InputStream) :
    (Measured st s → Consumes vm fmt st s) ∧
      (Consumes vm fmt st s → Measured st s ∨
        (s.kind = .file ∧ intMax < formatsSize st.formats ∧
          s.rest.length < formatsSize st.formats ∧ ∃ f ∈ st.formats, f.typeName = .random)) := by
  cases hs : s.kind with
  | byteArray =>
      have hiff := consumes_byteArray_iff hvm hnew hs
      exact ⟨hiff.mpr, fun h => Or.inl (hiff.mp h)⟩
  | file =>
      by_cases hpadding : ∀ f ∈ st.formats, f.typeName ≠ .random
      · have hiff := consumes_unpadded_iff hvm hnew hs hpadding
        exact ⟨hiff.mpr, fun h => Or.inl (hiff.mp h)⟩
      · by_cases hsize : formatsSize st.formats ≤ intMax ∨
            formatsSize st.formats ≤ s.rest.length
        · have hiff := consumes_padded_iff hvm hnew hs hpadding hsize
          exact ⟨hiff.mpr, fun h => Or.inl (hiff.mp h)⟩
        · have hrandom : ∃ f ∈ st.formats, f.typeName = .random := by
            simpa only [not_forall, not_not, exists_prop] using hpadding
          rw [not_or, Nat.not_le, Nat.not_le] at hsize
          refine ⟨?_, fun _ => Or.inr ⟨rfl, hsize.1, hsize.2, hrandom⟩⟩
          intro h
          unfold Measured at h
          rw [hs] at h
          rcases h with ⟨hmax, -⟩ | ⟨-, hunpadded⟩
          · omega
          · exact absurd hunpadded hpadding

/-- The two bytes of a number are there, with a third behind them. -/
theorem unpack_consumes_short :
    (Measured ⟨.littleEndian, [.one .short]⟩ (.fileInputStream [1, 2, 3]) →
        Consumes ⟨false, .littleEndian⟩ (units "h") ⟨.littleEndian, [.one .short]⟩
          (.fileInputStream [1, 2, 3])) ∧
      (Consumes ⟨false, .littleEndian⟩ (units "h") ⟨.littleEndian, [.one .short]⟩
          (.fileInputStream [1, 2, 3]) →
        Measured ⟨.littleEndian, [.one .short]⟩ (.fileInputStream [1, 2, 3]) ∨
          (StreamKind.file = .file ∧ intMax < formatsSize [.one .short] ∧
            3 < formatsSize [.one .short] ∧ ∃ f ∈ [Format.one .short], f.typeName = .random)) := by
  have hnew : new ⟨false, .littleEndian⟩ (units "h") =
      .ok ⟨.littleEndian, [.one .short]⟩ := by decide +kernel
  exact unpack_consumes rfl hnew (.fileInputStream [1, 2, 3])

/-- Two of four bytes are there: the number is read with zeros for the others. -/
theorem unpack_accepts_short_file :
    (new ⟨false, .littleEndian⟩ (units "I")).map (·.calcSize.toInt) = .ok 4 ∧
      unpackFormat ⟨false, .littleEndian⟩ (units "I") (.fileInputStream [1, 2]) =
        .ok ([.uint 0x0201], (InputStream.fileInputStream [1, 2]).advance 2) := by
  decide +kernel

end Struct3

end BootImageEditor
