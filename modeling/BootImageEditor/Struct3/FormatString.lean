import BootImageEditor.Struct3.RoundTrip

/-!
# Format strings written item by item

`formatString mark items` is a byte-order mark followed by items, each an
optional decimal count and a letter. The constructor of `Struct3` scans such a
text back into the formats of its items, so packing and unpacking by a format
string are packing and unpacking by these formats.
-/

namespace BootImageEditor

open Codec Fallible

namespace Struct3

/-- The first character of a format string, if it chooses a byte order. -/
inductive OrderMark where
  | absent
  | less
  | greater
  | network
  | native
  | standard
  deriving DecidableEq, Repr

def OrderMark.text : OrderMark → KString
  | absent => []
  | less => units "<"
  | greater => units ">"
  | network => units "!"
  | native => units "@"
  | standard => units "="

/-- The letters of the items, `c` apart. -/
inductive Code where
  | x | b | B | s | h | H | i | l | I | L | q | Q
  deriving DecidableEq, Repr

namespace Code

def letter : Code → UInt16
  | x => 0x78
  | b => 0x62
  | B => 0x42
  | s => 0x73
  | h => 0x68
  | H => 0x48
  | i => 0x69
  | l => 0x6C
  | I => 0x49
  | L => 0x4C
  | q => 0x71
  | Q => 0x51

def formatType : Code → FormatType
  | x => .random
  | b => .byte
  | B => .ubyte
  | s => .string
  | h => .short
  | H => .ushort
  | i | l => .int
  | I | L => .uint
  | q => .long
  | Q => .ulong

theorem eq_x_of_formatType {c : Code} (h : c.formatType = .random) : c = x := by
  cases c <;> first | rfl | cases h

end Code

structure Item where
  code : Code
  count : Option ℕ
  /-- Padding covers at least one byte. -/
  sampled : code = .x → count ≠ some 0

namespace Item

def render (it : Item) : KString :=
  (match it.count with
    | none => []
    | some n => decimal n) ++ [it.code.letter]

def formats (it : Item) : List Format :=
  Format.expand it.code.formatType (it.count.getD 1)

end Item

def formatString (mark : OrderMark) (items : List Item) : KString :=
  mark.text ++ items.flatMap Item.render

/-! ## Scanning -/

theorem isDigit_digitUnit {d : ℕ} (h : d < 10) : isDigit (Numeral.digitUnit d) = true := by
  rw [isDigit, Numeral.digitUnit_toNat (by omega), if_pos h]
  simp
  omega

theorem isDigit_of_mem_decimal {n : ℕ} {u : UInt16} (hu : u ∈ decimal n) :
    isDigit u = true := by
  obtain ⟨d, hd, rfl⟩ := Numeral.exists_digit_of_mem_render (by omega) hu
  exact isDigit_digitUnit hd

theorem decimal_ne_nil (n : ℕ) : decimal n ≠ [] := Numeral.render_ne_nil 10 n

theorem scan_digits {ds : KString} (h : ∀ u ∈ ds, isDigit u = true) (acc cs : KString) :
    scan acc (ds ++ cs) = scan (acc ++ ds) cs := by
  induction ds generalizing acc with
  | nil => simp
  | cons u ds ih =>
      rw [List.cons_append, scan, if_pos (h u (by simp)),
        ih (fun v hv => h v (by simp [hv])), List.append_assoc]
      rfl

theorem ofLetter_letter (c : Code) : FormatType.ofLetter c.letter = .ok c.formatType := by
  cases c <;> rfl

theorem scan_letter (c : Code) (digits cs : KString) :
    scan digits (c.letter :: cs) = (do
      let multiple ← if digits = [] then .ok 1 else integerDecode digits
      let formats ← scan [] cs
      .ok (Format.expand c.formatType multiple.toNat ++ formats)) := by
  have hdigit : isDigit c.letter = false := by cases c <;> rfl
  have hletter : isLetter c.letter = true := by cases c <;> rfl
  rw [scan, hdigit, hletter, ofLetter_letter]
  rfl

theorem not_isPrefixOf_cons {u v : UInt16} {us vs : KString} (h : u ≠ v) :
    (u :: us).isPrefixOf (v :: vs) = false := by
  simp [List.isPrefixOf, h]

/-- `Integer.decode` reads a decimal numeral within the range of an `Int`. -/
theorem integerDecode_decimal (n : ℕ) :
    integerDecode (decimal n) = if n ≤ intMax then .ok (n : ℤ) else .error .numberFormat := by
  have hparse : Numeral.parse 10 (decimal n) = some n :=
    Numeral.parse_render (by omega) (by omega) n
  have hrange : (-(intMax : ℤ) - 1 ≤ (n : ℤ) ∧ (n : ℤ) ≤ intMax) ↔ n ≤ intMax := by
    unfold intMax
    omega
  by_cases hn : n = 0
  · subst hn
    rfl
  · obtain ⟨d, us, hcons, hpos, hlt⟩ :=
      Numeral.head_render_ne_zero (b := 10) (by omega) hn
    have hhead : decimal n = Numeral.digitUnit d :: us := hcons
    have hval : (Numeral.digitUnit d).toNat = 0x30 + d := by
      rw [Numeral.digitUnit_toNat (by omega), if_pos hlt]
    have hne : ∀ v : UInt16, v.toNat ≤ 0x30 → v ≠ Numeral.digitUnit d := by
      rintro v hv rfl
      omega
    have hminus : (units "-").isPrefixOf (decimal n) = false := by
      rw [hhead]
      exact not_isPrefixOf_cons (hne _ (by decide))
    have hplus : (units "+").isPrefixOf (decimal n) = false := by
      rw [hhead]
      exact not_isPrefixOf_cons (hne _ (by decide))
    have hhex : (units "0x").isPrefixOf (decimal n) = false := by
      rw [hhead]
      exact not_isPrefixOf_cons (hne _ (by decide))
    have hHex : (units "0X").isPrefixOf (decimal n) = false := by
      rw [hhead]
      exact not_isPrefixOf_cons (hne _ (by decide))
    have hhash : (units "#").isPrefixOf (decimal n) = false := by
      rw [hhead]
      exact not_isPrefixOf_cons (hne _ (by decide))
    have hoct : (units "0").isPrefixOf (decimal n) = false := by
      rw [hhead]
      exact not_isPrefixOf_cons (hne _ (by decide))
    simp only [integerDecode, hminus, hplus, hhex, hHex, hhash, hoct, hparse, Bool.or_self,
      Bool.false_and, Bool.false_eq_true, if_false, hrange]

/-- A letter with a count. -/
theorem scan_counted (c : Code) (n : ℕ) (cs : KString) :
    scan [] (decimal n ++ c.letter :: cs) =
      if n ≤ intMax then do
        let formats ← scan [] cs
        .ok (Format.expand c.formatType n ++ formats)
      else .error .numberFormat := by
  rw [scan_digits (fun u hu => isDigit_of_mem_decimal hu), List.nil_append, scan_letter,
    if_neg (decimal_ne_nil n), integerDecode_decimal]
  by_cases hn : n ≤ intMax
  · rw [if_pos hn, if_pos hn, ok_bind]
    rfl
  · rw [if_neg hn, if_neg hn, error_bind]

/-- A letter alone. -/
theorem scan_single (c : Code) (cs : KString) :
    scan [] (c.letter :: cs) = (do
      let formats ← scan [] cs
      .ok (Format.expand c.formatType 1 ++ formats)) := by
  rw [scan_letter, if_pos rfl, ok_bind]
  rfl

/-- One item of a format string. -/
theorem scan_item_eq_ok {it : Item} {cs : KString} {fs : List Format}
    (h : scan [] (it.render ++ cs) = .ok fs) :
    ∃ gs, scan [] cs = .ok gs ∧ fs = it.formats ++ gs := by
  unfold Item.render at h
  cases hcount : it.count with
  | none =>
      rw [hcount, List.nil_append, List.singleton_append, scan_single] at h
      obtain ⟨gs, hgs, h⟩ := bind_eq_ok.mp h
      cases h
      exact ⟨gs, hgs, by rw [Item.formats, hcount]; rfl⟩
  | some n =>
      rw [hcount, List.append_assoc, List.singleton_append, scan_counted] at h
      split at h
      · obtain ⟨gs, hgs, h⟩ := bind_eq_ok.mp h
        cases h
        exact ⟨gs, hgs, by rw [Item.formats, hcount]; rfl⟩
      · cases h

theorem scan_items_eq_ok {items : List Item} {fs : List Format}
    (h : scan [] (items.flatMap Item.render) = .ok fs) :
    fs = items.flatMap Item.formats := by
  induction items generalizing fs with
  | nil =>
      cases h
      rfl
  | cons it items ih =>
      rw [List.flatMap_cons] at h
      obtain ⟨gs, hgs, rfl⟩ := scan_item_eq_ok h
      rw [List.flatMap_cons, ih hgs]

/-- A format string that starts with a count has no byte-order mark. -/
theorem new_decimal_append (vm : Jvm) (n : ℕ) (cs : KString) :
    new vm (decimal n ++ cs) = (do
      let formats ← scan [] (decimal n ++ cs)
      .ok ⟨.littleEndian, formats⟩) := by
  obtain ⟨c, us, hcons⟩ := List.exists_cons_of_ne_nil (decimal_ne_nil n)
  have hdigit : isDigit c = true := isDigit_of_mem_decimal (by rw [hcons]; simp)
  have horder : orderOf vm c = .littleEndian := by
    have hne : ∀ v : UInt16, isDigit v = false → [c] ≠ [v] := by
      rintro v hv h
      rw [List.singleton_inj.mp h, hv] at hdigit
      cases hdigit
    unfold orderOf
    rw [if_neg, if_neg]
    · simp only [Bool.or_eq_true, decide_eq_true_eq, not_or]
      exact ⟨hne _ (by decide), hne _ (by decide)⟩
    · simp only [Bool.or_eq_true, decide_eq_true_eq, not_or]
      exact ⟨hne _ (by decide), hne _ (by decide)⟩
  rw [hcons, List.cons_append, new, Jvm.assert_of_true vm (by simp), ok_bind]
  simp only [horder]

/-- The constructor, where it returns, keeps the formats of the items. -/
theorem formats_of_new_formatString {vm : Jvm} {mark : OrderMark} {items : List Item}
    {st : Struct3} (h : new vm (formatString mark items) = .ok st) :
    st.formats = items.flatMap Item.formats := by
  obtain ⟨-, -, h⟩ := bind_eq_ok.mp h
  have hscan : ∃ fs, scan [] (formatString mark items) = .ok fs ∧ st.formats = fs := by
    cases hfmt : formatString mark items with
    | nil =>
        rw [hfmt] at h
        cases h
    | cons c cs =>
        rw [hfmt] at h
        obtain ⟨fs, hfs, h⟩ := bind_eq_ok.mp h
        cases h
        exact ⟨fs, hfs, rfl⟩
  obtain ⟨fs, hfs, hst⟩ := hscan
  have hmark : scan [] (formatString mark items) = scan [] (items.flatMap Item.render) := by
    cases mark <;> rfl
  rw [hmark] at hfs
  rw [hst, scan_items_eq_ok hfs]

theorem sampled_of_mem_formats {it : Item} {f : Format} (h : f ∈ it.formats) : f.Sampled := by
  intro hrandom
  unfold Item.formats Format.expand at h
  split at h
  · obtain rfl := List.mem_singleton.mp h
    have hcount := it.sampled (Code.eq_x_of_formatType hrandom)
    cases hc : it.count with
    | none => simp
    | some n =>
        have hn : n ≠ 0 := fun h0 => hcount (by rw [hc, h0])
        simpa using Nat.one_le_iff_ne_zero.mpr hn
  · next hp =>
      obtain ⟨-, rfl⟩ := List.mem_replicate.mp h
      exact absurd (by simp only [Format.one] at hrandom; rw [hrandom]; rfl) hp

/-! ## The round trip -/

/-- The argument has the type that unpacking returns for the format. -/
def HasType (f : Format) (arg : Value) : Prop :=
  match f.typeName, arg with
  | .random, .byte _ => True
  | .byte, .byteArray _ => True
  | .ubyte, .ubyteArray _ => True
  | .string, .string s => Utf8.WellFormed s ∧ (0 : UInt16) ∉ s
  | .short, .short _ => True
  | .ushort, .ushort _ => True
  | .int, .int _ => True
  | .uint, .uint _ => True
  | .long, .long _ => True
  | .ulong, .ulong _ => True
  | _, _ => False

/-- The argument itself, with byte arrays zero-extended to the count. -/
def zeroExtended (f : Format) (arg : Value) : Value :=
  match arg with
  | .byteArray bs => .byteArray (extend f.multiple bs)
  | .ubyteArray bs => .ubyteArray (extend f.multiple bs)
  | arg => arg

theorem HasType.fills {f : Format} {arg : Value} (h : HasType f arg) : Fills f arg := by
  intro htype
  unfold HasType at h
  rw [htype] at h
  cases arg <;> simp only at h ⊢

theorem HasType.text {f : Format} {arg : Value} (h : HasType f arg) : Text arg := by
  rintro s rfl
  unfold HasType at h
  split at h <;> first | exact h.elim | exact h | skip
  all_goals simp_all

theorem HasType.readBack_eq {f : Format} {arg : Value} (h : HasType f arg) :
    readBack f arg = zeroExtended f arg := by
  unfold HasType at h
  unfold readBack zeroExtended
  cases htype : f.typeName <;> rw [htype] at h <;> cases arg <;>
    first | rfl | exact h.elim

theorem forall₂_hasType {fs : List Format} {args : List Value}
    (h : List.Forall₂ HasType fs args) :
    AllFill fs args ∧ (∀ arg ∈ args, Text arg) ∧
      readBackAll fs args = List.zipWith zeroExtended fs args := by
  induction h with
  | nil => exact ⟨trivial, by simp, rfl⟩
  | cons hd _ ih =>
      obtain ⟨hfill, htext, hback⟩ := ih
      refine ⟨⟨hd.fills, hfill⟩, ?_, ?_⟩
      · intro arg harg
        rcases List.mem_cons.mp harg with rfl | harg
        · exact hd.text
        · exact htext arg harg
      · rw [readBackAll, hd.readBack_eq, hback, List.zipWith_cons_cons]

/-- Packing by a format string gives `calcSize()` bytes, and unpacking these
bytes, with any bytes after them, gives the arguments back and stops just past
them; except, with assertions enabled, where the last item takes no bytes and
stands at the end of a `ByteArrayInputStream`. -/
theorem unpack_packFormat_iff (vm : Jvm) (mark : OrderMark) (items : List Item)
    (args : List Value) (bs further : Bytes) (s : InputStream)
    (hpack : packFormat vm (formatString mark items) args = .ok bs)
    (htyped : List.Forall₂ HasType (items.flatMap Item.formats) args)
    (hrest : s.rest = bs ++ further) :
    ∃ st, new vm (formatString mark items) = .ok st ∧
      (bs.length : ℤ) = st.calcSize.toInt ∧
      (st.unpack vm s = .ok
          (List.zipWith zeroExtended (items.flatMap Item.formats) args,
            s.advance bs.length) ↔
        ¬ (vm.assertionsEnabled = true ∧ s.kind = .byteArray ∧ further = [] ∧
          EndsEmpty (items.flatMap Item.formats))) := by
  obtain ⟨st, hnew, hpack⟩ := bind_eq_ok.mp hpack
  have hformats := formats_of_new_formatString hnew
  obtain ⟨hfill, htext, hback⟩ := forall₂_hasType htyped
  rw [← hformats] at hfill hback ⊢
  obtain ⟨hlen, hsize, hitems⟩ := (pack_eq_ok_iff hfill).mp hpack
  have hbs : bs.length = formatsSize st.formats := length_packItems hitems hfill hlen
  have hsampled : ∀ f ∈ st.formats, f.Sampled := by
    intro f hf
    rw [hformats] at hf
    obtain ⟨it, -, hit⟩ := List.mem_flatMap.mp hf
    exact sampled_of_mem_formats hit
  refine ⟨st, hnew, by rw [hbs, calcSize_toInt hsize], ?_⟩
  rw [unpack_pack hpack hrest hfill hsampled htext, hback, hbs]
  by_cases hstuck : StrictAtEnd vm s.kind ∧ further = [] ∧ EndsEmpty st.formats
  · rw [if_pos hstuck]
    simp only [reduceCtorEq, false_iff, not_not]
    exact ⟨hstuck.1.1, hstuck.1.2, hstuck.2⟩
  · rw [if_neg hstuck]
    simp only [true_iff]
    rintro ⟨hvm, hkind, hrest'⟩
    exact hstuck ⟨⟨hvm, hkind⟩, hrest'⟩

/-- A `UInt` and an empty string, packed and read back from a file. -/
theorem unpack_packFormat_iff_applies :
    ∃ st, new ⟨true, .littleEndian⟩
          (formatString .network [⟨.I, none, by decide⟩, ⟨.s, some 0, by decide⟩]) = .ok st ∧
      (([0, 0, 0, 7] : Bytes).length : ℤ) = st.calcSize.toInt ∧
      (st.unpack ⟨true, .littleEndian⟩ (.fileInputStream [0, 0, 0, 7]) = .ok
          ([.uint 7, .string []], (InputStream.fileInputStream [0, 0, 0, 7]).advance 4) ↔
        ¬ (true = true ∧ StreamKind.file = .byteArray ∧ ([] : Bytes) = [] ∧
          EndsEmpty [.one .uint, .text 0])) :=
  unpack_packFormat_iff ⟨true, .littleEndian⟩ .network
    [⟨.I, none, by decide⟩, ⟨.s, some 0, by decide⟩] [.uint 7, .string []] [0, 0, 0, 7] []
    (.fileInputStream [0, 0, 0, 7]) (by rfl)
    (.cons trivial (.cons ⟨trivial, by simp⟩ .nil)) rfl

/-- An empty string at the end of a byte array: what was packed is refused. -/
theorem unpack_packFormat_refused :
    packFormat ⟨true, .littleEndian⟩
        (formatString .network [⟨.I, none, by decide⟩, ⟨.s, some 0, by decide⟩])
        [.uint 7, .string []] = .ok [0, 0, 0, 7] ∧
      unpackFormat ⟨true, .littleEndian⟩
        (formatString .network [⟨.I, none, by decide⟩, ⟨.s, some 0, by decide⟩])
        (.byteArrayInputStream [0, 0, 0, 7]) = .error .assertion :=
  ⟨rfl, rfl⟩

end Struct3

end BootImageEditor
