import BootImageEditor.Struct3.Format

/-!
# Packing

`pack` walks the formats and the arguments together and puts the bytes of each
item into a buffer of `calcSize()` bytes. `packItem` is what one item puts, by
type of format and type of argument; `packItems` is their concatenation, and
`pack_eq` says that packing is that concatenation whenever every item fills its
format.
-/

namespace BootImageEditor

open Codec Fallible

/-- The values that go in and out of `Struct3`: an argument of type `Any?`. -/
inductive Value where
  | null
  | byte (b : Int8)
  | short (n : Int16)
  | ushort (n : UInt16)
  | int (n : Int32)
  | uint (n : UInt32)
  | long (n : Int64)
  | ulong (n : UInt64)
  | char (c : UInt16)
  | string (s : KString)
  | byteArray (bs : Bytes)
  | ubyteArray (bs : Bytes)
  | intArray (ns : List Int32)
  | other
  deriving DecidableEq

structure ByteBuffer where
  capacity : ℕ
  content : Bytes

namespace ByteBuffer

/-- `ByteBuffer.allocate`. -/
def allocate (capacity : Int32) : Result ByteBuffer :=
  if capacity.toInt < 0 then .error (.illegalArgument "capacity < 0")
  else .ok ⟨capacity.toInt.toNat, []⟩

def put (bf : ByteBuffer) (bs : Bytes) : Result ByteBuffer :=
  if bf.content.length + bs.length ≤ bf.capacity then
    .ok { bf with content := bf.content ++ bs }
  else .error .bufferOverflow

/-- `array()`: what was put, and zeros up to the capacity. -/
def array (bf : ByteBuffer) : Bytes :=
  bf.content ++ zeros (bf.capacity - bf.content.length)

end ByteBuffer

namespace Struct3

/-! ## What one item puts -/

def appendPadding (b : UInt8) (bufSize : ℕ) : Bytes := List.replicate bufSize b

/-- `appendByteArray`: the array and zeros up to the size of the item. -/
def appendByteArray (inByteArray : Bytes) (bufSize : ℕ) : Result Bytes :=
  if bufSize < inByteArray.length then
    .error (.illegalArgument
      s!"arg length [{inByteArray.length}] exceeds limit: {bufSize}")
  else .ok (inByteArray ++ appendPadding 0 (bufSize - inByteArray.length))

/-- `appendByteArray` of an `IntArray`, each element in the range of a `Byte`. -/
def appendIntArray (inIntArray : List Int32) (bufSize : ℕ) : Result Bytes := do
  let arg2 ← inIntArray.mapM fun n =>
    if -128 ≤ n.toInt ∧ n.toInt ≤ 127 then .ok n.toInt8.toUInt8
    else .error (.illegalArgument s!"{n.toInt} is not valid Byte")
  appendByteArray arg2 bufSize

/-- `appendUByteArray` of an `IntArray`, each element in the range of a
`UByte`. -/
def appendUIntArray (inIntArray : List Int32) (bufSize : ℕ) : Result Bytes := do
  let arg2 ← inIntArray.mapM fun n =>
    if 0 ≤ n.toInt ∧ n.toInt ≤ 255 then .ok n.toUInt32.toUInt8
    else .error (.illegalArgument s!"{n.toInt} is not valid Byte")
  appendByteArray arg2 bufSize

/-- An argument type the `else` branch refuses. The message prints the class of
the argument, which itself fails on `null`. -/
def unsupported (arg : Value) (message : String) : Throwable :=
  if arg = .null then .nullPointer else .illegalArgument message

/-- An assertion on the type of the argument, followed by a cast. -/
def badCast (vm : Jvm) (arg : Value) : Throwable :=
  if vm.assertionsEnabled then
    if arg = .null then .nullPointer else .assertion
  else .classCast

/-- `x`: padding. -/
def packPadding (arg : Value) (multiple : ℕ) : Result Bytes :=
  match arg with
  | .null => .ok (appendPadding 0 multiple)
  | .byte b => .ok (appendPadding b.toUInt8 multiple)
  | .int n => .ok (appendPadding n.toInt8.toUInt8 multiple)
  | _ => .error (.illegalArgument "Unsupported arg")

/-- `c`: character. -/
def packChar (vm : Jvm) (arg : Value) : Result Bytes :=
  match arg with
  | .char c =>
      if c.toNat ≤ 0xFF then .ok [c.toUInt8]
      else .error (.illegalArgument s!"arg[{c.toNat}] exceeds 8-bit bound")
  | arg => .error (badCast vm arg)

/-- `b`: byte array. -/
def packByteArray (arg : Value) (multiple : ℕ) : Result Bytes :=
  match arg with
  | .intArray ns => appendIntArray ns multiple
  | .byteArray bs => appendByteArray bs multiple
  | arg => .error (unsupported arg "is NOT ByteArray/IntArray")

/-- `B`: UByte array. -/
def packUByteArray (arg : Value) (multiple : ℕ) : Result Bytes :=
  match arg with
  | .byteArray bs => appendByteArray bs multiple
  | .ubyteArray bs => appendByteArray bs multiple
  | .intArray ns => appendUIntArray ns multiple
  | arg => .error (unsupported arg "is NOT ByteArray/IntArray")

/-- `s`: String. `null` fails the first of the two assertions, whose message
does not look at the argument. -/
def packString (vm : Jvm) (arg : Value) (multiple : ℕ) : Result Bytes :=
  match arg with
  | .string s => appendByteArray (Utf8.encode s) multiple
  | .null => .error (if vm.assertionsEnabled then .assertion else .classCast)
  | arg => .error (badCast vm arg)

/-- `h`: Short. -/
def packShort (vm : Jvm) (order : ByteOrder) (arg : Value) : Result Bytes :=
  match arg with
  | .int n => do
      vm.assert (decide (-32768 ≤ n.toInt) && decide (n.toInt ≤ 32767))
      .ok (order.encode 2 n.toInt16.toUInt16.toNat)
  | .short n => .ok (order.encode 2 n.toUInt16.toNat)
  | arg => .error (unsupported arg "is NOT Short/Int")

/-- `H`: UShort. With assertions disabled an argument of another type puts
nothing. -/
def packUShort (vm : Jvm) (order : ByteOrder) (arg : Value) : Result Bytes :=
  match arg with
  | .int n => do
      vm.assert (decide (0 ≤ n.toInt) && decide (n.toInt ≤ 65535))
      .ok (order.encode 2 n.toInt16.toUInt16.toNat)
  | .uint n => do
      vm.assert (n.toNat ≤ 65535)
      .ok (order.encode 2 n.toUInt16.toNat)
  | .ushort n => .ok (order.encode 2 n.toNat)
  | arg => if vm.assertionsEnabled then .error (badCast vm arg) else .ok []

/-- `i`, `l`: Int. -/
def packInt (vm : Jvm) (order : ByteOrder) (arg : Value) : Result Bytes :=
  match arg with
  | .int n => .ok (order.encode 4 n.toUInt32.toNat)
  | arg => .error (badCast vm arg)

/-- `I`, `L`: UInt. -/
def packUInt (vm : Jvm) (order : ByteOrder) (arg : Value) : Result Bytes :=
  match arg with
  | .int n => do
      vm.assert (0 ≤ n.toInt)
      .ok (order.encode 4 n.toUInt32.toNat)
  | .uint n => .ok (order.encode 4 n.toNat)
  | .long n => do
      vm.assert (0 ≤ n.toInt)
      .ok (order.encode 4 n.toInt32.toUInt32.toNat)
  | arg => .error (unsupported arg "is NOT UInt/Int/Long")

/-- `q`: Long. -/
def packLong (order : ByteOrder) (arg : Value) : Result Bytes :=
  match arg with
  | .long n => .ok (order.encode 8 n.toUInt64.toNat)
  | .int n => .ok (order.encode 8 n.toInt64.toUInt64.toNat)
  | arg => .error (unsupported arg "is NOT Long/Int")

/-- `Q`: ULong. -/
def packULong (vm : Jvm) (order : ByteOrder) (arg : Value) : Result Bytes :=
  match arg with
  | .int n => do
      vm.assert (0 ≤ n.toInt)
      .ok (order.encode 8 n.toInt64.toUInt64.toNat)
  | .long n => do
      vm.assert (0 ≤ n.toInt)
      .ok (order.encode 8 n.toUInt64.toNat)
  | .ulong n => .ok (order.encode 8 n.toNat)
  | arg => .error (unsupported arg "is NOT Int/Long/ULong")

/-- The bytes one item puts into the buffer. -/
def packItem (vm : Jvm) (order : ByteOrder) (f : Format) (arg : Value) : Result Bytes :=
  match f.typeName with
  | .random => packPadding arg f.multiple
  | .char => packChar vm arg
  | .byte => packByteArray arg f.multiple
  | .ubyte => packUByteArray arg f.multiple
  | .string => packString vm arg f.multiple
  | .short => packShort vm order arg
  | .ushort => packUShort vm order arg
  | .int => packInt vm order arg
  | .uint => packUInt vm order arg
  | .long => packLong order arg
  | .ulong => packULong vm order arg

/-! ## The loop -/

def packLoop (vm : Jvm) (order : ByteOrder) :
    List Format → List Value → ByteBuffer → Result ByteBuffer
  | f :: fs, arg :: args, bf => do
      vm.assert (f.typeName.primitive || f.multiple = 1)
      let bs ← packItem vm order f arg
      let bf ← bf.put bs
      packLoop vm order fs args bf
  | _, _, bf => .ok bf

/-- `pack(args)`. -/
def pack (vm : Jvm) (st : Struct3) (args : List Value) : Result Bytes := do
  if args.length ≠ st.formats.length then
    throw (.illegalArgument
      s!"argument size {args.length} doesn't match format size {st.formats.length}")
  let bf ← ByteBuffer.allocate st.calcSize
  let bf ← packLoop vm st.byteOrder st.formats args bf
  .ok bf.array

/-- `Struct3(inFormatString).pack(args)`. -/
def packFormat (vm : Jvm) (inFormatString : KString) (args : List Value) : Result Bytes := do
  let st ← new vm inFormatString
  st.pack vm args

/-! ## Packing as a concatenation -/

def packItems (vm : Jvm) (order : ByteOrder) : List Format → List Value → Result Bytes
  | f :: fs, arg :: args => do
      let bs ← packItem vm order f arg
      let rest ← packItems vm order fs args
      .ok (bs ++ rest)
  | _, _ => .ok []

/-- The argument fills its format: everything but the argument types that an
`H` item passes over. -/
def Fills (f : Format) (arg : Value) : Prop :=
  f.typeName = .ushort → match arg with
    | .int _ | .uint _ | .ushort _ => True
    | _ => False

theorem length_appendByteArray {bs out : Bytes} {n : ℕ}
    (h : appendByteArray bs n = .ok out) : out.length = n := by
  unfold appendByteArray at h
  split at h
  · cases h
  · cases h
    simp [appendPadding]
    omega

theorem length_packItem {vm : Jvm} {order : ByteOrder} {f : Format} {arg : Value}
    {bs : Bytes} (h : packItem vm order f arg = .ok bs) (hf : Fills f arg) :
    bs.length = f.size := by
  have hsize : f.size = f.typeName.width * f.multiple := rfl
  have hexp : f.typeName.primitive = false → f.size = f.typeName.width :=
    Format.size_of_exploded
  unfold packItem at h
  cases htype : f.typeName <;>
    simp only [htype, FormatType.primitive, FormatType.width, Nat.one_mul] at h hsize hexp ⊢
  case random =>
    rw [hsize]
    unfold packPadding at h
    split at h <;> cases h <;> simp [appendPadding]
  case byte =>
    rw [hsize]
    unfold packByteArray appendIntArray at h
    split at h
    · obtain ⟨arg2, -, h⟩ := bind_eq_ok.mp h
      exact length_appendByteArray h
    · exact length_appendByteArray h
    · cases h
  case ubyte =>
    rw [hsize]
    unfold packUByteArray appendUIntArray at h
    split at h
    · exact length_appendByteArray h
    · exact length_appendByteArray h
    · obtain ⟨arg2, -, h⟩ := bind_eq_ok.mp h
      exact length_appendByteArray h
    · cases h
  case string =>
    rw [hsize]
    unfold packString at h
    split at h
    · exact length_appendByteArray h
    · cases h
    · cases h
  case char =>
    rw [hexp trivial]
    unfold packChar at h
    split at h
    · split at h <;> cases h
      rfl
    · cases h
  case short =>
    rw [hexp trivial]
    unfold packShort at h
    split at h
    · obtain ⟨-, -, h⟩ := bind_eq_ok.mp h
      cases h
      simp
    · cases h
      simp
    · cases h
  case ushort =>
    rw [hexp trivial]
    have hf := hf htype
    unfold packUShort at h
    split at h
    · obtain ⟨-, -, h⟩ := bind_eq_ok.mp h
      cases h
      simp
    · obtain ⟨-, -, h⟩ := bind_eq_ok.mp h
      cases h
      simp
    · cases h
      simp
    · split at hf
      · next h1 h2 h3 => exact absurd rfl (h1 _)
      · next h1 h2 h3 => exact absurd rfl (h2 _)
      · next h1 h2 h3 => exact absurd rfl (h3 _)
      · exact hf.elim
  case int =>
    rw [hexp trivial]
    unfold packInt at h
    split at h <;> cases h
    simp
  case uint =>
    rw [hexp trivial]
    unfold packUInt at h
    split at h
    · obtain ⟨-, -, h⟩ := bind_eq_ok.mp h
      cases h
      simp
    · cases h
      simp
    · obtain ⟨-, -, h⟩ := bind_eq_ok.mp h
      cases h
      simp
    · cases h
  case long =>
    rw [hexp trivial]
    unfold packLong at h
    split at h <;> cases h <;> simp
  case ulong =>
    rw [hexp trivial]
    unfold packULong at h
    split at h
    · obtain ⟨-, -, h⟩ := bind_eq_ok.mp h
      cases h
      simp
    · obtain ⟨-, -, h⟩ := bind_eq_ok.mp h
      cases h
      simp
    · cases h
      simp
    · cases h

/-- Every argument fills its format. -/
def AllFill : List Format → List Value → Prop
  | f :: fs, arg :: args => Fills f arg ∧ AllFill fs args
  | _, _ => True

theorem length_packItems {vm : Jvm} {order : ByteOrder} :
    ∀ {fs : List Format} {args : List Value} {bs : Bytes},
      packItems vm order fs args = .ok bs → AllFill fs args →
        args.length = fs.length → bs.length = formatsSize fs
  | [], _, bs, h, _, _ => by
      cases h
      rfl
  | f :: fs, [], bs, _, _, hlen => by simp at hlen
  | f :: fs, arg :: args, bs, h, hfill, hlen => by
      obtain ⟨b, hb, h⟩ := bind_eq_ok.mp h
      obtain ⟨b', hb', h⟩ := bind_eq_ok.mp h
      cases h
      rw [List.length_append, length_packItem hb hfill.1,
        length_packItems hb' hfill.2 (by simpa using hlen), formatsSize_cons]

/-- Every item of what was packed was packed. -/
theorem packItem_of_mem_zip {vm : Jvm} {order : ByteOrder} {fs : List Format} {args : List Value}
    {bs : Bytes} (h : packItems vm order fs args = .ok bs) {p : Format × Value}
    (hp : p ∈ fs.zip args) : ∃ b, packItem vm order p.1 p.2 = .ok b := by
  induction fs generalizing args bs with
  | nil => simp at hp
  | cons f fs ih =>
      cases args with
      | nil => simp at hp
      | cons arg args =>
          obtain ⟨b, hb, h⟩ := bind_eq_ok.mp h
          obtain ⟨bs', hbs, -⟩ := bind_eq_ok.mp h
          rcases List.mem_cons.mp hp with rfl | hp
          · exact ⟨b, hb⟩
          · exact ih hbs hp

theorem ByteBuffer.put_eq_ok_iff {bf bf' : ByteBuffer} {bs : Bytes} :
    bf.put bs = .ok bf' ↔
      bf.content.length + bs.length ≤ bf.capacity ∧
        bf' = { bf with content := bf.content ++ bs } := by
  unfold ByteBuffer.put
  split
  · next h => simp [h, eq_comm]
  · next h => simp [h]

/-- The loop puts the concatenation of the items, if there is room for it. -/
theorem packLoop_eq_ok_iff {vm : Jvm} {order : ByteOrder} {fs : List Format}
    {args : List Value} {bf bf' : ByteBuffer} (hcap : bf.content.length ≤ bf.capacity) :
    packLoop vm order fs args bf = .ok bf' ↔
      ∃ bs, packItems vm order fs args = .ok bs ∧
        bf.content.length + bs.length ≤ bf.capacity ∧
          bf' = { bf with content := bf.content ++ bs } := by
  induction fs generalizing args bf with
  | nil => simp [packLoop, packItems, hcap, eq_comm]
  | cons f fs ih =>
      cases args with
      | nil => simp [packLoop, packItems, hcap, eq_comm]
      | cons arg args =>
          have hassert : vm.assert (f.typeName.primitive || f.multiple = 1) = .ok () := by
            apply Jvm.assert_of_true
            cases hp : f.typeName.primitive with
            | true => rfl
            | false => simp [f.exploded hp]
          rw [packLoop, packItems, hassert, ok_bind]
          constructor
          · intro h
            obtain ⟨b, hb, h⟩ := bind_eq_ok.mp h
            obtain ⟨bf₁, hput, h⟩ := bind_eq_ok.mp h
            obtain ⟨hroom, rfl⟩ := ByteBuffer.put_eq_ok_iff.mp hput
            obtain ⟨bs, hbs, hroom', rfl⟩ := (ih (by simpa using hroom)).mp h
            refine ⟨b ++ bs, by rw [hb, ok_bind, hbs, ok_bind], ?_, ?_⟩
            · simp only [List.length_append] at hroom' ⊢
              omega
            · simp
          · rintro ⟨out, hout, hroom, rfl⟩
            obtain ⟨b, hb, hout⟩ := bind_eq_ok.mp hout
            obtain ⟨bs, hbs, hout⟩ := bind_eq_ok.mp hout
            cases hout
            rw [List.length_append] at hroom
            have hput : bf.put b = .ok { bf with content := bf.content ++ b } :=
              ByteBuffer.put_eq_ok_iff.mpr ⟨by omega, rfl⟩
            rw [hb, ok_bind, hput, ok_bind]
            refine (ih (by simp; omega)).mpr ⟨bs, hbs, ?_, by simp⟩
            simp only [List.length_append]
            omega

theorem capacity_allocate {st : Struct3} {bf : ByteBuffer}
    (h : ByteBuffer.allocate st.calcSize = .ok bf) :
    bf.content = [] ∧ bf.capacity ≤ intMax ∧
      (formatsSize st.formats ≤ intMax → bf.capacity = formatsSize st.formats) := by
  unfold ByteBuffer.allocate at h
  split at h
  · cases h
  · cases h
    refine ⟨rfl, ?_, ?_⟩
    · have hlt := st.calcSize.toInt_lt
      simp only [intMax]
      omega
    · intro hsize
      simp [calcSize_toInt hsize]

/-- Packing returns exactly when every item can be packed and the whole fits an
array, and then it returns the concatenation of the items. -/
theorem pack_eq_ok_iff {vm : Jvm} {st : Struct3} {args : List Value} {bs : Bytes}
    (hfill : AllFill st.formats args) :
    st.pack vm args = .ok bs ↔
      args.length = st.formats.length ∧ formatsSize st.formats ≤ intMax ∧
        packItems vm st.byteOrder st.formats args = .ok bs := by
  unfold pack
  by_cases hlen : args.length = st.formats.length
  · rw [if_neg (by simpa using hlen)]
    constructor
    · intro h
      obtain ⟨-, -, h⟩ := bind_eq_ok.mp h
      obtain ⟨bf, halloc, h⟩ := bind_eq_ok.mp h
      obtain ⟨hnil, hmax, hcap⟩ := capacity_allocate halloc
      obtain ⟨bf', hloop, h⟩ := bind_eq_ok.mp h
      cases h
      obtain ⟨out, hout, hroom, rfl⟩ := (packLoop_eq_ok_iff (by simp [hnil])).mp hloop
      have hlength := length_packItems hout hfill hlen
      rw [hnil, List.length_nil, Nat.zero_add] at hroom
      have hsize : formatsSize st.formats ≤ intMax := by omega
      refine ⟨hlen, hsize, ?_⟩
      rw [hout, ByteBuffer.array, hcap hsize]
      simp [hnil, hlength, zeros]
    · rintro ⟨-, hsize, hout⟩
      have hpos : ¬ st.calcSize.toInt < 0 := by
        rw [calcSize_toInt hsize]
        omega
      have hlength := length_packItems hout hfill hlen
      have halloc : ByteBuffer.allocate st.calcSize =
          .ok ⟨formatsSize st.formats, []⟩ := by
        rw [ByteBuffer.allocate, if_neg hpos, calcSize_toInt hsize, Int.toNat_natCast]
      have hloop : packLoop vm st.byteOrder st.formats args ⟨formatsSize st.formats, []⟩ =
          .ok ⟨formatsSize st.formats, bs⟩ :=
        (packLoop_eq_ok_iff (by simp)).mpr ⟨bs, hout, by simp [hlength], by simp⟩
      simp only [halloc, ok_bind, hloop]
      simp [ByteBuffer.array, hlength, zeros]
  · rw [if_pos (by simpa using hlen)]
    constructor
    · intro h
      cases h
    · rintro ⟨h, -⟩
      exact absurd h hlen

theorem packFormat_eq {vm : Jvm} {fmt : KString} {st : Struct3}
    (h : new vm fmt = .ok st) (args : List Value) :
    packFormat vm fmt args = st.pack vm args := by
  rw [packFormat, h, ok_bind]

end Struct3

end BootImageEditor
