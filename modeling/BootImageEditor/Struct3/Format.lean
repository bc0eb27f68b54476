import BootImageEditor.Jvm

/-!
# Format strings

The constructor of `Struct3` scans its format string for items, a run of digits
and a letter, and keeps the list of formats. The types `x`, `b`, `B`, `s` keep
their count; every other item is exploded into formats of count one, which
`Format` records as a field.
-/

namespace BootImageEditor

open Codec Fallible

/-- `Integer.decode`: an optional sign, then a hexadecimal, octal or decimal
numeral, within the range of an `Int`. -/
def integerDecode (nm : KString) : Result ℤ :=
  let negative := (units "-").isPrefixOf nm
  let body := if negative || (units "+").isPrefixOf nm then nm.drop 1 else nm
  let value :=
    if (units "0x").isPrefixOf body || (units "0X").isPrefixOf body then
      Numeral.parse 16 (body.drop 2)
    else if (units "#").isPrefixOf body then
      Numeral.parse 16 (body.drop 1)
    else if (units "0").isPrefixOf body && 1 < body.length then
      Numeral.parse 8 (body.drop 1)
    else
      Numeral.parse 10 body
  match value with
  | none => .error .numberFormat
  | some n =>
      let result : ℤ := if negative then -n else n
      if -(intMax : ℤ) - 1 ≤ result ∧ result ≤ intMax then .ok result
      else .error .numberFormat

inductive FormatType where
  | random
  | byte
  | ubyte
  | string
  | char
  | short
  | ushort
  | int
  | uint
  | long
  | ulong
  deriving DecidableEq, Repr

namespace FormatType

/-- The types whose items keep their count. -/
def primitive : FormatType → Bool
  | random | byte | ubyte | string => true
  | _ => false

/-- Bytes taken by one element. -/
def width : FormatType → ℕ
  | random | byte | ubyte | string | char => 1
  | short | ushort => 2
  | int | uint => 4
  | long | ulong => 8

/-- The type a format letter names. -/
def ofLetter (c : UInt16) : Result FormatType :=
  if [c] = units "x" then .ok random
  else if [c] = units "b" then .ok byte
  else if [c] = units "B" then .ok ubyte
  else if [c] = units "s" then .ok string
  else if [c] = units "c" then .ok char
  else if [c] = units "h" then .ok short
  else if [c] = units "H" then .ok ushort
  else if [c] = units "i" || [c] = units "l" then .ok int
  else if [c] = units "I" || [c] = units "L" then .ok uint
  else if [c] = units "q" then .ok long
  else if [c] = units "Q" then .ok ulong
  else .error (.illegalArgument "type not supported")

end FormatType

structure Format where
  typeName : FormatType
  multiple : ℕ
  /-- Exploded items have count one. -/
  exploded : typeName.primitive = false → multiple = 1
  deriving DecidableEq

namespace Format

/-- A format of count one. -/
def one (typeName : FormatType) : Format := ⟨typeName, 1, fun _ => rfl⟩

def padding (n : ℕ) : Format := ⟨.random, n, fun h => absurd h (by decide)⟩

def bytes (n : ℕ) : Format := ⟨.byte, n, fun h => absurd h (by decide)⟩

def text (n : ℕ) : Format := ⟨.string, n, fun h => absurd h (by decide)⟩

/-- Bytes taken by a format. -/
def size (f : Format) : ℕ := f.typeName.width * f.multiple

theorem size_of_exploded {f : Format} (h : f.typeName.primitive = false) :
    f.size = f.typeName.width := by
  rw [size, f.exploded h, Nat.mul_one]

/-- A padding item covers at least the byte that is sampled when it is read. -/
def Sampled (f : Format) : Prop := f.typeName = .random → 1 ≤ f.multiple

instance (f : Format) : Decidable f.Sampled :=
  inferInstanceAs (Decidable (f.typeName = .random → 1 ≤ f.multiple))

/-- The formats one item adds. -/
def expand (typeName : FormatType) (multiple : ℕ) : List Format :=
  if h : typeName.primitive = true then
    [⟨typeName, multiple, fun h' => absurd h (by simp [h'])⟩]
  else
    List.replicate multiple (one typeName)

end Format

/-- The exact number of bytes a list of formats describes. -/
def formatsSize (fs : List Format) : ℕ := (fs.map Format.size).sum

@[simp] theorem formatsSize_nil : formatsSize [] = 0 := rfl

@[simp] theorem formatsSize_cons (f : Format) (fs : List Format) :
    formatsSize (f :: fs) = f.size + formatsSize fs := by
  simp [formatsSize]

@[simp] theorem formatsSize_append (fs gs : List Format) :
    formatsSize (fs ++ gs) = formatsSize fs + formatsSize gs := by
  simp [formatsSize]

structure Struct3 where
  byteOrder : ByteOrder
  formats : List Format
  deriving DecidableEq

namespace Struct3

def isDigit (c : UInt16) : Bool := 0x30 ≤ c.toNat && c.toNat ≤ 0x39

def isLetter (c : UInt16) : Bool :=
  (0x41 ≤ c.toNat && c.toNat ≤ 0x5A) || (0x61 ≤ c.toNat && c.toNat ≤ 0x7A)

/-- The matches of `(\d*)([a-zA-Z])`, in order, as formats. The first argument
is the run of digits just before the current position; any character that is
neither digit nor letter breaks it. -/
def scan : KString → KString → Result (List Format)
  | _, [] => .ok []
  | digits, c :: cs =>
      if isDigit c then scan (digits ++ [c]) cs
      else if isLetter c then do
        let typeName ← FormatType.ofLetter c
        let multiple ← if digits = [] then .ok 1 else integerDecode digits
        let formats ← scan [] cs
        .ok (Format.expand typeName multiple.toNat ++ formats)
      else scan [] cs

/-- The byte order the first character selects. -/
def orderOf (vm : Jvm) (c : UInt16) : ByteOrder :=
  if [c] = units ">" || [c] = units "!" then .bigEndian
  else if [c] = units "@" || [c] = units "=" then vm.nativeOrder
  else .littleEndian

/-- `Struct3(inFormatString)`. -/
def new (vm : Jvm) (inFormatString : KString) : Result Struct3 := do
  vm.assert (inFormatString ≠ [])
  match inFormatString with
  | [] => .error .indexOutOfBounds
  | c :: _ => do
      let formats ← scan [] inFormatString
      .ok ⟨orderOf vm c, formats⟩

/-- The sum of the item sizes, in `Int` arithmetic. -/
def calcSize (st : Struct3) : Int32 :=
  st.formats.foldl
    (fun ret f => ret + Int32.ofNat f.typeName.width * Int32.ofNat f.multiple) 0

theorem calcSize_eq (st : Struct3) :
    st.calcSize = Int32.ofNat (formatsSize st.formats) := by
  have h : ∀ (fs : List Format) (acc : ℕ),
      fs.foldl (fun ret f =>
        ret + Int32.ofNat f.typeName.width * Int32.ofNat f.multiple) (Int32.ofNat acc) =
          Int32.ofNat (acc + formatsSize fs) := by
    intro fs
    induction fs with
    | nil => intro acc; simp
    | cons f fs ih =>
        intro acc
        have hstep : Int32.ofNat acc +
            Int32.ofNat f.typeName.width * Int32.ofNat f.multiple =
              Int32.ofNat (acc + f.size) := by
          rw [Format.size, Int32.ofNat_add, Int32.ofNat_mul]
        rw [List.foldl_cons, hstep, ih, formatsSize_cons, Nat.add_assoc]
  have h0 := h st.formats 0
  rw [Nat.zero_add] at h0
  exact h0

/-- Below the range of an `Int` the size is exact. -/
theorem calcSize_toInt {st : Struct3} (h : formatsSize st.formats ≤ intMax) :
    st.calcSize.toInt = formatsSize st.formats := by
  rw [calcSize_eq]
  exact Int32.toInt_ofNat_of_lt (by unfold intMax at h; omega)

end Struct3

end BootImageEditor
