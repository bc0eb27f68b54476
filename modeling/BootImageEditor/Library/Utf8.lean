import BootImageEditor.Library.Endian
import Mathlib.Data.List.Basic

/-!
# Strings of UTF-16 code units and their UTF-8 bytes

A string is the list of its UTF-16 code units, so lone surrogates exist and the
length counts units. `encode` writes UTF-8 and puts `?` for a lone surrogate;
`decode` reads arbitrary bytes and puts U+FFFD for every malformed run, a run
being the bytes the decoder gives up together. The decoder is a recursion over
the bytes with the number of bytes still to skip, so it is structural and
evaluates on literals.
-/

namespace Codec

abbrev U16String := List UInt16

/-- The code units of a literal whose characters all lie below U+10000. -/
def units (s : String) : U16String :=
  s.toList.map fun c => UInt16.ofNat c.toNat

namespace Utf8

def replacement : UInt16 := 0xFFFD

def highSurrogate (u : UInt16) : Bool :=
  0xD800 ≤ u.toNat && u.toNat < 0xDC00

def lowSurrogate (u : UInt16) : Bool :=
  0xDC00 ≤ u.toNat && u.toNat < 0xE000

/-- The UTF-8 bytes of one code point. -/
def encodeScalar (c : ℕ) : Bytes :=
  if c < 0x80 then
    [UInt8.ofNat c]
  else if c < 0x800 then
    [UInt8.ofNat (0xC0 + c / 64), UInt8.ofNat (0x80 + c % 64)]
  else if c < 0x10000 then
    [UInt8.ofNat (0xE0 + c / 4096), UInt8.ofNat (0x80 + c / 64 % 64),
      UInt8.ofNat (0x80 + c % 64)]
  else
    [UInt8.ofNat (0xF0 + c / 262144), UInt8.ofNat (0x80 + c / 4096 % 64),
      UInt8.ofNat (0x80 + c / 64 % 64), UInt8.ofNat (0x80 + c % 64)]

/-- The UTF-8 bytes of a code unit that is not half of a surrogate pair. -/
def encodeLone (u : UInt16) : Bytes :=
  if highSurrogate u || lowSurrogate u then [0x3F] else encodeScalar u.toNat

/-- The code point of a surrogate pair. -/
def combine (hi lo : UInt16) : ℕ :=
  0x10000 + (hi.toNat - 0xD800) * 1024 + (lo.toNat - 0xDC00)

def encode : U16String → Bytes
  | [] => []
  | [u] => encodeLone u
  | u :: v :: vs =>
      if highSurrogate u && lowSurrogate v then
        encodeScalar (combine u v) ++ encode vs
      else
        encodeLone u ++ encode (v :: vs)

/-- Every surrogate of the string belongs to a pair. -/
def WellFormed : U16String → Prop
  | [] => True
  | [u] => ¬ (highSurrogate u || lowSurrogate u)
  | u :: v :: vs =>
      if highSurrogate u && lowSurrogate v then WellFormed vs
      else ¬ (highSurrogate u || lowSurrogate u) ∧ WellFormed (v :: vs)

def continuation (b : ℕ) : Bool := 0x80 ≤ b && b < 0xC0

/-- The second byte cannot follow a three-byte lead. -/
def malformed3 (b1 b2 : ℕ) : Bool :=
  (b1 == 0xE0 && 0x80 ≤ b2 && b2 < 0xA0) || !continuation b2

/-- The second byte cannot follow a four-byte lead. -/
def malformed4 (b1 b2 : ℕ) : Bool :=
  b1 > 0xF4 || (b1 == 0xF0 && (b2 < 0x90 || b2 > 0xBF)) ||
    (b1 == 0xF4 && !(0x80 ≤ b2 && b2 < 0x90)) || !continuation b2

/-- What a two-byte lead and the bytes after it decode to, and how many of the
bytes after it are used up. -/
def decode2 (b1 : ℕ) : Bytes → U16String × ℕ
  | b2 :: _ =>
      if continuation b2.toNat then
        ([UInt16.ofNat ((b1 - 0xC0) * 64 + (b2.toNat - 0x80))], 1)
      else ([replacement], 0)
  | [] => ([replacement], 0)

/-- The three-byte case. A surrogate written as three bytes is malformed as a
whole; any other malformed run ends before the byte that breaks it. -/
def decode3 (b1 : ℕ) : Bytes → U16String × ℕ
  | b2 :: b3 :: _ =>
      if malformed3 b1 b2.toNat then ([replacement], 0)
      else if !continuation b3.toNat then ([replacement], 1)
      else
        let u := UInt16.ofNat
          ((b1 - 0xE0) * 4096 + (b2.toNat - 0x80) * 64 + (b3.toNat - 0x80))
        if highSurrogate u || lowSurrogate u then ([replacement], 2) else ([u], 2)
  | [b2] => if malformed3 b1 b2.toNat then ([replacement], 0) else ([replacement], 1)
  | [] => ([replacement], 0)

def decode4 (b1 : ℕ) : Bytes → U16String × ℕ
  | b2 :: b3 :: b4 :: _ =>
      if malformed4 b1 b2.toNat then ([replacement], 0)
      else if !continuation b3.toNat then ([replacement], 1)
      else if !continuation b4.toNat then ([replacement], 2)
      else
        let c := (b1 - 0xF0) * 262144 + (b2.toNat - 0x80) * 4096 +
          (b3.toNat - 0x80) * 64 + (b4.toNat - 0x80) - 0x10000
        ([UInt16.ofNat (0xD800 + c / 1024), UInt16.ofNat (0xDC00 + c % 1024)], 3)
  | [b2, b3] =>
      if malformed4 b1 b2.toNat then ([replacement], 0)
      else if !continuation b3.toNat then ([replacement], 1)
      else ([replacement], 2)
  | [b2] => if malformed4 b1 b2.toNat then ([replacement], 0) else ([replacement], 1)
  | [] => ([replacement], 0)

/-- The code units the next bytes decode to and the number of bytes used up
besides the first. -/
def decodeUnit (b : UInt8) (bs : Bytes) : U16String × ℕ :=
  if b.toNat < 0x80 then ([UInt16.ofNat b.toNat], 0)
  else if 0xC2 ≤ b.toNat && b.toNat < 0xE0 then decode2 b.toNat bs
  else if 0xE0 ≤ b.toNat && b.toNat < 0xF0 then decode3 b.toNat bs
  else if 0xF0 ≤ b.toNat && b.toNat < 0xF8 then decode4 b.toNat bs
  else ([replacement], 0)

def decodeSkip : ℕ → Bytes → U16String
  | _, [] => []
  | k + 1, _ :: bs => decodeSkip k bs
  | 0, b :: bs => (decodeUnit b bs).1 ++ decodeSkip (decodeUnit b bs).2 bs

def decode (bs : Bytes) : U16String := decodeSkip 0 bs

@[simp] theorem decode_nil : decode [] = [] := rfl

theorem decode_cons (b : UInt8) (bs : Bytes) :
    decode (b :: bs) =
      (decodeUnit b bs).1 ++ decodeSkip (decodeUnit b bs).2 bs := rfl

theorem toNat_ofNat8 {n : ℕ} (h : n < 256) : (UInt8.ofNat n).toNat = n := by
  rw [UInt8.toNat_ofNat']
  omega

theorem toNat_ofNat16 {n : ℕ} (h : n < 65536) : (UInt16.ofNat n).toNat = n := by
  rw [UInt16.toNat_ofNat']
  omega

/-- The code units of one code point. -/
def unitsOfScalar (c : ℕ) : U16String :=
  if c < 0x10000 then [UInt16.ofNat c]
  else [UInt16.ofNat (0xD800 + (c - 0x10000) / 1024),
    UInt16.ofNat (0xDC00 + (c - 0x10000) % 1024)]

def IsScalar (c : ℕ) : Prop := c < 0xD800 ∨ (0xE000 ≤ c ∧ c < 0x110000)

theorem decode_two {c : ℕ} (h1 : 0x80 ≤ c) (h2 : c < 0x800) (bs : Bytes) :
    decode (encodeScalar c ++ bs) = unitsOfScalar c ++ decode bs := by
  have hlead : (UInt8.ofNat (0xC0 + c / 64)).toNat = 0xC0 + c / 64 :=
    toNat_ofNat8 (by omega)
  have htail : (UInt8.ofNat (0x80 + c % 64)).toNat = 0x80 + c % 64 :=
    toNat_ofNat8 (by omega)
  have hval : (0xC0 + c / 64 - 0xC0) * 64 + (0x80 + c % 64 - 0x80) = c := by omega
  have henc : encodeScalar c =
      [UInt8.ofNat (0xC0 + c / 64), UInt8.ofNat (0x80 + c % 64)] := by
    rw [encodeScalar, if_neg (by omega), if_pos h2]
  have hunit : decodeUnit (UInt8.ofNat (0xC0 + c / 64))
      (UInt8.ofNat (0x80 + c % 64) :: bs) = ([UInt16.ofNat c], 1) := by
    rw [decodeUnit, hlead, if_neg (by omega), if_pos (by simp; omega), decode2, htail,
      if_pos (by simp [continuation]; omega), hval]
  rw [henc, List.cons_append, List.cons_append, List.nil_append, decode_cons, hunit,
    unitsOfScalar, if_pos (by omega)]
  rfl

theorem decode_three {c : ℕ} (h1 : 0x800 ≤ c) (h2 : c < 0x10000)
    (hs : IsScalar c) (bs : Bytes) :
    decode (encodeScalar c ++ bs) = unitsOfScalar c ++ decode bs := by
  have hlead : (UInt8.ofNat (0xE0 + c / 4096)).toNat = 0xE0 + c / 4096 :=
    toNat_ofNat8 (by omega)
  have hmid : (UInt8.ofNat (0x80 + c / 64 % 64)).toNat = 0x80 + c / 64 % 64 :=
    toNat_ofNat8 (by omega)
  have htail : (UInt8.ofNat (0x80 + c % 64)).toNat = 0x80 + c % 64 :=
    toNat_ofNat8 (by omega)
  have hval : (0xE0 + c / 4096 - 0xE0) * 4096 + (0x80 + c / 64 % 64 - 0x80) * 64 +
      (0x80 + c % 64 - 0x80) = c := by omega
  have henc : encodeScalar c = [UInt8.ofNat (0xE0 + c / 4096),
      UInt8.ofNat (0x80 + c / 64 % 64), UInt8.ofNat (0x80 + c % 64)] := by
    rw [encodeScalar, if_neg (by omega), if_neg (by omega), if_pos h2]
  have hsur : (highSurrogate (UInt16.ofNat c) || lowSurrogate (UInt16.ofNat c)) = false := by
    rw [highSurrogate, lowSurrogate, toNat_ofNat16 (by omega)]
    rcases hs with hs | hs <;> simp <;> omega
  have hunit : decodeUnit (UInt8.ofNat (0xE0 + c / 4096))
      (UInt8.ofNat (0x80 + c / 64 % 64) :: UInt8.ofNat (0x80 + c % 64) :: bs) =
        ([UInt16.ofNat c], 2) := by
    rw [decodeUnit, hlead, if_neg (by omega), if_neg (by simp),
      if_pos (by simp; omega), decode3, hmid, htail,
      if_neg (by simp [malformed3, continuation]; omega),
      if_neg (by simp [continuation]; omega)]
    simp only [hval, hsur]
    rfl
  rw [henc, List.cons_append, List.cons_append, List.cons_append, List.nil_append,
    decode_cons, hunit, unitsOfScalar, if_pos h2]
  rfl

theorem decode_four {c : ℕ} (h1 : 0x10000 ≤ c) (h2 : c < 0x110000) (bs : Bytes) :
    decode (encodeScalar c ++ bs) = unitsOfScalar c ++ decode bs := by
  have hlead : (UInt8.ofNat (0xF0 + c / 262144)).toNat = 0xF0 + c / 262144 :=
    toNat_ofNat8 (by omega)
  have hsecond : (UInt8.ofNat (0x80 + c / 4096 % 64)).toNat = 0x80 + c / 4096 % 64 :=
    toNat_ofNat8 (by omega)
  have hmid : (UInt8.ofNat (0x80 + c / 64 % 64)).toNat = 0x80 + c / 64 % 64 :=
    toNat_ofNat8 (by omega)
  have htail : (UInt8.ofNat (0x80 + c % 64)).toNat = 0x80 + c % 64 :=
    toNat_ofNat8 (by omega)
  have hval : (0xF0 + c / 262144 - 0xF0) * 262144 + (0x80 + c / 4096 % 64 - 0x80) * 4096 +
      (0x80 + c / 64 % 64 - 0x80) * 64 + (0x80 + c % 64 - 0x80) = c := by omega
  have henc : encodeScalar c = [UInt8.ofNat (0xF0 + c / 262144),
      UInt8.ofNat (0x80 + c / 4096 % 64), UInt8.ofNat (0x80 + c / 64 % 64),
      UInt8.ofNat (0x80 + c % 64)] := by
    rw [encodeScalar, if_neg (by omega), if_neg (by omega), if_neg (by omega)]
  have hunit : decodeUnit (UInt8.ofNat (0xF0 + c / 262144))
      (UInt8.ofNat (0x80 + c / 4096 % 64) :: UInt8.ofNat (0x80 + c / 64 % 64) ::
        UInt8.ofNat (0x80 + c % 64) :: bs) = (unitsOfScalar c, 3) := by
    rw [decodeUnit, hlead, if_neg (by omega), if_neg (by simp; omega),
      if_neg (by simp), if_pos (by simp; omega), decode4, hsecond, hmid, htail,
      if_neg (by simp [malformed4, continuation]; omega),
      if_neg (by simp [continuation]; omega), if_neg (by simp [continuation]; omega)]
    simp only [hval]
    rw [unitsOfScalar, if_neg (by omega)]
  rw [henc]
  simp only [List.cons_append, List.nil_append]
  rw [decode_cons, hunit]
  rfl

theorem decode_encodeScalar_append {c : ℕ} (hs : IsScalar c) (bs : Bytes) :
    decode (encodeScalar c ++ bs) = unitsOfScalar c ++ decode bs := by
  by_cases h1 : c < 0x80
  · have hlead : (UInt8.ofNat c).toNat = c := toNat_ofNat8 (by omega)
    rw [encodeScalar, if_pos h1, List.cons_append, List.nil_append, decode_cons,
      decodeUnit, hlead, if_pos h1, unitsOfScalar, if_pos (by omega)]
    rfl
  by_cases h2 : c < 0x800
  · exact decode_two (by omega) h2 bs
  by_cases h3 : c < 0x10000
  · exact decode_three (by omega) h3 hs bs
  · have hc : c < 0x110000 := by rcases hs with hs | hs <;> omega
    exact decode_four (by omega) hc bs

theorem decode_encodeLone_append {u : UInt16}
    (h : ¬ (highSurrogate u || lowSurrogate u)) (bs : Bytes) :
    decode (encodeLone u ++ bs) = u :: decode bs := by
  have hu : u.toNat < 0x10000 := u.toNat_lt
  have hs : IsScalar u.toNat := by
    simp only [highSurrogate, lowSurrogate, Bool.or_eq_true, Bool.and_eq_true,
      decide_eq_true_eq] at h
    unfold IsScalar
    omega
  rw [encodeLone, if_neg h, decode_encodeScalar_append hs, unitsOfScalar,
    if_pos hu, UInt16.ofNat_toNat]
  rfl

theorem unitsOfScalar_combine {u v : UInt16}
    (h : highSurrogate u && lowSurrogate v) :
    IsScalar (combine u v) ∧ unitsOfScalar (combine u v) = [u, v] := by
  simp only [highSurrogate, lowSurrogate, Bool.and_eq_true, decide_eq_true_eq] at h
  constructor
  · unfold IsScalar combine
    omega
  · have hhigh : 0xD800 + (combine u v - 0x10000) / 1024 = u.toNat := by
      unfold combine
      omega
    have hlow : 0xDC00 + (combine u v - 0x10000) % 1024 = v.toNat := by
      unfold combine
      omega
    rw [unitsOfScalar, if_neg (by unfold combine; omega), hhigh, hlow,
      UInt16.ofNat_toNat, UInt16.ofNat_toNat]

/-- Decoding inverts encoding on strings without lone surrogates, whatever
bytes follow. -/
theorem decode_encode_append :
    ∀ (s : U16String), WellFormed s → ∀ bs : Bytes,
      decode (encode s ++ bs) = s ++ decode bs
  | [], _, bs => rfl
  | [u], h, bs => decode_encodeLone_append h bs
  | u :: v :: vs, h, bs => by
      unfold WellFormed at h
      unfold encode
      split at h
      · next hpair =>
          obtain ⟨hs, hunits⟩ := unitsOfScalar_combine hpair
          rw [if_pos hpair, List.append_assoc, decode_encodeScalar_append hs, hunits,
            decode_encode_append vs h bs]
          rfl
      · next hpair =>
          rw [if_neg hpair, List.append_assoc, decode_encodeLone_append h.1,
            decode_encode_append (v :: vs) h.2 bs]
          rfl


/-- Every code unit is an ASCII character other than NUL. -/
def Ascii (s : U16String) : Prop := ∀ u ∈ s, 0 < u.toNat ∧ u.toNat < 0x80

instance (s : U16String) : Decidable (Ascii s) :=
  List.decidableBAll (fun u : UInt16 => 0 < u.toNat ∧ u.toNat < 0x80) s

/-- Every byte is an ASCII character other than NUL. -/
def AsciiBytes (bs : Bytes) : Prop := ∀ b ∈ bs, 0 < b.toNat ∧ b.toNat < 0x80

theorem Ascii.tail {u : UInt16} {s : U16String} (h : Ascii (u :: s)) : Ascii s :=
  fun v hv => h v (List.mem_cons_of_mem u hv)

theorem not_surrogate_of_lt {u : UInt16} (h : u.toNat < 0x80) :
    (highSurrogate u || lowSurrogate u) = false ∧ highSurrogate u = false := by
  simp only [highSurrogate, lowSurrogate]
  constructor <;> simp <;> omega

theorem encodeLone_ascii {u : UInt16} (h : u.toNat < 0x80) :
    encodeLone u = [UInt8.ofNat u.toNat] := by
  rw [encodeLone, (not_surrogate_of_lt h).1, encodeScalar, if_pos h]
  rfl

theorem encode_cons {u : UInt16} (h : highSurrogate u = false) (s : U16String) :
    encode (u :: s) = encodeLone u ++ encode s := by
  cases s with
  | nil => simp [encode]
  | cons v vs => simp [encode, h]

theorem wellFormed_cons {u : UInt16} {s : U16String}
    (h : (highSurrogate u || lowSurrogate u) = false) (hs : WellFormed s) :
    WellFormed (u :: s) := by
  cases s with
  | nil => simp [WellFormed, h]
  | cons v vs =>
      have hu : highSurrogate u = false := (Bool.or_eq_false_iff.mp h).1
      rw [WellFormed, h]
      simp [hu, hs]

/-- A unit that is no low surrogate starts its own bytes, whatever stands before it. -/
theorem encode_append_cons {u : UInt16} (hu : lowSurrogate u = false) (t : U16String) :
    ∀ s : U16String, encode (s ++ u :: t) = encode s ++ encode (u :: t)
  | [] => rfl
  | [v] => by
      have hpair : ¬ (highSurrogate v && lowSurrogate u) = true := by simp [hu]
      have hcons : encode (v :: u :: t) =
          if (highSurrogate v && lowSurrogate u) = true then
            encodeScalar (combine v u) ++ encode t
          else encodeLone v ++ encode (u :: t) := by rw [encode]
      rw [List.singleton_append, hcons, if_neg hpair]
      rfl
  | v :: w :: s => by
      rw [List.cons_append, List.cons_append, encode, encode]
      by_cases hpair : (highSurrogate v && lowSurrogate w) = true
      · rw [if_pos hpair, if_pos hpair, encode_append_cons hu t s, List.append_assoc]
      · have ih := encode_append_cons hu t (w :: s)
        rw [List.cons_append] at ih
        rw [if_neg hpair, if_neg hpair, ih, List.append_assoc]

/-- A unit that is no low surrogate makes no pair with what stands before it. -/
theorem wellFormed_append_cons_iff {u : UInt16} (hu : lowSurrogate u = false) (t : U16String) :
    ∀ s : U16String, WellFormed (s ++ u :: t) ↔ WellFormed s ∧ WellFormed (u :: t)
  | [] => (and_iff_right trivial).symm
  | [v] => by
      have hpair : ¬ (highSurrogate v && lowSurrogate u) = true := by simp [hu]
      have hcons : WellFormed (v :: u :: t) ↔
          if (highSurrogate v && lowSurrogate u) = true then WellFormed t
          else ¬ (highSurrogate v || lowSurrogate v) ∧ WellFormed (u :: t) := by rw [WellFormed]
      rw [List.singleton_append, hcons, if_neg hpair]
      rfl
  | v :: w :: s => by
      rw [List.cons_append, List.cons_append, WellFormed, WellFormed]
      by_cases hpair : (highSurrogate v && lowSurrogate w) = true
      · rw [if_pos hpair, if_pos hpair, wellFormed_append_cons_iff hu t s]
      · have ih := wellFormed_append_cons_iff hu t (w :: s)
        rw [List.cons_append] at ih
        rw [if_neg hpair, if_neg hpair, ih, and_assoc]

theorem encode_ascii {s : U16String} (h : Ascii s) :
    encode s = s.map fun u => UInt8.ofNat u.toNat := by
  induction s with
  | nil => rfl
  | cons u s ih =>
      have hu := (h u (by simp)).2
      rw [encode_cons (not_surrogate_of_lt hu).2, encodeLone_ascii hu, ih h.tail]
      rfl

theorem wellFormed_ascii {s : U16String} (h : Ascii s) : WellFormed s := by
  induction s with
  | nil => trivial
  | cons u s ih =>
      exact wellFormed_cons (not_surrogate_of_lt (h u (by simp)).2).1 (ih h.tail)

theorem length_encode_ascii {s : U16String} (h : Ascii s) :
    (encode s).length = s.length := by
  rw [encode_ascii h, List.length_map]

theorem length_encodeScalar_pos (c : ℕ) : 0 < (encodeScalar c).length := by
  unfold encodeScalar
  split_ifs <;> simp

theorem length_encodeLone_pos (u : UInt16) : 0 < (encodeLone u).length := by
  unfold encodeLone
  split_ifs
  · simp
  · exact length_encodeScalar_pos u.toNat

/-- Every code unit takes at least one byte. -/
theorem length_le_length_encode : ∀ s : U16String, s.length ≤ (encode s).length
  | [] => le_rfl
  | [u] => length_encodeLone_pos u
  | u :: v :: vs => by
      unfold encode
      split_ifs with hpair
      · have hvs := length_le_length_encode vs
        have hfour : 2 ≤ (encodeScalar (combine u v)).length := by
          unfold encodeScalar combine
          split_ifs
          · omega
          · simp
          · simp
          · simp
        simp only [List.length_cons, List.length_append]
        omega
      · have hvs := length_le_length_encode (v :: vs)
        have hu := length_encodeLone_pos u
        simp only [List.length_cons, List.length_append] at hvs ⊢
        omega

/-- A code unit that stands alone and takes one byte: an ASCII one, or a surrogate, for which
a question mark is written. -/
def SingleUnit (u : UInt16) : Prop :=
  u.toNat < 0x80 ∨ highSurrogate u = true ∨ lowSurrogate u = true

instance (u : UInt16) : Decidable (SingleUnit u) := inferInstanceAs (Decidable (_ ∨ _))

/-- Every code unit takes one byte: ASCII units and surrogates that form no pair. -/
def SingleByte : U16String → Prop
  | [] => True
  | [u] => SingleUnit u
  | u :: v :: vs =>
      ¬ (highSurrogate u && lowSurrogate v) = true ∧ SingleUnit u ∧ SingleByte (v :: vs)

theorem length_encodeLone_eq_one_iff (u : UInt16) :
    (encodeLone u).length = 1 ↔ SingleUnit u := by
  unfold encodeLone SingleUnit
  by_cases hsurr : (highSurrogate u || lowSurrogate u) = true
  · rw [if_pos hsurr]
    rw [Bool.or_eq_true] at hsurr
    exact iff_of_true rfl (.inr hsurr)
  · rw [if_neg hsurr]
    rw [Bool.or_eq_true] at hsurr
    rw [or_iff_left hsurr]
    unfold encodeScalar
    split_ifs with h1 h2 h3
    · exact iff_of_true rfl h1
    · exact iff_of_false (by simp) h1
    · exact iff_of_false (by simp) h1
    · exact iff_of_false (by simp) h1

/-- The UTF-8 bytes are as many as the code units exactly when each unit takes one. -/
theorem length_encode_eq_iff : ∀ s : U16String, (encode s).length = s.length ↔ SingleByte s
  | [] => iff_of_true rfl trivial
  | [u] => length_encodeLone_eq_one_iff u
  | u :: v :: vs => by
      have hvs := length_le_length_encode vs
      rw [SingleByte]
      unfold encode
      by_cases hpair : (highSurrogate u && lowSurrogate v) = true
      · rw [if_pos hpair]
        refine iff_of_false ?_ (fun h => h.1 hpair)
        have hscalar : 3 ≤ (encodeScalar (combine u v)).length := by
          unfold encodeScalar combine
          split_ifs
          · omega
          · omega
          · simp
          · simp
        rw [List.length_append, List.length_cons, List.length_cons]
        omega
      · rw [if_neg hpair, and_iff_right hpair, ← length_encode_eq_iff (v :: vs),
          ← length_encodeLone_eq_one_iff u]
        have hu := length_encodeLone_pos u
        have hrest := length_le_length_encode (v :: vs)
        rw [List.length_append, List.length_cons]
        omega

theorem encodeScalar_ne_zero {c : ℕ} (h0 : 0 < c) (hc : c < 0x110000) :
    (0 : UInt8) ∉ encodeScalar c := by
  have hne : ∀ {n : ℕ}, 0 < n → n < 256 → (0 : UInt8) ≠ UInt8.ofNat n := by
    intro n hn hlt h
    have h' := congrArg UInt8.toNat h
    rw [toNat_ofNat8 hlt] at h'
    simp at h'
    omega
  unfold encodeScalar
  split_ifs <;> simp only [List.mem_cons, List.not_mem_nil, or_false, not_or]
  · exact hne h0 (by omega)
  · exact ⟨hne (by omega) (by omega), hne (by omega) (by omega)⟩
  · exact ⟨hne (by omega) (by omega), hne (by omega) (by omega),
      hne (by omega) (by omega)⟩
  · exact ⟨hne (by omega) (by omega), hne (by omega) (by omega),
      hne (by omega) (by omega), hne (by omega) (by omega)⟩

theorem encodeLone_ne_zero {u : UInt16} (h : u ≠ 0) : (0 : UInt8) ∉ encodeLone u := by
  have h0 : 0 < u.toNat := by
    rcases Nat.eq_zero_or_pos u.toNat with h' | h'
    · exact absurd (UInt16.toNat_inj.mp h') h
    · exact h'
  have hlt : u.toNat < 0x10000 := u.toNat_lt
  unfold encodeLone
  split_ifs
  · decide
  · exact encodeScalar_ne_zero h0 (by omega)

/-- The encoding of a string without NUL has no zero byte. -/
theorem zero_notMem_encode : ∀ {s : U16String}, (0 : UInt16) ∉ s →
    (0 : UInt8) ∉ encode s
  | [], _ => by simp [encode]
  | [u], h => encodeLone_ne_zero (by rintro rfl; simp at h)
  | u :: v :: vs, h => by
      have hu : u ≠ 0 := by rintro rfl; simp at h
      have hv : (0 : UInt16) ∉ v :: vs := fun h' => h (List.mem_cons_of_mem u h')
      have hvs : (0 : UInt16) ∉ vs := fun h' => hv (List.mem_cons_of_mem v h')
      unfold encode
      split_ifs with hpair
      · have hscalar := (unitsOfScalar_combine hpair).1
        have hc : 0 < combine u v ∧ combine u v < 0x110000 := by
          unfold IsScalar at hscalar
          unfold combine at hscalar ⊢
          omega
        simpa using ⟨encodeScalar_ne_zero hc.1 hc.2, zero_notMem_encode hvs⟩
      · simpa using ⟨encodeLone_ne_zero hu, zero_notMem_encode hv⟩

theorem decode_ascii_append {bs : Bytes} (h : ∀ b ∈ bs, b.toNat < 0x80) (cs : Bytes) :
    decode (bs ++ cs) = (bs.map fun b => UInt16.ofNat b.toNat) ++ decode cs := by
  induction bs with
  | nil => rfl
  | cons b bs ih =>
      have hb : b.toNat < 0x80 := h b (by simp)
      have htail := ih fun c hc => h c (List.mem_cons_of_mem b hc)
      rw [List.cons_append, decode_cons, decodeUnit, if_pos hb, List.map_cons,
        List.cons_append]
      exact congrArg _ htail

/-! ## Strings that come back with as many code units as bytes

`cString` is what a NUL-terminated field reads as. A field whose text has as
many code units as the field has bytes is ASCII, unless it ends in a byte that
only the bytes after it explain.
-/

/-- The decoded text up to the first NUL. -/
def cString (bs : Bytes) : U16String := (decode bs).takeWhile (· ≠ 0)

/-- What one step of the decoder can do: an ASCII byte stands for itself, a
malformed run becomes one replacement, and a character of several bytes yields
no more code units than it has continuation bytes. -/
theorem decodeUnit_cases (b : UInt8) (bs : Bytes) :
    (b.toNat < 0x80 ∧ decodeUnit b bs = ([UInt16.ofNat b.toNat], 0)) ∨
    (0x80 ≤ b.toNat ∧ ∃ k ≤ bs.length, decodeUnit b bs = ([replacement], k)) ∨
    (0x80 ≤ b.toNat ∧ ∃ us k, 0 < k ∧ k ≤ bs.length ∧ us.length ≤ k ∧
      decodeUnit b bs = (us, k)) := by
  by_cases hb : b.toNat < 0x80
  · left
    exact ⟨hb, by rw [decodeUnit, if_pos hb]⟩
  · right
    unfold decodeUnit
    rw [if_neg hb]
    split_ifs
    · unfold decode2
      split
      · split_ifs
        · exact Or.inr ⟨by omega, _, _, by simp, by simp, by simp, rfl⟩
        · exact Or.inl ⟨by omega, 0, by simp, rfl⟩
      · exact Or.inl ⟨by omega, 0, by simp, rfl⟩
    · unfold decode3
      split
      · split_ifs
        · exact Or.inl ⟨by omega, 0, by simp, rfl⟩
        · exact Or.inl ⟨by omega, 1, by simp, rfl⟩
        · dsimp only
          split_ifs
          · exact Or.inl ⟨by omega, 2, by simp, rfl⟩
          · exact Or.inr ⟨by omega, _, _, by simp, by simp, by simp, rfl⟩
      · split_ifs
        · exact Or.inl ⟨by omega, 0, by simp, rfl⟩
        · exact Or.inl ⟨by omega, 1, by simp, rfl⟩
      · exact Or.inl ⟨by omega, 0, by simp, rfl⟩
    · unfold decode4
      split
      · split_ifs
        · exact Or.inl ⟨by omega, 0, by simp, rfl⟩
        · exact Or.inl ⟨by omega, 1, by simp, rfl⟩
        · exact Or.inl ⟨by omega, 2, by simp, rfl⟩
        · exact Or.inr ⟨by omega, _, _, by simp, by simp, by simp, rfl⟩
      · split_ifs
        · exact Or.inl ⟨by omega, 0, by simp, rfl⟩
        · exact Or.inl ⟨by omega, 1, by simp, rfl⟩
        · exact Or.inl ⟨by omega, 2, by simp, rfl⟩
      · split_ifs
        · exact Or.inl ⟨by omega, 0, by simp, rfl⟩
        · exact Or.inl ⟨by omega, 1, by simp, rfl⟩
      · exact Or.inl ⟨by omega, 0, by simp, rfl⟩
    · exact Or.inl ⟨by omega, 0, by simp, rfl⟩

theorem decodeUnit_snd_le (b : UInt8) (bs : Bytes) :
    (decodeUnit b bs).2 ≤ bs.length := by
  rcases decodeUnit_cases b bs with ⟨-, h⟩ | ⟨-, k, hk, h⟩ | ⟨-, us, k, -, hk, -, h⟩
  · simp [h]
  · rw [h]
    exact hk
  · rw [h]
    exact hk

theorem length_decodeUnit_le (b : UInt8) (bs : Bytes) :
    (decodeUnit b bs).1.length ≤ (decodeUnit b bs).2 + 1 := by
  rcases decodeUnit_cases b bs with ⟨-, h⟩ | ⟨-, k, -, h⟩ | ⟨-, us, k, -, -, hus, h⟩
  · simp [h]
  · simp [h]
  · rw [h]
    exact Nat.le_succ_of_le hus

/-- Outside ASCII, a step that yields a unit for every byte it uses up is a
replacement of one byte. -/
theorem decodeUnit_eq_replacement {b : UInt8} {bs : Bytes} (hb : 0x80 ≤ b.toNat)
    (h : (decodeUnit b bs).2 + 1 ≤ (decodeUnit b bs).1.length) :
    decodeUnit b bs = ([replacement], 0) := by
  rcases decodeUnit_cases b bs with ⟨h', -⟩ | ⟨-, k, -, heq⟩ | ⟨-, us, k, -, -, hus, heq⟩
  · omega
  · rw [heq] at h ⊢
    have hk : k = 0 := by simpa using h
    rw [hk]
  · rw [heq] at h
    dsimp only at h
    omega

theorem length_decodeSkip_le (bs : Bytes) :
    ∀ k, (decodeSkip k bs).length ≤ bs.length - k := by
  induction bs with
  | nil => intro k; cases k <;> simp [decodeSkip]
  | cons b bs ih =>
      intro k
      cases k with
      | zero =>
          have hused := decodeUnit_snd_le b bs
          have hunits := length_decodeUnit_le b bs
          have hrest := ih (decodeUnit b bs).2
          rw [decodeSkip, List.length_append, List.length_cons]
          omega
      | succ k =>
          have hrest := ih k
          rw [decodeSkip, List.length_cons]
          omega

theorem length_cString_le (bs : Bytes) : (cString bs).length ≤ bs.length :=
  (List.takeWhile_sublist _).length_le.trans (length_decodeSkip_le bs 0)

theorem cString_cons_ascii {b : UInt8} (h0 : 0 < b.toNat) (hb : b.toNat < 0x80)
    (bs : Bytes) : cString (b :: bs) = UInt16.ofNat b.toNat :: cString bs := by
  have hne : UInt16.ofNat b.toNat ≠ 0 := by
    intro h
    have h' := congrArg UInt16.toNat h
    rw [toNat_ofNat16 (by omega)] at h'
    simp at h'
    omega
  rw [cString, decode_cons, decodeUnit, if_pos hb, List.cons_append,
    List.takeWhile_cons_of_pos (by simpa using hne)]
  rfl

theorem cString_eq_self_of_ascii {w : Bytes} (h : AsciiBytes w) :
    cString w = w.map fun b => UInt16.ofNat b.toNat := by
  induction w with
  | nil => rfl
  | cons b w ih =>
      have hb := h b (by simp)
      rw [cString_cons_ascii hb.1 hb.2, ih fun c hc => h c (List.mem_cons_of_mem b hc)]
      rfl

theorem decode_replicate_zero (n : ℕ) :
    decode (List.replicate n 0) = List.replicate n 0 := by
  have hzero : ∀ b ∈ List.replicate n (0 : UInt8), b.toNat < 0x80 := by
    intro b hb
    rw [List.eq_of_mem_replicate hb]
    decide
  simpa using decode_ascii_append hzero []

/-- A string without NUL and lone surrogates, written into a field that is
filled up with zeros, reads back as itself. -/
theorem cString_encode_zeros {s : U16String} (hs : WellFormed s)
    (h0 : (0 : UInt16) ∉ s) (n : ℕ) :
    cString (encode s ++ List.replicate n 0) = s := by
  have hall : ∀ u ∈ s, (decide (u ≠ 0)) = true := by
    intro u hu
    simp only [decide_eq_true_eq]
    rintro rfl
    exact h0 hu
  rw [cString, decode_encode_append s hs, decode_replicate_zero,
    List.takeWhile_append_of_pos hall]
  cases n <;> simp

/-- The byte `EF` followed by `BF` is never decoded alone. -/
theorem decodeUnit_EF_BF (bs : Bytes) : (decodeUnit 0xEF (0xBF :: bs)).2 ≠ 0 := by
  cases bs with
  | nil => decide
  | cons c bs =>
      have h : decodeUnit 0xEF (0xBF :: c :: bs) = decode3 0xEF (0xBF :: c :: bs) := rfl
      have hm : malformed3 0xEF (0xBF : UInt8).toNat = false := by decide
      rw [h, decode3, hm, if_neg (by decide)]
      split_ifs <;> simp
      split_ifs <;> simp

/-- In a string of full length a byte that is no ASCII character became a replacement. -/
theorem cString_cons_of_length {b : UInt8} {w : Bytes} (hb : 0x80 ≤ b.toNat)
    (hlen : (cString (b :: w)).length = (b :: w).length) :
    decodeUnit b w = ([replacement], 0) ∧ cString (b :: w) = replacement :: cString w := by
  have hle := length_decodeSkip_le w (decodeUnit b w).2
  have hbound := decodeUnit_snd_le b w
  have hcut : (cString (b :: w)).length ≤
      (decodeUnit b w).1.length + (decodeSkip (decodeUnit b w).2 w).length := by
    rw [← List.length_append, ← decode_cons]
    exact (List.takeWhile_sublist _).length_le
  rw [hlen, List.length_cons] at hcut
  have hunit : decodeUnit b w = ([replacement], 0) :=
    decodeUnit_eq_replacement hb (by omega)
  refine ⟨hunit, ?_⟩
  rw [cString, decode_cons, hunit]
  exact List.takeWhile_cons_of_pos (by decide)

/-- A field read as a string of full length and written back: either the field
is ASCII, or its last byte is `EF` and the bytes written after it shift the
rest of the output. -/
theorem ascii_of_length_cString {w : Bytes} (hlen : (cString w).length = w.length)
    {x y : Bytes} (h : encode (cString w) ++ x = w ++ y) :
    AsciiBytes w ∨ (∃ a, w = a ++ [0xEF]) ∧ y = 0xBF :: 0xBD :: x := by
  induction w with
  | nil => exact Or.inl (by intro b hb; simp at hb)
  | cons b w ih =>
      by_cases hb : b.toNat < 0x80
      · rcases Nat.eq_zero_or_pos b.toNat with h0 | h0
        · have hzero : b = 0 := UInt8.toNat_inj.mp h0
          subst hzero
          exact absurd hlen (by simp [cString, decode_cons, decodeUnit])
        · have hunit : (UInt16.ofNat b.toNat).toNat = b.toNat := toNat_ofNat16 (by omega)
          have hsur := not_surrogate_of_lt (u := UInt16.ofNat b.toNat) (by omega)
          rw [cString_cons_ascii h0 hb] at hlen h
          rw [encode_cons hsur.2, encodeLone_ascii (by omega), hunit,
            UInt8.ofNat_toNat] at h
          rcases ih (by simpa using hlen) (by simpa using h) with hw | ⟨⟨a, ha⟩, hy⟩
          · left
            intro c hc
            rcases List.mem_cons.mp hc with rfl | hc
            · exact ⟨h0, hb⟩
            · exact hw c hc
          · exact Or.inr ⟨⟨b :: a, by rw [ha, List.cons_append]⟩, hy⟩
      · obtain ⟨hunit, hc⟩ := cString_cons_of_length (by omega) hlen
        rw [hc, encode_cons (by decide)] at h
        have henc : encodeLone replacement = [0xEF, 0xBF, 0xBD] := by decide
        rw [henc] at h
        simp only [List.cons_append, List.nil_append, List.cons.injEq] at h
        obtain ⟨rfl, h⟩ := h
        cases w with
        | nil =>
            right
            refine ⟨⟨[], rfl⟩, ?_⟩
            simpa [cString, encode] using h.symm
        | cons c w =>
            simp only [List.cons_append, List.cons.injEq] at h
            obtain ⟨rfl, -⟩ := h
            exact absurd (congrArg Prod.snd hunit) (decodeUnit_EF_BF w)

/-! ## Texts as byte strings -/

/-- The bytes are valid UTF-8. -/
def IsText (bs : Bytes) : Prop := ∃ s, WellFormed s ∧ encode s = bs

/-- Encoding replaces lone surrogates, so it always yields valid UTF-8. -/
theorem isText_encode : ∀ s : U16String, IsText (encode s)
  | [] => ⟨[], trivial, rfl⟩
  | [u] => by
      by_cases hu : (highSurrogate u || lowSurrogate u) = true
      · refine ⟨[0x3F], wellFormed_cons (by decide) trivial, ?_⟩
        simp [encode, encodeLone, hu]
        decide
      · exact ⟨[u], by simpa [WellFormed] using hu, rfl⟩
  | u :: v :: vs => by
      by_cases hpair : (highSurrogate u && lowSurrogate v) = true
      · obtain ⟨t, ht, henc⟩ := isText_encode vs
        refine ⟨u :: v :: t, ?_, ?_⟩
        · rw [WellFormed, if_pos hpair]
          exact ht
        · rw [encode, encode, if_pos hpair, if_pos hpair, henc]
      · obtain ⟨t, ht, henc⟩ := isText_encode (v :: vs)
        have hsplit : encode (u :: v :: vs) = encodeLone u ++ encode (v :: vs) := by
          rw [encode, if_neg hpair]
        by_cases hu : (highSurrogate u || lowSurrogate u) = true
        · have hmark : encodeLone u = encodeLone 0x3F := by
            rw [encodeLone, if_pos hu]
            decide
          refine ⟨0x3F :: t, wellFormed_cons (by decide) ht, ?_⟩
          rw [encode_cons (by decide), henc, hsplit, hmark]
        · have hu' : (highSurrogate u || lowSurrogate u) = false := by simpa using hu
          refine ⟨u :: t, wellFormed_cons hu' ht, ?_⟩
          rw [encode_cons (Bool.or_eq_false_iff.mp hu').1, henc, hsplit]

theorem zero_mem_encode : ∀ {s : U16String}, (0 : UInt16) ∈ s → (0 : UInt8) ∈ encode s
  | [], h => by simp at h
  | [u], h => by
      obtain rfl := List.mem_singleton.mp h
      decide
  | u :: v :: vs, h => by
      rw [encode]
      by_cases hpair : (highSurrogate u && lowSurrogate v) = true
      · rw [if_pos hpair]
        have hsur := Bool.and_eq_true_iff.mp hpair
        rcases List.mem_cons.mp h with rfl | h
        · exact absurd hsur.1 (by decide)
        rcases List.mem_cons.mp h with rfl | h
        · exact absurd hsur.2 (by decide)
        exact List.mem_append_right _ (zero_mem_encode h)
      · rw [if_neg hpair]
        rcases List.mem_cons.mp h with rfl | h
        · exact List.mem_append_left _ (by decide)
        · exact List.mem_append_right _ (zero_mem_encode h)

theorem zero_notMem_cString (bs : Bytes) : (0 : UInt16) ∉ cString bs := by
  intro h
  have hprefix := List.all_takeWhile (p := (· ≠ (0 : UInt16))) (l := decode bs)
  have hall := List.all_eq_true.mp hprefix 0 h
  simp at hall

/-- Valid UTF-8 without NUL, read from a field filled up with zeros and written
back. -/
theorem encode_cString_of_isText {bs : Bytes} (h : IsText bs) (h0 : (0 : UInt8) ∉ bs) (n : ℕ) :
    encode (cString (bs ++ List.replicate n 0)) = bs := by
  obtain ⟨s, hs, rfl⟩ := h
  rw [cString_encode_zeros hs (fun hmem => h0 (zero_mem_encode hmem))]

theorem length_cString_of_ascii {w : Bytes} (h : AsciiBytes w) :
    (cString w).length = w.length := by
  rw [cString_eq_self_of_ascii h, List.length_map]

theorem ascii_cString {w : Bytes} (h : AsciiBytes w) : Ascii (cString w) := by
  rw [cString_eq_self_of_ascii h]
  intro u hu
  obtain ⟨b, hb, rfl⟩ := List.mem_map.mp hu
  rw [toNat_ofNat16 (by have := h b hb; omega)]
  exact h b hb

theorem encode_cString_of_ascii {w : Bytes} (h : AsciiBytes w) : encode (cString w) = w := by
  rw [encode_ascii (ascii_cString h), cString_eq_self_of_ascii h, List.map_map]
  refine (List.map_congr_left fun b hb => ?_).trans (List.map_id w)
  have hb' := h b hb
  simp only [Function.comp_apply, id_eq]
  rw [toNat_ofNat16 (by omega), UInt8.ofNat_toNat]

/-- A field that is read as an ASCII text of its full length holds that text. -/
theorem eq_encode_of_cString {w : Bytes} {s : U16String} (hs : Ascii s)
    (hlen : w.length = s.length) (h : cString w = s) : w = encode s := by
  induction w generalizing s with
  | nil =>
      rw [List.length_nil] at hlen
      rw [List.length_eq_zero_iff.mp hlen.symm]
      rfl
  | cons b w ih =>
      cases s with
      | nil => cases hlen
      | cons u s =>
          by_cases hb : b.toNat < 0x80
          · rcases Nat.eq_zero_or_pos b.toNat with h0 | h0
            · obtain rfl : b = 0 := UInt8.toNat_inj.mp h0
              exact absurd h (by simp [cString, decode_cons, decodeUnit])
            · rw [cString_cons_ascii h0 hb, List.cons.injEq] at h
              obtain ⟨hu, hs'⟩ := h
              have hlow := (hs u (by simp)).2
              rw [encode_cons (not_surrogate_of_lt hlow).2, encodeLone_ascii hlow, ← hu,
                toNat_ofNat16 (by omega), UInt8.ofNat_toNat,
                ← ih hs.tail (by simpa using hlen) hs']
              rfl
          · have hfull : (cString (b :: w)).length = (b :: w).length := by rw [h, hlen]
            obtain ⟨-, hc⟩ := cString_cons_of_length (by omega) hfull
            rw [hc, List.cons.injEq] at h
            have hlow := (hs u (by simp)).2
            rw [← h.1] at hlow
            exact absurd hlow (by decide)

/-- A field of the length of an ASCII text is read as this text only where it holds it. -/
theorem cString_eq_iff {w : Bytes} {s : U16String} (hs : Ascii s) (hlen : w.length = s.length) :
    cString w = s ↔ w = encode s := by
  constructor
  · exact eq_encode_of_cString hs hlen
  · intro h
    have hzero : (0 : UInt16) ∉ s := fun hmem => absurd (hs 0 hmem).1 (by decide)
    have hread := cString_encode_zeros (wellFormed_ascii hs) hzero 0
    rwa [List.replicate_zero, List.append_nil, ← h] at hread

end Utf8
end Codec
