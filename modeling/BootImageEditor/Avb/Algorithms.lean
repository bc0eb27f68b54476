import BootImageEditor.Helper

/-!
# Algorithms

The registered signing algorithms, and the cryptography they are run with. The
digest, the key encoding and the raw RSA operation come from outside: they are
parameters of everything that signs.
-/

namespace BootImageEditor

open Codec Fallible

namespace Avb

/-- What is called outside the sources: `MessageDigest`, the files read on the
way (keys and `/dev/urandom`), `Helper.encodeRSAkey` and `Helper.rawSign`. -/
structure Crypto where
  digest : KString → Bytes → Bytes
  readAllBytes : KString → Result Bytes
  encodeRSAkey : Bytes → Result Bytes
  rawSign : KString → Bytes → Result Bytes
  urandom : ℕ → Bytes

structure Algorithm where
  name : KString
  algorithmType : Int32
  hashName : KString
  hashNumBytes : ℕ
  signatureNumBytes : ℕ
  publicKeyNumBytes : ℕ
  padding : Bytes
  defaultKey : KString
  deriving DecidableEq

namespace Algorithms

/-- The identifier of a SHA-256 digest in a PKCS#1 block. -/
def sha256Info : Bytes :=
  [0x30, 0x31, 0x30, 0x0d, 0x06, 0x09, 0x60, 0x86, 0x48, 0x01, 0x65, 0x03, 0x04, 0x02, 0x01,
    0x05, 0x00, 0x04, 0x20]

/-- The identifier of a SHA-512 digest in a PKCS#1 block. -/
def sha512Info : Bytes :=
  [0x30, 0x51, 0x30, 0x0d, 0x06, 0x09, 0x60, 0x86, 0x48, 0x01, 0x65, 0x03, 0x04, 0x02, 0x03,
    0x05, 0x00, 0x04, 0x40]

def pkcs1 (fill : ℕ) (info : Bytes) : Bytes :=
  [0x00, 0x01] ++ List.replicate fill 0xff ++ [0x00] ++ info

def none : Algorithm where
  name := units "NONE"
  algorithmType := 0
  hashName := []
  hashNumBytes := 0
  signatureNumBytes := 0
  publicKeyNumBytes := 0
  padding := []
  defaultKey := []

def sha256Rsa2048 : Algorithm where
  name := units "SHA256_RSA2048"
  algorithmType := 1
  hashName := units "sha256"
  hashNumBytes := 32
  signatureNumBytes := 256
  publicKeyNumBytes := 8 + 2 * 2048 / 8
  padding := pkcs1 202 sha256Info
  defaultKey := units "aosp/avb/avb_test_data/testkey_rsa2048.pem"

def sha256Rsa4096 : Algorithm where
  name := units "SHA256_RSA4096"
  algorithmType := 2
  hashName := units "sha256"
  hashNumBytes := 32
  signatureNumBytes := 512
  publicKeyNumBytes := 8 + 2 * 4096 / 8
  padding := pkcs1 458 sha256Info
  defaultKey := units "aosp/avb/avb_test_data/testkey_rsa4096.pem"

def sha256Rsa8192 : Algorithm where
  name := units "SHA256_RSA8192"
  algorithmType := 3
  hashName := units "sha256"
  hashNumBytes := 32
  signatureNumBytes := 1024
  publicKeyNumBytes := 8 + 2 * 8192 / 8
  padding := pkcs1 970 sha256Info
  defaultKey := units "aosp/avb/avb_test_data/testkey_rsa8192.pem"

def sha512Rsa2048 : Algorithm where
  name := units "SHA512_RSA2048"
  algorithmType := 4
  hashName := units "sha512"
  hashNumBytes := 64
  signatureNumBytes := 256
  publicKeyNumBytes := 8 + 2 * 2048 / 8
  padding := pkcs1 170 sha512Info
  defaultKey := units "aosp/avb/avb_test_data/testkey_rsa2048.pem"

def sha512Rsa4096 : Algorithm where
  name := units "SHA512_RSA4096"
  algorithmType := 5
  hashName := units "sha512"
  hashNumBytes := 64
  signatureNumBytes := 512
  publicKeyNumBytes := 8 + 2 * 4096 / 8
  padding := pkcs1 426 sha512Info
  defaultKey := units "aosp/avb/avb_test_data/testkey_rsa4096.pem"

def sha512Rsa8192 : Algorithm where
  name := units "SHA512_RSA8192"
  algorithmType := 6
  hashName := units "sha512"
  hashNumBytes := 64
  signatureNumBytes := 1024
  publicKeyNumBytes := 8 + 2 * 8192 / 8
  padding := pkcs1 938 sha512Info
  defaultKey := units "aosp/avb/avb_test_data/testkey_rsa8192.pem"

/-- `algMap`, in the order of insertion. -/
def algMap : List Algorithm :=
  [none, sha256Rsa2048, sha256Rsa4096, sha256Rsa8192, sha512Rsa2048, sha512Rsa4096,
    sha512Rsa8192]

def getByName (name : KString) : Option Algorithm := algMap.find? fun a => a.name = name

def getByType (algorithmType : Int32) : Option Algorithm :=
  algMap.find? fun a => a.algorithmType = algorithmType

/-- The `Struct3` calls that build the PKCS#1 blocks, beside the blocks. -/
def paddingCalls : List (Algorithm × KString × List Value) :=
  let info := fun (bs : Bytes) => Value.intArray (bs.map fun b => Int32.ofNat b.toNat)
  [(sha256Rsa2048, units "2b202x1b19B",
      [.byteArray [0, 1], .int 0xff, .byteArray [0], info sha256Info]),
    (sha256Rsa4096, units "2b458x1x19B",
      [.byteArray [0, 1], .int 0xff, .int 0, info sha256Info]),
    (sha256Rsa8192, units "2b970x1x19B",
      [.intArray [0, 1], .int 0xff, .int 0, info sha256Info]),
    (sha512Rsa2048, units "2b170x1x19B",
      [.intArray [0, 1], .int 0xff, .int 0, info sha512Info]),
    (sha512Rsa4096, units "2b426x1x19B",
      [.intArray [0, 1], .int 0xff, .int 0, info sha512Info]),
    (sha512Rsa8192, units "2b938x1x19B",
      [.intArray [0, 1], .int 0xff, .int 0, info sha512Info])]

example : ∀ c ∈ paddingCalls,
    Struct3.packFormat ⟨true, .littleEndian⟩ c.2.1 c.2.2 = .ok c.1.padding := by
  decide +kernel

/-- An algorithm and its name name each other. -/
theorem getByName_name : ∀ a ∈ algMap, getByName a.name = some a := by decide +kernel

theorem mem_of_getByType {t : Int32} {a : Algorithm} (h : getByType t = some a) :
    a ∈ algMap ∧ a.algorithmType = t := by
  refine ⟨List.mem_of_find?_eq_some h, ?_⟩
  have hfound := List.find?_some h
  simpa using hfound

/-- Either nothing is signed, or a digest of a known name and of the declared
length is, and both blocks are smaller than 4096 bytes. -/
theorem shape_of_mem : ∀ a ∈ algMap,
    (a = none ∨ (a.name ≠ units "NONE" ∧ 0 < a.hashNumBytes ∧ 0 < a.signatureNumBytes ∧
      0 < a.publicKeyNumBytes ∧
      (a.hashName = units "sha256" ∧ a.hashNumBytes = 32 ∨
        a.hashName = units "sha512" ∧ a.hashNumBytes = 64))) ∧
    a.hashNumBytes + a.signatureNumBytes < 4096 ∧ a.publicKeyNumBytes < 4096 := by
  decide +kernel

/-- Every PKCS#1 block leaves room for the digest in a signature of the declared
length. -/
theorem length_padding_of_mem : ∀ a ∈ algMap,
    a.padding.length + a.hashNumBytes = a.signatureNumBytes := by
  decide +kernel

theorem eq_none_of_type_zero : ∀ a ∈ algMap, a.algorithmType = 0 → a = none := by
  decide +kernel

end Algorithms

end Avb

end BootImageEditor
