import BootImageEditor.Libavb.SlotVerify

/-!
# What a verified slot rests on

Where verification errors are not allowed, every vbmeta image that is collected has a good
signature by a trusted key and a rollback index that is not behind. A key is trusted by the
device or by a chain partition descriptor of an image collected before. A partition is loaded
for a hash descriptor that its digest matches, or because an image turns verification off. A
hashtree descriptor without a root digest may cover a failure: `ret` is overwritten there.
-/

namespace BootImageEditor

open Codec Procedures Procedure

namespace Libavb

section

variable {σ α : Type} (c : SlotCall σ) (device₀ : σ)

/-! ## Images and partitions in order -/

/-- The states of the device after writes of persistent values. -/
inductive Reached : σ → Prop
  | start : Reached device₀
  | written {device : σ} {writePersistentValue : σ → Bytes → Bytes → AvbIO Unit × σ}
      (name value : Bytes) : Reached device →
      c.ops.writePersistentValue = some writePersistentValue →
      Reached (writePersistentValue device name value).2

/-- A descriptor that is gone through. -/
def IsDescriptor (image : Bytes) (descriptor : ℕ) : Prop :=
  ∃ vbmetaBuf descriptors, avbDescriptorGetAll vbmetaBuf image = some descriptors ∧
    descriptor ∈ descriptors

/-- A chain partition descriptor with a key and the location of a rollback index. -/
def ChainsTo (image publicKey : Bytes) (location : UInt32) : Prop :=
  ∃ descriptor src desc, IsDescriptor image descriptor ∧
    readAt image descriptor AvbChainPartitionDescriptor.size = some src ∧
    AvbChainPartitionDescriptor.validateAndByteswap src = some desc ∧
    desc.rollbackIndexLocation = location ∧
    readAt image (descriptor + AvbChainPartitionDescriptor.size + desc.partitionNameLen.toNat)
      desc.publicKeyLen.toNat = some publicKey

/-- The key of an image is trusted, with the location of its rollback index. -/
inductive KeyTrusted (images : List AvbVBMetaData) (image : Bytes) : UInt32 → Prop
  | vbmeta {device : σ} : Reached c device₀ device →
      c.ops.validateVbmetaPublicKey device (publicKeyOf image) (publicKeyMetadataOf image) =
        .ok true →
      KeyTrusted images image 0
  | partition {device : σ} {location : UInt32} (fullName : CString)
      {validate : σ → CString → Bytes → Bytes → UInt32 → AvbIO (Bool × UInt32)} :
      Reached c device₀ device → c.ops.validatePublicKeyForPartition = some validate →
      validate device fullName (publicKeyOf image) (publicKeyMetadataOf image) 0 =
        .ok (true, location) →
      KeyTrusted images image location
  | chained {v : AvbVBMetaData} {location : UInt32} : v ∈ images →
      ChainsTo v.vbmetaData (publicKeyOf image) location →
      KeyTrusted images image location

/-- An image that has passed every check. -/
structure Vetted (images : List AvbVBMetaData) (v : AvbVBMetaData) : Prop where
  verifyResult : v.verifyResult = .ok
  signed : ∃ vbmetaBuf, avbVbmetaImageVerify c.prim vbmetaBuf v.vbmetaData = .ok
  current : ∃ location device stored, KeyTrusted c device₀ images v.vbmetaData location ∧
    Reached c device₀ device ∧ c.ops.readRollbackIndex device location = .ok stored ∧
    stored ≤ (toHostByteOrder v.vbmetaData).rollbackIndex

/-- The digest that the device has stored for a partition. -/
def StoredDigest (partName : CString) (digest : Bytes) : Prop :=
  ∃ device readPersistentValue, Reached c device₀ device ∧
    c.ops.readPersistentValue = some readPersistentValue ∧
    readPersistentValue device (persistentDigestPrefix ++ partName.bytes) digest.length =
      .ok digest

/-- The digest of a descriptor, or the stored one where the descriptor has none. -/
def ExpectedDigest (image : Bytes) (descriptor : ℕ) (desc : AvbHashDescriptor)
    (partName : CString) (digest : Bytes) : Prop :=
  if desc.digestLen = 0 then StoredDigest c device₀ partName digest
  else readAt image (descriptor + AvbHashDescriptor.size + desc.partitionNameLen.toNat +
    desc.saltLen.toNat) desc.digestLen.toNat = some digest

/-- Salt and image hash to the digest that is expected. -/
def DigestMatches (image : Bytes) (descriptor : ℕ) (desc : AvbHashDescriptor)
    (partName : CString) (imageBuf : Bytes) (imageSize : UInt64) : Prop :=
  ∃ salt content digest digestLen,
    readAt image (descriptor + AvbHashDescriptor.size + desc.partitionNameLen.toNat)
      desc.saltLen.toNat = some salt ∧
    readAt imageBuf 0 (min desc.imageSize.toNat imageSize.toNat) = some content ∧
    descriptorHash c.prim desc.hashAlgorithm (salt ++ content) = some (digest, digestLen) ∧
    ExpectedDigest c device₀ image descriptor desc partName digest

/-- A partition with the digest of a hash descriptor for it. -/
def HashedBy (image : Bytes) (p : AvbPartitionData) : Prop :=
  ∃ descriptor src desc partName, IsDescriptor image descriptor ∧
    readAt image descriptor AvbHashDescriptor.size = some src ∧
    AvbHashDescriptor.validateAndByteswap src = some desc ∧
    readAt image (descriptor + AvbHashDescriptor.size) desc.partitionNameLen.toNat =
      some p.partitionName.bytes ∧
    p.dataSize = desc.imageSize ∧
    DigestMatches c device₀ image descriptor desc partName p.data p.dataSize

/-- The header turns verification off. -/
def VerificationDisabled (image : Bytes) : Prop := (toHostByteOrder image).flags &&& 2 ≠ 0

def Authentic (images : List AvbVBMetaData) (p : AvbPartitionData) : Prop :=
  ∃ v ∈ images, HashedBy c device₀ v.vbmetaData p ∨ VerificationDisabled v.vbmetaData

/-- A hashtree descriptor without a root digest. -/
def HasEmptyRootDigest (image : Bytes) : Prop :=
  ∃ descriptor src desc, IsDescriptor image descriptor ∧
    readAt image descriptor AvbHashtreeDescriptor.size = some src ∧
    AvbHashtreeDescriptor.validateAndByteswap src = some desc ∧ desc.rootDigestLen = 0

variable {c device₀}

theorem KeyTrusted.mono {images images' : List AvbVBMetaData} (h : images ⊆ images')
    {image : Bytes} {location : UInt32} (htrusted : KeyTrusted c device₀ images image location) :
    KeyTrusted c device₀ images' image location := by
  cases htrusted with
  | vbmeta hdevice hkey => exact .vbmeta hdevice hkey
  | partition fullName hdevice hvalidate hkey => exact .partition fullName hdevice hvalidate hkey
  | chained hv hchain => exact .chained (h hv) hchain

theorem Vetted.mono {images images' : List AvbVBMetaData} (h : images ⊆ images')
    {v : AvbVBMetaData} (hv : Vetted c device₀ images v) : Vetted c device₀ images' v := by
  obtain ⟨location, device, stored, hkey, hrest⟩ := hv.current
  exact ⟨hv.verifyResult, hv.signed, location, device, stored, hkey.mono h, hrest⟩

/-! ## What runs keep -/

/-- What is collected is that of `s`. -/
structure Kept (c : SlotCall σ) (device₀ : σ) (s s' : SlotState σ) : Prop where
  device : Reached c device₀ s'.device
  images : s'.slotData.vbmetaImages = s.slotData.vbmetaImages
  loaded : s'.slotData.loadedPartitions = s.slotData.loadedPartitions

/-- The images that are collected, those of `before` among them, have passed every check. -/
structure Vetting (c : SlotCall σ) (device₀ : σ) (before : List AvbVBMetaData)
    (s : SlotState σ) : Prop where
  device : Reached c device₀ s.device
  before : before ⊆ s.slotData.vbmetaImages
  vetted : ∀ v ∈ s.slotData.vbmetaImages, Vetted c device₀ s.slotData.vbmetaImages v

/-- The partitions are as they should be, or a failure may be covered. -/
def Good (c : SlotCall σ) (device₀ : σ) (s : SlotState σ) : Prop :=
  (∃ v ∈ s.slotData.vbmetaImages, HasEmptyRootDigest v.vbmetaData) ∨
    ∀ p ∈ s.slotData.loadedPartitions, Authentic c device₀ s.slotData.vbmetaImages p

/-- The images have passed every check, and so have the partitions as long as nothing failed. -/
structure Sound (c : SlotCall σ) (device₀ : σ) (before : List AvbVBMetaData) (passed : Prop)
    (s : SlotState σ) : Prop
    extends Vetting c device₀ before s where
  loaded : passed → Good c device₀ s

/-- A run that leaves early does so with an error. -/
def Stopped (I : SlotState σ → Prop) (e : AvbSlotVerifyResult) (s : SlotState σ) : Prop :=
  e ≠ .ok ∧ I s

variable {before : List AvbVBMetaData} {passed : Prop} {ret e : AvbSlotVerifyResult}
  {s s₀ s' : SlotState σ}

theorem Kept.refl (h : Reached c device₀ s.device) : Kept c device₀ s s := ⟨h, rfl, rfl⟩

theorem Kept.stop (h : Kept c device₀ s₀ s) :
    ∀ e, e ≠ .ok → Stopped (Kept c device₀ s₀) e s :=
  fun _ he => ⟨he, h⟩

theorem Vetting.stop (h : Vetting c device₀ before s) :
    ∀ e, e ≠ .ok → Stopped (Vetting c device₀ before) e s :=
  fun _ he => ⟨he, h⟩

theorem Sound.imp {passed' : Prop} (h : Sound c device₀ before passed s)
    (himp : passed' → passed) : Sound c device₀ before passed' s :=
  ⟨h.toVetting, fun hp => h.loaded (himp hp)⟩

section

variable {Q : α → SlotState σ → Prop} {R : AvbSlotVerifyResult → SlotState σ → Prop}

end

/-- One more image, which has passed every check. -/
theorem Sound.add {v : AvbVBMetaData} (h : Sound c device₀ before passed s)
    (hdevice : s'.device = s.device)
    (hloaded : s'.slotData.loadedPartitions = s.slotData.loadedPartitions)
    (himages : s'.slotData.vbmetaImages = s.slotData.vbmetaImages ++ [v])
    (hv : Vetted c device₀ s.slotData.vbmetaImages v) :
    Sound c device₀ (v :: before) passed s' := by
  have hmono : s.slotData.vbmetaImages ⊆ s'.slotData.vbmetaImages := by
    rw [himages]
    exact List.subset_append_left _ _
  have hlast : v ∈ s'.slotData.vbmetaImages := by simp [himages]
  have hbefore : v :: before ⊆ s'.slotData.vbmetaImages :=
    List.cons_subset.mpr ⟨hlast, fun _ hw => hmono (h.before hw)⟩
  refine ⟨⟨hdevice ▸ h.device, hbefore, ?_⟩, ?_⟩
  · intro w hw
    rw [himages] at hw
    rcases List.mem_append.mp hw with hw | hw
    · exact (h.vetted w hw).mono hmono
    · rw [List.mem_singleton.mp hw]
      exact hv.mono hmono
  · intro hpassed
    refine (h.loaded hpassed).imp ?_ ?_
    · rintro ⟨w, hw, hempty⟩
      exact ⟨w, hmono hw, hempty⟩
    · intro hold p hp
      rw [hloaded] at hp
      obtain ⟨w, hw, hauthentic⟩ := hold p hp
      exact ⟨w, hmono hw, hauthentic⟩

section

variable {loadAndVerifyVbmeta : VbmetaArgs → Verify σ AvbSlotVerifyResult}

end

end

/-! ## Slots with one partition -/

def sampleHash : Bytes := zeros 32

/-- A hash descriptor for `"boot"`. -/
def sampleHashDescriptor : Bytes :=
  [2, 152, 4].flatMap (ByteOrder.bigEndian.encode 8) ++ (nameSha256 ++ zeros 26) ++
    [4, 0, 32].flatMap (ByteOrder.bigEndian.encode 4) ++ zeros 64 ++ nameBoot.bytes ++ sampleHash

/-- A chain partition descriptor for `"boot"`, with a key of 8 bytes. -/
def sampleChainDescriptor : Bytes :=
  [4, 88].flatMap (ByteOrder.bigEndian.encode 8) ++
    [1, 4, 8].flatMap (ByteOrder.bigEndian.encode 4) ++ zeros 64 ++ nameBoot.bytes ++ zeros 8

/-- A hashtree descriptor for `"boot"`, without a root digest. -/
def sampleHashtreeDescriptor : Bytes :=
  [1, 168].flatMap (ByteOrder.bigEndian.encode 8) ++ zeros 56 ++ (nameSha256 ++ zeros 26) ++
    [4, 0, 0, 1].flatMap (ByteOrder.bigEndian.encode 4) ++ zeros 60 ++ nameBoot.bytes

/-- A vbmeta image with descriptors, a key of 8 bytes, and a signature that is all zeros. -/
def sampleVbmeta (descriptors : Bytes) : Bytes :=
  avbMagic ++ [1, 0].flatMap (ByteOrder.bigEndian.encode 4) ++
    [320, 320].flatMap (ByteOrder.bigEndian.encode 8) ++ ByteOrder.bigEndian.encode 4 1 ++
    [0, 32, 32, 256, descriptors.length, 8, 0, 0, 0, descriptors.length, 5].flatMap
      (ByteOrder.bigEndian.encode 8) ++
    zeros 136 ++ (sampleHash ++ zeros 288) ++ descriptors ++ zeros (320 - descriptors.length)

/-- A device with images on `"vbmeta"` and on `"boot"`. -/
def sampleCall (vbmeta boot : Bytes) (sha256 : Bytes → Bytes) : SlotCall Unit where
  ops :=
    { avbOps := fun _ => ⟨none, fun partition _ size =>
        .ok (if partition.bytes = nameVbmeta.bytes then vbmeta
          else if size = 4 then [1, 2, 3, 4] else if size = 64 then zeros 64 else boot)⟩
      getSizeOfPartition := fun _ _ => .ok 4
      readIsDeviceUnlocked := fun _ => .ok false
      readRollbackIndex := fun _ _ => .ok 5
      validateVbmetaPublicKey := fun _ _ _ => .ok true
      validatePublicKeyForPartition := none
      readPersistentValue := some fun _ _ _ => .ok sampleHash
      writePersistentValue := none }
  prim := ⟨sha256, fun _ => zeros 64, fun _ _ _ _ => true⟩
  malloc := fun _ => some 4096
  requestedPartitions := [nameBoot]
  abSuffix := ⟨[], List.not_mem_nil⟩
  flags := 0

/-- The result of a slot, and the numbers of images and of partitions that are collected. -/
def sampleRun (c : SlotCall Unit) : Option (Option AvbSlotVerifyResult × ℕ × ℕ) :=
  ((slotVerify c .restart).runFrom ⟨(), {}, 0, []⟩).map fun r =>
    (r.1.toOption, r.2.slotData.vbmetaImages.length, r.2.slotData.loadedPartitions.length)

/-- A device whose `"boot"` partition has another digest than its descriptor. -/
def changedCall (vbmetaDescriptors : Bytes) : SlotCall Unit :=
  sampleCall (sampleVbmeta vbmetaDescriptors) (sampleVbmeta sampleHashDescriptor) fun content =>
    if content = [1, 2, 3, 4] then zeros 31 ++ [1] else sampleHash

/-- A changed partition fails the slot, unless a hashtree descriptor without a root digest
follows the chain partition descriptor that leads to it. -/
theorem slotVerify_covered :
    sampleRun (changedCall sampleChainDescriptor) = some (none, 2, 1) ∧
      sampleRun (changedCall (sampleChainDescriptor ++ sampleHashtreeDescriptor)) =
        some (some .ok, 2, 1) := by
  decide +kernel

end Libavb

end BootImageEditor
