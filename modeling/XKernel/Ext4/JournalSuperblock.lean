import XKernel.Ext4.Codec
/-!
# The journal superblock (`jbd2/superblock.rs`)

The fields of the source's `JournalSuperblock` are private and set by `decode` only, so the
bounds that `decode` checks are part of the type. A block of the journal and the number of
its blocks are `u32` values that stay below `max_blocks`; they are numbers here.
-/

namespace XKernel.Ext4

open XKernel.Lib

abbrev TransactionId := UInt32

/-- `[u8; 16]`. -/
abbrev Uuid := { b : Bytes // b.length = 16 }

inductive JournalStart where
  | zero
  | block (block : Nat)
  deriving DecidableEq, Repr

structure JournalSuperblock where
  encoded : Bytes
  blockSize : Nat
  maxBlocks : Nat
  firstLogBlock : Nat
  sequence : TransactionId
  start : JournalStart
  head : Nat
  error : UInt32
  featureCompat : UInt32
  featureIncompat : UInt32
  featureReadOnlyCompat : UInt32
  uuid : Uuid
  blockSize_pos : 0 < blockSize
  minBlocks_le : 1024 ≤ maxBlocks
  first_pos : 0 < firstLogBlock
  first_lt : firstLogBlock < maxBlocks
  start_inLog : ∀ b, start = .block b → firstLogBlock ≤ b ∧ b < maxBlocks
  deriving DecidableEq

namespace JournalSuperblock

def superblockSize : Nat := 1024

def magicNumber : UInt32 := 0xc03b3998

def superblockV1 : UInt32 := 3

def superblockV2 : UInt32 := 4

def minJournalBlocks : Nat := 1024

def crc32cChecksum : UInt8 := 4

def compatChecksum : UInt32 := 0x00000001

def incompatRevoke : UInt32 := 0x00000001

def incompat64bit : UInt32 := 0x00000002

def incompatCsumV2 : UInt32 := 0x00000008

def incompatCsumV3 : UInt32 := 0x00000010

def incompatFastCommit : UInt32 := 0x00000020

def supportedIncompat : UInt32 := incompatRevoke ||| incompat64bit ||| incompatCsumV2 ||| incompatCsumV3

def sequenceOffset : Nat := 0x18

def startOffset : Nat := 0x1c

def headOffset : Nat := 0x58

def checksumOffset : Nat := 0xfc

def putBeU32 (output : Bytes) (offset : Nat) (value : UInt32) : Ext4Result Bytes :=
  putBytes (.corrupt .truncated) output offset (UInt32.toBeBytes value)

variable (input : Bytes)

/-- `RawJournalSuperblock::try_from`. -/
def raw : Ext4Result Bytes := bytes superblockSize input 0

def validateFeatures (compat incompat readOnlyCompat : UInt32) : Ext4Result Unit := do
  let unsupportedIncompat := incompat &&& ~~~(supportedIncompat ||| incompatFastCommit)
  failIf (unsupportedIncompat ≠ 0 ∨ readOnlyCompat ≠ 0 ∨ incompat &&& incompatFastCommit ≠ 0)
    (.unsupportedJournalFeature compat incompat readOnlyCompat)
  let hasChecksumV1 := compat &&& compatChecksum ≠ 0
  let hasChecksumV2 := incompat &&& incompatCsumV2 ≠ 0
  let hasChecksumV3 := incompat &&& incompatCsumV3 ≠ 0
  failIf ((hasChecksumV2 ∧ hasChecksumV3) ∨ (hasChecksumV1 ∧ (hasChecksumV2 ∨ hasChecksumV3)))
    (.corrupt .invalidJournal)

def journalSuperblockChecksum : Ext4Result UInt32 := do
  let input ← raw input
  let before ← bytes checksumOffset input 0
  let after ← bytes (superblockSize - (checksumOffset + 4)) input (checksumOffset + 4)
  return crc32c (crc32c (crc32c 0xffffffff before) [0, 0, 0, 0]) after

/-- One complete journal block of the image: a raw superblock read alone is padded. -/
def encodedImage (encodedLen : Nat) : Ext4Result Bytes :=
  match Bytes.get encodedLen 0 input with
  | some encoded => .ok encoded
  | none =>
    if input.length = superblockSize then .ok (input ++ zeros (encodedLen - superblockSize))
    else .error (.corrupt .truncated)

def decodeStart (first max : Nat) (value : UInt32) :
    Ext4Result { s : JournalStart // ∀ b, s = .block b → first ≤ b ∧ b < max } :=
  if value = 0 then .ok ⟨.zero, nofun⟩
  else if h : first ≤ value.toNat ∧ value.toNat < max then
    .ok ⟨.block value.toNat, fun _ hb => JournalStart.block.inj hb ▸ h⟩
  else .error (.corrupt .invalidJournal)

def uuidAt (offset : Nat) : Ext4Result Uuid :=
  match h : Bytes.get 16 offset input with
  | some b => .ok ⟨b, Bytes.length_of_get h⟩
  | none => .error (.corrupt .truncated)

/-- The feature words and the uuid; a version 1 superblock has none of them. -/
def decodeFeatures (blockType : UInt32) (filesystemUuid : Uuid) :
    Ext4Result (UInt32 × UInt32 × UInt32 × Uuid) := do
  if blockType = superblockV2 then
    return (← beU32 input 0x24, ← beU32 input 0x28, ← beU32 input 0x2c, ← uuidAt input 0x30)
  else return (0, 0, 0, filesystemUuid)

def verifySuperblockChecksum (featureIncompat : UInt32) : Ext4Result Unit := do
  if featureIncompat &&& (incompatCsumV2 ||| incompatCsumV3) ≠ 0 then
    failIf (input[0x50]? ≠ some crc32cChecksum) (.corrupt .invalidJournal)
    let expected ← journalSuperblockChecksum input
    let actual ← beU32 input checksumOffset
    failIf (expected ≠ actual) (.checksumMismatch .journalSuperblock expected actual)

def decode (encodedInput : Bytes) (filesystemBlockSize journalInodeBlocks : Nat) (filesystemUuid : Uuid) :
    Ext4Result JournalSuperblock := do
  let input ← raw encodedInput
  failIf ((← beU32 input 0x00) ≠ magicNumber) (.corrupt .invalidJournal)
  let blockType ← beU32 input 0x04
  failIf (blockType ≠ superblockV1 ∧ blockType ≠ superblockV2) (.corrupt .invalidJournal)
  let blockSize ← UInt32.toNat <$> beU32 input 0x0c
  if hb : blockSize = 0 ∨ blockSize ≠ filesystemBlockSize then .error (.corrupt .invalidJournal) else
  let encoded ← encodedImage encodedInput blockSize
  let maxBlocks ← UInt32.toNat <$> beU32 input 0x10
  let firstLogBlock ← UInt32.toNat <$> beU32 input 0x14
  if hg : maxBlocks < minJournalBlocks ∨ journalInodeBlocks < maxBlocks ∨ firstLogBlock = 0 ∨
      maxBlocks ≤ firstLogBlock then
    .error (.corrupt .invalidJournal)
  else
  let start ← decodeStart firstLogBlock maxBlocks (← beU32 input startOffset)
  let (featureCompat, featureIncompat, featureReadOnlyCompat, uuid) ← decodeFeatures input blockType filesystemUuid
  validateFeatures featureCompat featureIncompat featureReadOnlyCompat
  failIf (blockType = superblockV2 ∧ uuid ≠ filesystemUuid) (.corrupt .invalidJournal)
  verifySuperblockChecksum input featureIncompat
  return {
    encoded, blockSize, maxBlocks, firstLogBlock
    sequence := ← beU32 input sequenceOffset
    start := start.1
    head := (← beU32 input headOffset).toNat
    error := ← beU32 input 0x20
    featureCompat, featureIncompat, featureReadOnlyCompat, uuid
    blockSize_pos := by omega
    minBlocks_le := by simp only [minJournalBlocks] at hg; omega
    first_pos := by omega
    first_lt := by omega
    start_inLog := start.2 }

/-! ## Updates -/

def validateMutableSuperblock : Ext4Result UInt32 := do
  let raw ← raw input
  let blockType ← beU32 raw 0x04
  let (featureCompat, featureIncompat, featureReadOnlyCompat) ←
    if blockType = superblockV2 then
      (do return (← beU32 raw 0x24, ← beU32 raw 0x28, ← beU32 raw 0x2c) : Ext4Result (UInt32 × UInt32 × UInt32))
    else .ok (0, 0, 0)
  validateFeatures featureCompat featureIncompat featureReadOnlyCompat
  return featureIncompat

def updateSuperblockChecksum (featureIncompat : UInt32) : Ext4Result Bytes := do
  if featureIncompat &&& (incompatCsumV2 ||| incompatCsumV3) ≠ 0 then
    putBeU32 input checksumOffset (← journalSuperblockChecksum input)
  else return input

def markSuperblockActive (sequence : TransactionId) (start : Nat) : Ext4Result Bytes := do
  let raw ← raw input
  let firstLogBlock ← UInt32.toNat <$> beU32 raw 0x14
  let maxBlocks ← UInt32.toNat <$> beU32 raw 0x10
  failIf (¬ (firstLogBlock ≤ start ∧ start < maxBlocks)) (.corrupt .invalidJournal)
  let featureIncompat ← validateMutableSuperblock input
  let input ← putBeU32 input sequenceOffset sequence
  let input ← putBeU32 input startOffset (UInt32.ofNat start)
  updateSuperblockChecksum input featureIncompat

/-- The new image, and the state decoded from it. -/
def updated (sb : JournalSuperblock) (update : Bytes → Ext4Result Bytes) : Ext4Result (Bytes × JournalSuperblock) := do
  let bytes ← update sb.encoded
  let updated ← decode bytes sb.blockSize sb.maxBlocks sb.uuid
  return (bytes, updated)

end JournalSuperblock

end XKernel.Ext4
