import XKernel.Ext4.JournalSuperblock
import XKernel.Lib.Chunks
import XKernel.Lib.Ring
/-!
# Writing a transaction to the log (`jbd2/commit.rs`)

The writer is what it has been given so far: a list of block writes in the order in which
they were issued. A function that writes returns them, so a crash can keep any part of
them. A frozen transaction is its id with the two sorted slices of blocks.
-/

namespace XKernel.Ext4

open XKernel.Lib
open Ext4.UInt32 (toBeBytes)

/-- The frozen phase of a `RuntimeTransaction`. -/
structure RuntimeTransaction where
  id : TransactionId
  metadataBlocks : List UInt64
  revokedBlocks : List UInt64
  deriving DecidableEq, Repr

structure JournalCommitBlock where
  target : UInt64
  bytes : Bytes
  deriving DecidableEq, Repr

structure JournalLogCommit where
  transaction : TransactionId
  start : Nat
  head : Nat
  nextSequence : TransactionId
  updateCount : Nat
  revokeCount : Nat
  journalBlockCount : Nat
  deriving DecidableEq, Repr

/-- One block write, to a journal block. -/
abbrev BlockWrite := Nat × Bytes

namespace JournalSuperblock

variable (sb : JournalSuperblock)

def descriptorBlock : UInt32 := 1

def commitBlock : UInt32 := 2

def revokeBlock : UInt32 := 5

def headerSize : Nat := 12

def revokeHeaderSize : Nat := 16

def blockTailSize : Nat := 4

def flagEscape : UInt32 := 1

def flagSameUuid : UInt32 := 2

def flagLastTag : UInt32 := 8

def has64bit : Bool := sb.featureIncompat &&& incompat64bit != 0

def hasRevoke : Bool := sb.featureIncompat &&& incompatRevoke != 0

def hasChecksumV3 : Bool := sb.featureIncompat &&& incompatCsumV3 != 0

def hasChecksumV2OrV3 : Bool := sb.featureIncompat &&& (incompatCsumV2 ||| incompatCsumV3) != 0

/-- The circular log. -/
def ring : Ring := ⟨sb.firstLogBlock, sb.maxBlocks, sb.first_lt⟩

def nextLogBlock (block : Nat) : Nat := sb.ring.next block

/-! ## Capacities -/

def journalTagSize : Nat :=
  if sb.hasChecksumV3 then 16
  else if sb.has64bit then 12 else 8

def revokeEntrySize : Nat := if sb.has64bit then 8 else 4

def validateStart (start : Nat) : Ext4Result Unit :=
  if sb.firstLogBlock ≤ start ∧ start < sb.maxBlocks then .ok () else .error (.corrupt .invalidJournal)

def validateSupportedFeatures : Ext4Result Unit :=
  failIf (sb.featureCompat &&& compatChecksum ≠ 0)
    (.unsupportedJournalFeature sb.featureCompat sb.featureIncompat sb.featureReadOnlyCompat)

def cleanLogHead : Nat :=
  if sb.firstLogBlock ≤ sb.head ∧ sb.head < sb.maxBlocks then sb.head else sb.firstLogBlock

variable (commit : RuntimeTransaction) (transaction : TransactionId) (seed : UInt32) (blockSize : Nat)

def descriptorPayloadEnd : Ext4Result Nat :=
  if sb.hasChecksumV2OrV3 then
    (if blockTailSize ≤ blockSize then .ok (blockSize - blockTailSize) else .error (.corrupt .invalidJournal))
  else .ok blockSize

def descriptorTagAreaSize (tagCount : Nat) : Nat :=
  let tags := tagCount * sb.journalTagSize
  if sb.hasChecksumV3 ∨ tagCount ≤ 1 then tags else tags + 16

/-- The loop of `descriptor_tag_capacity`: the largest count whose tags end by `stop`. A tag
has a byte, so `stop` rounds are enough. -/
def tagCapacityLoop (stop : Nat) : Nat → Nat → Nat
  | 0, count => count
  | fuel + 1, count =>
    let nextCount := count + 1
    if headerSize + sb.descriptorTagAreaSize nextCount > stop then count else tagCapacityLoop stop fuel nextCount

def descriptorTagCapacity : Ext4Result Nat := do
  let stop ← sb.descriptorPayloadEnd blockSize
  let count := sb.tagCapacityLoop stop stop 0
  failIf (count = 0) (.corrupt .invalidJournal)
  return count

def revokeBlockCapacity : Ext4Result Nat := do
  let stop ← sb.descriptorPayloadEnd blockSize
  failIf (stop < revokeHeaderSize) (.corrupt .invalidJournal)
  let payload := stop - revokeHeaderSize
  let count := payload / sb.revokeEntrySize
  failIf (count = 0) (.corrupt .invalidJournal)
  return count

def logCapacity : Nat := sb.maxBlocks - sb.firstLogBlock

/-- One block stays free, so that a full log is not an empty one. -/
def usableLogCapacity : Nat := sb.logCapacity - 1

def logDistance (start stop : Nat) : Nat := sb.ring.dist start stop

def ensureLogSpace (tail head requiredBlocks : Nat) : Ext4Result Unit := do
  sb.validateStart tail
  sb.validateStart head
  let usedBlocks := sb.logDistance tail head
  let capacity := sb.usableLogCapacity
  failIf (usedBlocks > capacity ∨ requiredBlocks > capacity - usedBlocks) .journalBusy

/-- `div_ceil`. -/
def divCeil (a b : Nat) : Nat := (a + b - 1) / b

def journalLogBlocksForCounts (metadataBlocks revokeRecords : Nat) : Ext4Result Nat := do
  sb.validateSupportedFeatures
  failIf (revokeRecords ≠ 0 ∧ ¬ sb.hasRevoke) .invalidJournalTransaction
  let descriptorCapacity ← sb.descriptorTagCapacity sb.blockSize
  let revokeCapacity ← sb.revokeBlockCapacity sb.blockSize
  return metadataBlocks + divCeil metadataBlocks descriptorCapacity + divCeil revokeRecords revokeCapacity + 1

def journalTransactionBlocksRequired : Ext4Result Nat := do
  let total ← sb.journalLogBlocksForCounts commit.metadataBlocks.length commit.revokedBlocks.length
  failIf (total > sb.usableLogCapacity) (.unsupported .journalTooLarge)
  return total

/-- The loop of `validate_commit_blocks` over the expected targets and the images. -/
def validateImages (blockSize : Nat) : List UInt64 → List JournalCommitBlock → Ext4Result Unit
  | expected :: metadata, block :: blocks => do
    failIf (expected ≠ block.target) .invalidJournalTransaction
    failIf (block.bytes.length ≠ blockSize) (.invalidBufferLength blockSize block.bytes.length)
    validateImages blockSize metadata blocks
  | _, _ => .ok ()

def validateCommitBlocks (blocks : List JournalCommitBlock) : Ext4Result Unit := do
  failIf (blocks.length ≠ commit.metadataBlocks.length) .invalidJournalTransaction
  failIf (commit.revokedBlocks.any fun revoked => commit.metadataBlocks.contains revoked) .invalidJournalTransaction
  validateImages sb.blockSize commit.metadataBlocks blocks

def journalBlocksRequired (blocks : List JournalCommitBlock) : Ext4Result Nat := do
  sb.validateCommitBlocks commit blocks
  sb.journalTransactionBlocksRequired commit

/-! ## Blocks -/

def putBe (output : Bytes) (offset : Nat) (value : Bytes) : Ext4Result Bytes :=
  putBytes (.corrupt .invalidJournal) output offset value

/-- `&input[..offset]` and `&input[offset + 4..]` without the word between them. -/
def checksumWithZeroedU32 (input : Bytes) (offset : Nat) : Ext4Result UInt32 := do
  failIf (input.length < offset) (.corrupt .invalidJournal)
  failIf (input.length < offset + 4) (.corrupt .invalidJournal)
  return crc32c (crc32c (crc32c seed (input.take offset)) [0, 0, 0, 0]) (input.drop (offset + 4))

def checksumSeed : UInt32 := crc32c 0xffffffff sb.uuid.1

def blockHeader (blockType : UInt32) (transaction : TransactionId) (blockSize : Nat) : Ext4Result Bytes := do
  let block ← putBe (zeros blockSize) 0 (toBeBytes magicNumber)
  let block ← putBe block 4 (toBeBytes blockType)
  putBe block 8 (toBeBytes transaction)

def setControlBlockChecksum (block : Bytes) (seed : UInt32) : Ext4Result Bytes := do
  if sb.hasChecksumV2OrV3 then
    failIf (block.length < blockTailSize) (.corrupt .invalidJournal)
    let offset := block.length - blockTailSize
    putBe block offset (toBeBytes (← checksumWithZeroedU32 seed block offset))
  else return block

def dataBlockChecksum (transaction : TransactionId) (data : Bytes) : Option UInt32 :=
  if sb.hasChecksumV2OrV3 then
    let checksum := crc32c (crc32c seed (toBeBytes transaction)) data
    if sb.hasChecksumV3 then some checksum else some (checksum &&& 0xffff)
  else none

/-- The logged bytes, and whether the magic number was taken out of them. -/
def escapeJournalData (data : Bytes) : Bytes × Bool :=
  if Bytes.get 4 0 data = some (toBeBytes magicNumber) then (toBeBytes 0 ++ data.drop 4, true)
  else (data, false)

def writeDescriptorTag (output : Bytes) (offset : Nat) (target : UInt64) (flags : UInt32)
    (dataChecksum : Option UInt32) : Ext4Result Bytes := do
  let low := target.toUInt32
  let high := (target >>> 32).toUInt32
  let output ← putBe output offset (toBeBytes low)
  if sb.hasChecksumV3 then
    let output ← putBe output (offset + 4) (toBeBytes flags)
    let output ← if sb.has64bit then putBe output (offset + 8) (toBeBytes high) else .ok output
    putBe output (offset + 12) (toBeBytes (dataChecksum.getD 0))
  else
    let output ←
      match dataChecksum with
      | some checksum => putBe output (offset + 4) (UInt16.toBeBytes checksum.toUInt16)
      | none => .ok output
    failIf (2 ^ 16 ≤ flags.toNat) .overflow
    let output ← putBe output (offset + 6) (UInt16.toBeBytes flags.toUInt16)
    if sb.has64bit then putBe output (offset + 8) (toBeBytes high) else return output

/-- The tag flags of the block at `index` of a group of `total`. -/
def tagFlags (index total : Nat) (escaped : Bool) : UInt32 :=
  let flags := if escaped then flagEscape else 0
  let flags := if index + 1 = total then flags ||| flagLastTag else flags
  if ¬ sb.hasChecksumV3 ∧ index ≠ 0 then flags ||| flagSameUuid else flags

/-- The loop of `write_descriptor_group` over a group of `total` blocks. -/
def writeDescriptorTags (seed : UInt32) (transaction : TransactionId) (total : Nat) :
    Nat → Nat → List JournalCommitBlock → Bytes → Ext4Result (Bytes × List Bytes)
  | _, _, [], descriptor => .ok (descriptor, [])
  | index, tagOffset, block :: blocks, descriptor => do
    let (data, escaped) := escapeJournalData block.bytes
    let flags := sb.tagFlags index total escaped
    let dataChecksum := sb.dataBlockChecksum seed transaction data
    let descriptor ← sb.writeDescriptorTag descriptor tagOffset block.target flags dataChecksum
    let tagOffset := tagOffset + sb.journalTagSize
    if ¬ sb.hasChecksumV3 ∧ index = 0 ∧ total > 1 then
      let descriptor ← putBe descriptor tagOffset sb.uuid.1
      let (descriptor, dataBlocks) ←
        writeDescriptorTags seed transaction total (index + 1) (tagOffset + 16) blocks descriptor
      return (descriptor, data :: dataBlocks)
    else
      let (descriptor, dataBlocks) ← writeDescriptorTags seed transaction total (index + 1) tagOffset blocks descriptor
      return (descriptor, data :: dataBlocks)

/-- The descriptor of a group and the data blocks behind it. -/
def encodeDescriptorGroup (blocks : List JournalCommitBlock) : Ext4Result (List Bytes) := do
  let descriptor ← blockHeader descriptorBlock transaction blockSize
  let (descriptor, dataBlocks) ←
    sb.writeDescriptorTags seed transaction blocks.length 0 headerSize blocks descriptor
  let descriptor ← sb.setControlBlockChecksum descriptor seed
  return descriptor :: dataBlocks

/-- The loop of `write_revoke_block` over the revoked blocks. -/
def writeRevokeEntries : Nat → List UInt64 → Bytes → Ext4Result Bytes
  | _, [], block => .ok block
  | offset, target :: revoked, block => do
    let block ←
      if sb.has64bit then putBe block offset (UInt64.toBeBytes target)
      else do
        failIf (2 ^ 32 ≤ target.toNat) .overflow
        putBe block offset (toBeBytes target.toUInt32)
    writeRevokeEntries (offset + sb.revokeEntrySize) revoked block

def encodeRevokeBlock (revoked : List UInt64) :
    Ext4Result Bytes := do
  let block ← blockHeader revokeBlock transaction blockSize
  let count := revokeHeaderSize + revoked.length * sb.revokeEntrySize
  failIf (2 ^ 32 ≤ count) .overflow
  let block ← putBe block 12 (toBeBytes (UInt32.ofNat count))
  let block ← sb.writeRevokeEntries revokeHeaderSize revoked block
  sb.setControlBlockChecksum block seed

def encodeCommitBlock : Ext4Result Bytes := do
  let block ← blockHeader commitBlock transaction blockSize
  if sb.hasChecksumV2OrV3 then
    putBe block 16 (toBeBytes (← checksumWithZeroedU32 seed block 16))
  else return block

end JournalSuperblock

/-! ## The write batch -/

/-- `slice::chunks_exact`, which yields `count` chunks here. -/
def chunksExact (blockSize : Nat) : Nat → Bytes → List Bytes
  | 0, _ => []
  | count + 1, input => input.take blockSize :: chunksExact blockSize count (input.drop blockSize)

/-- `bytes` at `start` and the blocks behind it, without a wrap. -/
def placeFrom : Nat → List Bytes → List BlockWrite
  | _, [] => []
  | block, bytes :: rest => (block, bytes) :: placeFrom (block + 1) rest

/-- One request of consecutive blocks, as the block writes it stands for. -/
def writeJournalBlocks (start blockCount : Nat) (input : Bytes) : Ext4Result (List BlockWrite) := do
  if blockCount = 0 then
    failIf (input ≠ []) (.invalidBufferLength 0 input.length)
    return []
  else
    let blockSize := input.length / blockCount
    let expected := blockSize * blockCount
    failIf (blockSize = 0 ∨ input.length ≠ expected) (.invalidBufferLength expected input.length)
    return placeFrom start (chunksExact blockSize blockCount input)

/-- `written` is what the writer was given so far. -/
structure JournalWriteBatch where
  start : Option Nat
  next : Nat
  maxBlocks : Nat
  bytes : Bytes
  written : List BlockWrite
  deriving DecidableEq, Repr

namespace JournalWriteBatch

/-- 128 KiB. -/
def maxJournalWriteBytes : Nat := 128 * 1024

variable (sb : JournalSuperblock)

def new (start : Nat) : Ext4Result JournalWriteBatch := do
  sb.validateStart start
  let maxBlocks := max (maxJournalWriteBytes / sb.blockSize) 1
  return { start := none, next := start, maxBlocks, bytes := [], written := [] }

def flush (b : JournalWriteBatch) : Ext4Result JournalWriteBatch := do
  match b.start with
  | none => return b
  | some start =>
    let blockCount := b.bytes.length / sb.blockSize
    let writes ← writeJournalBlocks start blockCount b.bytes
    return { b with start := none, bytes := [], written := b.written ++ writes }

def push (b : JournalWriteBatch) (input : Bytes) : Ext4Result JournalWriteBatch := do
  failIf (input.length ≠ sb.blockSize) (.invalidBufferLength sb.blockSize input.length)
  let start := if b.bytes = [] then some b.next else b.start
  let current := b.next
  let b := { b with start, bytes := b.bytes ++ input, next := sb.nextLogBlock current }
  let blockCount := b.bytes.length / sb.blockSize
  let didWrap := current + 1 = sb.maxBlocks
  if blockCount = b.maxBlocks ∨ didWrap then b.flush sb else return b

def pushAll (b : JournalWriteBatch) : List Bytes → Ext4Result JournalWriteBatch
  | [] => .ok b
  | block :: blocks => do pushAll (← b.push sb block) blocks

end JournalWriteBatch

/-! ## Commit -/

namespace JournalSuperblock

variable (sb : JournalSuperblock)

def writeDescriptorGroups (transaction : TransactionId) (seed : UInt32) :
    List (List JournalCommitBlock) → JournalWriteBatch → Ext4Result JournalWriteBatch
  | [], batch => .ok batch
  | group :: groups, batch => do
    let blocks ← sb.encodeDescriptorGroup transaction seed sb.blockSize group
    writeDescriptorGroups transaction seed groups (← batch.pushAll sb blocks)

def writeRevokeBlocks (transaction : TransactionId) (seed : UInt32) :
    List (List UInt64) → JournalWriteBatch → Ext4Result JournalWriteBatch
  | [], batch => .ok batch
  | group :: groups, batch => do
    let block ← sb.encodeRevokeBlock transaction seed sb.blockSize group
    writeRevokeBlocks transaction seed groups (← batch.push sb block)

/-- The log record, and the block writes of the transaction: all of them stand before the
one flush. -/
def writeJournalCommit (start : Nat) (commit : RuntimeTransaction) (blocks : List JournalCommitBlock) :
    Ext4Result (JournalLogCommit × List BlockWrite) := do
  sb.validateStart start
  let totalJournalBlocks ← sb.journalBlocksRequired commit blocks
  let descriptorCapacity ← sb.descriptorTagCapacity sb.blockSize
  let revokeCapacity ← sb.revokeBlockCapacity sb.blockSize
  let seed := sb.checksumSeed
  let batch ← JournalWriteBatch.new sb start
  let batch ← sb.writeDescriptorGroups commit.id seed (chunks descriptorCapacity blocks) batch
  let batch ← sb.writeRevokeBlocks commit.id seed (chunks revokeCapacity commit.revokedBlocks) batch
  let batch ← batch.push sb (← sb.encodeCommitBlock commit.id seed sb.blockSize)
  let batch ← batch.flush sb
  return ({
    transaction := commit.id
    start
    head := batch.next
    nextSequence := commit.id + 1
    updateCount := blocks.length
    revokeCount := commit.revokedBlocks.length
    journalBlockCount := totalJournalBlocks }, batch.written)

/-! ## The superblock on disk -/

/-- The updated superblock, and the write of its block. A flush follows. -/
def updateJournalSuperblock (update : Bytes → Ext4Result Bytes) : Ext4Result (JournalSuperblock × List BlockWrite) := do
  let (bytes, updated) ← sb.updated update
  failIf (bytes.length ≠ sb.blockSize) (.invalidBufferLength sb.blockSize bytes.length)
  return (updated, [(0, bytes)])

def writeJournalSuperblockActive (sequence : TransactionId) (start : Nat) :
    Ext4Result (JournalSuperblock × List BlockWrite) :=
  sb.updateJournalSuperblock fun bytes => markSuperblockActive bytes sequence start

end JournalSuperblock

/-- What `persist_journal_commit` returns, and the block writes it issued: a flush stands
behind each of the `phases`. -/
structure PersistedCommit where
  log : JournalLogCommit
  superblock : JournalSuperblock
  phases : List (List BlockWrite)

/-- The part of the log that an append starts from. -/
structure AppendPoint where
  sequence : TransactionId
  tail : Nat
  start : Nat
  needsActivation : Bool
  deriving DecidableEq, Repr

namespace JournalSuperblock

variable (sb : JournalSuperblock)

/-- The `match` of `persist_journal_commit`. -/
def appendPoint (previous : Option JournalLogCommit) (id : TransactionId) : Ext4Result AppendPoint :=
  match sb.start with
  | .zero => do
    failIf (previous.isSome ∨ id ≠ sb.sequence) .invalidJournalTransaction
    return ⟨id, sb.cleanLogHead, sb.cleanLogHead, true⟩
  | .block tail => do
    let previous ← okOr previous .invalidJournalTransaction
    failIf (id ≠ previous.nextSequence) .invalidJournalTransaction
    return ⟨sb.sequence, tail, previous.head, false⟩

/-- A clean journal is made active before the first of its blocks is written. -/
def activate (point : AppendPoint) : Ext4Result (JournalSuperblock × List (List BlockWrite)) := do
  if point.needsActivation then
    let (active, write) ← sb.writeJournalSuperblockActive point.sequence point.tail
    return (active, [write])
  else return (sb, [])

def persistJournalCommit (previous : Option JournalLogCommit) (commit : RuntimeTransaction)
    (blocks : List JournalCommitBlock) : Ext4Result PersistedCommit := do
  let requiredBlocks ← sb.journalBlocksRequired commit blocks
  let point ← sb.appendPoint previous commit.id
  sb.ensureLogSpace point.tail point.start requiredBlocks
  let (active, phases) ← sb.activate point
  let (log, writes) ← active.writeJournalCommit point.start commit blocks
  return ⟨log, active, phases ++ [writes]⟩

end JournalSuperblock

end XKernel.Ext4
