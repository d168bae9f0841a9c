import XKernel.Ext4.JournalCommit
/-!
# Scanning the log (`jbd2/log.rs`)

The reader is the contents of the journal blocks. The scanner's loop takes a block of the
log in each round and ends when `remaining_blocks` is used up, so that number is its fuel.
-/

namespace XKernel.Ext4

open XKernel.Lib

/-- What is stored in the journal, by journal block. -/
abbrev JournalContents := Nat → Bytes

structure JournalUpdate where
  target : UInt64
  logBlock : Nat
  isEscaped : Bool
  deriving DecidableEq, Repr

inductive JournalTransactionState where
  | committed
  | uncommitted
  deriving DecidableEq, Repr

structure JournalTransaction where
  sequence : TransactionId
  start : Nat
  nextLogBlock : Nat
  updates : List JournalUpdate
  revokedBlocks : List UInt64
  state : JournalTransactionState
  deriving DecidableEq, Repr

structure JournalLogScan where
  transactions : List JournalTransaction
  head : Nat
  nextSequence : TransactionId
  deriving DecidableEq, Repr

structure TransactionBuilder where
  sequence : TransactionId
  start : Nat
  updates : List JournalUpdate
  revokedBlocks : List UInt64
  deriving DecidableEq, Repr

namespace TransactionBuilder

def new (sequence : TransactionId) (start : Nat) : TransactionBuilder := ⟨sequence, start, [], []⟩

def finish (b : TransactionBuilder) (nextLogBlock : Nat) (state : JournalTransactionState) : JournalTransaction :=
  ⟨b.sequence, b.start, nextLogBlock, b.updates, b.revokedBlocks, state⟩

end TransactionBuilder

structure JournalHeader where
  blockType : UInt32
  sequence : TransactionId
  deriving DecidableEq, Repr

structure DescriptorTag where
  target : UInt64
  flags : UInt32
  checksum : Option UInt32
  deriving DecidableEq, Repr

def maxScannedTransactions : Nat := 65536

def maxScannedUpdates : Nat := 262144

def maxScannedRevokes : Nat := 262144

def ensureScanLimit (current added limit : Nat) : Ext4Result Unit :=
  failIf (current + added > limit) (.unsupported .journalTooLarge)

def parseHeader (input : Bytes) : Ext4Result (Option JournalHeader) := do
  if (← beU32 input 0) ≠ JournalSuperblock.magicNumber then return none
  else return some ⟨← beU32 input 4, ← beU32 input 8⟩

def verifyChecksum (block : Nat) (expected actual : UInt32) : Ext4Result Unit :=
  if expected = actual then .ok () else .error (.checksumMismatch (.journalBlock block) expected actual)

namespace JournalSuperblock

variable (sb : JournalSuperblock)

def flagDeleted : UInt32 := 4

def knownTagFlags : UInt32 := flagEscape ||| flagSameUuid ||| flagDeleted ||| flagLastTag

/-! ## Control blocks -/

variable (input : Bytes)

/-- The tag at `offset`: its target and flags, and the checksum where the journal has one. -/
def parseTag (offset : Nat) : Ext4Result DescriptorTag := do
  let low := (← beU32 input offset).toUInt64
  if sb.hasChecksumV3 then
    let high ← if sb.has64bit then UInt32.toUInt64 <$> beU32 input (offset + 8) else .ok 0
    let flags ← beU32 input (offset + 4)
    return ⟨(high <<< 32) ||| low, flags, some (← beU32 input (offset + 12))⟩
  else
    let flags := (← beU16 input (offset + 6)).toUInt32
    let high ← if sb.has64bit then UInt32.toUInt64 <$> beU32 input (offset + 8) else .ok 0
    let checksum ← if sb.hasChecksumV2OrV3 then (some ∘ UInt16.toUInt32) <$> beU16 input (offset + 4) else .ok none
    return ⟨(high <<< 32) ||| low, flags, checksum⟩

/-- The loop of `parse_descriptor_tags`; `isFirst` says that no tag was read yet. A tag is
longer than a byte, so the length of the block is enough fuel. -/
def parseTagLoop (input : Bytes) (stop : Nat) : Nat → Nat → Bool → Ext4Result (List DescriptorTag)
  | 0, _, _ => .error (.corrupt .invalidJournal)
  | fuel + 1, offset, isFirst => do
    let tagEnd := offset + sb.journalTagSize
    failIf (stop < tagEnd) (.corrupt .invalidJournal)
    let tag ← sb.parseTag input offset
    failIf (tag.flags &&& ~~~knownTagFlags ≠ 0) (.corrupt .invalidJournal)
    failIf (tag.flags &&& flagDeleted ≠ 0) (.unsupported .deletedJournalUpdate)
    if sb.hasChecksumV3 then
      if tag.flags &&& flagLastTag ≠ 0 then return [tag]
      else return tag :: (← parseTagLoop input stop fuel tagEnd false)
    else
      failIf (tag.flags &&& flagSameUuid ≠ 0 ∧ isFirst) (.corrupt .invalidJournal)
      if tag.flags &&& flagLastTag ≠ 0 then return [tag]
      else if tag.flags &&& flagSameUuid = 0 then
        let uuidEnd := tagEnd + 16
        failIf (stop < uuidEnd) (.corrupt .invalidJournal)
        failIf (Bytes.get 16 tagEnd input ≠ some sb.uuid.1) (.corrupt .invalidJournal)
        return tag :: (← parseTagLoop input stop fuel uuidEnd false)
      else return tag :: (← parseTagLoop input stop fuel tagEnd false)

def parseDescriptorTags : Ext4Result (List DescriptorTag) := do
  let stop ← sb.descriptorPayloadEnd input.length
  sb.parseTagLoop input stop input.length headerSize true

/-- The loop of `parse_revoke_blocks`: `n` entries from `offset` on. -/
def parseRevokeEntries (input : Bytes) : Nat → Nat → Ext4Result (List UInt64)
  | 0, _ => .ok []
  | n + 1, offset => do
    let block ← if sb.has64bit then beU64 input offset else UInt32.toUInt64 <$> beU32 input offset
    return block :: (← parseRevokeEntries input n (offset + sb.revokeEntrySize))

def parseRevokeBlocks : Ext4Result (List UInt64) := do
  let count ← UInt32.toNat <$> beU32 input 12
  let stop ← sb.descriptorPayloadEnd input.length
  failIf (¬ (revokeHeaderSize ≤ count ∧ count ≤ stop)) (.corrupt .invalidJournal)
  failIf ((count - revokeHeaderSize) % sb.revokeEntrySize ≠ 0) (.corrupt .invalidJournal)
  sb.parseRevokeEntries input ((count - revokeHeaderSize) / sb.revokeEntrySize) revokeHeaderSize

def verifyControlBlockChecksum (block : Nat) : Ext4Result Unit := do
  if sb.hasChecksumV2OrV3 then
    failIf (input.length < blockTailSize) (.corrupt .invalidJournal)
    let checksumOffset := input.length - blockTailSize
    let actual ← beU32 input checksumOffset
    let expected ← checksumWithZeroedU32 sb.checksumSeed input checksumOffset
    verifyChecksum block expected actual

def verifyCommitBlockChecksum (block : Nat) : Ext4Result Unit := do
  if sb.hasChecksumV2OrV3 then
    let actual ← beU32 input 16
    let expected ← checksumWithZeroedU32 sb.checksumSeed input 16
    verifyChecksum block expected actual

def verifyDataBlockChecksum (data : Bytes) (sequence : TransactionId) (block : Nat) (actual : Option UInt32) :
    Ext4Result Unit :=
  match actual with
  | none => .ok ()
  | some actual =>
    let expected := crc32c (crc32c sb.checksumSeed (UInt32.toBeBytes sequence)) data
    let expected := if sb.hasChecksumV3 then expected else expected &&& 0xffff
    verifyChecksum block expected actual

/-! ## The scanner -/

end JournalSuperblock

/-- The variables of `LogScanner::scan`. -/
structure ScanState where
  transactions : List JournalTransaction
  current : Option TransactionBuilder
  cursor : Nat
  expectedSequence : TransactionId
  totalUpdates : Nat
  totalRevokes : Nat
  remainingBlocks : Nat
  deriving DecidableEq, Repr

namespace ScanState

def builder (s : ScanState) (controlBlock : Nat) : TransactionBuilder :=
  s.current.getD (.new s.expectedSequence controlBlock)

end ScanState

namespace JournalSuperblock

variable (sb : JournalSuperblock) (log : JournalContents)

variable (s : ScanState)

/-- `consume_block`. -/
def consumeBlock : Ext4Result ScanState := do
  failIf (s.remainingBlocks = 0) (.corrupt .invalidJournal)
  return { s with remainingBlocks := s.remainingBlocks - 1, cursor := sb.nextLogBlock s.cursor }

/-- The loop over the tags of a descriptor. -/
def scanTags : List DescriptorTag → TransactionBuilder → ScanState → Ext4Result (TransactionBuilder × ScanState)
  | [], builder, s => .ok (builder, s)
  | tag :: tags, builder, s => do
    failIf (s.remainingBlocks = 0) (.corrupt .invalidJournal)
    let logBlock := s.cursor
    sb.verifyDataBlockChecksum (log logBlock) s.expectedSequence logBlock tag.checksum
    let s ← sb.consumeBlock s
    ensureScanLimit s.totalUpdates 1 maxScannedUpdates
    let s := { s with totalUpdates := s.totalUpdates + 1 }
    let update := ⟨tag.target, logBlock, tag.flags &&& flagEscape ≠ 0⟩
    scanTags tags { builder with updates := builder.updates ++ [update] } s

def scanDescriptor (controlBlock : Nat) (s : ScanState) : Ext4Result ScanState := do
  let builder := s.builder controlBlock
  sb.verifyControlBlockChecksum (log controlBlock) controlBlock
  let tags ← sb.parseDescriptorTags (log controlBlock)
  let (builder, s) ← sb.scanTags log tags builder s
  return { s with current := some builder }

def scanRevoke (controlBlock : Nat) (s : ScanState) : Ext4Result ScanState := do
  failIf (¬ sb.hasRevoke) (.corrupt .invalidJournal)
  let builder := s.builder controlBlock
  sb.verifyControlBlockChecksum (log controlBlock) controlBlock
  let revokedBlocks ← sb.parseRevokeBlocks (log controlBlock)
  ensureScanLimit s.totalRevokes revokedBlocks.length maxScannedRevokes
  return {
    s with
    totalRevokes := s.totalRevokes + revokedBlocks.length
    current := some { builder with revokedBlocks := builder.revokedBlocks ++ revokedBlocks } }

def scanCommit (controlBlock : Nat) (s : ScanState) : Ext4Result ScanState := do
  sb.verifyCommitBlockChecksum (log controlBlock) controlBlock
  let builder := s.builder controlBlock
  ensureScanLimit s.transactions.length 1 maxScannedTransactions
  return {
    s with
    current := none
    transactions := s.transactions ++ [builder.finish s.cursor .committed]
    expectedSequence := s.expectedSequence + 1 }

/-- One round of the scanner's loop; `none` is the `break`. -/
def scanStep : Ext4Result (Option ScanState) := do
  let controlBlock := s.cursor
  match ← parseHeader (log controlBlock) with
  | none => return none
  | some header =>
    if header.sequence ≠ s.expectedSequence then return none
    else do
      failIf (header.blockType ≠ descriptorBlock ∧ header.blockType ≠ revokeBlock ∧ header.blockType ≠ commitBlock)
        (.corrupt .invalidJournal)
      let s ← sb.consumeBlock s
      if header.blockType = descriptorBlock then some <$> sb.scanDescriptor log controlBlock s
      else if header.blockType = revokeBlock then some <$> sb.scanRevoke log controlBlock s
      else some <$> sb.scanCommit log controlBlock s

/-- What stands behind the loop. -/
def scanFinish : Ext4Result JournalLogScan := do
  match s.current with
  | none => return { transactions := s.transactions, head := s.cursor, nextSequence := s.expectedSequence }
  | some builder =>
    ensureScanLimit s.transactions.length 1 maxScannedTransactions
    return {
      transactions := s.transactions ++ [builder.finish s.cursor .uncommitted]
      head := s.cursor
      nextSequence := s.expectedSequence }

def scanLoop : Nat → ScanState → Ext4Result JournalLogScan
  | 0, s => scanFinish s
  | fuel + 1, s =>
    if s.remainingBlocks = 0 then scanFinish s
    else do
      match ← sb.scanStep log s with
      | none => scanFinish s
      | some s => scanLoop fuel s

def scanFrom : Ext4Result JournalLogScan := sb.scanLoop log s.remainingBlocks s

/-- `LogScanner::new` and the first lines of `scan`. -/
def scanStart (start : Nat) : ScanState where
  transactions := []
  current := none
  cursor := start
  expectedSequence := sb.sequence
  totalUpdates := 0
  totalRevokes := 0
  remainingBlocks := sb.maxBlocks - sb.firstLogBlock

def scanJournal : Ext4Result JournalLogScan := do
  sb.validateSupportedFeatures
  match sb.start with
  | .zero => return { transactions := [], head := sb.firstLogBlock, nextSequence := sb.sequence }
  | .block start => sb.scanFrom log (sb.scanStart start)

end JournalSuperblock

end XKernel.Ext4
