import XKernel.Ext4.JournalLog
/-!
# Replaying a scanned log (`jbd2/replay.rs`)

Replay reads the log from the device on which it writes: a journal block is a block of the
device, found through the extents of the journal's inode (`InternalJournal`). Errors of the
block driver are left out.
-/

namespace XKernel.Ext4

open XKernel.Lib

/-! ## The device -/

/-- A block of the device has the block size of the filesystem. -/
@[ext]
structure FilesystemDevice where
  blockSize : Nat
  filesystemBlocks : Nat
  blocks : UInt64 → Bytes
  length_blocks : ∀ p, (blocks p).length = blockSize

namespace FilesystemDevice

variable (dev : FilesystemDevice) (start : UInt64)

/-- `read_blocks` and `write_contiguous_blocks` check the range first. -/
def checkRange : Ext4Result Unit := do
  failIf (2 ^ 64 ≤ start.toNat + 1) .overflow
  failIf (dev.filesystemBlocks < start.toNat + 1) .outOfBounds

def readBlock : Ext4Result Bytes := do
  dev.checkRange start
  return dev.blocks start

def put (input : Bytes) (h : input.length = dev.blockSize) : FilesystemDevice where
  blockSize := dev.blockSize
  filesystemBlocks := dev.filesystemBlocks
  blocks := Function.update dev.blocks start input
  length_blocks p := by
    by_cases hp : p = start
    · rw [hp, Function.update_self, h]
    · rw [Function.update_of_ne hp, dev.length_blocks]

def writeReplayBlock (input : Bytes) : Ext4Result FilesystemDevice :=
  if h : input.length = dev.blockSize then do
    dev.checkRange start
    return dev.put start input h
  else .error (.invalidBufferLength dev.blockSize input.length)

end FilesystemDevice

/-! ## The journal inode -/

structure JournalExtent where
  logicalStart : Nat
  physicalStart : Nat
  len : Nat
  deriving DecidableEq, Repr

structure InternalJournal where
  extents : List JournalExtent
  blockCount : Nat
  deriving DecidableEq, Repr

namespace InternalJournal

/-- The extents are sorted, so `partition_point` is the length of the part in front. -/
def mapJournalBlock (j : InternalJournal) (block : Nat) : Ext4Result UInt64 := do
  failIf (j.blockCount ≤ block) .outOfBounds
  let index := (j.extents.takeWhile fun extent => extent.logicalStart ≤ block).length
  failIf (index = 0) .outOfBounds
  let extent ← okOr j.extents[index - 1]? .outOfBounds
  failIf (¬ (extent.logicalStart ≤ block ∧ block - extent.logicalStart < extent.len)) .outOfBounds
  let physical := extent.physicalStart + (block - extent.logicalStart)
  failIf (2 ^ 64 ≤ physical) .overflow
  return UInt64.ofNat physical

/-- `read_journal_block` of the mounted filesystem. -/
def readJournalBlock (j : InternalJournal) (dev : FilesystemDevice) (block : Nat) : Ext4Result Bytes := do
  dev.readBlock (← j.mapJournalBlock block)

end InternalJournal

/-! ## Replay -/

/-- The contents that an update stands for. -/
def readJournalReplayUpdate (read : Nat → Ext4Result Bytes) (update : JournalUpdate) : Ext4Result Bytes := do
  let output ← read update.logBlock
  if update.isEscaped then
    failIf (output.length < 4) (.invalidBufferLength 4 output.length)
    return UInt32.toBeBytes JournalSuperblock.magicNumber ++ output.drop 4
  else return output

variable (scan : JournalLogScan)

def committedTransactions : List JournalTransaction :=
  scan.transactions.filter fun t => t.state = .committed

/-- The map of `collect_latest_revokes`, from a block to the last transaction that revokes it. -/
abbrev LatestRevokes := UInt64 → Option Nat

def insertRevokes (ordinal : Nat) (latest : LatestRevokes) (revoked : List UInt64) : LatestRevokes :=
  revoked.foldl (fun latest block => Function.update latest block (some ordinal)) latest

def collectLatestRevokesFrom : Nat → List JournalTransaction → LatestRevokes → LatestRevokes
  | _, [], latest => latest
  | ordinal, t :: ts, latest => collectLatestRevokesFrom (ordinal + 1) ts (insertRevokes ordinal latest t.revokedBlocks)

def collectLatestRevokes : LatestRevokes :=
  collectLatestRevokesFrom 0 (committedTransactions scan) fun _ => none

/-- The test in front of every update. -/
def LatestRevokes.suppresses (latest : LatestRevokes) (target : UInt64) (ordinal : Nat) : Bool :=
  (latest target).any fun revokeOrdinal => revokeOrdinal ≥ ordinal

structure JournalReplayReport where
  updateCount : Nat
  revokeHitCount : Nat
  head : Nat
  nextSequence : TransactionId
  deriving DecidableEq, Repr

/-- The device and the two counters. -/
structure ReplayState where
  dev : FilesystemDevice
  updateCount : Nat
  revokeHitCount : Nat

variable (j : InternalJournal) (latest : LatestRevokes)

def replayUpdates (ordinal : Nat) : List JournalUpdate → ReplayState → Ext4Result ReplayState
  | [], s => .ok s
  | u :: us, s =>
    if latest.suppresses u.target ordinal then
      replayUpdates ordinal us { s with revokeHitCount := s.revokeHitCount + 1 }
    else do
      let block ← readJournalReplayUpdate (j.readJournalBlock s.dev) u
      let dev ← s.dev.writeReplayBlock u.target block
      replayUpdates ordinal us { s with dev, updateCount := s.updateCount + 1 }

def replayTransactions : Nat → List JournalTransaction → ReplayState → Ext4Result ReplayState
  | _, [], s => .ok s
  | ordinal, t :: ts, s => do
    let s ← replayUpdates j latest ordinal t.updates s
    replayTransactions (ordinal + 1) ts s

def replayScannedJournal (j : InternalJournal) (dev : FilesystemDevice) (scan : JournalLogScan) :
    Ext4Result (JournalReplayReport × FilesystemDevice) := do
  failIf (dev.blockSize = 0) (.invalidBufferLength 1 0)
  let s ← replayTransactions j (collectLatestRevokes scan) 0 (committedTransactions scan) ⟨dev, 0, 0⟩
  return (⟨s.updateCount, s.revokeHitCount, scan.head, scan.nextSequence⟩, s.dev)

/-! ## The replay plan -/

/-- The updates of `plan_journal_replay`, from transaction `ordinal` on. -/
def planFrom : Nat → List JournalTransaction → List JournalUpdate
  | _, [] => []
  | ordinal, t :: ts =>
    t.updates.filter (fun u => !latest.suppresses u.target ordinal) ++ planFrom (ordinal + 1) ts

def planJournalReplay : List JournalUpdate :=
  planFrom (collectLatestRevokes scan) 0 (committedTransactions scan)

/-- The loop of `replay_journal_plan`. -/
def replayPlan : List JournalUpdate → FilesystemDevice → Ext4Result FilesystemDevice
  | [], dev => .ok dev
  | u :: us, dev => do
    let block ← readJournalReplayUpdate (j.readJournalBlock dev) u
    let dev ← dev.writeReplayBlock u.target block
    replayPlan us dev

end XKernel.Ext4
