import XKernel.Lib.BTreeSet
import XKernel.Ext4.JournalCommit
/-!
# Transactions and handles

The in-memory side of the journal: the running transaction with its credits, the handles on
it, the transaction that is committing and those that wait for their checkpoint. Each
function is one section under the journal's lock. A section that fails may have changed the
state already, so the state stands beside the result.
-/

namespace XKernel.Ext4

open XKernel.Lib

instance instLinearOrderUInt64 : LinearOrder UInt64 where
  le_refl := UInt64.le_refl
  le_trans _ _ _ := UInt64.le_trans
  le_antisymm _ _ := UInt64.le_antisymm
  le_total := UInt64.le_total
  lt_iff_le_not_ge a b := by
    rw [UInt64.not_le]
    exact ⟨fun h => ⟨UInt64.le_of_lt h, h⟩, And.right⟩
  toDecidableLE := inferInstance

def checkedAdd (a b : UInt32) : Option UInt32 := if a.toNat + b.toNat < 2 ^ 32 then some (a + b) else none

def checkedSub (a b : UInt32) : Option UInt32 := if b.toNat ≤ a.toNat then some (a - b) else none

def checkedAdd64 (a b : UInt64) : Option UInt64 := if a.toNat + b.toNat < 2 ^ 64 then some (a + b) else none

def saturatingAdd (a b : UInt32) : UInt32 := (checkedAdd a b).getD 0xffffffff

/-! ## The running transaction -/

/-- A `RuntimeTransaction` in its committing phase. -/
structure FrozenTransaction where
  commit : RuntimeTransaction
  hasUnflushedOrderedData : Bool
  deriving DecidableEq

structure RunningTransactionState where
  activeHandles : UInt32
  reservedCredits : UInt32
  usedCredits : UInt32
  orderedGeneration : UInt64
  flushedGeneration : UInt64
  metadataBlocks : BTreeSet UInt64
  revokedBlocks : BTreeSet UInt64
  deriving DecidableEq

namespace RunningTransactionState

def new : RunningTransactionState := ⟨0, 0, 0, 0, 0, .empty, .empty⟩

variable (running : RunningTransactionState) (credits : UInt32)

def beginHandle : Ext4Result RunningTransactionState := do
  let activeHandles ← okOr (checkedAdd running.activeHandles 1) .overflow
  let reservedCredits ← okOr (checkedAdd running.reservedCredits credits) .overflow
  return { running with activeHandles, reservedCredits }

def reserve : Ext4Result RunningTransactionState := do
  let reservedCredits ← okOr (checkedAdd running.reservedCredits credits) .overflow
  return { running with reservedCredits }

def consume : Ext4Result RunningTransactionState := do
  let usedCredits ← okOr (checkedAdd running.usedCredits credits) .overflow
  return { running with usedCredits }

def refund : Ext4Result RunningTransactionState := do
  let usedCredits ← okOr (checkedSub running.usedCredits credits) .invalidJournalTransaction
  return { running with usedCredits }

def freeze (id : TransactionId) : FrozenTransaction where
  commit := ⟨id, running.metadataBlocks.elements, running.revokedBlocks.elements⟩
  hasUnflushedOrderedData := running.orderedGeneration ≠ running.flushedGeneration

def finishHandle (unusedCredits : UInt32) : Ext4Result RunningTransactionState := do
  let activeHandles ← okOr (checkedSub running.activeHandles 1) .invalidJournalTransaction
  let reservedCredits ← okOr (checkedSub running.reservedCredits unusedCredits) .invalidJournalTransaction
  return { running with activeHandles, reservedCredits }

end RunningTransactionState

/-- A `RuntimeTransaction` in its running phase. -/
structure RunningTransaction where
  id : TransactionId
  state : RunningTransactionState
  deriving DecidableEq

/-! ## The transactions of a journal -/

/-- `JournalTransactions` with its `JournalInner`. A transaction object is identified by its
value: the ids of the transactions that are alive differ. -/
structure JournalTransactions where
  maxReservedCredits : UInt32
  aborted : Option Ext4Error
  nextTransaction : TransactionId
  running : Option RunningTransaction
  committing : Option FrozenTransaction
  checkpointTransactions : List (RuntimeTransaction × JournalLogCommit)
  checkpointedThrough : TransactionId
  closing : Option TransactionId
  deriving DecidableEq

structure JournalHandle where
  id : TransactionId
  remainingCredits : UInt32
  closed : Bool
  deriving DecidableEq, Repr

/-- `reference.wrapping_sub(transaction) as i32 >= 0`. -/
def transactionIsSameOrOlder (transaction reference : TransactionId) : Bool := (reference - transaction).toNat < 2 ^ 31

namespace JournalTransactions

variable (j : JournalTransactions)

def newWithCreditLimit (firstTransaction : TransactionId) (maxReservedCredits : UInt32) : JournalTransactions where
  maxReservedCredits
  aborted := none
  nextTransaction := firstTransaction
  running := none
  committing := none
  checkpointTransactions := []
  checkpointedThrough := firstTransaction - 1
  closing := none

def checkNotAborted : Ext4Result Unit := failIf (j.aborted.isSome) .journalAborted

variable (transaction : TransactionId) (credits : UInt32)

def canFitHandle : Bool := credits ≤ j.maxReservedCredits

def isCheckpointed : Bool := transactionIsSameOrOlder transaction j.checkpointedThrough

def isCommitted : Bool :=
  j.isCheckpointed transaction ||
    j.checkpointTransactions.getLast?.any fun last => transactionIsSameOrOlder transaction last.1.id

/-- Starts or joins the running transaction. `none`: the caller waits, since the running
transaction has been sealed. -/
def begin : Option (Ext4Result (JournalHandle × JournalTransactions)) :=
  if j.aborted.isSome then some (.error .journalAborted)
  else if ¬ j.canFitHandle credits then some (.error .noSpace)
  else if j.closing.isSome then none
  else
    match j.running with
    | some transaction => some do
      let state ← transaction.state.beginHandle credits
      return (⟨transaction.id, credits, false⟩, { j with running := some { transaction with state } })
    | none => some do
      let id := j.nextTransaction
      let state ← RunningTransactionState.new.beginHandle credits
      return (⟨id, credits, false⟩, { j with nextTransaction := id + 1, running := some ⟨id, state⟩ })

def abort (error : Ext4Error) : JournalTransactions := { j with aborted := j.aborted.or (some error) }

def forceCommit : Ext4Result (RuntimeTransaction × JournalTransactions) := do
  j.checkNotAborted
  match j.committing.filter (·.commit.id = transaction) with
  | some frozen => return (frozen.commit, j)
  | none =>
    match j.running.filter (·.id = transaction) with
    | some running =>
      failIf (j.committing.isSome) .journalBusy
      -- `freeze_for_commit`
      failIf (running.state.activeHandles ≠ 0) .journalBusy
      let frozen := running.state.freeze running.id
      return (frozen.commit, { j with running := none, committing := some frozen, closing := none })
    | none =>
      match j.checkpointTransactions.find? (·.1.id = transaction) with
      | some checkpoint => return (checkpoint.1, j)
      | none =>
        failIf (j.committing.isSome) .journalBusy
        throw .invalidJournalTransaction

def prepareReservation : Ext4Result (Option TransactionId × JournalTransactions) := do
  j.checkNotAborted
  failIf (¬ j.canFitHandle credits) .noSpace
  match j.running with
  | none => return (none, j)
  | some running =>
    let projected ← okOr (checkedAdd running.state.reservedCredits credits) .overflow
    if projected ≤ j.maxReservedCredits ∧ j.closing.isNone then return (none, j)
    else return (some running.id, { j with closing := some running.id })

/-- The first section of `prepare_commit`: the running transaction takes no new handles. -/
def sealRunning : Ext4Result JournalTransactions := do
  j.checkNotAborted
  if j.running.any (·.id = transaction) then return { j with closing := some transaction } else return j

/-- The section of `prepare_commit` behind a `force_commit` that was busy: when another
transaction commits, the seal is taken back. -/
def unsealRunning : Ext4Result JournalTransactions := do
  j.checkNotAborted
  if j.committing.any (·.commit.id ≠ transaction) ∧ j.closing = some transaction then return { j with closing := none }
  else return j

/-! ## Handles -/

/-- The body of `finish_handle`. It runs on an aborted journal too. -/
def finishHandle (unusedCredits : UInt32) : Ext4Result JournalTransactions := do
  let running ← okOr j.running .invalidJournalTransaction
  failIf (running.id ≠ transaction) .invalidJournalTransaction
  let state ← running.state.finishHandle unusedCredits
  return { j with running := some { running with state } }

def withRunning {α : Type} (transaction : TransactionId)
    (f : RunningTransactionState → Ext4Result α × RunningTransactionState) : Ext4Result α × JournalTransactions :=
  if j.aborted.isSome then (.error .journalAborted, j)
  else
    match j.running with
    | none => (.error .journalBusy, j)
    | some running =>
      if running.id ≠ transaction then (.error .journalBusy, j)
      else ((f running.state).1, { j with running := some { running with state := (f running.state).2 } })

end JournalTransactions

namespace JournalHandle

variable (h : JournalHandle) (j : JournalTransactions)

/-- The closure of `reserve_more`. The reservation stands when the handle's count overflows. -/
def reserveIn (maxReservedCredits credits : UInt32) (running : RunningTransactionState) :
    Ext4Result JournalHandle × RunningTransactionState :=
  match checkedAdd running.reservedCredits credits with
  | none => (.error .overflow, running)
  | some projectedCredits =>
    if projectedCredits > maxReservedCredits then (.error .insufficientJournalCredits, running)
    else
      match running.reserve credits with
      | .error error => (.error error, running)
      | .ok running =>
        match checkedAdd h.remainingCredits credits with
        | none => (.error .overflow, running)
        | some remainingCredits => (.ok { h with remainingCredits }, running)

def reserveMore (credits : UInt32) : Ext4Result JournalHandle × JournalTransactions :=
  j.withRunning h.id (h.reserveIn j.maxReservedCredits credits)

variable (running : RunningTransactionState)

/-- One credit of the handle is used. -/
def payIn : Ext4Result (JournalHandle × RunningTransactionState) := do
  failIf (h.remainingCredits < 1) .insufficientJournalCredits
  let running ← running.consume 1
  return ({ h with remainingCredits := h.remainingCredits - 1 }, running)

/-- The closure of `consume_metadata_credit`. A revoked block brings its credit along. -/
def consumeIn (block : UInt64) (running : RunningTransactionState) :
    Ext4Result JournalHandle × RunningTransactionState :=
  if block ∈ running.metadataBlocks then (.ok h, running)
  else if block ∈ running.revokedBlocks then
    (.ok h, { running with
      revokedBlocks := running.revokedBlocks.remove block, metadataBlocks := running.metadataBlocks.insert block })
  else
    match h.payIn running with
    | .error error => (.error error, running)
    | .ok (h, running) => (.ok h, { running with metadataBlocks := running.metadataBlocks.insert block })

def consumeMetadataCredit (block : UInt64) : Ext4Result JournalHandle × JournalTransactions :=
  j.withRunning h.id (h.consumeIn block)

/-- The closure of `revoke_metadata_block`. -/
def revokeIn (block : UInt64) (running : RunningTransactionState) :
    Ext4Result JournalHandle × RunningTransactionState :=
  if block ∈ running.revokedBlocks then (.ok h, running)
  else if block ∈ running.metadataBlocks then
    (.ok h, { running with
      metadataBlocks := running.metadataBlocks.remove block, revokedBlocks := running.revokedBlocks.insert block })
  else
    match h.payIn running with
    | .error error => (.error error, running)
    | .ok (h, running) => (.ok h, { running with revokedBlocks := running.revokedBlocks.insert block })

def revokeMetadataBlock (block : UInt64) : Ext4Result JournalHandle × JournalTransactions :=
  j.withRunning h.id (h.revokeIn block)

/-- The closure of `forget_metadata_block_without_revoke`. The block is out of the set before
its credit is given back. -/
def forgetIn (block : UInt64) (running : RunningTransactionState) :
    Ext4Result JournalHandle × RunningTransactionState :=
  if block ∈ running.metadataBlocks then
    let running := { running with metadataBlocks := running.metadataBlocks.remove block }
    match running.refund 1 with
    | .error error => (.error error, running)
    | .ok running => (.ok { h with remainingCredits := saturatingAdd h.remainingCredits 1 }, running)
  else (.ok h, running)

def forgetMetadataBlockWithoutRevoke (block : UInt64) : Ext4Result JournalHandle × JournalTransactions :=
  j.withRunning h.id (h.forgetIn block)

/-- The closure of `require_ordered_data_flush`. -/
def registerIn : Ext4Result Unit × RunningTransactionState :=
  match checkedAdd64 running.orderedGeneration 1 with
  | none => (.error .overflow, running)
  | some orderedGeneration => (.ok (), { running with orderedGeneration })

def requireOrderedDataFlush : Ext4Result Unit × JournalTransactions := j.withRunning h.id registerIn

/-- The first section of `flush_ordered_data`: the generation that the barrier will cover. -/
def flushGeneration : Ext4Result UInt64 × JournalTransactions :=
  j.withRunning h.id fun running => (.ok running.orderedGeneration, running)

/-- The section of `flush_ordered_data` behind the barrier. -/
def acknowledgeFlush (generation : UInt64) : Ext4Result Unit × JournalTransactions :=
  j.withRunning h.id fun running =>
    (.ok (), { running with flushedGeneration := max running.flushedGeneration generation })

/-- The result, the journal and the handle, which is closed whatever the result is. -/
def finish : Ext4Result Unit × JournalTransactions × JournalHandle :=
  if h.closed then (.ok (), j, h)
  else
    let h := { h with closed := true }
    match j.finishHandle h.id h.remainingCredits with
    | .ok j => (.ok (), j, h)
    | .error error => (.error error, j, h)

/-- The `Drop` implementation. -/
def drop : JournalTransactions :=
  match h.finish j with
  | (.ok (), j, _) => j
  | (.error error, j, _) => j.abort error

/-- `stop` consumes the handle, which is dropped behind it. -/
def stop : Ext4Result Unit × JournalTransactions :=
  match h.finish j with
  | (result, j, h) => (result, h.drop j)

end JournalHandle

/-! ## Checkpoints -/

namespace JournalTransactions

variable (j : JournalTransactions)

variable (commit : RuntimeTransaction)

/-- `has_unflushed_ordered_data`, on a transaction that has to be the committing one. -/
def hasUnflushedOrderedData : Ext4Result Bool := do
  let frozen ← okOr (j.committing.filter (·.commit = commit)) .invalidJournalTransaction
  return frozen.hasUnflushedOrderedData

/-- The section of `RuntimeTransaction::flush_ordered_data` behind the barrier. -/
def acknowledgeCommitFlush : Ext4Result JournalTransactions := do
  let frozen ← okOr (j.committing.filter (·.commit = commit)) .invalidJournalTransaction
  return { j with committing := some { frozen with hasUnflushedOrderedData := false } }

def startCheckpoint (persisted : JournalLogCommit) : Ext4Result JournalTransactions := do
  j.checkNotAborted
  match j.committing.filter (·.commit = commit) with
  | none =>
    failIf (¬ j.checkpointTransactions.any (·.1 = commit)) .invalidJournalTransaction
    return j
  | some frozen =>
    failIf (frozen.hasUnflushedOrderedData) .invalidJournalTransaction
    return { j with
      committing := none, checkpointTransactions := j.checkpointTransactions ++ [(commit, persisted)] }

def finishCheckpoint : Ext4Result JournalTransactions := do
  j.checkNotAborted
  if j.isCheckpointed commit.id then return j
  else
    match j.checkpointTransactions with
    | [] => throw .invalidJournalTransaction
    | checkpoint :: pending =>
      failIf (checkpoint.1 ≠ commit) .invalidJournalTransaction
      failIf (commit.id ≠ j.checkpointedThrough + 1) .invalidJournalTransaction
      return { j with checkpointTransactions := pending, checkpointedThrough := commit.id }

end JournalTransactions

end XKernel.Ext4
