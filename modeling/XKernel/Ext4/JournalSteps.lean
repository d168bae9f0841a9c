import XKernel.Ext4.JournalTransactions
/-!
# What a step of the journal can do

The state of the system is a journal, the handles that are open on it with the flushes they
wait for, and a record of what has happened: the transactions that were begun and those that
entered the checkpoint queue, the data writes that a transaction depends on, and how many of
them a completed flush has covered. `effect_of_step` says once what a section can do; the
invariants are case analyses over `Effect`.
-/

namespace XKernel.Ext4

open XKernel.Lib Option JournalHandle RunningTransactionState BTreeSet

theorem checkedAdd_eq_some {a b c : UInt32} : checkedAdd a b = some c ↔ c.toNat = a.toNat + b.toNat := by
  have hadd := UInt32.toNat_add a b
  have hc := c.toNat_lt
  unfold checkedAdd
  split
  · rename_i h
    rw [some_inj, ← UInt32.toNat_inj, hadd, Nat.mod_eq_of_lt h]
    exact eq_comm
  · simp
    omega

theorem checkedSub_eq_some {a b c : UInt32} : checkedSub a b = some c ↔ a.toNat = c.toNat + b.toNat := by
  unfold checkedSub
  split
  · rename_i h
    have hsub := UInt32.toNat_sub_of_le a b (UInt32.le_iff_toNat_le.2 h)
    rw [some_inj, ← UInt32.toNat_inj, hsub]
    omega
  · simp
    omega

theorem exists_checkedAdd {a b : UInt32} (h : a.toNat + b.toNat < 2 ^ 32) :
    ∃ c, checkedAdd a b = some c ∧ c.toNat = a.toNat + b.toNat :=
  ⟨a + b, if_pos h, by rw [UInt32.toNat_add, Nat.mod_eq_of_lt h]⟩

theorem exists_checkedSub {a b : UInt32} (h : b.toNat ≤ a.toNat) :
    ∃ c, checkedSub a b = some c ∧ a.toNat = c.toNat + b.toNat :=
  ⟨a - b, if_pos h, checkedSub_eq_some.1 (if_pos h)⟩

/-! ## The balance of a transaction -/

/-- `remaining` is what the open handles have left. -/
structure RunningTransactionState.Balanced (running : RunningTransactionState) (remaining : Nat) : Prop where
  disjoint : ∀ b ∈ running.metadataBlocks, b ∉ running.revokedBlocks
  used_eq : running.usedCredits.toNat = running.metadataBlocks.size + running.revokedBlocks.size
  reserved_eq : running.reservedCredits.toNat = running.usedCredits.toNat + remaining

/-- The two sets exchanged. -/
def RunningTransactionState.swap (running : RunningTransactionState) : RunningTransactionState :=
  { running with metadataBlocks := running.revokedBlocks, revokedBlocks := running.metadataBlocks }

theorem RunningTransactionState.Balanced.swap {running : RunningTransactionState} {remaining : Nat}
    (h : running.Balanced remaining) : running.swap.Balanced remaining where
  disjoint b hr hm := h.disjoint b hm hr
  used_eq := h.used_eq.trans (Nat.add_comm _ _)
  reserved_eq := h.reserved_eq

namespace JournalHandle

/-- What a section of handle `h` does to the running transaction and to the handle. -/
structure Moves (limit : UInt32) (running : RunningTransactionState) (h : JournalHandle)
    (running' : RunningTransactionState) (h' : JournalHandle) : Prop where
  id_eq : h'.id = h.id
  closed_eq : h'.closed = h.closed
  active_eq : running'.activeHandles = running.activeHandles
  ordered_eq : running'.orderedGeneration = running.orderedGeneration
  flushed_eq : running'.flushedGeneration = running.flushedGeneration
  balanced : ∀ rest, running.Balanced (rest + h.remainingCredits.toNat) →
    running'.Balanced (rest + h'.remainingCredits.toNat)
  reserved_le : running'.reservedCredits.toNat ≤ max running.reservedCredits.toNat limit.toNat

variable {limit credits : UInt32} {running running' : RunningTransactionState} {h h' : JournalHandle} {block : UInt64}

theorem Moves.refl : Moves limit running h running h := ⟨rfl, rfl, rfl, rfl, rfl, fun _ hb => hb, le_max_left _ _⟩

theorem reserve_eq_ok : running.reserve credits = .ok running' ↔
    ∃ n, n.toNat = running.reservedCredits.toNat + credits.toNat ∧
      running' = { running with reservedCredits := n } := by
  simp only [reserve, bind_eq_ok, okOr_eq_ok, checkedAdd_eq_some, pure_eq_ok, Except.ok.injEq,
    eq_comm (a := running')]

theorem moves_reserveIn :
    Moves limit running h (h.reserveIn limit credits running).2
      ((h.reserveIn limit credits running).1.toOption.getD h) := by
  unfold reserveIn
  split
  · exact .refl
  rename_i projected hprojected
  rw [checkedAdd_eq_some] at hprojected
  split
  · exact .refl
  rename_i hle
  have hle : projected.toNat ≤ limit.toNat := by simpa [UInt32.le_iff_toNat_le] using hle
  split
  · exact .refl
  rename_i running' hreserve
  obtain ⟨n, hn, rfl⟩ := reserve_eq_ok.1 hreserve
  split
  · -- what the handle has left is part of what is reserved, so it does not overflow
    rename_i hnone
    refine ⟨rfl, rfl, rfl, rfl, rfl, fun rest hb => ?_, by simp; omega⟩
    have hreserved := hb.reserved_eq
    have hlt := n.toNat_lt
    obtain ⟨_, hsome, -⟩ := exists_checkedAdd (a := h.remainingCredits) (b := credits) (by omega)
    cases hnone.symm.trans hsome
  · rename_i remaining hremaining
    rw [checkedAdd_eq_some] at hremaining
    refine ⟨rfl, rfl, rfl, rfl, rfl, fun rest hb => ⟨hb.disjoint, hb.used_eq, ?_⟩, by simp; omega⟩
    have := hb.reserved_eq
    simp only [Except.toOption, getD_some]
    omega

theorem payIn_eq_ok : h.payIn running = .ok (h', running') ↔
    0 < h.remainingCredits.toNat ∧ h' = { h with remainingCredits := h.remainingCredits - 1 } ∧
      ∃ n, n.toNat = running.usedCredits.toNat + 1 ∧ running' = { running with usedCredits := n } := by
  simp only [payIn, consume, bind_eq_ok, failIf_eq_ok, okOr_eq_ok, checkedAdd_eq_some, pure_eq_ok,
    Except.ok.injEq, Prod.mk.injEq, UInt32.not_lt]
  constructor
  · rintro ⟨-, hpos, _, ⟨n, hn, rfl⟩, rfl, rfl⟩
    exact ⟨hpos, rfl, n, hn, rfl⟩
  · rintro ⟨hpos, rfl, n, hn, rfl⟩
    exact ⟨(), hpos, _, ⟨n, hn, rfl⟩, rfl, rfl⟩

/-- A credit that is paid goes from the handle to the transaction. -/
theorem paid_of_payIn (hpay : h.payIn running = .ok (h', running')) :
    h'.id = h.id ∧ h'.closed = h.closed ∧ h.remainingCredits.toNat = h'.remainingCredits.toNat + 1 ∧
      ∃ n, n.toNat = running.usedCredits.toNat + 1 ∧ running' = { running with usedCredits := n } := by
  obtain ⟨hpos, rfl, hrun⟩ := payIn_eq_ok.1 hpay
  refine ⟨rfl, rfl, ?_, hrun⟩
  have hsub := UInt32.toNat_sub_of_le h.remainingCredits 1 (UInt32.le_iff_toNat_le.2 hpos)
  simp only [hsub]
  have : (1 : UInt32).toNat = 1 := rfl
  omega

theorem moves_consumeIn :
    Moves limit running h (h.consumeIn block running).2 ((h.consumeIn block running).1.toOption.getD h) := by
  unfold consumeIn
  split
  · exact .refl
  rename_i hmeta
  split
  · rename_i hrevoked
    refine ⟨rfl, rfl, rfl, rfl, rfl, fun rest hb => ⟨?_, ?_, hb.reserved_eq⟩, le_max_left _ _⟩
    · intro b hbm hbr
      rw [mem_remove] at hbr
      rcases mem_insert.1 hbm with rfl | hbm
      · exact hbr.1 rfl
      · exact hb.disjoint b hbm hbr.2
    · have := size_insert hmeta
      have := size_remove hrevoked
      have := hb.used_eq
      simp only
      omega
  rename_i hrevoked
  split
  · exact .refl
  · rename_i h' running' hpay
    obtain ⟨hid, hclosed, hremaining, n, hn, rfl⟩ := paid_of_payIn hpay
    refine ⟨hid, hclosed, rfl, rfl, rfl, fun rest hb => ⟨?_, ?_, ?_⟩, le_max_left _ _⟩
    · intro b hbm
      rcases mem_insert.1 hbm with rfl | hbm
      · exact hrevoked
      · exact hb.disjoint b hbm
    · have := size_insert hmeta
      have := hb.used_eq
      simp only
      omega
    · have := hb.reserved_eq
      simp only [Except.toOption, getD_some]
      omega

theorem Moves.swap (hm : Moves limit running h running' h') : Moves limit running.swap h running'.swap h' where
  id_eq := hm.id_eq
  closed_eq := hm.closed_eq
  active_eq := hm.active_eq
  ordered_eq := hm.ordered_eq
  flushed_eq := hm.flushed_eq
  balanced rest hb := (hm.balanced rest hb.swap).swap
  reserved_le := hm.reserved_le

/-- To revoke a block is to take it for writing, with the two sets exchanged. -/
theorem revokeIn_eq :
    h.revokeIn block running = ((h.consumeIn block running.swap).1, (h.consumeIn block running.swap).2.swap) := by
  have hpay : h.payIn running.swap = (fun q => (q.1, q.2.swap)) <$> h.payIn running := by
    simp only [payIn, consume, swap]
    by_cases hlow : h.remainingCredits < 1
    · simp [hlow]
    · cases checkedAdd running.usedCredits 1 with
      | none | some => simp [hlow]
  unfold revokeIn consumeIn
  rw [hpay]
  by_cases hrevoked : block ∈ running.revokedBlocks
  · simp only [swap, hrevoked, if_true]
  by_cases hmeta : block ∈ running.metadataBlocks
  · simp only [swap, hrevoked, hmeta, if_true, if_false]
  simp only [swap, hrevoked, hmeta]
  cases h.payIn running with
  | error => rfl
  | ok => rfl

theorem refund_eq_ok : running.refund credits = .ok running' ↔
    ∃ n, running.usedCredits.toNat = n.toNat + credits.toNat ∧ running' = { running with usedCredits := n } := by
  simp only [refund, bind_eq_ok, okOr_eq_ok, checkedSub_eq_some, pure_eq_ok, Except.ok.injEq,
    eq_comm (a := running')]

/-- A forgotten block gives its credit to the handle that forgets it. -/
theorem moves_forgetIn :
    Moves limit running h (h.forgetIn block running).2 ((h.forgetIn block running).1.toOption.getD h) := by
  unfold forgetIn
  split
  · rename_i hmeta
    have hsize := size_remove hmeta
    have hone : (1 : UInt32).toNat = 1 := rfl
    dsimp only
    split
    · -- the block that is taken out has been paid
      rename_i hfail
      refine ⟨rfl, rfl, rfl, rfl, rfl, fun rest hb => ?_, le_max_left _ _⟩
      have hused := hb.used_eq
      obtain ⟨n, -, hn⟩ := exists_checkedSub (a := running.usedCredits) (b := 1) (by omega)
      cases hfail.symm.trans (refund_eq_ok.2 ⟨n, hn, rfl⟩)
    · rename_i running' hrefund
      obtain ⟨n, hn, rfl⟩ := refund_eq_ok.1 hrefund
      refine ⟨rfl, rfl, rfl, rfl, rfl, fun rest hb => ⟨?_, ?_, ?_⟩, le_max_left _ _⟩
      · intro b hbm
        exact hb.disjoint b (mem_remove.1 hbm).2
      · have := hb.used_eq
        simp only at hn ⊢
        omega
      · have hreserved := hb.reserved_eq
        have hlt := running.reservedCredits.toNat_lt
        simp only at hn
        obtain ⟨c, hsome, hc⟩ := exists_checkedAdd (a := h.remainingCredits) (b := 1) (by omega)
        simp only [Except.toOption, getD_some, saturatingAdd, hsome]
        omega
  · exact .refl

end JournalHandle

/-! ## Steps -/

/-- A flush that has been started: the generation that was read before it, and how many data
writes had been registered in all. -/
structure PendingFlush where
  generation : UInt64
  covers : Nat
  deriving DecidableEq

/-- A handle, and the call of `flush_ordered_data` that it is in. -/
structure OpenHandle where
  handle : JournalHandle
  flush : Option PendingFlush
  deriving DecidableEq

/-- A journal and the handles that are open on it. The last fields record what has happened:
the ids of the transactions in the order of their begin, the transactions that entered the
checkpoint queue, the transaction (by its number) of each registered data write, and how
many of these writes a completed flush covers. -/
structure OpenJournal where
  journal : JournalTransactions
  handles : List OpenHandle
  commitFlush : Option (RuntimeTransaction × Nat)
  begun : List TransactionId
  entered : List RuntimeTransaction
  writes : List Nat
  durable : Nat
  deriving DecidableEq

/-- The sections that change a journal. A handle is named by its place. The end of a flush says
whether the barrier succeeded. -/
inductive JournalOp
  | begin (credits : UInt32)
  | reserveMore (i : Nat) (credits : UInt32)
  | consumeMetadataCredit (i : Nat) (block : UInt64)
  | revokeMetadataBlock (i : Nat) (block : UInt64)
  | forgetMetadataBlockWithoutRevoke (i : Nat) (block : UInt64)
  | requireOrderedDataFlush (i : Nat)
  | startFlush (i : Nat)
  | endFlush (i : Nat) (ok : Bool)
  | stop (i : Nat)
  | drop (i : Nat)
  | prepareReservation (credits : UInt32)
  | sealRunning (transaction : TransactionId)
  | unsealRunning (transaction : TransactionId)
  | forceCommit (transaction : TransactionId)
  | startCommitFlush (commit : RuntimeTransaction)
  | endCommitFlush (ok : Bool)
  | abort (error : Ext4Error)
  | startCheckpoint (commit : RuntimeTransaction) (persisted : JournalLogCommit)
  | finishCheckpoint (commit : RuntimeTransaction)
  deriving DecidableEq

namespace OpenJournal

def new (firstTransaction : TransactionId) (maxReservedCredits : UInt32) : OpenJournal :=
  ⟨.newWithCreditLimit firstTransaction maxReservedCredits, [], none, [], [], [], 0⟩

/-- The handle at place `i`, when it is in no call. -/
def freeHandle (s : OpenJournal) (i : Nat) : Option JournalHandle :=
  (s.handles[i]?.filter (·.flush.isNone)).map OpenHandle.handle

/-- A call on the handle at place `i`. -/
def onHandle (s : OpenJournal) (i : Nat)
    (call : JournalHandle → JournalTransactions → Ext4Result JournalHandle × JournalTransactions) :
    Option OpenJournal :=
  (s.freeHandle i).map fun h =>
    { s with
      journal := (call h s.journal).2
      handles := s.handles.set i ⟨(call h s.journal).1.toOption.getD h, none⟩ }

/-- A call that changes nothing when it fails. -/
def onJournal (s : OpenJournal) (result : Ext4Result JournalTransactions) : OpenJournal :=
  { s with journal := result.toOption.getD s.journal }

/-- `none`: there is no such handle, or the caller waits. -/
def step (s : OpenJournal) : JournalOp → Option OpenJournal
  | .begin credits => (s.journal.begin credits).map fun result =>
    match result with
    | .ok (h, journal) =>
      { s with
        journal, handles := s.handles ++ [⟨h, none⟩]
        begun := if s.journal.running.isSome then s.begun else s.begun ++ [h.id] }
    | .error _ => s
  | .reserveMore i credits => s.onHandle i fun h j => h.reserveMore j credits
  | .consumeMetadataCredit i block => s.onHandle i fun h j => h.consumeMetadataCredit j block
  | .revokeMetadataBlock i block => s.onHandle i fun h j => h.revokeMetadataBlock j block
  | .forgetMetadataBlockWithoutRevoke i block => s.onHandle i fun h j => h.forgetMetadataBlockWithoutRevoke j block
  | .requireOrderedDataFlush i => (s.freeHandle i).map fun h =>
    match h.requireOrderedDataFlush s.journal with
    | (.ok (), journal) => { s with journal, writes := s.writes ++ [s.begun.length - 1] }
    | (.error _, journal) => { s with journal }
  | .startFlush i => (s.freeHandle i).map fun h =>
    match h.flushGeneration s.journal with
    | (.ok generation, journal) =>
      { s with journal, handles := s.handles.set i ⟨h, some ⟨generation, s.writes.length⟩⟩ }
    | (.error _, journal) => { s with journal }
  | .endFlush i ok => s.handles[i]?.bind fun open' => open'.flush.map fun flush =>
    let s := { s with handles := s.handles.set i ⟨open'.handle, none⟩ }
    if ok then
      { s with
        durable := max s.durable flush.covers
        journal := (open'.handle.acknowledgeFlush s.journal flush.generation).2 }
    else s
  | .stop i => (s.freeHandle i).map fun h =>
    { s with journal := (h.stop s.journal).2, handles := s.handles.eraseIdx i }
  | .drop i => (s.freeHandle i).map fun h =>
    { s with journal := h.drop s.journal, handles := s.handles.eraseIdx i }
  | .prepareReservation credits => some (s.onJournal (Prod.snd <$> s.journal.prepareReservation credits))
  | .sealRunning transaction => some (s.onJournal (s.journal.sealRunning transaction))
  | .unsealRunning transaction => some (s.onJournal (s.journal.unsealRunning transaction))
  | .forceCommit transaction => some (s.onJournal (Prod.snd <$> s.journal.forceCommit transaction))
  | .startCommitFlush commit =>
    if s.commitFlush.isSome then none
    else
      match s.journal.hasUnflushedOrderedData commit with
      | .ok true => some { s with commitFlush := some (commit, s.writes.length) }
      | _ => some s
  | .endCommitFlush ok => s.commitFlush.map fun flush =>
    let s := { s with commitFlush := none }
    if ok then { s.onJournal (s.journal.acknowledgeCommitFlush flush.1) with durable := max s.durable flush.2 }
    else s
  | .abort error => some { s with journal := s.journal.abort error }
  | .startCheckpoint commit persisted =>
    match s.journal.startCheckpoint commit persisted with
    | .ok journal =>
      some { s with
        journal
        entered :=
          if s.journal.committing.map FrozenTransaction.commit = some commit then s.entered ++ [commit] else s.entered }
    | .error _ => some s
  | .finishCheckpoint commit => some (s.onJournal (s.journal.finishCheckpoint commit))

/-! ## What a step can do -/

variable {s s' : OpenJournal} {op : JournalOp}

/-- A new transaction runs, with its first handle. -/
abbrev started (s : OpenJournal) (credits : UInt32) (r : RunningTransactionState) : OpenJournal := { s with
  journal := { s.journal with
    nextTransaction := s.journal.nextTransaction + 1, running := some ⟨s.journal.nextTransaction, r⟩ }
  handles := s.handles ++ [⟨⟨s.journal.nextTransaction, credits, false⟩, none⟩]
  begun := s.begun ++ [s.journal.nextTransaction] }

/-- The committed transaction waits for its checkpoint. -/
abbrev filed (s : OpenJournal) (frozen : FrozenTransaction) (persisted : JournalLogCommit) : OpenJournal := { s with
  journal := { s.journal with
    committing := none, checkpointTransactions := s.journal.checkpointTransactions ++ [(frozen.commit, persisted)] }
  entered := s.entered ++ [frozen.commit] }

/-- The cases of a step. -/
inductive Effect (s : OpenJournal) (op : JournalOp) : OpenJournal → Prop
  | same : Effect s op s
  | closing (c : Option TransactionId) : Effect s op { s with journal := { s.journal with closing := c } }
  | aborts (a : Option Ext4Error) : Effect s op { s with journal := { s.journal with aborted := a } }
  | moves {i : Nat} {h h' : JournalHandle} {r r' : RunningTransactionState}
      (handle_eq : s.handles[i]? = some ⟨h, none⟩) (running_eq : s.journal.running = some ⟨h.id, r⟩)
      (moved : h.Moves s.journal.maxReservedCredits r r' h') :
      Effect s op { s with
        journal := { s.journal with running := some ⟨h.id, r'⟩ }, handles := s.handles.set i ⟨h', none⟩ }
  | registers {i : Nat} {h : JournalHandle} {r : RunningTransactionState} {n : UInt64}
      (handle_eq : s.handles[i]? = some ⟨h, none⟩) (running_eq : s.journal.running = some ⟨h.id, r⟩)
      (n_eq : n.toNat = r.orderedGeneration.toNat + 1) :
      Effect s op { s with
        journal := { s.journal with running := some ⟨h.id, { r with orderedGeneration := n }⟩ }
        writes := s.writes ++ [s.begun.length - 1] }
  | flushes {i : Nat} {h : JournalHandle} {r : RunningTransactionState}
      (handle_eq : s.handles[i]? = some ⟨h, none⟩) (running_eq : s.journal.running = some ⟨h.id, r⟩) :
      Effect s op { s with handles := s.handles.set i ⟨h, some ⟨r.orderedGeneration, s.writes.length⟩⟩ }
  | flushFails {i : Nat} {h : JournalHandle} {flush : PendingFlush} (handle_eq : s.handles[i]? = some ⟨h, some flush⟩)
      {d : Nat} (durable_le : s.durable ≤ d) (le_durable : d ≤ max s.durable flush.covers) :
      Effect s op { s with handles := s.handles.set i ⟨h, none⟩, durable := d }
  | flushed {i : Nat} {h : JournalHandle} {flush : PendingFlush} {r : RunningTransactionState}
      (handle_eq : s.handles[i]? = some ⟨h, some flush⟩) (running_eq : s.journal.running = some ⟨h.id, r⟩) :
      Effect s op { s with
        journal := { s.journal with
          running := some ⟨h.id, { r with flushedGeneration := max r.flushedGeneration flush.generation }⟩ }
        handles := s.handles.set i ⟨h, none⟩, durable := max s.durable flush.covers }
  | opens {credits : UInt32} {id : TransactionId} {r r' : RunningTransactionState} (op_eq : op = .begin credits)
      (fits : credits.toNat ≤ s.journal.maxReservedCredits.toNat) (running_eq : s.journal.running = some ⟨id, r⟩)
      (begins : r.beginHandle credits = .ok r') :
      Effect s op { s with
        journal := { s.journal with running := some ⟨id, r'⟩ }, handles := s.handles ++ [⟨⟨id, credits, false⟩, none⟩] }
  | starts {credits : UInt32} {r' : RunningTransactionState} (op_eq : op = .begin credits)
      (fits : credits.toNat ≤ s.journal.maxReservedCredits.toNat) (running_eq : s.journal.running = none)
      (begins : RunningTransactionState.new.beginHandle credits = .ok r') : Effect s op (s.started credits r')
  | closes {i : Nat} {h : JournalHandle} {r r' : RunningTransactionState}
      (handle_eq : s.handles[i]? = some ⟨h, none⟩) (running_eq : s.journal.running = some ⟨h.id, r⟩)
      (finished : r.finishHandle h.remainingCredits = .ok r') :
      Effect s op { s with
        journal := { s.journal with running := some ⟨h.id, r'⟩ }, handles := s.handles.eraseIdx i }
  | loses {i : Nat} {h : JournalHandle} {s' : OpenJournal} (handle_eq : s.handles[i]? = some ⟨h, none⟩)
      (failed : h.closed = true ∨ ∃ e, s.journal.finishHandle h.id h.remainingCredits = .error e) : Effect s op s'
  | freezes {id : TransactionId} {r : RunningTransactionState} (running_eq : s.journal.running = some ⟨id, r⟩)
      (idle : r.activeHandles = 0) (committing_eq : s.journal.committing = none) :
      Effect s op { s with
        journal := { s.journal with running := none, committing := some (r.freeze id), closing := none } }
  | commitFlushes {frozen : FrozenTransaction} (committing_eq : s.journal.committing = some frozen)
      (unflushed : frozen.hasUnflushedOrderedData = true) (idle : s.commitFlush = none) :
      Effect s op { s with commitFlush := some (frozen.commit, s.writes.length) }
  | commitFlushFails {d covers : Nat} {commit : RuntimeTransaction} (flush_eq : s.commitFlush = some (commit, covers))
      (durable_le : s.durable ≤ d) (le_durable : d ≤ max s.durable covers) :
      Effect s op { s with commitFlush := none, durable := d }
  | commitFlushed {frozen : FrozenTransaction} {covers : Nat} (flush_eq : s.commitFlush = some (frozen.commit, covers))
      (committing_eq : s.journal.committing = some frozen) :
      Effect s op { s with
        journal := { s.journal with committing := some { frozen with hasUnflushedOrderedData := false } }
        commitFlush := none, durable := max s.durable covers }
  | enters {frozen : FrozenTransaction} (persisted : JournalLogCommit)
      (committing_eq : s.journal.committing = some frozen) (flushed : frozen.hasUnflushedOrderedData = false) :
      Effect s op (s.filed frozen persisted)
  | retires {checkpoint : RuntimeTransaction × JournalLogCommit}
      {pending : List (RuntimeTransaction × JournalLogCommit)}
      (queue_eq : s.journal.checkpointTransactions = checkpoint :: pending)
      (id_eq : checkpoint.1.id = s.journal.checkpointedThrough + 1) :
      Effect s op { s with
        journal := { s.journal with checkpointTransactions := pending, checkpointedThrough := checkpoint.1.id } }

variable {i : Nat}

theorem set_self {α : Type} {l : List α} {a : α} (h : l[i]? = some a) : l.set i a = l := by
  obtain ⟨hi, rfl⟩ := List.getElem?_eq_some_iff.1 h
  exact List.set_getElem_self hi

variable {h : JournalHandle}

theorem freeHandle_eq_some : s.freeHandle i = some h ↔ s.handles[i]? = some ⟨h, none⟩ := by
  unfold freeHandle
  rw [map_eq_some_iff]
  constructor
  · rintro ⟨⟨h', flush⟩, hf, rfl⟩
    obtain ⟨hi, hnone⟩ := filter_eq_some_iff.1 hf
    obtain rfl : flush = none := by simpa using hnone
    exact hi
  · intro hi
    exact ⟨⟨h, none⟩, by simp [hi], rfl⟩

theorem withRunning_cases {α : Type} (j : JournalTransactions) (t : TransactionId)
    (f : RunningTransactionState → Ext4Result α × RunningTransactionState) :
    (∃ e, j.withRunning t f = (.error e, j)) ∨
      ∃ r, j.running = some ⟨t, r⟩ ∧ j.withRunning t f = ((f r).1, { j with running := some ⟨t, (f r).2⟩ }) := by
  unfold JournalTransactions.withRunning
  split
  · exact .inl ⟨_, rfl⟩
  split
  · exact .inl ⟨_, rfl⟩
  rename_i running hrunning
  split
  · exact .inl ⟨_, rfl⟩
  · rename_i hid
    obtain rfl : running.id = t := by simpa using hid
    exact .inr ⟨running.state, hrunning, rfl⟩

variable {j : JournalTransactions}

/-- A journal whose running transaction is put back is the same journal. -/
theorem running_self {r : RunningTransaction} (h : j.running = some r) :
    { j with running := some r } = j := by
  rw [← h]

/-- The calls of a handle that go through `with_running` and balance. -/
theorem effect_onHandle
    {f : JournalHandle → JournalTransactions → RunningTransactionState →
      Ext4Result JournalHandle × RunningTransactionState}
    (hf : ∀ (h : JournalHandle) r,
      h.Moves s.journal.maxReservedCredits r (f h s.journal r).2 ((f h s.journal r).1.toOption.getD h))
    (hs : s.onHandle i (fun h j => j.withRunning h.id (f h j)) = some s') : Effect s op s' := by
  obtain ⟨h, hfree, rfl⟩ := map_eq_some_iff.1 hs
  have hi := freeHandle_eq_some.1 hfree
  dsimp only
  rcases withRunning_cases s.journal h.id (f h s.journal) with ⟨e, heq⟩ | ⟨r, hr, heq⟩
  · rw [heq]
    simp only [Except.toOption, getD_none, set_self hi]
    exact .same
  · rw [heq]
    exact .moves hi hr (hf h r)

variable {j j' : JournalTransactions} {credits : UInt32}

theorem begin_eq_ok
    (hb : j.begin credits = some (.ok (h, j'))) :
    credits.toNat ≤ j.maxReservedCredits.toNat ∧
      ((∃ id r r', j.running = some ⟨id, r⟩ ∧ r.beginHandle credits = .ok r' ∧ h = ⟨id, credits, false⟩ ∧
          j' = { j with running := some ⟨id, r'⟩ }) ∨
        ∃ r', j.running = none ∧ RunningTransactionState.new.beginHandle credits = .ok r' ∧
          h = ⟨j.nextTransaction, credits, false⟩ ∧
          j' = { j with nextTransaction := j.nextTransaction + 1, running := some ⟨j.nextTransaction, r'⟩ }) := by
  unfold JournalTransactions.begin at hb
  split at hb
  · cases hb
  split at hb
  · cases hb
  rename_i hfit
  split at hb
  · cases hb
  refine ⟨by simpa [JournalTransactions.canFitHandle, UInt32.le_iff_toNat_le] using hfit, ?_⟩
  split at hb
  · rename_i running hrunning
    obtain ⟨r', hr', hres⟩ := bind_eq_ok.1 (some.inj hb)
    cases hres
    exact .inl ⟨running.id, running.state, r', hrunning, hr', rfl, rfl⟩
  · rename_i hrunning
    obtain ⟨r', hr', hres⟩ := bind_eq_ok.1 (some.inj hb)
    cases hres
    exact .inr ⟨r', hrunning, hr', rfl, rfl⟩

variable {transaction : TransactionId}

theorem finishHandle_eq_ok {unused : UInt32} :
    j.finishHandle transaction unused = .ok j' ↔ ∃ r r', j.running = some ⟨transaction, r⟩ ∧
      r.finishHandle unused = .ok r' ∧ j' = { j with running := some ⟨transaction, r'⟩ } := by
  simp only [JournalTransactions.finishHandle, bind_eq_ok, okOr_eq_ok, failIf_eq_ok, pure_eq_ok,
    Except.ok.injEq, not_not]
  constructor
  · rintro ⟨⟨id, r⟩, hr, -, rfl, r', hr', rfl⟩
    exact ⟨r, r', hr, hr', rfl⟩
  · rintro ⟨r, r', hr, hr', rfl⟩
    exact ⟨⟨transaction, r⟩, hr, (), rfl, r', hr', rfl⟩

theorem stop_eq (h : JournalHandle) (j : JournalTransactions) : (h.stop j).2 = (h.finish j).2.1 := by
  have hclosed : (h.finish j).2.2.closed = true := by
    unfold finish
    split
    · assumption
    · dsimp only
      split <;> rfl
  rw [stop]
  dsimp only
  rw [drop, finish, if_pos hclosed]

/-- A handle that goes leaves its transaction, if the call does not fail. -/
theorem effect_finish {j' : JournalTransactions} (hi : s.handles[i]? = some ⟨h, none⟩)
    (hj : (h.finish s.journal).1 = .ok () → j' = (h.finish s.journal).2.1) :
    Effect s op { s with journal := j', handles := s.handles.eraseIdx i } := by
  unfold finish at hj
  split at hj
  · rename_i hclosed
    exact .loses hi (.inl hclosed)
  dsimp only at hj
  cases hf : s.journal.finishHandle h.id h.remainingCredits with
  | ok =>
    rw [hf] at hj
    obtain ⟨r, r', hr, hr', rfl⟩ := finishHandle_eq_ok.1 hf
    obtain rfl := hj rfl
    exact .closes hi hr hr'
  | error e => exact .loses hi (.inr ⟨e, hf⟩)

variable {commit : RuntimeTransaction}

theorem forceCommit_eq_ok
    (hc : j.forceCommit transaction = .ok (commit, j')) :
    j' = j ∧ ((∃ frozen, j.committing = some frozen ∧ frozen.commit.id = transaction) ∨
        ∀ r, j.running = some r → r.id ≠ transaction) ∨
      ∃ r, j.running = some ⟨transaction, r⟩ ∧ r.activeHandles = 0 ∧ j.committing = none ∧
        j' = { j with running := none, committing := some (r.freeze transaction), closing := none } := by
  obtain ⟨-, -, hc⟩ := bind_eq_ok.1 hc
  split at hc
  · rename_i frozen hfilter
    cases hc
    obtain ⟨hcommitting, hid⟩ := filter_eq_some_iff.1 hfilter
    exact .inl ⟨rfl, .inl ⟨frozen, hcommitting, of_decide_eq_true hid⟩⟩
  split at hc
  · rename_i running hfilter
    rw [filter_eq_some_iff, decide_eq_true_eq] at hfilter
    obtain ⟨hrunning, hid⟩ := hfilter
    obtain ⟨hbusy, hc⟩ := failIf_bind.1 hc
    obtain ⟨hidle, hc⟩ := failIf_bind.1 hc
    cases hc
    cases hid
    exact .inr ⟨running.state, hrunning, by simpa using hidle, by simpa using hbusy, rfl⟩
  · rename_i hfilter
    have hother : ∀ r, j.running = some r → r.id ≠ transaction := by
      intro r hr heq
      simp [hr, heq] at hfilter
    split at hc
    · cases hc
      exact .inl ⟨rfl, .inr hother⟩
    · obtain ⟨-, -, hc⟩ := bind_eq_ok.1 hc
      cases hc

theorem prepareReservation_eq_ok
    {q : Option TransactionId × JournalTransactions} (h : j.prepareReservation credits = .ok q) :
    (∃ c, q.2 = { j with closing := c }) ∧ (∀ r, j.running = some r → match q.1 with
      | none => r.state.reservedCredits.toNat + credits.toNat ≤ j.maxReservedCredits.toNat
      | some transaction => r.id = transaction) := by
  simp only [JournalTransactions.prepareReservation, bind_eq_ok] at h
  obtain ⟨-, -, -, -, h⟩ := h
  split at h
  · rename_i hnone
    cases h
    exact ⟨⟨j.closing, rfl⟩, by simp [hnone]⟩
  · rename_i running hrunning
    obtain ⟨projected, hprojected, h⟩ := bind_eq_ok.1 h
    rw [okOr_eq_ok, checkedAdd_eq_some] at hprojected
    split at h
    · rename_i hle
      cases h
      refine ⟨⟨j.closing, rfl⟩, fun r hr => ?_⟩
      cases hrunning.symm.trans hr
      have := UInt32.le_iff_toNat_le.1 hle.1
      omega
    · cases h
      refine ⟨⟨_, rfl⟩, fun r hr => ?_⟩
      cases hrunning.symm.trans hr
      rfl

theorem effect_onJournal {result : Ext4Result JournalTransactions}
    (hr : ∀ j, result = .ok j → Effect s op { s with journal := j }) : Effect s op (s.onJournal result) := by
  cases result with
  | error => exact .same
  | ok j => exact hr j rfl

theorem checkedAdd64_eq_some {a b c : UInt64} : checkedAdd64 a b = some c ↔ c.toNat = a.toNat + b.toNat := by
  have hadd := UInt64.toNat_add a b
  have hc := c.toNat_lt
  unfold checkedAdd64
  split
  · rename_i h
    rw [some_inj, ← UInt64.toNat_inj, hadd, Nat.mod_eq_of_lt h]
    exact eq_comm
  · simp
    omega

theorem effect_register (hs : s.step (.requireOrderedDataFlush i) = some s') : Effect s op s' := by
  obtain ⟨h, hfree, rfl⟩ := map_eq_some_iff.1 hs
  have hi := freeHandle_eq_some.1 hfree
  rcases withRunning_cases s.journal h.id registerIn with ⟨e, heq⟩ | ⟨r, hr, heq⟩
  · rw [requireOrderedDataFlush, heq]
    exact .same
  · rw [requireOrderedDataFlush, heq, registerIn]
    cases hn : checkedAdd64 r.orderedGeneration 1 with
    | none =>
      simp only [running_self hr]
      exact .same
    | some => exact .registers hi hr (checkedAdd64_eq_some.1 hn)

theorem effect_startFlush (hs : s.step (.startFlush i) = some s') : Effect s op s' := by
  obtain ⟨h, hfree, rfl⟩ := map_eq_some_iff.1 hs
  have hi := freeHandle_eq_some.1 hfree
  rcases withRunning_cases s.journal h.id fun running => ((.ok running.orderedGeneration : Ext4Result UInt64), running)
    with ⟨e, heq⟩ | ⟨r, hr, heq⟩
  · rw [flushGeneration, heq]
    exact .same
  · rw [flushGeneration, heq]
    simp only [running_self hr]
    exact .flushes hi hr

theorem effect_endFlush {ok : Bool} (hs : s.step (.endFlush i ok) = some s') : Effect s op s' := by
  obtain ⟨⟨h, flush⟩, hi, hs⟩ := bind_eq_some_iff.1 hs
  obtain ⟨f, hflush, rfl⟩ := map_eq_some_iff.1 hs
  subst hflush
  cases ok with
  | false => exact .flushFails hi le_rfl (le_max_left _ _)
  | true =>
    rcases withRunning_cases s.journal h.id fun running =>
      ((.ok () : Ext4Result Unit), { running with flushedGeneration := max running.flushedGeneration f.generation })
      with ⟨e, heq⟩ | ⟨r, hr, heq⟩
    · simp only [acknowledgeFlush, heq]
      exact .flushFails hi (le_max_left _ _) le_rfl
    · simp only [acknowledgeFlush, heq]
      exact .flushed hi hr

theorem committing_filter {frozen : FrozenTransaction}
    (h : j.committing.filter (·.commit = commit) = some frozen) :
    j.committing = some frozen ∧ frozen.commit = commit := by
  obtain ⟨hcommitting, hcommit⟩ := filter_eq_some_iff.1 h
  exact ⟨hcommitting, of_decide_eq_true hcommit⟩

theorem effect_startCommitFlush (hs : s.step (.startCommitFlush commit) = some s') :
    Effect s op s' := by
  simp only [step] at hs
  split at hs
  · cases hs
  rename_i hidle
  split at hs
  · rename_i hflag
    obtain ⟨frozen, hfrozen, hunflushed⟩ := bind_eq_ok.1 hflag
    obtain ⟨hcommitting, rfl⟩ := committing_filter (okOr_eq_ok.1 hfrozen)
    cases hs
    exact .commitFlushes hcommitting (Except.ok.inj hunflushed) (by simpa using hidle)
  · cases hs
    exact .same

theorem effect_endCommitFlush {ok : Bool} (hs : s.step (.endCommitFlush ok) = some s') : Effect s op s' := by
  obtain ⟨⟨commit, covers⟩, hflush, rfl⟩ := map_eq_some_iff.1 hs
  cases ok with
  | false => exact .commitFlushFails hflush le_rfl (le_max_left _ _)
  | true =>
    cases hack : s.journal.acknowledgeCommitFlush commit with
    | error =>
      simp only [onJournal, hack]
      exact .commitFlushFails hflush (le_max_left _ _) le_rfl
    | ok =>
      obtain ⟨frozen, hfrozen, hj⟩ := bind_eq_ok.1 hack
      obtain ⟨hcommitting, rfl⟩ := committing_filter (okOr_eq_ok.1 hfrozen)
      cases hj
      simp only [onJournal, hack]
      exact .commitFlushed hflush hcommitting

theorem effect_startCheckpoint {persisted : JournalLogCommit}
    (hs : s.step (.startCheckpoint commit persisted) = some s') : Effect s op s' := by
  simp only [step] at hs
  split at hs
  · rename_i journal hj
    cases hs
    obtain ⟨-, -, hj⟩ := bind_eq_ok.1 hj
    split at hj
    · rename_i hother
      obtain ⟨-, -, hj⟩ := bind_eq_ok.1 hj
      cases hj
      have hne : s.journal.committing.map FrozenTransaction.commit ≠ some commit := by
        intro heq
        obtain ⟨frozen, hcommitting, rfl⟩ := map_eq_some_iff.1 heq
        simp [hcommitting] at hother
      rw [if_neg hne]
      exact .same
    · rename_i frozen hfrozen
      obtain ⟨hcommitting, rfl⟩ := committing_filter hfrozen
      obtain ⟨hflushed, hj⟩ := failIf_bind.1 hj
      cases hj
      rw [if_pos (by rw [hcommitting]; rfl)]
      exact .enters persisted hcommitting (by simpa using hflushed)
  · cases hs
    exact .same

theorem effect_of_step (hs : s.step op = some s') : Effect s op s' := by
  cases op with
  | begin =>
    obtain ⟨result, hb, rfl⟩ := map_eq_some_iff.1 hs
    cases result with
    | error => exact .same
    | ok q =>
      obtain ⟨h, j⟩ := q
      obtain ⟨hfit, ⟨id, r, r', hr, hr', rfl, rfl⟩ | ⟨r', hr, hr', rfl, rfl⟩⟩ := begin_eq_ok hb
      · simp only [hr]
        exact .opens rfl hfit hr hr'
      · simp only [hr]
        exact .starts rfl hfit hr hr'
  | reserveMore i credits =>
    exact effect_onHandle (f := fun h j => h.reserveIn j.maxReservedCredits credits) (fun _ _ => moves_reserveIn) hs
  | consumeMetadataCredit i block =>
    exact effect_onHandle (f := fun h _ => h.consumeIn block) (fun _ _ => moves_consumeIn) hs
  | revokeMetadataBlock i block =>
    refine effect_onHandle (f := fun h _ => h.revokeIn block) (fun h running => ?_) hs
    rw [revokeIn_eq]
    exact Moves.swap (moves_consumeIn : Moves _ running.swap h _ _)
  | forgetMetadataBlockWithoutRevoke i block =>
    exact effect_onHandle (f := fun h _ => h.forgetIn block) (fun _ _ => moves_forgetIn) hs
  | requireOrderedDataFlush => exact effect_register hs
  | startFlush => exact effect_startFlush hs
  | endFlush => exact effect_endFlush hs
  | stop =>
    obtain ⟨h, hfree, rfl⟩ := map_eq_some_iff.1 hs
    exact effect_finish (freeHandle_eq_some.1 hfree) fun _ => stop_eq h s.journal
  | drop =>
    obtain ⟨h, hfree, rfl⟩ := map_eq_some_iff.1 hs
    refine effect_finish (freeHandle_eq_some.1 hfree) fun hok => ?_
    rw [JournalHandle.drop]
    split
    · rename_i heq
      rw [heq]
    · rename_i heq
      rw [heq] at hok
      cases hok
  | prepareReservation =>
    cases hs
    refine effect_onJournal fun j hj => ?_
    obtain ⟨q, hq, rfl⟩ := map_eq_ok.1 hj
    obtain ⟨c, hc⟩ := (prepareReservation_eq_ok hq).1
    rw [hc]
    exact .closing c
  | sealRunning | unsealRunning =>
    cases hs
    refine effect_onJournal fun j hj => ?_
    obtain ⟨-, -, hj⟩ := bind_eq_ok.1 hj
    split at hj
    · cases hj
      exact .closing _
    · cases hj
      exact .same
  | forceCommit =>
    cases hs
    refine effect_onJournal fun j hj => ?_
    obtain ⟨⟨commit, j'⟩, hq, rfl⟩ := map_eq_ok.1 hj
    rcases forceCommit_eq_ok hq with ⟨rfl, -⟩ | ⟨r, hr, hidle, hnone, rfl⟩
    · exact .same
    · exact .freezes hr hidle hnone
  | startCommitFlush => exact effect_startCommitFlush hs
  | endCommitFlush => exact effect_endCommitFlush hs
  | abort =>
    cases hs
    exact .aborts _
  | startCheckpoint => exact effect_startCheckpoint hs
  | finishCheckpoint commit =>
    cases hs
    refine effect_onJournal fun j hj => ?_
    obtain ⟨-, -, hj⟩ := bind_eq_ok.1 hj
    split at hj
    · cases hj
      exact .same
    split at hj
    · cases hj
    · rename_i checkpoint pending hqueue
      obtain ⟨hcommit, hj⟩ := failIf_bind.1 hj
      obtain ⟨hid, hj⟩ := failIf_bind.1 hj
      cases hj
      obtain rfl : checkpoint.1 = commit := by simpa using hcommit
      exact .retires hqueue (by simpa using hid)

end OpenJournal

end XKernel.Ext4
