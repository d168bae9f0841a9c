import XKernel.Ext4.JournalSteps
/-!
# Invariants of the journal's transactions

`Books`: the open handles are those of the running transaction, and its credits balance.
`Chain`: the ids of the transactions are those of their numbers, from the checkpoint queue
over the committing and the running transaction to the next one.
-/

namespace XKernel.Ext4

open XKernel.Lib List

namespace OpenJournal

variable {s s' : OpenJournal} {op : JournalOp}

/-! ## The balance over all handles -/

/-- What the open handles have left. -/
def remaining (s : OpenJournal) : Nat := (s.handles.map fun h => h.handle.remainingCredits.toNat).sum

variable {i : Nat}

theorem sum_apart {α : Type} {f : α → Nat} {l : List α} {a : α} (h : l[i]? = some a) :
    ∃ rest, (l.map f).sum = rest + f a ∧ ((l.eraseIdx i).map f).sum = rest ∧
      ∀ b, ((l.set i b).map f).sum = rest + f b := by
  induction l generalizing i with
  | nil => simp at h
  | cons c l ih =>
    cases i with
    | zero =>
      obtain rfl : c = a := by simpa using h
      exact ⟨(l.map f).sum, by simp; omega, by simp, fun b => by simp; omega⟩
    | succ i =>
      obtain ⟨rest, hsum, herase, hset⟩ := ih (by simpa using h)
      refine ⟨f c + rest, by simp; omega, by simp; omega, fun b => ?_⟩
      have := hset b
      simp only [set_cons_succ, map_cons, sum_cons]
      omega

/-- The open handles are those of the running transaction, and its credits balance. -/
structure Books (s : OpenJournal) : Prop where
  idle : s.journal.running = none → s.handles = []
  opened : ∀ h ∈ s.handles, h.handle.closed = false
  owned : ∀ r, s.journal.running = some r → ∀ h ∈ s.handles, h.handle.id = r.id
  counted : ∀ r, s.journal.running = some r → r.state.activeHandles.toNat = s.handles.length
  balanced : ∀ r, s.journal.running = some r → r.state.Balanced s.remaining

theorem new_books (first : TransactionId) (limit : UInt32) : Books (new first limit) :=
  ⟨fun _ => rfl, nofun, nofun, nofun, nofun⟩

variable {credits : UInt32}

theorem beginHandle_eq_ok {r r' : RunningTransactionState} :
    r.beginHandle credits = .ok r' ↔ ∃ active reserved, active.toNat = r.activeHandles.toNat + 1 ∧
      reserved.toNat = r.reservedCredits.toNat + credits.toNat ∧
      r' = { r with activeHandles := active, reservedCredits := reserved } := by
  simp only [RunningTransactionState.beginHandle, bind_eq_ok, okOr_eq_ok, checkedAdd_eq_some, pure_eq_ok,
    Except.ok.injEq]
  constructor
  · rintro ⟨active, ha, reserved, hr, rfl⟩
    exact ⟨active, reserved, ha, hr, rfl⟩
  · rintro ⟨active, reserved, ha, hr, rfl⟩
    exact ⟨active, ha, reserved, hr, rfl⟩

theorem runningFinishHandle_eq_ok {r r' : RunningTransactionState} {unused : UInt32} :
    r.finishHandle unused = .ok r' ↔ ∃ active reserved, r.activeHandles.toNat = active.toNat + 1 ∧
      r.reservedCredits.toNat = reserved.toNat + unused.toNat ∧
      r' = { r with activeHandles := active, reservedCredits := reserved } := by
  simp only [RunningTransactionState.finishHandle, bind_eq_ok, okOr_eq_ok, checkedSub_eq_some, pure_eq_ok,
    Except.ok.injEq]
  constructor
  · rintro ⟨active, ha, reserved, hr, rfl⟩
    exact ⟨active, reserved, ha, hr, rfl⟩
  · rintro ⟨active, reserved, ha, hr, rfl⟩
    exact ⟨active, ha, reserved, hr, rfl⟩

theorem Books.running {h : OpenHandle} (hb : Books s) (hi : s.handles[i]? = some h) :
    ∃ r, s.journal.running = some ⟨h.handle.id, r⟩ := by
  cases hr : s.journal.running with
  | none => simp [hb.idle hr] at hi
  | some r => exact ⟨r.state, by rw [hb.owned r hr h (mem_of_getElem? hi)]⟩

variable {h : JournalHandle} {flush : Option PendingFlush}

/-- An open handle can be finished. -/
theorem Books.finishes (hb : Books s)
    (hi : s.handles[i]? = some ⟨h, flush⟩) :
    h.closed = false ∧ ∃ j, s.journal.finishHandle h.id h.remainingCredits = .ok j := by
  have hmem := mem_of_getElem? hi
  refine ⟨hb.opened _ hmem, ?_⟩
  obtain ⟨r, hr⟩ := hb.running hi
  have hcount := hb.counted _ hr
  have hpos := length_pos_of_mem hmem
  have hreserved := (hb.balanced _ hr).reserved_eq
  obtain ⟨rest, hsum, -⟩ := sum_apart hi
  have hremaining : s.remaining = rest + h.remainingCredits.toNat := hsum
  dsimp only at hcount hreserved
  obtain ⟨active, -, ha⟩ := exists_checkedSub (a := r.activeHandles) (b := 1) (by
    have : (1 : UInt32).toNat = 1 := rfl
    omega)
  obtain ⟨reserved, -, hres⟩ := exists_checkedSub (a := r.reservedCredits) (b := h.remainingCredits) (by omega)
  exact ⟨_, finishHandle_eq_ok.2 ⟨r, _, hr, runningFinishHandle_eq_ok.2 ⟨active, reserved, ha, hres, rfl⟩, rfl⟩⟩

/-- A call that fails to finish an open handle does not occur. -/
theorem Books.not_lost (hb : Books s) (hi : s.handles[i]? = some ⟨h, none⟩)
    (hfailed : h.closed = true ∨ ∃ e, s.journal.finishHandle h.id h.remainingCredits = .error e) : False := by
  obtain ⟨hopen, j, hj⟩ := hb.finishes hi
  rcases hfailed with hclosed | ⟨e, herr⟩
  · rw [hopen] at hclosed
    cases hclosed
  · cases hj.symm.trans herr

theorem Books.congr (hb : Books s) (hr : s'.journal.running = s.journal.running) (hh : s'.handles = s.handles) :
    Books s' := by
  obtain ⟨hidle, hopened, howned, hcounted, hbalanced⟩ := hb
  constructor <;> simpa only [hr, hh, remaining]

variable {id : TransactionId} {r r' : RunningTransactionState}

theorem Books.of_running (hr' : s'.journal.running = some ⟨id, r'⟩)
    (hopen : ∀ x ∈ s'.handles, x.handle.closed = false ∧ x.handle.id = id)
    (hcount : r'.activeHandles.toNat = s'.handles.length) (hbal : r'.Balanced s'.remaining) : Books s' := by
  refine ⟨fun hnone => by simp [hr'] at hnone, fun x hx => (hopen x hx).1, ?_, ?_, ?_⟩ <;>
    (intro q hq; cases hr'.symm.trans hq)
  · exact fun x hx => (hopen x hx).2
  · exact hcount
  · exact hbal

/-- One handle and its transaction change, and the balance moves between them. -/
theorem Books.update {h' : JournalHandle} {flush' : Option PendingFlush}
    (hb : Books s) (hi : s.handles[i]? = some ⟨h, flush⟩) (hr : s.journal.running = some ⟨h.id, r⟩)
    (hr' : s'.journal.running = some ⟨h.id, r'⟩) (hhandles : s'.handles = s.handles.set i ⟨h', flush'⟩)
    (hid : h'.id = h.id) (hclosed : h'.closed = h.closed) (hactive : r'.activeHandles = r.activeHandles)
    (hbal : ∀ rest, r.Balanced (rest + h.remainingCredits.toNat) → r'.Balanced (rest + h'.remainingCredits.toNat)) :
    Books s' := by
  obtain ⟨rest, hsum, -, hset⟩ := sum_apart hi
  refine .of_running hr' (fun x hx => ?_) ?_ ?_
  · rw [hhandles] at hx
    rcases mem_or_eq_of_mem_set hx with hx | rfl
    · exact ⟨hb.opened x hx, hb.owned _ hr x hx⟩
    · exact ⟨hclosed.trans (hb.opened _ (mem_of_getElem? hi)), hid⟩
  · rw [hhandles, length_set, hactive]
    exact hb.counted _ hr
  · have hbefore := hb.balanced _ hr
    rw [show s.remaining = _ from hsum] at hbefore
    rw [remaining, hhandles, hset ⟨h', flush'⟩]
    exact hbal rest hbefore

/-- A new handle on a transaction that balances. -/
theorem Books.join (hb : Books s)
    (howned : ∀ h ∈ s.handles, h.handle.id = id) (hcount : r.activeHandles.toNat = s.handles.length)
    (hbal : r.Balanced s.remaining) (hbegin : r.beginHandle credits = .ok r')
    (hr' : s'.journal.running = some ⟨id, r'⟩) (hhandles : s'.handles = s.handles ++ [⟨⟨id, credits, false⟩, none⟩]) :
    Books s' := by
  obtain ⟨active, reserved, ha, hres, rfl⟩ := beginHandle_eq_ok.1 hbegin
  have hrem : s'.remaining = s.remaining + credits.toNat := by
    simp [remaining, hhandles]
  refine .of_running hr' ?_ ?_ ?_
  · rw [hhandles, forall_mem_append]
    exact ⟨fun x hx => ⟨hb.opened x hx, howned x hx⟩, by simp⟩
  · rw [hhandles, length_append, ← hcount]
    exact ha
  · have := hbal.reserved_eq
    exact ⟨hbal.disjoint, hbal.used_eq, by simp only; omega⟩

theorem Books.leave (hb : Books s)
    (hi : s.handles[i]? = some ⟨h, flush⟩) (hr : s.journal.running = some ⟨h.id, r⟩)
    (hfinish : r.finishHandle h.remainingCredits = .ok r') (hr' : s'.journal.running = some ⟨h.id, r'⟩)
    (hhandles : s'.handles = s.handles.eraseIdx i) : Books s' := by
  obtain ⟨active, reserved, ha, hres, rfl⟩ := runningFinishHandle_eq_ok.1 hfinish
  obtain ⟨rest, hsum, herase, -⟩ := sum_apart hi
  refine .of_running hr' (fun x hx => ?_) ?_ ?_
  · rw [hhandles] at hx
    exact ⟨hb.opened x (mem_of_mem_eraseIdx hx), hb.owned _ hr x (mem_of_mem_eraseIdx hx)⟩
  · have hlt := (List.getElem?_eq_some_iff.1 hi).1
    have hcount := hb.counted _ hr
    rw [hhandles, length_eraseIdx_of_lt hlt]
    simp only at hcount ⊢
    omega
  · have hbal := hb.balanced _ hr
    have hreserved := hbal.reserved_eq
    rw [show s.remaining = _ from hsum] at hreserved
    rw [remaining, hhandles, herase]
    exact ⟨hbal.disjoint, hbal.used_eq, by simp only at hreserved ⊢; omega⟩

theorem Books.step (hb : Books s) (he : Effect s op s') : Books s' := by
  cases he with
  | same => exact hb
  | closing | aborts | commitFlushes | commitFlushFails | commitFlushed | enters | retires => exact hb.congr rfl rfl
  | moves hi hr hmoved =>
    exact hb.update hi hr rfl rfl hmoved.id_eq hmoved.closed_eq hmoved.active_eq hmoved.balanced
  | @registers i h r n hi hr hn =>
    exact hb.update hi hr rfl (set_self hi).symm rfl rfl rfl fun _ h => ⟨h.disjoint, h.used_eq, h.reserved_eq⟩
  | flushes hi hr => exact hb.update hi hr hr rfl rfl rfl rfl fun _ h => h
  | flushFails hi =>
    obtain ⟨r, hr⟩ := hb.running hi
    exact hb.update hi hr hr rfl rfl rfl rfl fun _ h => h
  | flushed hi hr => exact hb.update hi hr rfl rfl rfl rfl rfl fun _ h => ⟨h.disjoint, h.used_eq, h.reserved_eq⟩
  | opens _ _ hr hbegin =>
    exact hb.join (hb.owned _ hr) (hb.counted _ hr) (hb.balanced _ hr) hbegin rfl rfl
  | starts _ _ hr hbegin =>
    have hnil := hb.idle hr
    refine hb.join ?_ ?_ ?_ hbegin rfl rfl
    · simp [hnil]
    · simp [hnil, RunningTransactionState.new]
    · rw [remaining, hnil]
      exact ⟨nofun, rfl, rfl⟩
  | closes hi hr hfinish => exact hb.leave hi hr hfinish rfl rfl
  | loses hi hfailed => exact (hb.not_lost hi hfailed).elim
  | @freezes id r hr hidle _ =>
    have hnil : s.handles = [] := by
      rw [← length_eq_zero_iff, ← hb.counted _ hr]
      simp [hidle]
    exact ⟨fun _ => hnil, hb.opened, nofun, nofun, nofun⟩

/-! ## The ids of the transactions -/

/-- The id of the transaction with number `n`. -/
def idOf (first : TransactionId) (n : Nat) : TransactionId := first + UInt32.ofNat n

theorem idOf_succ (first : TransactionId) (n : Nat) : idOf first (n + 1) = idOf first n + 1 := by
  rw [idOf, idOf, UInt32.ofNat_add, UInt32.add_assoc]
  rfl

/-- Every transaction has the id of its number. Those that were begun are the ones that entered
the queue, the committing and the running one. -/
structure Chain (first : TransactionId) (s : OpenJournal) : Prop where
  begun : ∀ k t, s.begun[k]? = some t → t = idOf first k
  next : s.journal.nextTransaction = idOf first s.begun.length
  count : s.begun.length =
    s.entered.length + s.journal.committing.toList.length + s.journal.running.toList.length
  running : ∀ r, s.journal.running = some r → r.id + 1 = s.journal.nextTransaction
  committing : ∀ c, s.journal.committing = some c → c.commit.id = idOf first s.entered.length
  entered : ∀ k c, s.entered[k]? = some c → c.id = idOf first k
  queue_le : s.journal.checkpointTransactions.length ≤ s.entered.length
  queue : s.journal.checkpointTransactions.map Prod.fst =
    s.entered.drop (s.entered.length - s.journal.checkpointTransactions.length)
  through : s.journal.checkpointedThrough + 1 =
    idOf first (s.entered.length - s.journal.checkpointTransactions.length)

variable {first : TransactionId}

theorem new_chain (first : TransactionId) (limit : UInt32) : Chain first (new first limit) where
  begun _ _ h := by cases h
  next := by simp [new, JournalTransactions.newWithCreditLimit, idOf]
  count := rfl
  running _ h := by cases h
  committing _ h := by cases h
  entered _ _ h := by cases h
  queue_le := le_rfl
  queue := rfl
  through := by simp [new, JournalTransactions.newWithCreditLimit, idOf]

section

variable {r : RunningTransaction} (hc : Chain first s)
include hc

theorem Chain.running_id (hr : s.journal.running = some r) :
    r.id = idOf first (s.begun.length - 1) := by
  have hcount := hc.count
  rw [hr] at hcount
  have hnext := hc.running r hr
  rw [hc.next, ← Nat.sub_add_cancel (show 1 ≤ s.begun.length by simp at hcount; omega), idOf_succ] at hnext
  exact (UInt32.add_left_inj 1).1 hnext

/-- The running transaction changes, and its id stays. -/
theorem Chain.update {r r' : RunningTransactionState} {handles : List OpenHandle} {writes : List Nat} {durable : Nat}
    (hr : s.journal.running = some ⟨id, r⟩) :
    Chain first { s with journal := { s.journal with running := some ⟨id, r'⟩ }, handles, writes, durable } := by
  have hcount := hc.count
  rw [hr] at hcount
  refine { hc with count := hcount, running := ?_ }
  rintro _ ⟨⟩
  exact hc.running ⟨id, r⟩ hr

theorem Chain.starts {r : RunningTransactionState} {credits : UInt32} (hr : s.journal.running = none) :
    Chain first (s.started credits r) := by
  have hcount := hc.count
  rw [hr] at hcount
  refine { hc with begun := ?_, next := ?_, count := by simp [hcount], running := ?_ }
  · intro k t ht
    rw [getElem?_append] at ht
    split at ht
    · exact hc.begun k t ht
    · obtain ⟨hk, rfl⟩ := List.getElem?_eq_some_iff.1 ht
      rw [length_singleton] at hk
      rw [getElem_singleton, hc.next]
      congr 1
      omega
  · show s.journal.nextTransaction + 1 = idOf first (s.begun ++ [_]).length
    rw [hc.next, length_append, length_singleton, idOf_succ]
  · rintro _ ⟨⟩
    rfl

theorem Chain.freezes {r : RunningTransactionState}
    (hr : s.journal.running = some ⟨id, r⟩) (hcommitting : s.journal.committing = none) {c : Option TransactionId} :
    Chain first { s with
      journal := { s.journal with running := none, committing := some (r.freeze id), closing := c } } := by
  have hrunning := hc.running_id hr
  have hcount := hc.count
  rw [hr, hcommitting] at hcount
  refine { hc with count := hcount, running := nofun, committing := ?_ }
  rintro _ ⟨⟩
  refine hrunning.trans ?_
  dsimp only
  congr 1
  simp at hcount
  omega

theorem Chain.enters {frozen : FrozenTransaction} (persisted : JournalLogCommit)
    (hcommitting : s.journal.committing = some frozen) :
    Chain first (s.filed frozen persisted) := by
  have hcount := hc.count
  have hle := hc.queue_le
  rw [hcommitting] at hcount
  have hsub : (s.entered ++ [frozen.commit]).length -
      (s.journal.checkpointTransactions ++ [(frozen.commit, persisted)]).length =
      s.entered.length - s.journal.checkpointTransactions.length := by
    simp
  refine { hc with count := ?_, committing := nofun, entered := ?_, queue_le := ?_, queue := ?_, through := ?_ }
  · simp at hcount ⊢
    omega
  · intro k c hk
    rw [getElem?_append] at hk
    split at hk
    · exact hc.entered k c hk
    · obtain ⟨hlt, rfl⟩ := List.getElem?_eq_some_iff.1 hk
      rw [length_singleton] at hlt
      rw [getElem_singleton, hc.committing frozen hcommitting]
      congr 1
      omega
  · simpa using hle
  · rw [hsub, map_append, hc.queue, drop_append_of_le_length (by omega)]
    rfl
  · rw [hsub]
    exact hc.through

theorem Chain.retires {checkpoint : RuntimeTransaction × JournalLogCommit}
    {pending : List (RuntimeTransaction × JournalLogCommit)}
    (hqueue : s.journal.checkpointTransactions = checkpoint :: pending) :
    Chain first { s with
      journal := { s.journal with checkpointTransactions := pending, checkpointedThrough := checkpoint.1.id } } := by
  have hle := hc.queue_le
  have hq := hc.queue
  rw [hqueue, length_cons] at hle hq
  have hlt : s.entered.length - (pending.length + 1) < s.entered.length := by omega
  have hsucc : s.entered.length - (pending.length + 1) + 1 = s.entered.length - pending.length := by omega
  rw [drop_eq_getElem_cons hlt, map_cons, cons.injEq, hsucc] at hq
  refine { hc with queue_le := by dsimp only; omega, queue := hq.2, through := ?_ }
  rw [hc.entered _ _ (getElem?_eq_getElem hlt |>.trans (congrArg some hq.1.symm)), ← idOf_succ, hsucc]

theorem Chain.step (hb : Books s) (he : Effect s op s') : Chain first s' := by
  cases he with
  | moves _ hr | registers _ hr | flushed _ hr | opens _ _ hr | closes _ hr => exact hc.update hr
  | starts _ _ hr => exact hc.starts hr
  | loses hi hfailed => exact (hb.not_lost hi hfailed).elim
  | freezes hr _ hcommitting => exact hc.freezes hr hcommitting
  | commitFlushed _ hcommitting =>
    have hcount := hc.count
    rw [hcommitting] at hcount
    refine { hc with count := hcount, committing := ?_ }
    rintro _ ⟨⟩
    exact (hc.committing _ hcommitting :)
  | enters persisted hcommitting => exact hc.enters persisted hcommitting
  | retires hqueue => exact hc.retires hqueue
  | _ =>
    exact { hc with }

/-- The running transaction is the one behind the committing one. -/
theorem Chain.running_committing {c : FrozenTransaction}
    (hr : s.journal.running = some r) (hcommitting : s.journal.committing = some c) : r.id = c.commit.id + 1 := by
  have hcount := hc.count
  rw [hr, hcommitting] at hcount
  rw [hc.running_id hr, hc.committing c hcommitting, ← idOf_succ]
  congr 1
  simp at hcount
  omega

/-- A commit of the running transaction that succeeds leaves no running transaction. -/
theorem Chain.frozen {transaction : TransactionId} {q : RuntimeTransaction × JournalTransactions}
    (hr : s.journal.running = some r) (hid : r.id = transaction)
    (hcommit : s.journal.forceCommit transaction = .ok q) : q.2.running = none := by
  obtain ⟨commit, j⟩ := q
  rcases forceCommit_eq_ok hcommit with ⟨-, ⟨c, hcommitting, hcid⟩ | hother⟩ | ⟨_, -, -, -, rfl⟩
  · have hnext := hc.running_committing hr hcommitting
    rw [hcid, hid] at hnext
    simp at hnext
  · exact absurd hid (hother r hr)
  · rfl

end

end OpenJournal

end XKernel.Ext4
