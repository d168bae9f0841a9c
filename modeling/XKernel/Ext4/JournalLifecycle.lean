import XKernel.Lib.Runs
import XKernel.Ext4.JournalBooks
/-!
# The life cycle of a transaction

A transaction runs, is frozen, enters the checkpoint queue and leaves it. Its contents stay
from the freeze on; it enters the queue when all ordered data registered on it is durable;
`is_committed` tells whether it has entered, as long as the ids can be compared.
-/

namespace XKernel.Ext4

open XKernel.Lib List Option JournalTransactions

namespace OpenJournal

variable {s s' : OpenJournal} {op : JournalOp} {first : TransactionId}

/-! ## Ordered data -/

/-- The writes from `base` on are those registered on the running transaction. Its generations
count them. -/
structure Tracks (s : OpenJournal) (r : RunningTransactionState) (base : Nat) : Prop where
  writes : ∀ (i k : Nat), s.writes[i]? = some k → (k = s.begun.length - 1 ↔ base ≤ i)
  length : s.writes.length = base + r.orderedGeneration.toNat
  flushed : r.flushedGeneration.toNat = 0 ∨ base + r.flushedGeneration.toNat ≤ s.durable
  pending : ∀ h ∈ s.handles, ∀ flush, h.flush = some flush → flush.covers = base + flush.generation.toNat

/-- The writes that belong to transaction `n` lie below `bound`. -/
def CoveredBy (s : OpenJournal) (n bound : Nat) : Prop := ∀ i, s.writes[i]? = some n → i < bound

/-- What is known of the ordered data while a transaction runs, commits and has entered the queue. -/
structure Ordered (s : OpenJournal) : Prop where
  begun : ∀ (i k : Nat), s.writes[i]? = some k → k < s.begun.length
  entered : ∀ k, k < s.entered.length → CoveredBy s k s.durable
  committing : ∀ c, s.journal.committing = some c → c.hasUnflushedOrderedData = false →
    CoveredBy s s.entered.length s.durable
  flushing : ∀ commit covers, s.commitFlush = some (commit, covers) →
    s.journal.committing = some ⟨commit, true⟩ ∧ CoveredBy s s.entered.length covers
  running : ∀ r, s.journal.running = some r → ∃ base, Tracks s r.state base

theorem CoveredBy.mono {n a b : Nat} (h : CoveredBy s n a) (hab : a ≤ b) : CoveredBy s n b :=
  fun i hi => (h i hi).trans_le hab

/-- A step that registers nothing, leaves the frozen transactions and forgets no flush. What
remains is the running transaction. -/
theorem Ordered.update (ho : Ordered s) (hwrites : s'.writes = s.writes) (hbegun : s'.begun = s.begun)
    (hentered : s'.entered = s.entered) (hdurable : s.durable ≤ s'.durable)
    (hcommitting : s'.journal.committing = s.journal.committing)
    (hflush : s'.commitFlush = s.commitFlush ∨ s'.commitFlush = none)
    (hrunning : ∀ r, s'.journal.running = some r → ∃ base, Tracks s' r.state base) : Ordered s' := by
  obtain ⟨hb, he, hc, hf, -⟩ := ho
  refine ⟨by rwa [hwrites, hbegun], ?_, ?_, ?_, hrunning⟩
  · intro k hk i hi
    rw [hentered] at hk
    rw [hwrites] at hi
    exact (he k hk i hi).trans_le hdurable
  · intro c hcommit hflag i hi
    rw [hcommitting] at hcommit
    rw [hentered, hwrites] at hi
    exact (hc c hcommit hflag i hi).trans_le hdurable
  · intro commit covers hflushing
    rcases hflush with hflush | hflush
    · rw [hflush] at hflushing
      obtain ⟨hcommit, hcovered⟩ := hf commit covers hflushing
      rw [CoveredBy, hcommitting, hentered, hwrites]
      exact ⟨hcommit, hcovered⟩
    · rw [hflush] at hflushing
      cases hflushing

variable {r : RunningTransactionState}

/-- The generations of the running transaction stay, and no handle begins a flush. -/
theorem Tracks.update {r' : RunningTransactionState} {base : Nat} (ht : Tracks s r base)
    (hwrites : s'.writes = s.writes) (hbegun : s'.begun = s.begun) (hdurable : s.durable ≤ s'.durable)
    (hordered : r'.orderedGeneration = r.orderedGeneration) (hflushed : r'.flushedGeneration = r.flushedGeneration)
    (hhandles : ∀ h ∈ s'.handles, h.flush = none ∨ h ∈ s.handles) : Tracks s' r' base := by
  obtain ⟨hw, hl, hf, hp⟩ := ht
  refine ⟨by rwa [hwrites, hbegun], by rwa [hwrites, hordered], ?_, ?_⟩
  · rw [hflushed]
    omega
  · intro h hmem flush hflush
    rcases hhandles h hmem with hnone | hold
    · cases hnone.symm.trans hflush
    · exact hp h hold flush hflush

variable {i : Nat}

theorem mem_set_free {h' : JournalHandle} {handles : List OpenHandle} :
    ∀ h ∈ handles.set i ⟨h', none⟩, h.flush = none ∨ h ∈ handles := by
  intro h hmem
  rcases mem_or_eq_of_mem_set hmem with hold | rfl
  · exact .inr hold
  · exact .inl rfl

/-- The running transaction stays, and no handle begins a flush. -/
theorem Ordered.running_kept (ho : Ordered s) (hrunning : s'.journal.running = s.journal.running)
    (hwrites : s'.writes = s.writes) (hbegun : s'.begun = s.begun) (hdurable : s.durable ≤ s'.durable)
    (hhandles : ∀ h ∈ s'.handles, h.flush = none ∨ h ∈ s.handles) :
    ∀ r, s'.journal.running = some r → ∃ base, Tracks s' r.state base := by
  intro r hr
  obtain ⟨base, ht⟩ := ho.running r (hrunning ▸ hr)
  exact ⟨base, ht.update hwrites hbegun hdurable rfl rfl hhandles⟩

variable {id : TransactionId}

theorem running_of_eq (hr : s.journal.running = some ⟨id, r⟩)
    (h : ∃ base, Tracks s r base) : ∀ q, s.journal.running = some q → ∃ base, Tracks s q.state base := by
  intro q hq
  cases hr.symm.trans hq
  exact h

/-- The running transaction comes behind the committing one and those that have entered. -/
theorem Chain.lt_running (hc : Chain first s) {r : RunningTransaction} (hr : s.journal.running = some r) :
    s.entered.length + s.journal.committing.toList.length = s.begun.length - 1 ∧ 0 < s.begun.length := by
  have hcount := hc.count
  rw [hr] at hcount
  simp only [toList_some, length_singleton] at hcount
  omega

theorem coveredBy_append {n a : Nat} (h : CoveredBy s n a) (hn : n ≠ s.begun.length - 1) {j : JournalTransactions} :
    CoveredBy { s with journal := j, writes := s.writes ++ [s.begun.length - 1] } n a := by
  intro i hi
  rw [getElem?_append] at hi
  split at hi
  · exact h i hi
  · obtain ⟨hlt, heq⟩ := List.getElem?_eq_some_iff.1 hi
    rw [getElem_singleton] at heq
    exact absurd heq.symm hn

theorem Ordered.registers {n : UInt64} (ho : Ordered s) (hc : Chain first s)
    (hr : s.journal.running = some ⟨id, r⟩) (hn : n.toNat = r.orderedGeneration.toNat + 1) :
    Ordered { s with
      journal := { s.journal with running := some ⟨id, { r with orderedGeneration := n }⟩ }
      writes := s.writes ++ [s.begun.length - 1] } := by
  obtain ⟨hlt, hpos⟩ := hc.lt_running hr
  obtain ⟨base, ht⟩ := ho.running _ hr
  have hlength := ht.length
  dsimp only at hlength
  refine ⟨?_, ?_, ?_, ?_, running_of_eq rfl ⟨base, ?_, ?_, ht.flushed, ht.pending⟩⟩
  · intro i k hi
    rw [getElem?_append] at hi
    split at hi
    · exact ho.begun i k hi
    · obtain ⟨hlt, heq⟩ := List.getElem?_eq_some_iff.1 hi
      rw [getElem_singleton] at heq
      dsimp only
      omega
  · intro k hk
    dsimp only at hk
    exact coveredBy_append (ho.entered k hk) (by omega)
  · intro c hcommitting hflag
    rw [hcommitting, toList_some, length_singleton] at hlt
    exact coveredBy_append (ho.committing c hcommitting hflag) (by omega)
  · intro commit covers hflush
    obtain ⟨hcommitting, hcovered⟩ := ho.flushing commit covers hflush
    rw [hcommitting, toList_some, length_singleton] at hlt
    exact ⟨hcommitting, coveredBy_append hcovered (by omega)⟩
  · intro i k hi
    rw [getElem?_append] at hi
    split at hi
    · exact ht.writes i k hi
    · obtain ⟨hlt, heq⟩ := List.getElem?_eq_some_iff.1 hi
      rw [getElem_singleton] at heq
      dsimp only
      omega
  · simp only [length_append, length_singleton]
    omega

theorem Ordered.starts {r' : RunningTransactionState} {credits : UInt32} (ho : Ordered s)
    (hidle : s.handles = []) (hbegin : RunningTransactionState.new.beginHandle credits = .ok r') :
    Ordered (s.started credits r') := by
  obtain ⟨active, reserved, -, -, rfl⟩ := beginHandle_eq_ok.1 hbegin
  refine ⟨?_, ho.entered, ho.committing, ho.flushing, running_of_eq rfl ⟨s.writes.length, ?_, rfl, .inl rfl, ?_⟩⟩
  · intro i k hi
    have := ho.begun i k hi
    simp only [length_append]
    omega
  · intro i k hi
    have hk := ho.begun i k hi
    have hi : i < s.writes.length := (List.getElem?_eq_some_iff.1 hi).1
    simp only [length_append, length_singleton]
    omega
  · simp [hidle]

theorem Ordered.freezes (ho : Ordered s) (hc : Chain first s)
    (hr : s.journal.running = some ⟨id, r⟩) (hcommitting : s.journal.committing = none) {c : Option TransactionId} :
    Ordered { s with
      journal := { s.journal with running := none, committing := some (r.freeze id), closing := c } } := by
  obtain ⟨hlt, -⟩ := hc.lt_running hr
  rw [hcommitting] at hlt
  obtain ⟨base, ht⟩ := ho.running _ hr
  refine ⟨ho.begun, ho.entered, ?_, ?_, nofun⟩
  · rintro _ ⟨⟩ hflag i hi
    -- the flag is off, so the last generation was flushed
    have heq : r.orderedGeneration = r.flushedGeneration := by
      simpa [RunningTransactionState.freeze] using hflag
    have hbase := (ht.writes i _ hi).1 (by simpa using hlt)
    have hi := (List.getElem?_eq_some_iff.1 hi).1
    have hlength := ht.length
    have hflushed := ht.flushed
    dsimp only at hlength hflushed hi ⊢
    rw [← heq] at hflushed
    omega
  · intro commit covers hflush
    obtain ⟨hsome, -⟩ := ho.flushing commit covers hflush
    cases hcommitting.symm.trans hsome

theorem Ordered.enters {frozen : FrozenTransaction} (ho : Ordered s) (persisted : JournalLogCommit)
    (hcommitting : s.journal.committing = some frozen) (hflag : frozen.hasUnflushedOrderedData = false) :
    Ordered (s.filed frozen persisted) := by
  refine ⟨ho.begun, ?_, nofun, ?_, ho.running_kept rfl rfl rfl le_rfl fun _ hm => .inr hm⟩
  · intro k hk
    rw [length_append, length_singleton, Nat.lt_succ_iff_lt_or_eq] at hk
    rcases hk with hk | rfl
    · exact ho.entered k hk
    · exact ho.committing frozen hcommitting hflag
  · intro commit covers hflush
    obtain ⟨hsome, -⟩ := ho.flushing commit covers hflush
    cases hcommitting.symm.trans hsome
    cases hflag

theorem Ordered.step (ho : Ordered s) (hb : Books s) (hc : Chain first s) (he : Effect s op s') : Ordered s' := by
  cases he with
  | same => exact ho
  | closing | aborts | retires =>
    exact ho.update rfl rfl rfl le_rfl rfl (.inl rfl)
      (ho.running_kept rfl rfl rfl le_rfl fun _ hm => .inr hm)
  | moves _ hr hmoved =>
    exact ho.update rfl rfl rfl le_rfl rfl (.inl rfl) (running_of_eq rfl ((ho.running _ hr).imp fun _ ht =>
      ht.update rfl rfl le_rfl hmoved.ordered_eq hmoved.flushed_eq mem_set_free))
  | registers _ hr hn => exact ho.registers hc hr hn
  | @flushes i h r hi hr =>
    refine ho.update rfl rfl rfl le_rfl rfl (.inl rfl) (running_of_eq hr ?_)
    obtain ⟨base, ht⟩ := ho.running _ hr
    refine ⟨base, ht.writes, ht.length, ht.flushed, ?_⟩
    intro h hmem flush hflush
    rcases mem_or_eq_of_mem_set hmem with hold | rfl
    · exact ht.pending h hold flush hflush
    · cases hflush
      exact ht.length
  | flushFails hi hdurable =>
    exact ho.update rfl rfl rfl hdurable rfl (.inl rfl)
      (ho.running_kept rfl rfl rfl hdurable mem_set_free)
  | @flushed i h flush r hi hr =>
    refine ho.update rfl rfl rfl (le_max_left _ _) rfl (.inl rfl) (running_of_eq rfl ?_)
    obtain ⟨base, ht⟩ := ho.running _ hr
    have hcovers := ht.pending _ (mem_of_getElem? hi) flush rfl
    have hflushed := ht.flushed
    refine ⟨base, ht.writes, ht.length, ?_, ?_⟩
    · dsimp only at hflushed ⊢
      rcases max_choice r.flushedGeneration flush.generation with heq | heq
      · rw [heq]
        omega
      · rw [heq]
        omega
    · intro h hmem flush' hflush
      rcases mem_set_free h hmem with hnone | hold
      · cases hnone.symm.trans hflush
      · exact ht.pending h hold flush' hflush
  | opens _ _ hr hbegin =>
    obtain ⟨active, reserved, -, -, rfl⟩ := beginHandle_eq_ok.1 hbegin
    refine ho.update rfl rfl rfl le_rfl rfl (.inl rfl) (running_of_eq rfl ((ho.running _ hr).imp fun _ ht =>
      ht.update rfl rfl le_rfl rfl rfl ?_))
    intro h hmem
    rcases mem_append.1 hmem with hold | hnew
    · exact .inr hold
    · rw [mem_singleton.1 hnew]
      exact .inl rfl
  | starts _ _ hr hbegin => exact ho.starts (hb.idle hr) hbegin
  | closes _ hr hfinished =>
    obtain ⟨active, reserved, -, -, rfl⟩ := runningFinishHandle_eq_ok.1 hfinished
    exact ho.update rfl rfl rfl le_rfl rfl (.inl rfl) (running_of_eq rfl ((ho.running _ hr).imp fun _ ht =>
      ht.update rfl rfl le_rfl rfl rfl fun _ hm => .inr (mem_of_mem_eraseIdx hm)))
  | loses hi hfailed => exact (hb.not_lost hi hfailed).elim
  | freezes hr _ hcommitting => exact ho.freezes hc hr hcommitting
  | @commitFlushes frozen hcommitting hunflushed =>
    refine ⟨ho.begun, ho.entered, ho.committing, ?_, ho.running_kept rfl rfl rfl le_rfl fun _ hm => .inr hm⟩
    rintro commit covers ⟨⟩
    refine ⟨?_, fun i hi => (List.getElem?_eq_some_iff.1 hi).1⟩
    rw [hcommitting, ← hunflushed]
  | commitFlushFails _ hdurable =>
    exact ho.update rfl rfl rfl hdurable rfl (.inr rfl)
      (ho.running_kept rfl rfl rfl hdurable fun _ hm => .inr hm)
  | @commitFlushed frozen covers hflush hcommitting =>
    obtain ⟨-, hcovered⟩ := ho.flushing _ _ hflush
    refine ⟨ho.begun, fun k hk => (ho.entered k hk).mono (le_max_left _ _), ?_, nofun,
      ho.running_kept rfl rfl rfl (le_max_left _ _) fun _ hm => .inr hm⟩
    intro c _ _
    exact hcovered.mono (le_max_right _ _)
  | enters persisted hcommitting hflag =>
    exact ho.enters persisted hcommitting hflag

/-! ## Frozen transactions -/

/-- The committing transaction stays as it is until it enters the queue, and the queue is only
extended at its end and shortened at its front. -/
structure FrozenKept (s s' : OpenJournal) : Prop where
  committing : ∀ c, s.journal.committing = some c →
    (∃ c', s'.journal.committing = some c' ∧ c'.commit = c.commit) ∨
      ∃ persisted, s'.journal.checkpointTransactions = s.journal.checkpointTransactions ++ [(c.commit, persisted)]
  queue : s'.journal.checkpointTransactions = s.journal.checkpointTransactions ∨
    (∃ c persisted, s.journal.committing = some c ∧
      s'.journal.checkpointTransactions = s.journal.checkpointTransactions ++ [(c.commit, persisted)]) ∨
    ∃ checkpoint, s.journal.checkpointTransactions = checkpoint :: s'.journal.checkpointTransactions

theorem frozenKept_of_effect (hb : Books s) (he : Effect s op s') : FrozenKept s s' := by
  cases he with
  | loses hi hfailed => exact (hb.not_lost hi hfailed).elim
  | freezes _ _ hnone => exact ⟨(fun c hc => by cases hnone.symm.trans hc), .inl rfl⟩
  | commitFlushed _ hcommitting =>
    refine ⟨fun c hc => .inl ⟨_, rfl, ?_⟩, .inl rfl⟩
    cases hcommitting.symm.trans hc
    rfl
  | @enters frozen persisted hcommitting =>
    refine ⟨fun c hc => .inr ⟨persisted, ?_⟩, .inr (.inl ⟨frozen, persisted, hcommitting, rfl⟩)⟩
    cases hcommitting.symm.trans hc
    rfl
  | @retires checkpoint _ hqueue =>
    exact ⟨fun c hc => .inl ⟨c, hc, rfl⟩, .inr (.inr ⟨checkpoint, hqueue⟩)⟩
  | _ => exact ⟨fun c hc => .inl ⟨c, hc, rfl⟩, .inl rfl⟩

/-! ## Ids and their order -/

/-- The ids of the checkpoint queue, of the committing and of the running transaction. -/
def liveIds (s : OpenJournal) : List TransactionId :=
  s.journal.checkpointTransactions.map (·.1.id) ++
    (s.journal.committing.toList.map (·.commit.id) ++ s.journal.running.toList.map (·.id))

/-- How many transactions have left the queue. -/
def retired (s : OpenJournal) : Nat := s.entered.length - s.journal.checkpointTransactions.length

theorem Chain.queue_id (hc : Chain first s) {c : RuntimeTransaction × JournalLogCommit}
    (hi : s.journal.checkpointTransactions[i]? = some c) : c.1.id = idOf first (s.retired + i) := by
  have hmap : (s.journal.checkpointTransactions.map Prod.fst)[i]? = some c.1 := by
    rw [getElem?_map, hi]
    rfl
  rw [hc.queue, getElem?_drop] at hmap
  exact hc.entered _ _ hmap

variable {t : TransactionId}

theorem Chain.liveIds_eq (hc : Chain first s) (hi : s.liveIds[i]? = some t) :
    t = s.journal.checkpointedThrough + 1 + UInt32.ofNat i := by
  rw [hc.through, idOf, UInt32.add_assoc, ← UInt32.ofNat_add, ← idOf]
  have hle := hc.queue_le
  have hcount := hc.count
  unfold liveIds at hi
  rw [getElem?_append, length_map] at hi
  split at hi
  · rw [getElem?_map, map_eq_some_iff] at hi
    obtain ⟨c, hi, rfl⟩ := hi
    exact hc.queue_id hi
  rw [getElem?_append, length_map] at hi
  split at hi
  · rename_i hlt
    rw [getElem?_map, map_eq_some_iff] at hi
    obtain ⟨c, hi, rfl⟩ := hi
    have hcommitting := mem_toList.1 (mem_of_getElem? hi)
    rw [show s.journal.committing = some c from hcommitting] at hlt
    rw [hc.committing c hcommitting]
    congr 1
    simp at hlt
    omega
  · rw [getElem?_map, map_eq_some_iff] at hi
    obtain ⟨r, hi, rfl⟩ := hi
    have hlt := (List.getElem?_eq_some_iff.1 hi).1
    have hrunning : s.journal.running = some r := mem_toList.1 (mem_of_getElem? hi)
    rw [hrunning] at hlt hcount
    rw [hc.running_id hrunning]
    congr 1
    simp at hlt hcount
    omega

/-- Two ids that are close enough compare like the numbers of their transactions. -/
theorem sameOrOlder_iff {a c : Nat} {last : TransactionId} (hlast : last + 1 = idOf first c) (hle : c ≤ a + 2 ^ 31)
    (hlt : a < c + 2 ^ 31) : transactionIsSameOrOlder (idOf first a) last = true ↔ a < c := by
  have hnat := congrArg UInt32.toNat hlast
  rw [idOf, UInt32.toNat_add, UInt32.toNat_add, UInt32.toNat_ofNat', UInt32.toNat_one] at hnat
  rw [transactionIsSameOrOlder, decide_eq_true_iff, idOf, UInt32.toNat_sub, UInt32.toNat_add, UInt32.toNat_ofNat']
  omega

/-- `is_committed` of a transaction that is near enough to the youngest one. -/
theorem Chain.isCommitted_iff (hc : Chain first s) {k : Nat} (hk : s.begun[k]? = some t)
    (hnear : s.begun.length ≤ k + 2 ^ 31) (hfew : s.begun.length ≤ s.retired + 2 ^ 31) :
    s.journal.isCommitted t = true ↔ k < s.entered.length := by
  have hlt := (List.getElem?_eq_some_iff.1 hk).1
  have hle := hc.queue_le
  have hcount := hc.count
  have hretired : s.retired = s.entered.length - s.journal.checkpointTransactions.length := rfl
  obtain rfl := hc.begun k t hk
  rw [isCommitted, Bool.or_eq_true, isCheckpointed,
    sameOrOlder_iff hc.through (by omega) (by omega), ← hretired]
  cases hlast : s.journal.checkpointTransactions.getLast? with
  | none =>
    rw [List.getLast?_eq_none_iff] at hlast
    rw [hlast] at hretired
    simp [hretired]
  | some last =>
    have hpos : s.journal.checkpointTransactions.length ≠ 0 := by
      intro hnil
      rw [List.eq_nil_of_length_eq_zero hnil] at hlast
      cases hlast
    rw [List.getLast?_eq_getElem?] at hlast
    have hid : last.1.id + 1 = _ := congrArg (· + 1) (hc.queue_id hlast)
    rw [← idOf_succ, show s.retired + (s.journal.checkpointTransactions.length - 1) + 1 =
      s.entered.length by omega] at hid
    rw [Option.any_some, sameOrOlder_iff hid (by omega) (by omega)]
    omega

/-! ## Every run -/

theorem sound_of_run {limit : UInt32} (hrun : Run step (fun _ _ => True) (new first limit) s) :
    Books s ∧ Chain first s ∧ Ordered s := by
  refine hrun.inv (fun s => Books s ∧ Chain first s ∧ Ordered s)
    ⟨new_books first limit, new_chain first limit, ⟨nofun, nofun, nofun, nofun, nofun⟩⟩ ?_
  rintro s op s' ⟨hb, hc, ho⟩ - hs
  have he := effect_of_step hs
  exact ⟨hb.step he, hc.step hb he, ho.step hb hc he⟩

/-- After every run: the ids of the live transactions follow those that were checkpointed, and
all others that were begun have entered the queue; open handles belong to the running
transaction, and no step changes a frozen one; the ordered data of a transaction that has
entered the queue is covered by a flush; and `is_committed` tells which transactions have
entered, of the last `2 ^ 31` ones while no more than that are live. -/
theorem run_lifecycle (first : TransactionId) (limit : UInt32) (s : OpenJournal)
    (hrun : Run step (fun _ _ => True) (new first limit) s) :
    (∀ i t, s.liveIds[i]? = some t → t = s.journal.checkpointedThrough + 1 + UInt32.ofNat i) ∧
    s.begun.length = s.entered.length + s.journal.committing.toList.length + s.journal.running.toList.length ∧
    (∀ h ∈ s.handles, ∃ r, s.journal.running = some r ∧ h.handle.id = r.id) ∧
    (∀ op s', s.step op = some s' → FrozenKept s s') ∧
    (∀ i k, s.writes[i]? = some k → k < s.entered.length → i < s.durable) ∧
    ∀ k t, s.begun[k]? = some t → s.begun.length ≤ k + 2 ^ 31 → s.begun.length ≤ s.retired + 2 ^ 31 →
      (s.journal.isCommitted t = true ↔ k < s.entered.length) := by
  obtain ⟨hb, hc, ho⟩ := sound_of_run hrun
  refine ⟨fun i t hi => hc.liveIds_eq hi, hc.count, ?_, fun op s' hs => frozenKept_of_effect hb (effect_of_step hs),
    fun i k hi hk => ho.entered k hk i hi, fun k t hk hnear hfew => hc.isCommitted_iff hk hnear hfew⟩
  intro h hmem
  obtain ⟨i, hi⟩ := getElem?_of_mem hmem
  obtain ⟨r, hr⟩ := hb.running hi
  exact ⟨⟨h.handle.id, r⟩, hr, rfl⟩

/-- A transaction with ordered data goes through its life, and the next one begins. -/
def sampleLife : List JournalOp :=
  [.begin 2, .requireOrderedDataFlush 0, .startFlush 0, .endFlush 0 true, .requireOrderedDataFlush 0, .stop 0,
    .forceCommit 7, .startCommitFlush ⟨7, [], []⟩, .begin 1, .endCommitFlush true,
    .startCheckpoint ⟨7, [], []⟩ ⟨7, 1, 2, 8, 0, 0, 0⟩]

theorem run_lifecycle_sample : ∃ s, Run step (fun _ _ => True) (new 7 4) s ∧ s.liveIds = [7, 8] ∧
    s.writes = [0, 0] ∧ s.durable = 2 ∧ s.journal.isCommitted 7 = true ∧ s.journal.isCommitted 8 = false := by
  obtain ⟨s, hrun, hids, hwrites, hdurable, hbegun, hentered, hretired⟩ : ∃ s, Run step (fun _ _ => True) (new 7 4) s ∧
      s.liveIds = [7, 8] ∧ s.writes = [0, 0] ∧ s.durable = 2 ∧ s.begun = [7, 8] ∧ s.entered.length = 1 ∧
        s.retired = 0 :=
    Run.exists_of_exec sampleLife (by decide +kernel)
  obtain ⟨-, -, -, -, -, hcommitted⟩ := run_lifecycle 7 4 s hrun
  rw [hbegun, hentered, hretired] at hcommitted
  have hold := hcommitted 0 7 rfl (by decide) (by decide)
  have hnew := hcommitted 1 8 rfl (by decide) (by decide)
  exact ⟨s, hrun, hids, hwrites, hdurable, hold.2 (by decide), by simpa using hnew⟩

/-! ## Ids that are too far apart -/

/-- Nothing is open, live or sealed. -/
structure Rests (s : OpenJournal) : Prop where
  aborted : s.journal.aborted = none
  running : s.journal.running = none
  committing : s.journal.committing = none
  queue : s.journal.checkpointTransactions = []
  closing : s.journal.closing = none
  handles : s.handles = []

/-- One empty transaction is begun, committed and checkpointed. -/
def emptyLife (id : TransactionId) : List JournalOp :=
  [.begin 0, .stop 0, .forceCommit id, .startCheckpoint ⟨id, [], []⟩ ⟨id, 1, 1, id, 0, 0, 0⟩,
    .finishCheckpoint ⟨id, [], []⟩]

theorem Rests.life (hr : Rests s) (hthrough : s.journal.checkpointedThrough + 1 = s.journal.nextTransaction) :
    ∃ s', exec step (fun _ _ => True) s (emptyLife s.journal.nextTransaction) = some s' ∧ Rests s' ∧
      s'.begun.length = s.begun.length + 1 := by
  obtain ⟨⟨limit, aborted, next, running, committing, queue, through, closing⟩, handles, flush, begun, entered, writes,
    durable⟩ := s
  obtain ⟨h1, h2, h3, h4, h5, h6⟩ := hr
  dsimp only at h1 h2 h3 h4 h5 h6 hthrough
  subst h1 h2 h3 h4 h5 h6 hthrough
  refine ⟨⟨⟨limit, none, through + 1 + 1, none, none, [], through + 1, none⟩, [], flush, begun ++ [through + 1],
    entered ++ [⟨through + 1, [], []⟩], writes, durable⟩, ?_, ⟨rfl, rfl, rfl, rfl, rfl, rfl⟩, by simp⟩
  have hyounger : ¬ UInt32.toNat (through - (through + 1)) < 2147483648 := by
    rw [UInt32.toNat_sub, UInt32.toNat_add, UInt32.toNat_one]
    omega
  simp [exec, emptyLife, step, onJournal, freeHandle, begin, canFitHandle,
    RunningTransactionState.beginHandle, RunningTransactionState.new, checkedAdd, JournalHandle.stop,
    JournalHandle.finish, JournalHandle.drop, finishHandle, RunningTransactionState.finishHandle, checkedSub, failIf,
    forceCommit, checkNotAborted, RunningTransactionState.freeze,
    startCheckpoint, finishCheckpoint, isCheckpointed,
    transactionIsSameOrOlder, Except.toOption, BTreeSet.empty, Option.filter]

/-- Any number of transactions can have been checkpointed. -/
theorem exists_rests (first : TransactionId) (limit : UInt32) (n : Nat) :
    ∃ s, Run step (fun _ _ => True) (new first limit) s ∧ Rests s ∧ s.begun.length = n := by
  induction n with
  | zero => exact ⟨new first limit, .nil, ⟨rfl, rfl, rfl, rfl, rfl, rfl⟩, rfl⟩
  | succ n ih =>
    obtain ⟨s, hrun, hr, hn⟩ := ih
    obtain ⟨-, hc, -⟩ := sound_of_run hrun
    have hcount := hc.count
    rw [hr.committing, hr.running] at hcount
    have hthrough : s.journal.checkpointedThrough + 1 = s.journal.nextTransaction := by
      rw [hc.through, hc.next, hr.queue, hcount]
      rfl
    obtain ⟨s', hexec, hr', hn'⟩ := hr.life hthrough
    exact ⟨s', hrun.of_exec hexec, hr', by rw [hn', hn]⟩

/-- Behind `2 ^ 31` further ones, a checkpointed transaction is no longer reported as committed. -/
theorem isCommitted_forgets : ∃ s, Run step (fun _ _ => True) (new 1 4) s ∧ s.begun[0]? = some 1 ∧
    0 < s.entered.length ∧ s.journal.isCommitted 1 = false := by
  obtain ⟨s, hrun, hr, hn⟩ := exists_rests 1 4 (2 ^ 31 + 1)
  obtain ⟨-, hc, -⟩ := sound_of_run hrun
  have hcount := hc.count
  rw [hr.committing, hr.running, hn] at hcount
  have hentered : s.entered.length = 2 ^ 31 + 1 := hcount.symm
  have hfirst : s.begun[0]? = some 1 := by
    obtain ⟨t, ht⟩ : ∃ t, s.begun[0]? = some t := ⟨_, getElem?_eq_getElem (by omega)⟩
    rw [ht, hc.begun 0 t ht]
    rfl
  refine ⟨s, hrun, hfirst, by omega, ?_⟩
  have hthrough := hc.through
  rw [hr.queue, hentered, idOf] at hthrough
  have hthrough : s.journal.checkpointedThrough = 2147483649 := by
    rw [← UInt32.add_left_inj 1, hthrough]
    rfl
  rw [isCommitted, isCheckpointed, hr.queue, hthrough]
  rfl

end OpenJournal

end XKernel.Ext4
