import XKernel.Ext4.JournalFormat
/-!
# The block writes of a commit

The batch hands consecutive blocks to the writer in one request and starts a new request
where the log wraps. In the order of the block writes nothing of this is left: a commit
writes the blocks of the transaction, one behind the other, from its start on.
-/

namespace XKernel.Ext4

open XKernel.Lib List JournalWriteBatch

variable {sb : JournalSuperblock}

/-! ## Requests -/

theorem chunksExact_flatten {n : Nat} {blocks : List Bytes} (h : ∀ b ∈ blocks, b.length = n) :
    chunksExact n blocks.length blocks.flatten = blocks := by
  induction blocks with
  | nil => rfl
  | cons b bs ih =>
    have hb : b.length = n := h b mem_cons_self
    rw [length_cons, chunksExact, flatten_cons, ← hb, take_left, drop_left, hb,
      ih fun c hc => h c (mem_cons_of_mem b hc)]

theorem length_flatten_of {n : Nat} {blocks : List Bytes} (h : ∀ b ∈ blocks, b.length = n) :
    blocks.flatten.length = blocks.length * n := by
  rw [length_flatten, sum_eq_card_nsmul _ n (by simpa using h), length_map, smul_eq_mul]

/-- A request that ends before the log does is a stretch of the ring. -/
theorem placeFrom_eq (r : Ring) {p : Nat} {blocks : List Bytes} (h : p + blocks.length ≤ r.hi) :
    placeFrom p blocks = r.place p blocks := by
  induction blocks generalizing p with
  | nil => rfl
  | cons b bs ih =>
    rw [length_cons] at h
    cases bs with
    | nil => rfl
    | cons =>
      have hnext : r.next p = p + 1 := by
        rw [length_cons] at h
        rw [Ring.next, if_neg (by omega)]
      rw [placeFrom, Ring.place, hnext, ih (by omega)]

theorem writeJournalBlocks_flatten {n start : Nat} {blocks : List Bytes} (hn : 0 < n) (hne : blocks ≠ [])
    (h : ∀ b ∈ blocks, b.length = n) :
    writeJournalBlocks start blocks.length blocks.flatten = .ok (placeFrom start blocks) := by
  have hpos := length_pos_of_ne_nil hne
  have hsize : blocks.flatten.length / blocks.length = n := by
    rw [length_flatten_of h, Nat.mul_div_cancel_left _ hpos]
  have hlen : ¬ (n = 0 ∨ blocks.flatten.length ≠ n * blocks.length) := by
    rw [length_flatten_of h, Nat.mul_comm]
    omega
  simp only [writeJournalBlocks, if_neg hpos.ne', hsize, failIf, hlen, if_false, ok_bind, chunksExact_flatten h,
    pure_eq_ok]

/-! ## The batch -/

theorem JournalSuperblock.validateStart_eq_ok {start : Nat} {u : Unit} :
    sb.validateStart start = .ok u ↔ sb.ring.Mem start := by
  unfold validateStart
  by_cases h : sb.firstLogBlock ≤ start ∧ start < sb.maxBlocks
  · rw [if_pos h]
    exact iff_of_true rfl h
  · rw [if_neg h]
    exact iff_of_false nofun h

namespace JournalWriteBatch

/-- The batch was given `blocks`, from `start` on: some of them have been handed to the
writer, and the rest waits in one request that ends by `limit`. -/
structure Holds (sb : JournalSuperblock) (limit : Nat) (b : JournalWriteBatch) (start : Nat) (blocks : List Bytes) :
    Prop where
  inLog : sb.ring.Mem start
  sizes : ∀ x ∈ blocks, x.length = sb.blockSize
  next_eq : b.next = sb.ring.adv start blocks.length
  split : ∃ done pending, blocks = done ++ pending ∧ b.written = sb.ring.place start done ∧ b.bytes = pending.flatten ∧
    (b.start = if pending = [] then none else some (sb.ring.adv start done.length)) ∧
    sb.ring.adv start done.length + pending.length ≤ limit

/-- Between two pushes: the request ends before the log does. -/
abbrev Between (sb : JournalSuperblock) := Holds sb (sb.maxBlocks - 1)

variable {b : JournalWriteBatch} {start : Nat} {blocks : List Bytes}

theorem new_between (h : sb.validateStart start = .ok ()) : ∃ b, new sb start = .ok b ∧ Between sb b start [] := by
  have hmem := JournalSuperblock.validateStart_eq_ok.1 h
  refine ⟨_, by rw [new, h, ok_bind]; rfl, ?_⟩
  exact ⟨hmem, nofun, rfl, [], [], rfl, rfl, rfl, rfl, Nat.le_sub_one_of_lt hmem.2⟩

theorem Holds.flush (h : Holds sb sb.maxBlocks b start blocks) :
    ∃ b', b.flush sb = .ok b' ∧ Between sb b' start blocks ∧ b'.written = sb.ring.place start blocks := by
  obtain ⟨hin, hsz, hnext, done, pending, rfl, hw, hb, hs, hend⟩ := h
  have hlast : ∀ n, sb.ring.adv start n ≤ sb.maxBlocks - 1 := fun n => Nat.le_sub_one_of_lt (hin.adv n).2
  by_cases hp : pending = []
  · subst hp
    refine ⟨b, ?_, ⟨hin, hsz, hnext, done, [], rfl, hw, hb, hs, hlast _⟩, by simpa using hw⟩
    simp only [if_true] at hs
    simp only [flush, hs, pure_eq_ok]
  · rw [if_neg hp] at hs
    have hszp : ∀ x ∈ pending, x.length = sb.blockSize := fun x hx => hsz x (mem_append_right done hx)
    have hcount : b.bytes.length / sb.blockSize = pending.length := by
      rw [hb, length_flatten_of hszp, Nat.mul_div_cancel _ sb.blockSize_pos]
    have hreq : writeJournalBlocks (sb.ring.adv start done.length) pending.length b.bytes =
        .ok (sb.ring.place (sb.ring.adv start done.length) pending) := by
      rw [hb, writeJournalBlocks_flatten sb.blockSize_pos hp hszp, placeFrom_eq sb.ring hend]
    have hall : b.written ++ sb.ring.place (sb.ring.adv start done.length) pending =
        sb.ring.place start (done ++ pending) := by
      rw [hw, Ring.place_append]
    refine ⟨{ b with start := none, bytes := [], written := sb.ring.place start (done ++ pending) }, ?_, ?_, rfl⟩
    · simp only [flush, hs, hcount, hreq, ok_bind, hall, pure_eq_ok]
    · exact ⟨hin, hsz, hnext, done ++ pending, [], by simp, rfl, rfl, rfl, hlast _⟩

theorem Holds.push {input : Bytes} (h : Between sb b start blocks) (hi : input.length = sb.blockSize) :
    ∃ b', b.push sb input = .ok b' ∧ Between sb b' start (blocks ++ [input]) := by
  have hmin := sb.minBlocks_le
  obtain ⟨hin, hsz, hnext, done, pending, rfl, hw, hb, hs, hend⟩ := h
  -- the batch with the block added, before the flush
  let b1 : JournalWriteBatch :=
    { b with
      start := if b.bytes = [] then some b.next else b.start
      bytes := b.bytes ++ input
      next := sb.nextLogBlock b.next }
  have hempty : b.bytes = [] ↔ pending = [] := by
    rw [hb]
    constructor
    · intro h
      by_contra hp
      have hlen := length_flatten_of fun x hx => hsz x (mem_append_right done hx)
      rw [h, length_nil] at hlen
      have := Nat.mul_pos (length_pos_of_ne_nil hp) sb.blockSize_pos
      omega
    · rintro rfl
      rfl
  have hstart : b1.start = some (sb.ring.adv start done.length) := by
    by_cases hp : pending = []
    · simp only [b1, if_pos (hempty.2 hp), hnext, hp, append_nil]
    · simp only [b1, if_neg (mt hempty.1 hp), hs, if_neg hp]
  have hsize : ∀ x ∈ done ++ pending ++ [input], x.length = sb.blockSize := by
    exact forall_mem_append.2 ⟨hsz, forall_mem_singleton.2 hi⟩
  have hnext1 : b1.next = sb.ring.adv start (done ++ pending ++ [input]).length := by
    rw [length_append, length_singleton, ← Ring.next_adv, ← hnext]
    rfl
  have hholds : ∀ limit, sb.ring.adv start done.length + (pending.length + 1) ≤ limit →
      Holds sb limit b1 start (done ++ pending ++ [input]) := fun limit hl =>
    ⟨hin, hsize, hnext1, done, pending ++ [input], by simp, hw, by simp [b1, hb], by simpa using hstart,
      by simpa using hl⟩
  have hpush : b.push sb input =
      if b1.bytes.length / sb.blockSize = b1.maxBlocks ∨ b.next + 1 = sb.maxBlocks then b1.flush sb else .ok b1 := by
    simp only [push, failIf, hi, ne_eq, not_true_eq_false, if_false, ok_bind, pure_eq_ok, b1]
  rw [hpush]
  split
  · obtain ⟨b', hf, hb', _⟩ := (hholds sb.maxBlocks (by omega)).flush
    exact ⟨b', hf, hb'⟩
  · refine ⟨b1, rfl, hholds _ ?_⟩
    -- without a wrap the next block is the one behind the request
    have hcur : b.next = sb.ring.adv start done.length + pending.length := by
      rw [hnext, length_append, Ring.adv_add]
      exact Ring.adv_of_lt (show _ < sb.maxBlocks by omega)
    omega

theorem Holds.pushAll {inputs : List Bytes} (h : Between sb b start blocks)
    (hi : ∀ x ∈ inputs, x.length = sb.blockSize) :
    ∃ b', b.pushAll sb inputs = .ok b' ∧ Between sb b' start (blocks ++ inputs) := by
  induction inputs generalizing b blocks with
  | nil => exact ⟨b, rfl, by simpa using h⟩
  | cons x xs ih =>
    obtain ⟨b1, hpush, h1⟩ := Holds.push h (hi x mem_cons_self)
    obtain ⟨b2, hall, h2⟩ := ih h1 fun y hy => hi y (mem_cons_of_mem x hy)
    refine ⟨b2, ?_, by simpa using h2⟩
    rw [pushAll, hpush, ok_bind, hall]

end JournalWriteBatch

/-! ## Capacities -/

namespace JournalSuperblock

variable {sb : JournalSuperblock} {stop : Nat}

theorem descriptorTagAreaSize_mono (sb : JournalSuperblock) {m n : Nat} (h : m ≤ n) :
    sb.descriptorTagAreaSize m ≤ sb.descriptorTagAreaSize n := by
  have hmul : m * sb.journalTagSize ≤ n * sb.journalTagSize := Nat.mul_le_mul_right _ h
  by_cases h3 : sb.hasChecksumV3 = true
  · simpa [descriptorTagAreaSize, h3] using hmul
  · simp only [descriptorTagAreaSize, h3, Bool.false_eq_true, false_or]
    split_ifs <;> omega

/-- A count that the loop of `descriptor_tag_capacity` returns is zero or fits. -/
theorem tagCapacityLoop_fits (fuel count : Nat) (h : count = 0 ∨ headerSize + sb.descriptorTagAreaSize count ≤ stop) :
    sb.tagCapacityLoop stop fuel count = 0 ∨
      headerSize + sb.descriptorTagAreaSize (sb.tagCapacityLoop stop fuel count) ≤ stop := by
  induction fuel generalizing count with
  | zero => exact h
  | succ fuel ih =>
    simp only [tagCapacityLoop]
    split
    · exact h
    · exact ih _ (.inr (by omega))

variable {capacity : Nat}

theorem descriptorTagCapacity_spec (h : sb.descriptorTagCapacity sb.blockSize = .ok capacity) :
    ∃ stop, sb.descriptorPayloadEnd sb.blockSize = .ok stop ∧ 0 < capacity ∧
      headerSize + sb.descriptorTagAreaSize capacity ≤ stop := by
  obtain ⟨stop, hstop, h⟩ := bind_eq_ok.1 h
  obtain ⟨_, hne, h⟩ := bind_eq_ok.1 h
  have hne := failIf_eq_ok.1 hne
  cases h
  exact ⟨stop, hstop, Nat.pos_of_ne_zero hne, (tagCapacityLoop_fits stop 0 (.inl rfl)).resolve_left hne⟩

theorem revokeBlockCapacity_spec (h : sb.revokeBlockCapacity sb.blockSize = .ok capacity) :
    ∃ stop, sb.descriptorPayloadEnd sb.blockSize = .ok stop ∧ 0 < capacity ∧
      revokeHeaderSize + capacity * sb.revokeEntrySize ≤ stop := by
  obtain ⟨stop, hstop, h⟩ := bind_eq_ok.1 h
  obtain ⟨_, hlt, h⟩ := bind_eq_ok.1 h
  obtain ⟨_, hne, h⟩ := bind_eq_ok.1 h
  have hlt := failIf_eq_ok.1 hlt
  have hne := failIf_eq_ok.1 hne
  cases h
  refine ⟨stop, hstop, Nat.pos_of_ne_zero hne, ?_⟩
  have := Nat.div_mul_le_self (stop - revokeHeaderSize) sb.revokeEntrySize
  omega

/-! ## The image of a transaction -/

theorem length_loggedData (block : JournalCommitBlock) : (loggedData block).length = block.bytes.length := by
  unfold loggedData escapeJournalData
  split
  · rename_i h
    have hle := (Bytes.get_eq_some.1 h).1
    simp
    omega
  · rfl

/-- The blocks of a transaction in the log: descriptors with the data of their groups,
revoke blocks and the commit block. -/
structure LogImage (sb : JournalSuperblock) (transaction : TransactionId) where
  groups : List (List JournalCommitBlock × Bytes)
  revokes : List (List UInt64 × Bytes)
  commit : Bytes
  groups_ne : ∀ g ∈ groups, g.1 ≠ []
  revokes_ne : ∀ g ∈ revokes, g.1 ≠ []
  isDescriptor : ∀ g ∈ groups, sb.IsDescriptor transaction g.1 g.2
  isRevoke : ∀ g ∈ revokes, sb.IsRevoke transaction g.1 g.2
  hasRevoke : revokes ≠ [] → sb.hasRevoke = true
  isCommit : sb.IsCommit transaction commit

/-- A descriptor and the data behind it. -/
def groupBlocks (g : List JournalCommitBlock × Bytes) : List Bytes := g.2 :: g.1.map loggedData

namespace LogImage

variable {transaction : TransactionId}

def blocks (img : LogImage sb transaction) : List Bytes :=
  img.groups.flatMap groupBlocks ++ (img.revokes.map Prod.snd ++ [img.commit])

/-- The metadata blocks of the transaction. -/
def updates (img : LogImage sb transaction) : List JournalCommitBlock := img.groups.flatMap Prod.fst

def revoked (img : LogImage sb transaction) : List UInt64 := img.revokes.flatMap Prod.fst

end LogImage

variable {start : Nat} {b : JournalWriteBatch} {blocks : List Bytes}

theorem writeDescriptorGroups_spec (transaction : TransactionId)
    (hstop : sb.descriptorPayloadEnd sb.blockSize = .ok stop) {groups : List (List JournalCommitBlock)}
    (hgroups : ∀ g ∈ groups, g ≠ [] ∧ headerSize + sb.descriptorTagAreaSize g.length ≤ stop ∧
      ∀ x ∈ g, x.bytes.length = sb.blockSize)
    (h : JournalWriteBatch.Between sb b start blocks) :
    ∃ b', ∃ imgs : List (List JournalCommitBlock × Bytes),
      sb.writeDescriptorGroups transaction sb.checksumSeed groups b = .ok b' ∧ imgs.map Prod.fst = groups ∧
      (∀ g ∈ imgs, sb.IsDescriptor transaction g.1 g.2) ∧
      JournalWriteBatch.Between sb b' start (blocks ++ imgs.flatMap groupBlocks) := by
  induction groups generalizing b blocks with
  | nil => exact ⟨b, [], rfl, rfl, nofun, by simpa using h⟩
  | cons g gs ih =>
    obtain ⟨hne, hfit, hsz⟩ := hgroups g mem_cons_self
    obtain ⟨block, henc, hdesc⟩ := sb.encodeDescriptorGroup_spec transaction hstop hne hfit
    have hsizes : ∀ x ∈ groupBlocks (g, block), x.length = sb.blockSize := by
      refine forall_mem_cons.2 ⟨hdesc.length_eq, forall_mem_map.2 fun y hy => ?_⟩
      rw [length_loggedData, hsz y hy]
    obtain ⟨b1, hpush, h1⟩ := JournalWriteBatch.Holds.pushAll h hsizes
    obtain ⟨b2, imgs, hrec, hmap, hall, h2⟩ := ih (fun g' hg' => hgroups g' (mem_cons_of_mem g hg')) h1
    refine ⟨b2, (g, block) :: imgs, ?_, by simp [hmap], forall_mem_cons.2 ⟨hdesc, hall⟩, by simpa using h2⟩
    have hpush' : b.pushAll sb (block :: g.map loggedData) = .ok b1 := hpush
    simp only [writeDescriptorGroups, henc, ok_bind, hpush', hrec]

variable {groups : List (List UInt64)}

theorem revokeFits_of_writeRevokeBlocks {transaction : TransactionId} {seed : UInt32}
    {b' : JournalWriteBatch} (h : sb.writeRevokeBlocks transaction seed groups b = .ok b') :
    ∀ g ∈ groups, sb.RevokeFits g := by
  induction groups generalizing b with
  | nil => nofun
  | cons g gs ih =>
    obtain ⟨block, henc, h⟩ := bind_eq_ok.1 h
    obtain ⟨b1, -, h⟩ := bind_eq_ok.1 h
    exact forall_mem_cons.2 ⟨sb.revokeFits_of_encode transaction henc, ih h⟩

theorem writeRevokeBlocks_spec (transaction : TransactionId) (hstop : sb.descriptorPayloadEnd sb.blockSize = .ok stop)
    (hgroups : ∀ g ∈ groups, revokeHeaderSize + g.length * sb.revokeEntrySize ≤ stop ∧ sb.RevokeFits g)
    (h : JournalWriteBatch.Between sb b start blocks) :
    ∃ b', ∃ imgs : List (List UInt64 × Bytes),
      sb.writeRevokeBlocks transaction sb.checksumSeed groups b = .ok b' ∧ imgs.map Prod.fst = groups ∧
      (∀ g ∈ imgs, sb.IsRevoke transaction g.1 g.2) ∧ JournalWriteBatch.Between sb b' start
      (blocks ++ imgs.map Prod.snd) := by
  induction groups generalizing b blocks with
  | nil => exact ⟨b, [], rfl, rfl, nofun, by simpa using h⟩
  | cons g gs ih =>
    obtain ⟨hfit, hok⟩ := hgroups g mem_cons_self
    obtain ⟨block, henc, hrev⟩ := sb.encodeRevokeBlock_spec transaction hstop hfit hok
    obtain ⟨b1, hpush, h1⟩ := JournalWriteBatch.Holds.push h hrev.length_eq
    obtain ⟨b2, imgs, hrec, hmap, hall, h2⟩ := ih (fun g' hg' => hgroups g' (mem_cons_of_mem g hg')) h1
    refine ⟨b2, (g, block) :: imgs, ?_, by simp [hmap], forall_mem_cons.2 ⟨hrev, hall⟩, by simpa using h2⟩
    simp only [writeRevokeBlocks, henc, ok_bind, hpush, hrec]

/-! ## Commit -/

/-- What `write_journal_commit` accepted and wrote. -/
structure Written (sb : JournalSuperblock) (start : Nat) (commit : RuntimeTransaction)
    (blocks : List JournalCommitBlock)
    (log : JournalLogCommit) (writes : List BlockWrite) (img : LogImage sb commit.id) : Prop where
  inLog : sb.ring.Mem start
  features : sb.validateSupportedFeatures = .ok ()
  targets : blocks.map JournalCommitBlock.target = commit.metadataBlocks
  updates_eq : img.updates = blocks
  revoked_eq : img.revoked = commit.revokedBlocks
  required : sb.journalBlocksRequired commit blocks = .ok img.blocks.length
  writes_eq : writes = sb.ring.place start img.blocks
  length_le : img.blocks.length ≤ sb.usableLogCapacity
  log_eq : log = {
    transaction := commit.id
    start
    head := sb.ring.adv start img.blocks.length
    nextSequence := commit.id + 1
    updateCount := blocks.length
    revokeCount := commit.revokedBlocks.length
    journalBlockCount := img.blocks.length }

variable {blocks : List JournalCommitBlock}

theorem validateImages_spec {blockSize : Nat} {metadata : List UInt64}
    (hlen : blocks.length = metadata.length) (h : validateImages blockSize metadata blocks = .ok ()) :
    blocks.map JournalCommitBlock.target = metadata ∧ ∀ x ∈ blocks, x.bytes.length = blockSize := by
  induction metadata generalizing blocks with
  | nil =>
    rw [length_eq_zero_iff.1 hlen]
    simp
  | cons t ts ih =>
    cases blocks with
    | nil => cases hlen
    | cons =>
      obtain ⟨_, ht, h⟩ := bind_eq_ok.1 h
      obtain ⟨_, hx, h⟩ := bind_eq_ok.1 h
      have ht := failIf_eq_ok.1 ht
      have hx := failIf_eq_ok.1 hx
      obtain ⟨hmap, hall⟩ := ih (by simpa using hlen) h
      push Not at ht hx
      exact ⟨by simp [hmap, ht], by simpa [hx] using hall⟩

theorem length_flatMap_groupBlocks (groups : List (List JournalCommitBlock × Bytes)) :
    (groups.flatMap groupBlocks).length = groups.length + (groups.flatMap Prod.fst).length := by
  induction groups with
  | nil => rfl
  | cons g gs ih =>
    simp only [flatMap_cons, length_append, groupBlocks, length_cons, length_map]
    omega

/-- What `journal_log_blocks_for_counts` says of the capacities. -/
theorem journalLogBlocksForCounts_spec {m r total : Nat} (h : sb.journalLogBlocksForCounts m r = .ok total) :
    sb.validateSupportedFeatures = .ok () ∧ (r ≠ 0 → sb.hasRevoke = true) ∧
      ∃ d c, sb.descriptorTagCapacity sb.blockSize = .ok d ∧ sb.revokeBlockCapacity sb.blockSize = .ok c ∧
        total = m + divCeil m d + divCeil r c + 1 := by
  obtain ⟨_, hfeat, h⟩ := bind_eq_ok.1 h
  obtain ⟨_, hrev, h⟩ := bind_eq_ok.1 h
  obtain ⟨d, hd, h⟩ := bind_eq_ok.1 h
  obtain ⟨c, hc, h⟩ := bind_eq_ok.1 h
  have hrev := failIf_eq_ok.1 hrev
  refine ⟨hfeat, ?_, d, c, hd, hc, (Except.ok.inj h).symm⟩
  intro hr
  by_contra hno
  exact hrev ⟨hr, hno⟩

variable {commit : RuntimeTransaction}

/-- A commit that is checked and whose revoked blocks fit is written. -/
theorem writeJournalCommit_exists {total : Nat}
    (hstart : sb.validateStart start = .ok ()) (hrequired : sb.journalBlocksRequired commit blocks = .ok total)
    (hrok : ∀ c, sb.revokeBlockCapacity sb.blockSize = .ok c → ∀ g ∈ chunks c commit.revokedBlocks, sb.RevokeFits g) :
    ∃ log writes, ∃ img : LogImage sb commit.id, sb.writeJournalCommit start commit blocks = .ok (log, writes) ∧
      Written sb start commit blocks log writes img := by
  -- what was checked before the first block is written
  obtain ⟨_, hval, hreq⟩ := bind_eq_ok.1 hrequired
  obtain ⟨_, hlen, hval⟩ := bind_eq_ok.1 hval
  obtain ⟨_, _, hval⟩ := bind_eq_ok.1 hval
  obtain ⟨total', hcounts, hreq⟩ := bind_eq_ok.1 hreq
  obtain ⟨_, hle, hreq⟩ := bind_eq_ok.1 hreq
  obtain rfl : total' = total := Except.ok.inj hreq
  have hlen := failIf_eq_ok.1 hlen
  have hle := failIf_eq_ok.1 hle
  push Not at hlen hle
  obtain ⟨htargets, hsizes⟩ := validateImages_spec hlen hval
  obtain ⟨hfeat, hrevoke, dcap, rcap, hdcap, hrcap, htotal⟩ := journalLogBlocksForCounts_spec hcounts
  -- the blocks
  obtain ⟨stop, hstop, hdpos, hdfit⟩ := descriptorTagCapacity_spec hdcap
  obtain ⟨stop', hstop', hrpos, hrfit⟩ := revokeBlockCapacity_spec hrcap
  obtain rfl : stop = stop' := Except.ok.inj (hstop.symm.trans hstop')
  obtain ⟨b0, hb0, h0⟩ := new_between hstart
  have hgroups : ∀ g ∈ chunks dcap blocks, g ≠ [] ∧ headerSize + sb.descriptorTagAreaSize g.length ≤ stop ∧
      ∀ x ∈ g, x.bytes.length = sb.blockSize := by
    intro g hg
    have hmono := sb.descriptorTagAreaSize_mono (length_le_of_mem_chunks hdpos hg)
    refine ⟨ne_nil_of_mem_chunks hdpos hg, by omega, ?_⟩
    intro x hx
    apply hsizes
    rw [← flatten_chunks hdpos blocks]
    exact mem_flatten.2 ⟨g, hg, hx⟩
  obtain ⟨b1, dimgs, hb1, hdmap, hdall, h1⟩ := writeDescriptorGroups_spec commit.id hstop hgroups h0
  have hrgroups : ∀ g ∈ chunks rcap commit.revokedBlocks,
      revokeHeaderSize + g.length * sb.revokeEntrySize ≤ stop ∧ sb.RevokeFits g := by
    intro g hg
    have := Nat.mul_le_mul_right sb.revokeEntrySize (length_le_of_mem_chunks hrpos hg)
    exact ⟨by omega, hrok rcap hrcap g hg⟩
  obtain ⟨b2, rimgs, hb2, hrmap, hrall, h2⟩ := writeRevokeBlocks_spec commit.id hstop hrgroups h1
  obtain ⟨cblock, hcblock, hcommit⟩ := sb.encodeCommitBlock_spec commit.id (by
    have := (sb.length_of_payloadEnd hstop).1
    have h4 : 4 ≤ sb.revokeEntrySize := by
      unfold revokeEntrySize
      split <;> omega
    have := Nat.mul_le_mul hrpos h4
    unfold revokeHeaderSize at hrfit
    omega)
  obtain ⟨b3, hb3, h3⟩ := JournalWriteBatch.Holds.push h2 hcommit.length_eq
  obtain ⟨b4, hb4, h4, hwritten⟩ := JournalWriteBatch.Holds.flush
    ⟨h3.inLog, h3.sizes, h3.next_eq, by
      obtain ⟨done, pending, e1, e2, e3, e4, e5⟩ := h3.split
      exact ⟨done, pending, e1, e2, e3, e4, by omega⟩⟩
  have hgl : dimgs.length = divCeil commit.metadataBlocks.length dcap := by
    rw [divCeil, ← hlen, ← length_chunks hdpos, ← hdmap, length_map]
  have hrl : rimgs.length = divCeil commit.revokedBlocks.length rcap := by
    rw [divCeil, ← length_chunks hrpos, ← hrmap, length_map]
  have hne : ∀ g ∈ dimgs, g.1 ≠ [] := fun g hg => ne_nil_of_mem_chunks hdpos (hdmap ▸ mem_map_of_mem hg)
  have hne' : ∀ g ∈ rimgs, g.1 ≠ [] := fun g hg => ne_nil_of_mem_chunks hrpos (hrmap ▸ mem_map_of_mem hg)
  have hrne : rimgs ≠ [] → sb.hasRevoke = true := by
    intro hne
    apply hrevoke
    intro hzero
    apply hne
    rw [← length_eq_zero_iff, hrl, hzero, divCeil, Nat.div_eq_of_lt (by omega)]
  let img : LogImage sb commit.id := ⟨dimgs, rimgs, cblock, hne, hne', hdall, hrall, hrne, hcommit⟩
  have hblocks : [] ++ dimgs.flatMap groupBlocks ++ rimgs.map Prod.snd ++ [cblock] = img.blocks := by
    simp [img, LogImage.blocks]
  rw [hblocks] at h4 hwritten
  have hupdates : img.updates = blocks := by
    rw [← flatten_chunks hdpos blocks, ← hdmap]
    rfl
  have hrevoked : img.revoked = commit.revokedBlocks := by
    rw [← flatten_chunks hrpos commit.revokedBlocks, ← hrmap]
    rfl
  have hcount : img.blocks.length = total' := by
    have hul : (dimgs.flatMap Prod.fst).length = commit.metadataBlocks.length := by
      rw [← hlen]
      exact congrArg length hupdates
    rw [LogImage.blocks, length_append, length_flatMap_groupBlocks, length_append, length_map,
      length_singleton, htotal, hul, hgl, hrl]
    omega
  refine ⟨_, b4.written, img, ?_, h0.inLog, hfeat, htargets, hupdates, hrevoked, ?_, hwritten, by omega, rfl⟩
  · simp only [writeJournalCommit, hstart, hrequired, hdcap, hrcap, hb0, hb1, hb2, hcblock, hb3, hb4, ok_bind,
      pure_eq_ok, hcount, h4.next_eq]
  · rw [hcount, hrequired]

theorem writeJournalCommit_spec
    {log : JournalLogCommit} {writes : List BlockWrite}
    (h : sb.writeJournalCommit start commit blocks = .ok (log, writes)) :
    ∃ img : LogImage sb commit.id, Written sb start commit blocks log writes img := by
  obtain ⟨_, hstart, hrest⟩ := bind_eq_ok.1 h
  obtain ⟨total, hrequired, hrest⟩ := bind_eq_ok.1 hrest
  obtain ⟨dcap, _, hrest⟩ := bind_eq_ok.1 hrest
  obtain ⟨rcap, hrcap, hrest⟩ := bind_eq_ok.1 hrest
  obtain ⟨b0, _, hrest⟩ := bind_eq_ok.1 hrest
  obtain ⟨b1, _, hrest⟩ := bind_eq_ok.1 hrest
  obtain ⟨b2, hb2, _⟩ := bind_eq_ok.1 hrest
  obtain ⟨log', writes', img, hok, himg⟩ := writeJournalCommit_exists hstart hrequired (by
    intro c hc
    obtain rfl : rcap = c := Except.ok.inj (hrcap.symm.trans hc)
    exact revokeFits_of_writeRevokeBlocks hb2)
  cases h.symm.trans hok
  exact ⟨img, himg⟩

end JournalSuperblock

end XKernel.Ext4
