import XKernel.Ext4.JournalPersist
import XKernel.Ext4.JournalRoundTrip
/-!
# A crash while a transaction is appended

The log holds whole transactions, and behind them some of the control blocks of the one
that was being appended. The scanner reads both and goes on with whatever the log held
there before. So what recovery finds depends on three things: the scanner's limits, the
checksums of the data whose descriptor is there, and the blocks behind.
-/

namespace XKernel.Ext4

open XKernel.Lib List Option LogRecord

/-- A transaction as it was committed. -/
structure LoggedTransaction where
  id : TransactionId
  blocks : List JournalCommitBlock
  revoked : List UInt64

namespace JournalSuperblock

variable {sb : JournalSuperblock} {log : JournalContents} {s s' : ScanState} {r : JournalLogScan} {id : TransactionId}
  {recs : List LogRecord}

/-! ## Whole transactions -/

/-- A transaction with its blocks in the log. -/
structure LiveTransaction (sb : JournalSuperblock) where
  id : TransactionId
  img : LogImage sb id

variable {live : List (LiveTransaction sb)}

def LiveTransaction.logged (t : LiveTransaction sb) : LoggedTransaction := ⟨t.id, t.img.updates, t.img.revoked⟩

open LiveTransaction (logged)

def liveBlocks (live : List (LiveTransaction sb)) : List Bytes := live.flatMap fun t => t.img.blocks

def liveRecords (live : List (LiveTransaction sb)) : List LogRecord := live.flatMap fun t => t.img.records

/-- What the scanner makes of transactions that start at `p`. -/
def liveTransactions : Nat → List (LiveTransaction sb) → List JournalTransaction
  | _, [] => []
  | p, t :: ts => t.img.transactionAt p :: liveTransactions (sb.ring.adv p t.img.blocks.length) ts

/-- The ids count up from `first`. -/
def Consecutive : TransactionId → List (LiveTransaction sb) → Prop
  | _, [] => True
  | first, t :: ts => t.id = first ∧ Consecutive (first + 1) ts

theorem liveBlocks_cons (t : LiveTransaction sb) : liveBlocks (t :: live) = t.img.blocks ++ liveBlocks live := rfl

theorem liveRecords_cons (t : LiveTransaction sb) : liveRecords (t :: live) = t.img.records ++ liveRecords live := rfl

theorem blocks_liveRecords : (liveRecords live).flatMap blocks = liveBlocks live := by
  simp only [liveRecords, liveBlocks, flatMap_assoc, LogImage.blocks_records]

theorem recordsSize_liveRecords : recordsSize (liveRecords live) = (liveBlocks live).length := by
  rw [recordsSize, blocks_liveRecords]

theorem length_liveTransactions (p : Nat) : (liveTransactions p live).length = live.length := by
  induction live generalizing p with
  | nil => rfl
  | cons t ts ih => simp [liveTransactions, ih]

variable {p : Nat}

theorem committed_of_mem_live {t : JournalTransaction} (h : t ∈ liveTransactions p live) : t.state = .committed := by
  induction live generalizing p with
  | nil => cases h
  | cons l ls ih =>
    rcases mem_cons.1 h with rfl | h
    · rfl
    · exact ih h

theorem afterAll_live (hs : s.current = none) (hc : Consecutive s.expectedSequence live) :
    (sb.afterAll s (liveRecords live)).transactions = s.transactions ++ liveTransactions s.cursor live ∧
      (sb.afterAll s (liveRecords live)).current = none ∧
      (sb.afterAll s (liveRecords live)).expectedSequence = s.expectedSequence + UInt32.ofNat live.length := by
  induction live generalizing s with
  | nil => simp [liveRecords, liveTransactions, hs]
  | cons t ts ih =>
    have hone := afterAll_records t.img hc.1.symm hs
    have hnext : (sb.afterAll s t.img.records).expectedSequence = s.expectedSequence + 1 := by
      rw [hone]
      exact congrArg (· + 1) hc.1
    obtain ⟨htx, hcur, hseq⟩ := ih (s := sb.afterAll s t.img.records) (by rw [hone]) (by rw [hnext]; exact hc.2)
    rw [liveRecords_cons, afterAll_append]
    refine ⟨?_, hcur, ?_⟩
    · rw [htx, hone]
      simp [liveTransactions]
    · rw [hseq, hnext, length_cons, UInt32.ofNat_add, UInt32.add_assoc, UInt32.add_comm (UInt32.ofNat ts.length)]
      rfl

theorem meets_live (hs : s.current = none) (hc : Consecutive s.expectedSequence live)
    (hsize : (liveBlocks live).length ≤ s.remainingBlocks) (h : sb.Stored log s.cursor (liveBlocks live)) :
    sb.Meets log s (liveRecords live) := by
  induction live generalizing s with
  | nil => trivial
  | cons t ts ih =>
    rw [liveBlocks_cons, length_append] at hsize
    rw [liveBlocks_cons, stored_append] at h
    have hone := afterAll_records t.img hc.1.symm hs
    rw [liveRecords_cons, meets_append]
    refine ⟨meets_records t.img hc.1.symm (by omega) (controls_of_stored (by rw [t.img.blocks_records]; exact h.1)), ?_⟩
    apply ih
    · rw [hone]
    · rw [hone]
      simp only [hc.1]
      exact hc.2
    · rw [remainingBlocks_afterAll, t.img.recordsSize_records]
      omega
    · rw [cursor_afterAll, t.img.recordsSize_records]
      exact h.2

/-! ## Recovered lists -/

/-- The transactions are those that were committed, in their order. -/
def RecoversAll (log : JournalContents) (ts : List JournalTransaction) (ls : List LoggedTransaction) : Prop :=
  List.Forall₂ (fun t l => Recovers log t l.id l.blocks l.revoked) ts ls

theorem recoversAll_live (h : sb.Stored log p (liveBlocks live)) :
    RecoversAll log (liveTransactions p live) (live.map logged) ↔
      ∀ t ∈ live, ∀ b ∈ t.img.updates, sb.TargetFits b.target := by
  induction live generalizing p with
  | nil => simp [RecoversAll, liveTransactions]
  | cons t ts ih =>
    rw [liveBlocks_cons, stored_append] at h
    have htail := ih h.2
    unfold RecoversAll at htail ⊢
    rw [liveTransactions, map_cons, forall₂_cons, htail, forall_mem_cons]
    exact and_congr_left fun _ => recovers_iff t.img h.1

/-! ## The log after a crash -/

/-- The log holds `live` at `tail`, and behind them the control blocks of `recs`, the first
records of the transaction `img`. -/
structure Crashed (sb : JournalSuperblock) (log : JournalContents) (tail : Nat) (live : List (LiveTransaction sb))
    (img : LogImage sb id) (recs : List LogRecord) : Prop where
  chain : Consecutive sb.sequence live
  next : sb.sequence + UInt32.ofNat live.length = id
  stored : sb.Stored log tail (liveBlocks live)
  room : (liveBlocks live).length + img.blocks.length ≤ sb.ring.size
  part : recs <+: img.records
  controls : sb.Controls log (sb.ring.adv tail (liveBlocks live).length) recs

/-- The scanner behind `live`. -/
def behindLive (sb : JournalSuperblock) (tail : Nat) (live : List (LiveTransaction sb)) : ScanState :=
  sb.afterAll (sb.scanStart tail) (liveRecords live)

/-- The scanner behind `live` and `recs`. -/
def behindPart (sb : JournalSuperblock) (tail : Nat) (live : List (LiveTransaction sb)) (recs : List LogRecord) :
    ScanState :=
  sb.afterAll (sb.behindLive tail live) recs

variable {tail : Nat} {img : LogImage sb id}

theorem cursor_behindLive : (sb.behindLive tail live).cursor = sb.ring.adv tail (liveBlocks live).length := by
  rw [behindLive, cursor_afterAll, recordsSize_liveRecords]
  rfl

section

variable (h : Crashed sb log tail live img recs)
include h

theorem Crashed.behindLive_eq :
    (sb.behindLive tail live).transactions = liveTransactions tail live ∧ (sb.behindLive tail live).current = none ∧
      (sb.behindLive tail live).expectedSequence = id := by
  obtain ⟨htx, hcur, hseq⟩ := afterAll_live (s := sb.scanStart tail) rfl h.chain
  exact ⟨htx.trans (nil_append _), hcur, hseq.trans h.next⟩

theorem Crashed.meets : sb.Meets log (sb.scanStart tail) (liveRecords live ++ recs) := by
  have hsize : sb.ring.size = (sb.scanStart tail).remainingBlocks := rfl
  have hroom := h.room
  have hpart : recordsSize recs ≤ img.blocks.length := by
    rw [← img.recordsSize_records]
    obtain ⟨rest, hrest⟩ := h.part
    rw [← hrest]
    simp [recordsSize]
  rw [meets_append]
  refine ⟨meets_live rfl h.chain (by omega) h.stored, meets_of_controls ?_ ?_ ?_ ?_⟩
  · intro rec hrec
    apply img.isBody_of_mem
    rcases prefix_concat_iff.1 h.part with heq | hpre
    · rwa [heq, dropLast_concat] at hrec
    · exact hpre.subset (dropLast_subset recs hrec)
  · intro rec hrec
    rw [show (sb.afterAll (sb.scanStart tail) (liveRecords live)).expectedSequence = id from h.behindLive_eq.2.2]
    exact img.isOf_of_mem rec (h.part.subset hrec)
  · rw [remainingBlocks_afterAll, recordsSize_liveRecords]
    omega
  · rw [cursor_afterAll, recordsSize_liveRecords]
    exact h.controls

theorem Crashed.scanFrom_iff :
    sb.scanFrom log (sb.scanStart tail) = .ok r ↔
      (WithinLimits (sb.behindPart tail live recs) ∧ sb.VerifiesAll log (sb.behindLive tail live) recs) ∧
        sb.scanFrom log (sb.behindPart tail live recs) = .ok r := by
  have hlive : sb.VerifiesAll log (sb.scanStart tail) (liveRecords live) := by
    apply verifiesAll_of_stored
    rw [blocks_liveRecords]
    exact h.stored
  rw [scanFrom_records h.meets, acceptsAll_iff h.meets ⟨by simp [scanStart], by simp [scanStart], by simp [scanStart]⟩,
    verifiesAll_append, afterAll_append, and_iff_right hlive]
  rfl

end

/-- The transactions whose control blocks are all there. -/
def found (live : List (LiveTransaction sb)) (img : LogImage sb id) (recs : List LogRecord) :
    List (LiveTransaction sb) :=
  if recs = img.records then live ++ [⟨id, img⟩] else live

theorem liveTransactions_append (p : Nat) (ls ms : List (LiveTransaction sb)) :
    liveTransactions p (ls ++ ms) = liveTransactions p ls ++
      liveTransactions (sb.ring.adv p (liveBlocks ls).length) ms := by
  induction ls generalizing p with
  | nil => rfl
  | cons l ls ih =>
    rw [cons_append, liveTransactions, ih, liveTransactions, liveBlocks_cons, length_append, Ring.adv_add]
    rfl

theorem Crashed.transactions_behindPart (h : Crashed sb log tail live img recs) :
    (sb.behindPart tail live recs).transactions = liveTransactions tail (found live img recs) := by
  obtain ⟨htx, hcur, hseq⟩ := h.behindLive_eq
  rcases prefix_concat_iff.1 h.part with heq | hpre
  · have heq : recs = img.records := heq
    rw [found, if_pos heq, heq, behindPart, afterAll_records img hseq hcur, htx, cursor_behindLive,
      liveTransactions_append]
    rfl
  · have hne : recs ≠ img.records := by
      intro heq
      have := hpre.length_le
      rw [heq, LogImage.records, length_append] at this
      simp at this
    rw [found, if_neg hne, behindPart, transactions_afterAll, htx]
    exact fun rec hrec => img.isBody_of_mem rec (hpre.subset hrec)

theorem Crashed.committed_behindPart (h : Crashed sb log tail live img recs) :
    ∀ t ∈ (sb.behindPart tail live recs).transactions, t.state = .committed := by
  rw [h.transactions_behindPart]
  exact fun t => committed_of_mem_live

theorem Crashed.committed_of_scanFrom (h : Crashed sb log tail live img recs)
    (hr : sb.scanFrom log (sb.behindPart tail live recs) = .ok r) :
    ∃ more, committedTransactions r = liveTransactions tail (found live img recs) ++ more := by
  rw [← h.transactions_behindPart]
  exact exists_committed hr h.committed_behindPart

/-- A recovered list of the right length has nothing behind it. -/
theorem nil_of_recoversAll {more : List JournalTransaction} {ls : List (LiveTransaction sb)}
    (h : RecoversAll log (liveTransactions p live ++ more) (ls.map logged)) (hlen : ls.length ≤ live.length) :
    more = [] ∧ ls.length = live.length := by
  have := h.length_eq
  rw [length_append, length_liveTransactions, length_map] at this
  exact ⟨length_eq_zero_iff.1 (by omega), by omega⟩

/-! ## What recovery finds -/

/-- No commit block of the expected transaction stands behind `s`. -/
def Quiet (sb : JournalSuperblock) (log : JournalContents) (s : ScanState) : Prop :=
  ¬ sb.CommitAhead log s.expectedSequence s.cursor s.remainingBlocks

theorem Crashed.quiet_iff (h : Crashed sb log tail live img recs)
    (hr : sb.scanFrom log (sb.behindPart tail live recs) = .ok r) :
    committedTransactions r = liveTransactions tail (found live img recs) ↔
      sb.Quiet log (sb.behindPart tail live recs) := by
  rw [← h.transactions_behindPart]
  exact committed_scanLoop le_rfl hr h.committed_behindPart

/-- The transactions update blocks whose numbers the tags can hold. -/
def Fits (live : List (LiveTransaction sb)) : Prop := ∀ t ∈ live, ∀ b ∈ t.img.updates, sb.TargetFits b.target

/-- Recovery reads the log up to the first records of `img`, and behind them to the end. -/
structure Readable (sb : JournalSuperblock) (log : JournalContents) (tail : Nat) (live : List (LiveTransaction sb))
    (img : LogImage sb id) (recs : List LogRecord) : Prop where
  limits : WithinLimits (sb.behindPart tail live recs)
  checksums : sb.VerifiesAll log (sb.behindLive tail live) recs
  reads : ∃ r, sb.scanFrom log (sb.behindPart tail live recs) = .ok r
  quiet : sb.Quiet log (sb.behindPart tail live recs)
  fits : Fits (found live img recs)

section

variable (h : Crashed sb log tail live img recs)
include h

section

variable (hst : recs = img.records → sb.Stored log (sb.ring.adv tail (liveBlocks live).length) img.blocks)
include hst

theorem Crashed.stored_found :
    sb.Stored log tail (liveBlocks (found live img recs)) := by
  unfold found
  split
  · rename_i heq
    rw [liveBlocks, flatMap_append, stored_append, flatMap_singleton]
    exact ⟨h.stored, hst heq⟩
  · exact h.stored

theorem Crashed.recovers_iff :
    (∃ scan, sb.scanFrom log (sb.scanStart tail) = .ok scan ∧
      RecoversAll log (committedTransactions scan) ((found live img recs).map logged)) ↔
    Readable sb log tail live img recs := by
  have hlive := recoversAll_live (h.stored_found hst)
  constructor
  · rintro ⟨scan, hscan, hrec⟩
    obtain ⟨⟨hlim, hver⟩, hrest⟩ := h.scanFrom_iff.1 hscan
    obtain ⟨more, hmore⟩ := h.committed_of_scanFrom hrest
    rw [hmore] at hrec
    obtain ⟨rfl, -⟩ := nil_of_recoversAll hrec le_rfl
    rw [append_nil] at hmore hrec
    exact ⟨hlim, hver, ⟨scan, hrest⟩, (h.quiet_iff hrest).1 hmore, hlive.1 hrec⟩
  · rintro ⟨hlim, hver, ⟨r, hr⟩, hquiet, hfits⟩
    refine ⟨r, h.scanFrom_iff.2 ⟨⟨hlim, hver⟩, hr⟩, ?_⟩
    rw [(h.quiet_iff hr).2 hquiet]
    exact hlive.2 hfits

end

end

/-! ## The records of a part of the writes -/

/-- The records whose control block is one of the first `n` blocks. -/
def takeRecords : Nat → List LogRecord → List LogRecord
  | _, [] => []
  | n, rec :: recs => if n = 0 then [] else rec :: takeRecords (n - rec.blocks.length) recs

theorem isPrefix_takeRecords (n : Nat) (recs : List LogRecord) : takeRecords n recs <+: recs := by
  induction recs generalizing n with
  | nil => exact prefix_rfl
  | cons rec recs ih =>
    rw [takeRecords]
    split
    · exact nil_prefix
    · exact (prefix_cons_inj rec).2 (ih _)

theorem takeRecords_zero (recs : List LogRecord) : takeRecords 0 recs = [] := by
  cases recs <;> rfl

theorem controls_takeRecords {n : Nat} (h : sb.Stored log p ((recs.flatMap blocks).take n)) :
    sb.Controls log p (takeRecords n recs) := by
  induction recs generalizing p n with
  | nil => trivial
  | cons rec recs ih =>
    rw [takeRecords]
    split
    · trivial
    · rename_i hn
      rw [flatMap_cons, take_append, stored_append] at h
      obtain ⟨m, rfl⟩ := Nat.exists_eq_succ_of_ne_zero hn
      refine ⟨?_, ?_⟩
      · have hfirst := h.1
        rw [blocks, take_succ_cons, stored_cons] at hfirst
        exact hfirst.1
      · by_cases hlen : rec.blocks.length ≤ m + 1
        · apply ih
          have hrest := h.2
          rwa [length_take, Nat.min_eq_right hlen] at hrest
        · -- the record is cut, and nothing is written behind it
          rw [Nat.sub_eq_zero_of_le (by omega), takeRecords_zero]
          trivial

theorem takeRecords_concat (n : Nat) (recs : List LogRecord) (block : Bytes) :
    takeRecords n (recs ++ [.commit block]) = recs ++ [.commit block] ↔ recordsSize recs < n := by
  induction recs generalizing n with
  | nil =>
    rw [nil_append, takeRecords]
    split
    · rename_i hn
      simp [hn]
    · simp [takeRecords, recordsSize]
      omega
  | cons rec recs ih =>
    rw [cons_append, takeRecords, recordsSize_cons]
    split
    · simp
      omega
    · rw [cons_inj_right, ih]
      omega

/-- All records are there when all blocks are. -/
theorem takeRecords_records (img : LogImage sb id) (n : Nat) :
    takeRecords n img.records = img.records ↔ img.blocks.length ≤ n := by
  rw [LogImage.records, takeRecords_concat, ← img.recordsSize_body]
  omega

/-- A journal with `live` in its log, to which the blocks of `img` are being written. -/
structure Appending (sb : JournalSuperblock) (disk : JournalContents) (tail : Nat) (live : List (LiveTransaction sb))
    (img : LogImage sb id) (writes : List BlockWrite) : Prop where
  encodes : sb.Encodes
  onDisk : disk 0 = sb.encoded
  active : sb.start = .block tail
  features : sb.validateSupportedFeatures = .ok ()
  chain : Consecutive sb.sequence live
  next : sb.sequence + UInt32.ofNat live.length = id
  stored : sb.Stored disk tail (liveBlocks live)
  room : (liveBlocks live).length + img.blocks.length ≤ sb.usableLogCapacity
  writes_eq : writes = sb.ring.place (sb.ring.adv tail (liveBlocks live).length) img.blocks

/-- The scan at mount: `JournalSuperblock::decode` of the first block, then `scan_internal_journal`. -/
def scanInternalJournal (sb : JournalSuperblock) (disk : JournalContents) : Ext4Result JournalLogScan := do
  let found ← decode (disk 0) sb.blockSize sb.maxBlocks sb.uuid
  found.scanJournal disk

variable {disk : JournalContents} {writes part : List BlockWrite}

section

variable (h : Appending sb disk tail live img writes)
include h

omit h in
theorem ne_zero_of_mem {n : Nat} (hn : sb.ring.Mem n) : n ≠ 0 := (lt_of_lt_of_le sb.first_pos hn.1).ne'

theorem Appending.inLog : sb.ring.Mem tail := sb.start_inLog tail h.active

theorem Appending.nodup : (writes.map Prod.fst).Nodup := by
  have hroom := length_le_ring h.room
  rw [h.writes_eq]
  exact Ring.nodup_place (h.inLog.adv _) (by omega)

section

variable (hp : part.Sublist writes)
include hp

theorem Appending.notMem_zero : 0 ∉ part.map Prod.fst := by
  intro hzero
  obtain ⟨w, hw, hw0⟩ := mem_map.1 hzero
  have hmem := hp.subset hw
  rw [h.writes_eq] at hmem
  obtain ⟨i, -, hi⟩ := Ring.mem_place.1 hmem
  exact ne_zero_of_mem ((h.inLog.adv _).adv i) (hi.trans hw0)

/-- The blocks of `live` and those of `img` are different places. -/
theorem Appending.stored_part :
    sb.Stored (applyWrites part disk) tail (liveBlocks live) := by
  have hnodup := Ring.nodup_place h.inLog (by rw [length_append]; exact length_le_ring h.room)
  rw [Ring.place_append, map_append, nodup_append] at hnodup
  intro w hw
  rw [applyWrites_of_notMem, h.stored w hw]
  intro hmem
  refine hnodup.2.2 w.1 (mem_map_of_mem hw) w.1 ?_ rfl
  have hsub := (hp.map Prod.fst).subset hmem
  rwa [h.writes_eq] at hsub

theorem Appending.scan_eq :
    sb.scanInternalJournal (applyWrites part disk) = sb.scanFrom (applyWrites part disk) (sb.scanStart tail) := by
  have hdecode : decode (applyWrites part disk 0) sb.blockSize sb.maxBlocks sb.uuid = .ok sb := by
    rw [applyWrites_of_notMem (h.notMem_zero hp), h.onDisk]
    exact h.encodes
  rw [scanInternalJournal, hdecode, ok_bind, scanJournal, h.features, ok_bind, h.active]

theorem Appending.crashed {recs : List LogRecord}
    (hpre : recs <+: img.records)
    (hctl : sb.Controls (applyWrites part disk) (sb.ring.adv tail (liveBlocks live).length) recs) :
    Crashed sb (applyWrites part disk) tail live img recs :=
  ⟨h.chain, h.next, h.stored_part hp, length_le_ring h.room, hpre, hctl⟩

end

theorem Appending.stored_take (n : Nat) :
    sb.Stored (applyWrites (writes.take n) disk) (sb.ring.adv tail (liveBlocks live).length) (img.blocks.take n) := by
  have hroom := length_le_ring h.room
  rw [h.writes_eq, Ring.take_place]
  exact stored_of_place (h.inLog.adv _) (by rw [length_take]; omega) disk

theorem Appending.crashed_take (n : Nat) :
    Crashed sb (applyWrites (writes.take n) disk) tail live img (takeRecords n img.records) := by
  apply h.crashed (take_sublist n writes) (isPrefix_takeRecords n img.records)
  apply controls_takeRecords
  rw [img.blocks_records]
  exact h.stored_take n

theorem Appending.torn_iff (n : Nat) :
    (∃ scan, sb.scanInternalJournal (applyWrites (writes.take n) disk) = .ok scan ∧
      RecoversAll (applyWrites (writes.take n) disk) (committedTransactions scan)
        ((found live img (takeRecords n img.records)).map logged)) ↔
    Readable sb (applyWrites (writes.take n) disk) tail live img (takeRecords n img.records) := by
  have hst := h.stored_take n
  rw [h.scan_eq (take_sublist n writes)]
  apply (h.crashed_take n).recovers_iff
  intro hall
  rw [takeRecords_records] at hall
  rwa [take_of_length_le hall] at hst

end

/-! ## A crash during `persist_journal_commit` -/

variable {previous : Option JournalLogCommit} {commit : RuntimeTransaction} {blocks : List JournalCommitBlock}
  {p : PersistedCommit} {ws : List BlockWrite}

/-- The superblock on the disk is the cached one, and the log holds `live`, the last of
which is `previous`. -/
structure HoldsLive (sb : JournalSuperblock) (disk : JournalContents) (previous : Option JournalLogCommit)
    (live : List (LiveTransaction sb)) : Prop where
  encodes : sb.Encodes
  onDisk : disk 0 = sb.encoded
  clean : sb.start = .zero → live = []
  active : ∀ tail, sb.start = .block tail →
    Consecutive sb.sequence live ∧ sb.Stored disk tail (liveBlocks live) ∧
      (liveBlocks live).length ≤ sb.usableLogCapacity ∧
      ∃ last, previous = some last ∧ last.head = sb.ring.adv tail (liveBlocks live).length ∧
        last.nextSequence = sb.sequence + UInt32.ofNat live.length

/-- The last phase of `persist_journal_commit` appends to the log; before it, a clean journal
is made active. -/
theorem HoldsLive.appending (h : HoldsLive sb disk previous live)
    (hp : sb.persistJournalCommit previous commit blocks = .ok p) :
    ∃ (old : List (LiveTransaction p.superblock)) (img : LogImage p.superblock commit.id) (tail : Nat)
      (before : List (List BlockWrite)) (writes : List BlockWrite),
      p.phases = before ++ [writes] ∧
      Appending p.superblock (applyWrites before.flatten disk) tail old img writes ∧
      old.map logged = live.map logged ∧
      (img.updates = blocks ∧ img.revoked = commit.revokedBlocks) ∧
      p.superblock.scanInternalJournal = sb.scanInternalJournal ∧
      (sb.start = .zero ∧ sb.validateSupportedFeatures = .ok () ∧ before = [[(0, p.superblock.encoded)]] ∨
        sb.start ≠ .zero ∧ before = []) := by
  obtain ⟨lc, act, phases⟩ := p
  cases hs : sb.start with
  | zero =>
    obtain ⟨output, writes, img, hact, henc, hphases, hw⟩ := persistJournalCommit_zero h.encodes hs hp
    subst hact hphases
    refine ⟨[], img, sb.cleanLogHead, [[(0, output)]], writes, rfl, ?_, ?_, ⟨hw.updates_eq, hw.revoked_eq⟩, rfl,
      .inl ⟨rfl, hw.features, rfl⟩⟩
    · exact {
        encodes := henc
        onDisk := by simp [applyWrites, withStart]
        active := rfl
        features := hw.features
        chain := trivial
        next := by simp [withStart]
        stored := by simp [Stored, liveBlocks, Ring.place]
        room := by simpa [liveBlocks] using hw.length_le
        writes_eq := hw.writes_eq }
    · rw [h.clean hs]
      rfl
  | block tail =>
    obtain ⟨last, writes, img, hprev, hid, hmem, hact, hphases, hw, hspace⟩ := persistJournalCommit_block hs hp
    dsimp only at hact hphases hw ⊢
    subst hact hphases
    obtain ⟨hchain, hstored, hle, last', hprev', hhead, hnext⟩ := h.active tail hs
    obtain rfl : last = last' := some.inj (hprev.symm.trans hprev')
    have hdist : act.ring.dist tail last.head = (liveBlocks live).length := by
      rw [hhead]
      apply Ring.dist_adv hmem
      have := act.ring.size_pos
      have hsize : act.usableLogCapacity = act.ring.size - 1 := rfl
      omega
    refine ⟨live, img, tail, [], writes, rfl, ?_, rfl, ⟨hw.updates_eq, hw.revoked_eq⟩, rfl,
      .inr ⟨JournalStart.noConfusion, rfl⟩⟩
    exact {
      encodes := h.encodes
      onDisk := h.onDisk
      active := hs
      features := hw.features
      chain := hchain
      next := by rw [← hnext, hid]
      stored := hstored
      room := by rw [← hdist]; exact hspace
      writes_eq := by rw [← hhead]; exact hw.writes_eq }

/-- Before the superblock is written, a clean journal is found empty. -/
theorem HoldsLive.scan_clean (h : HoldsLive sb disk previous live) (hz : sb.start = .zero)
    (hf : sb.validateSupportedFeatures = .ok ()) :
    sb.scanInternalJournal disk = .ok ⟨[], sb.firstLogBlock, sb.sequence⟩ := by
  have hdecode : decode (disk 0) sb.blockSize sb.maxBlocks sb.uuid = .ok sb := by
    rw [h.onDisk]
    exact h.encodes
  rw [scanInternalJournal, hdecode, ok_bind, scanJournal, hf, ok_bind, hz]
  rfl

variable {before : List (List BlockWrite)} {w : BlockWrite}

/-- Whether the superblock is written first: then the journal was clean, and otherwise the log
is all that is written. -/
theorem HoldsLive.opening (h : HoldsLive sb disk previous live)
    (hbefore : sb.start = .zero ∧ sb.validateSupportedFeatures = .ok () ∧ before = [[w]] ∨ sb.start ≠ .zero ∧
      before = []) :
    (before = [[w]] ∨ before = []) ∧
      (before = [[w]] → sb.start = .zero ∧ live = [] ∧
        sb.scanInternalJournal disk = .ok ⟨[], sb.firstLogBlock, sb.sequence⟩) ∧
      ∀ part, ¬ (sb.start = .zero ∧ before.flatten ++ part = []) := by
  rcases hbefore with ⟨hz, hf, rfl⟩ | ⟨hne, rfl⟩
  · exact ⟨.inl rfl, fun _ => ⟨hz, h.clean hz, h.scan_clean hz hf⟩, nofun⟩
  · exact ⟨.inr rfl, nofun, fun _ hz => hne hz.1⟩

/-- The writes that a crash in `persist_journal_commit` leaves. -/
theorem cases_of_cut {R : List BlockWrite → List BlockWrite → Prop} (h : Cut R (before ++ [writes]) ws)
    (hb : before = [[w]] ∨ before = []) (hsub : ∀ part, R part [w] → part.Sublist [w]) (hnil : R [] writes) :
    (before = [[w]] ∧ ws = []) ∨ ∃ part, R part writes ∧ ws = before.flatten ++ part := by
  rcases h.of_append with ⟨done, phase, rest, part, hp, hpart, rfl⟩ | hlast
  · rcases hb with rfl | rfl
    · obtain ⟨rfl, hp⟩ | ⟨_, -, hp⟩ := cons_eq_append_iff.1 hp
      · cases hp
        rcases sublist_singleton.1 (hsub part hpart) with rfl | rfl
        · exact .inl ⟨rfl, rfl⟩
        · exact .inr ⟨[], hnil, by simp⟩
      · simp at hp
    · simp at hp
  · exact .inr hlast

/-- The only group of a transaction with one block. -/
theorem LogImage.groups_of_single {b : JournalCommitBlock} (h : img.updates = [b]) : ∃ d, img.groups = [([b], d)] := by
  have hne := img.groups_ne
  unfold LogImage.updates at h
  rcases hg : img.groups with _ | ⟨⟨us, d⟩, gs⟩
  · simp [hg] at h
  · rw [hg, forall_mem_cons] at hne
    rw [hg, flatMap_cons] at h
    obtain ⟨u, us', rfl⟩ := exists_cons_of_ne_nil hne.1
    obtain ⟨rfl, hrest⟩ := cons.inj h
    obtain ⟨rfl, hgs⟩ := append_eq_nil_iff.1 hrest
    rcases gs with _ | ⟨g, gs⟩
    · exact ⟨d, rfl⟩
    · exact absurd (append_eq_nil_iff.1 hgs).1 (hne.2 g mem_cons_self)

/-- The transaction of the samples: it updates block 7. -/
def sampleUpdate : RuntimeTransaction := ⟨5, [7], []⟩

def sampleUpdateBlocks : List JournalCommitBlock := [⟨7, zeros 1024⟩]

/-- A disk with the superblock in front, and behind it blocks that start with `first`. -/
def sampleDisk (sb : JournalSuperblock) (first : UInt8) : JournalContents := fun n =>
  if n = 0 then sb.encoded else first :: zeros 1023

theorem holdsLive_sample (he : sb.Encodes) (hz : sb.start = .zero) (first : UInt8) :
    HoldsLive sb (sampleDisk sb first) none [] :=
  ⟨he, rfl, fun _ => rfl, fun tail hb => by rw [hz] at hb; cases hb⟩

variable {first : UInt8}

/-- The superblock is written before the log, with the features it had. -/
theorem before_sample (he : sb.Encodes) (hz : sb.start = .zero)
    (hp : sb.persistJournalCommit none sampleUpdate sampleUpdateBlocks = .ok p)
    (hphases : p.phases = before ++ [writes]) :
    before = [[(0, p.superblock.encoded)]] ∧ p.superblock.featureIncompat = sb.featureIncompat := by
  obtain ⟨output, written, _, hact, -, hwritten, -⟩ := persistJournalCommit_zero he hz hp
  obtain ⟨hbefore, -⟩ := append_inj' (hphases.symm.trans hwritten : before ++ [writes] = [[_]] ++ [written]) rfl
  rw [hact]
  exact ⟨hbefore, rfl⟩

theorem takeRecords_one {d : Bytes} {us : List JournalCommitBlock} (h : img.groups = [(us, d)]) :
    takeRecords 1 img.records = [.group us d] := by
  have hblocks : 1 - (group us d).blocks.length = 0 := by
    simp [blocks]
  simp [LogImage.records, LogImage.body, h, takeRecords, hblocks, takeRecords_zero]

theorem blocks_sample {d : Bytes} (h : img.groups = [(sampleUpdateBlocks, d)]) (hr : img.revoked = []) :
    img.blocks = [d, loggedData ⟨7, zeros 1024⟩, img.commit] := by
  have hnil : img.revokes = [] := by
    rw [eq_nil_iff_forall_not_mem]
    intro g hg
    exact img.revokes_ne g hg (flatMap_eq_nil_iff.1 hr g hg)
  simp [LogImage.blocks, h, hnil, groupBlocks, sampleUpdateBlocks]

/-- The blocks behind the written ones are stale. -/
theorem stale_sample {base : JournalSuperblock} {encoded : Bytes} {k i : Nat}
    (h : Appending sb (applyWrites [[(0, encoded)]].flatten (sampleDisk base first)) tail [] img writes)
    (hp : part.Sublist (writes.take k)) (hk : k ≤ i) (hi : i ≤ img.blocks.length) :
    applyWrites part (applyWrites [[(0, encoded)]].flatten (sampleDisk base first)) (sb.ring.adv tail i) =
      first :: zeros 1023 := by
  have hsize : img.blocks.length < sb.ring.size := by
    have hroom := h.room
    have hpos := sb.ring.size_pos
    have hcapacity : sb.usableLogCapacity = sb.ring.size - 1 := rfl
    omega
  have hnonzero := ne_zero_of_mem (h.inLog.adv i)
  rw [applyWrites_of_notMem, applyWrites_of_notMem (by simpa using hnonzero), sampleDisk, if_neg hnonzero]
  intro hmem
  obtain ⟨w, hw, hw1⟩ := mem_map.1 hmem
  have hw := hp.subset hw
  rw [h.writes_eq, Ring.take_place] at hw
  obtain ⟨j, hj, hadv⟩ := Ring.mem_place.1 hw
  have hlt := (List.getElem?_eq_some_iff.1 hj).1
  rw [length_take] at hlt
  have := h.inLog.adv_inj (by omega) (by omega) (hadv.trans hw1)
  omega

theorem sampleRevoke_encodes : sampleRevoke.Encodes := sampleSuperblock_encodes

theorem sampleRevoke_persists :
    ∃ p, sampleRevoke.persistJournalCommit none sampleUpdate sampleUpdateBlocks = .ok p := by
  have hreq : sampleRevoke.journalBlocksRequired sampleUpdate sampleUpdateBlocks = .ok 3 := by decide +kernel
  exact persistJournalCommit_zero_exists sampleRevoke_encodes rfl rfl hreq nofun

theorem parseHeader_stale : ∀ first ∈ [0, 1], parseHeader (first :: zeros 1023) = .ok none := by decide +kernel

theorem crc_of_verifyData {data data' : Bytes} {pos : Nat} {sequence : TransactionId} (h3 : sb.hasChecksumV3 = true)
    (h : sb.verifyDataBlockChecksum data sequence pos (sb.dataBlockChecksum sb.checksumSeed sequence data') = .ok ()) :
    crc32c (crc32c sb.checksumSeed (UInt32.toBeBytes sequence)) data =
      crc32c (crc32c sb.checksumSeed (UInt32.toBeBytes sequence)) data' := by
  simp only [dataBlockChecksum, sb.hasChecksumV2OrV3_of_V3 h3, h3, if_true, verifyDataBlockChecksum,
    verifyChecksum] at h
  by_contra hne
  rw [if_neg hne] at h
  cases h

theorem loggedData_sample : loggedData ⟨7, zeros 1024⟩ = 0 :: zeros 1023 := by decide +kernel

/-- A journal with checksums of version 3. -/
def sampleCsum : JournalSuperblock := sampleSuperblock incompatCsumV3 2116573147

theorem sampleCsum_encodes : sampleCsum.Encodes := by
  unfold Encodes
  decide +kernel

/-- A crash that leaves a prefix of the writes of the current phase: recovery returns the
earlier transactions, and the new one exactly when all its blocks were written, if and only
if the superblock was not yet written to a clean journal, or the part of the log that was
written is readable. -/
theorem persistJournalCommit_torn (sb : JournalSuperblock) (disk : JournalContents) (previous : Option JournalLogCommit)
    (live : List (LiveTransaction sb)) (hold : HoldsLive sb disk previous live) (commit : RuntimeTransaction)
    (blocks : List JournalCommitBlock) (p : PersistedCommit)
    (hp : sb.persistJournalCommit previous commit blocks = .ok p) :
    ∃ (old : List (LiveTransaction p.superblock)) (img : LogImage p.superblock commit.id) (tail : Nat)
      (before : List (List BlockWrite)) (writes : List BlockWrite),
      p.phases = before ++ [writes] ∧
      Appending p.superblock (applyWrites before.flatten disk) tail old img writes ∧
      old.map logged = live.map logged ∧ (img.updates = blocks ∧ img.revoked = commit.revokedBlocks) ∧
      ∀ ws, Torn p.phases ws →
        ((∃ scan, sb.scanInternalJournal (applyWrites ws disk) = .ok scan ∧
            RecoversAll (applyWrites ws disk) (committedTransactions scan)
              (live.map logged ++
                if ws = p.phases.flatten then [⟨commit.id, blocks, commit.revokedBlocks⟩] else [])) ↔
          (sb.start = .zero ∧ ws = []) ∨
            Readable p.superblock (applyWrites ws disk) tail old img
              (takeRecords (ws.length - before.flatten.length) img.records)) := by
  obtain ⟨old, img, tail, before, writes, hphases, happ, hold', hcommit, hscan, hbefore⟩ := hold.appending hp
  refine ⟨old, img, tail, before, writes, hphases, happ, hold', hcommit, fun ws hws => ?_⟩
  have hlen : writes.length = img.blocks.length := by rw [happ.writes_eq, Ring.length_place]
  obtain ⟨hcases, hclean, hnot⟩ := hold.opening hbefore
  rw [hphases] at hws
  have hsub : ∀ part, (∃ k, part = [(0, p.superblock.encoded)].take k) → part.Sublist [(0, p.superblock.encoded)] := by
    rintro _ ⟨k, rfl⟩
    exact take_sublist k _
  rcases cases_of_cut hws.cut hcases hsub ⟨0, rfl⟩ with ⟨hfirst, rfl⟩ | ⟨_, ⟨k, rfl⟩, rfl⟩
  · -- nothing has reached the disk, and the journal was clean
    obtain ⟨hz, rfl, hempty⟩ := hclean hfirst
    refine iff_of_true ⟨_, hempty, ?_⟩ (.inl ⟨hz, rfl⟩)
    rw [hphases, hfirst]
    exact List.Forall₂.nil
  · have hn : (before.flatten ++ writes.take k).length - before.flatten.length = (writes.take k).length := by
      rw [length_append, Nat.add_sub_cancel_left]
    have htake : writes.take k = writes.take (writes.take k).length := by
      rw [length_take, take_eq_take_iff]
      omega
    have hall : before.flatten ++ writes.take k = p.phases.flatten ↔
        takeRecords (writes.take k).length img.records = img.records := by
      rw [takeRecords_records, hphases, flatten_append, append_cancel_left_eq, flatten_singleton,
        take_eq_self_iff, length_take]
      omega
    have hlogged : (found old img (takeRecords (writes.take k).length img.records)).map logged =
        live.map logged ++
          if before.flatten ++ writes.take k = p.phases.flatten then [⟨commit.id, blocks, commit.revokedBlocks⟩]
            else [] := by
      rw [found]
      by_cases heq : takeRecords (writes.take k).length img.records = img.records
      · rw [if_pos heq, if_pos (hall.2 heq), map_append, hold', ← hcommit.1, ← hcommit.2]
        rfl
      · rw [if_neg heq, if_neg (mt hall.1 heq), hold', append_nil]
    have htorn := happ.torn_iff (writes.take k).length
    rw [← htake, ← applyWrites_append, hlogged, hscan] at htorn
    rw [hn, htorn, or_iff_right (hnot _)]

/-- Without checksums, recovery reads a descriptor whose data was not written, and then finds the
end of the log. -/
theorem persistJournalCommit_torn_sample :
    ∃ p, sampleRevoke.persistJournalCommit none sampleUpdate sampleUpdateBlocks = .ok p ∧ ∃ scan,
      sampleRevoke.scanInternalJournal (applyWrites (p.phases.flatten.take 2) (sampleDisk sampleRevoke 1)) = .ok scan ∧
      RecoversAll (applyWrites (p.phases.flatten.take 2) (sampleDisk sampleRevoke 1))
        (committedTransactions scan) [] := by
  obtain ⟨p, hp⟩ := sampleRevoke_persists
  refine ⟨p, hp, ?_⟩
  obtain ⟨old, img, tail, before, writes, hphases, happ, hold', hcommit, hiff⟩ :=
    persistJournalCommit_torn _ _ _ _ (holdsLive_sample sampleRevoke_encodes rfl 1) _ _ p hp
  obtain ⟨rfl, hfeatures⟩ := before_sample sampleRevoke_encodes rfl hp hphases
  obtain rfl : old = [] := map_eq_nil_iff.1 hold'
  obtain ⟨d, hd⟩ := LogImage.groups_of_single hcommit.1
  have hblocks : img.blocks.length = 3 := congrArg length (blocks_sample hd hcommit.2)
  have hflat : p.phases.flatten.take 2 = [[(0, p.superblock.encoded)]].flatten ++ writes.take 1 := by simp [hphases]
  have hwrites : writes.length = 3 := by rw [happ.writes_eq, Ring.length_place, hblocks]
  have hpart : p.phases.flatten.take 2 ≠ p.phases.flatten := by
    rw [hphases, Ne, take_eq_self_iff]
    simp [hwrites]
  have htaken : (p.phases.flatten.take 2).length - 1 = 1 := by
    rw [hphases]
    simp [hwrites]
  have hcsum : p.superblock.hasChecksumV2OrV3 = false := by
    rw [hasChecksumV2OrV3, hfeatures]
    decide
  have hstale : parseHeader (applyWrites (p.phases.flatten.take 2) (sampleDisk sampleRevoke 1)
      (p.superblock.ring.adv tail 2)) = .ok none := by
    rw [hflat, applyWrites_append, stale_sample happ (Sublist.refl _) one_le_two (by omega)]
    exact parseHeader_stale 1 (by decide)
  have hiff := hiff (p.phases.flatten.take 2) (by rw [hflat, hphases]; exact ⟨[_], writes, [], 1, rfl, rfl⟩)
  rw [if_neg hpart, flatten_singleton, length_singleton, htaken, takeRecords_one hd] at hiff
  refine hiff.2 (.inr ⟨?_, ?_, ?_, ?_, ?_⟩)
  · exact ⟨(by decide : 1 ≤ maxScannedUpdates), Nat.zero_le _, Nat.zero_le _⟩
  · refine ⟨⟨?_, trivial⟩, trivial⟩
    simp only [tagOf, dataBlockChecksum, hcsum]
    rfl
  · -- the commit block was not written either
    exact ⟨_, scanFrom_none (scanStep_eq_none.2 ⟨none, hstale, by rintro _ ⟨⟩⟩)⟩
  · intro hahead
    obtain ⟨-, t, hheader⟩ := hahead.header
    cases hstale.symm.trans hheader
  · rw [found, if_neg (by simp [LogImage.records, LogImage.body, hd])]
    exact forall_mem_nil _

/-- With checksums, a crash between a descriptor and its data makes recovery fail: the block
of an earlier lap does not have the checksum of the tag. -/
theorem persistJournalCommit_torn_fails :
    ∃ p, sampleCsum.persistJournalCommit none sampleUpdate sampleUpdateBlocks = .ok p ∧
      HoldsLive sampleCsum (sampleDisk sampleCsum 1) none [] ∧ Torn p.phases (p.phases.flatten.take 2) ∧
      ¬ ∃ scan, sampleCsum.scanInternalJournal (applyWrites (p.phases.flatten.take 2) (sampleDisk sampleCsum 1)) =
        .ok scan ∧
        RecoversAll (applyWrites (p.phases.flatten.take 2) (sampleDisk sampleCsum 1))
          (committedTransactions scan) [] := by
  have hold := holdsLive_sample sampleCsum_encodes rfl 1
  have hreq : sampleCsum.journalBlocksRequired sampleUpdate sampleUpdateBlocks = .ok 3 := by decide +kernel
  obtain ⟨p, hp⟩ := persistJournalCommit_zero_exists sampleCsum_encodes rfl rfl hreq nofun
  obtain ⟨old, img, tail, before, writes, hphases, happ, hold', hcommit, hscan, -⟩ := hold.appending hp
  obtain ⟨rfl, hfeatures⟩ := before_sample sampleCsum_encodes rfl hp hphases
  obtain rfl : old = [] := map_eq_nil_iff.1 hold'
  obtain ⟨d, hd⟩ := LogImage.groups_of_single hcommit.1
  have hflat : p.phases.flatten.take 2 = [[(0, p.superblock.encoded)]].flatten ++ writes.take 1 := by simp [hphases]
  refine ⟨p, hp, hold, ?_, ?_⟩
  · rw [hflat, hphases]
    exact ⟨[_], writes, [], 1, rfl, rfl⟩
  · rintro ⟨scan, hs, -⟩
    rw [hflat, applyWrites_append, ← hscan, happ.scan_eq (take_sublist 1 writes)] at hs
    have hcrashed := happ.crashed_take 1
    rw [takeRecords_one hd] at hcrashed
    have hverify := (hcrashed.scanFrom_iff.1 hs).1.2.1.1
    have h3 : p.superblock.hasChecksumV3 = true := by
      rw [hasChecksumV3, hfeatures]
      decide
    have hcrc : crc32c _ (applyWrites _ _ (p.superblock.ring.adv tail 1)) = crc32c _ (loggedData ⟨7, zeros 1024⟩) :=
      crc_of_verifyData h3 hverify
    have hone : 1 ≤ img.blocks.length := by
      rw [blocks_sample hd hcommit.2]
      exact Nat.le_add_left 1 2
    rw [stale_sample happ (Sublist.refl _) le_rfl hone, loggedData_sample] at hcrc
    exact crc32c_ne _ [] (zeros 1023) (by decide) hcrc

end JournalSuperblock

end XKernel.Ext4
