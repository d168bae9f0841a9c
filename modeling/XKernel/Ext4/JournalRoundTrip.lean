import XKernel.Ext4.JournalRecords
import XKernel.Ext4.JournalUpdates
/-!
# From the log back to the transaction

`writeJournalCommit` lays the image of a transaction into the log, and a scan that starts
there returns the transaction. A tag of a journal without `64BIT` holds the low half of a
block number, and the scanner counts what it reads: these are the two limits of the round
trip.
-/

namespace XKernel.Ext4

open XKernel.Lib List

namespace JournalSuperblock

variable {sb : JournalSuperblock} {log : JournalContents} {s s' : ScanState} {r : JournalLogScan} {id : TransactionId}

/-! ## The image as records -/

namespace LogImage

/-- The records in front of the commit block. -/
def body (img : LogImage sb id) : List LogRecord :=
  img.groups.map (fun g => .group g.1 g.2) ++ img.revokes.map fun g => .revoke g.1 g.2

def records (img : LogImage sb id) : List LogRecord := img.body ++ [.commit img.commit]

section

variable (img : LogImage sb id)
include img

theorem isBody_of_mem : ∀ rec ∈ img.body, rec.IsBody :=
  forall_mem_append.2 ⟨forall_mem_map.2 fun _ _ => trivial, forall_mem_map.2 fun _ _ => trivial⟩

theorem isOf_of_mem : ∀ rec ∈ img.records, rec.IsOf sb id := by
  refine forall_mem_append.2 ⟨forall_mem_append.2 ⟨forall_mem_map.2 img.isDescriptor, forall_mem_map.2 fun g hg => ?_⟩,
    forall_mem_singleton.2 img.isCommit⟩
  exact ⟨img.hasRevoke (ne_nil_of_mem hg), img.isRevoke g hg⟩

theorem blocks_records : img.records.flatMap LogRecord.blocks = img.blocks := by
  simp only [records, body, flatMap_append, flatMap_map, append_assoc]
  congr 1
  simp [LogRecord.blocks, LogRecord.control, LogRecord.updates, ← map_eq_flatMap]

theorem updates_body : img.body.flatMap LogRecord.updates = img.updates := by
  simp [body, updates, flatMap_map, LogRecord.updates]

theorem revoked_body : img.body.flatMap LogRecord.revoked = img.revoked := by
  simp [body, revoked, flatMap_map, LogRecord.revoked]

theorem recordsSize_records : recordsSize img.records = img.blocks.length := by
  rw [recordsSize, blocks_records]

theorem recordsSize_body : recordsSize img.body + 1 = img.blocks.length := by
  rw [← recordsSize_records]
  simp [records, recordsSize, LogRecord.blocks, LogRecord.updates]

end

/-- What the scanner makes of an image that starts at `p`. -/
def transactionAt (img : LogImage sb id) (p : Nat) : JournalTransaction where
  sequence := id
  start := p
  nextLogBlock := sb.ring.adv p img.blocks.length
  updates := sb.recordsUpdates id p img.body
  revokedBlocks := img.revoked
  state := .committed

end LogImage

variable (img : LogImage sb id) (target : UInt64)

theorem afterAll_records (hid : s.expectedSequence = id) (hs : s.current = none) :
    sb.afterAll s img.records = {
      transactions := s.transactions ++ [img.transactionAt s.cursor]
      current := none
      cursor := sb.ring.adv s.cursor img.blocks.length
      expectedSequence := id + 1
      totalUpdates := s.totalUpdates + img.updates.length
      totalRevokes := s.totalRevokes + img.revoked.length
      remainingBlocks := s.remainingBlocks - img.blocks.length } := by
  subst hid
  have hb := img.isBody_of_mem
  have hsize := img.recordsSize_body
  have hnew : s.builder s.cursor = .new s.expectedSequence s.cursor := by simp [ScanState.builder, hs]
  have hbuilder : (sb.afterAll s img.body).builder (sb.afterAll s img.body).cursor =
      ⟨s.expectedSequence, s.cursor, sb.recordsUpdates s.expectedSequence s.cursor img.body, img.revoked⟩ := by
    rw [builder_afterAll hb, hnew, img.revoked_body]
    rfl
  have hnext : sb.ring.next (sb.ring.adv s.cursor (recordsSize img.body)) = sb.ring.adv s.cursor img.blocks.length := by
    rw [Ring.next_adv, hsize]
  have hcursor : sb.ring.adv (sb.ring.adv s.cursor (recordsSize img.body)) 1 =
      sb.ring.adv s.cursor img.blocks.length := hnext
  rw [LogImage.records, afterAll_append, afterAll_cons, afterAll_nil, after, hbuilder]
  simp only [advance, transactions_afterAll hb, expectedSequence_afterAll hb, cursor_afterAll, remainingBlocks_afterAll,
    totalUpdates_afterAll, totalRevokes_afterAll, img.updates_body, img.revoked_body, hcursor, hnext,
    Nat.sub_sub, hsize]
  rfl

theorem meets_records (hid : s.expectedSequence = id) (hsize : img.blocks.length ≤ s.remainingBlocks)
    (h : sb.Controls log s.cursor img.records) : sb.Meets log s img.records := by
  subst hid
  rw [← img.recordsSize_records] at hsize
  apply meets_of_controls _ img.isOf_of_mem hsize h
  rw [LogImage.records, dropLast_concat]
  exact img.isBody_of_mem

/-! ## Transactions that were recovered -/

/-- The scanned transaction is the committed one that wrote `blocks` and `revoked`. -/
structure Recovers (log : JournalContents) (t : JournalTransaction) (id : TransactionId)
    (blocks : List JournalCommitBlock) (revoked : List UInt64) : Prop where
  committed : t.state = .committed
  sequence_eq : t.sequence = id
  targets_eq : t.updates.map JournalUpdate.target = blocks.map JournalCommitBlock.target
  contents_eq : t.updates.map (readLogged log) = blocks.map fun b => .ok b.bytes
  revoked_eq : t.revokedBlocks = revoked

variable {p : Nat}

theorem recovers_iff (h : sb.Stored log p img.blocks) :
    Recovers log (img.transactionAt p) id img.updates img.revoked ↔ ∀ b ∈ img.updates, sb.TargetFits b.target := by
  have htargets : (img.transactionAt p).updates.map JournalUpdate.target =
      img.updates.map fun b => sb.storedTarget b.target := by
    rw [← img.updates_body]
    exact target_recordsUpdates _ _ _
  have hfits : (img.updates.map fun b => sb.storedTarget b.target) = img.updates.map JournalCommitBlock.target ↔
      ∀ b ∈ img.updates, sb.TargetFits b.target := by
    rw [map_inj_left]
    exact forall₂_congr fun b _ => sb.storedTarget_eq_iff b.target
  constructor
  · intro hr
    rw [← hfits, ← htargets]
    exact hr.targets_eq
  · intro hf
    refine ⟨rfl, rfl, ?_, ?_, rfl⟩
    · rw [htargets, hfits]
      exact hf
    · rw [← img.blocks_records, LogImage.records, flatMap_append, stored_append] at h
      rw [← img.updates_body]
      exact contents_recordsUpdates _ _ _ h.1

/-! ## What a scan keeps -/

theorem scanDescriptor_transactions (h : sb.scanDescriptor log p s = .ok s') :
    s'.transactions = s.transactions ∧ ∀ ts, sb.scanDescriptor log p { s with transactions := ts } =
      .ok { s' with transactions := ts } := by
  obtain ⟨_, hsum, h⟩ := bind_eq_ok.1 h
  obtain ⟨tags, htags, h⟩ := bind_eq_ok.1 h
  obtain ⟨q, hq, h⟩ := bind_eq_ok.1 h
  obtain ⟨hok, rfl⟩ := scanTags_eq_ok.1 hq
  cases h
  refine ⟨rfl, fun ts => bind_eq_ok.2 ⟨_, hsum,
    bind_eq_ok.2 ⟨_, htags, bind_eq_ok.2 ⟨_, scanTags_eq_ok.2 ⟨hok, rfl⟩, rfl⟩⟩⟩⟩

theorem scanRevoke_transactions (h : sb.scanRevoke log p s = .ok s') :
    s'.transactions = s.transactions ∧ ∀ ts, sb.scanRevoke log p { s with transactions := ts } =
      .ok { s' with transactions := ts } := by
  obtain ⟨_, hrev, h⟩ := bind_eq_ok.1 h
  obtain ⟨_, hsum, h⟩ := bind_eq_ok.1 h
  obtain ⟨_, hentries, h⟩ := bind_eq_ok.1 h
  obtain ⟨_, hlim, h⟩ := bind_eq_ok.1 h
  cases h
  exact ⟨rfl, fun ts => bind_eq_ok.2 ⟨_, hrev,
    bind_eq_ok.2 ⟨_, hsum, bind_eq_ok.2 ⟨_, hentries, bind_eq_ok.2 ⟨_, hlim, rfl⟩⟩⟩⟩⟩

theorem scanCommit_transactions (h : sb.scanCommit log p s = .ok s') :
    ∃ t, s'.transactions = s.transactions ++ [t] ∧ ∀ ts, ts.length = s.transactions.length →
      sb.scanCommit log p { s with transactions := ts } = .ok { s' with transactions := ts ++ [t] } := by
  obtain ⟨_, hsum, h⟩ := bind_eq_ok.1 h
  obtain ⟨_, hlim, h⟩ := bind_eq_ok.1 h
  cases h
  refine ⟨_, rfl, fun ts hts => bind_eq_ok.2 ⟨_, hsum, bind_eq_ok.2 ⟨(), ?_, rfl⟩⟩⟩
  rw [← hts] at hlim
  exact hlim

/-- The scanner only adds transactions, and looks at those it has only to count them. -/
theorem scanControl_transactions {t : UInt32} (h : sb.scanControl log t p s = .ok s') :
    ∃ new, s'.transactions = s.transactions ++ new ∧ ∀ ts, ts.length = s.transactions.length →
      sb.scanControl log t p { s with transactions := ts } = .ok { s' with transactions := ts ++ new } := by
  unfold scanControl at *
  split_ifs at h ⊢
  · obtain ⟨heq, hall⟩ := scanDescriptor_transactions h
    exact ⟨[], by simpa using heq, fun ts _ => by simpa using hall ts⟩
  · obtain ⟨heq, hall⟩ := scanRevoke_transactions h
    exact ⟨[], by simpa using heq, fun ts _ => by simpa using hall ts⟩
  · obtain ⟨t, heq, hall⟩ := scanCommit_transactions h
    exact ⟨[t], heq, hall⟩

theorem scanFinish_transactions (h : scanFinish s = .ok r) :
    ∃ new, r.transactions = s.transactions ++ new ∧ ∀ ts, ts.length = s.transactions.length →
      scanFinish { s with transactions := ts } = .ok { r with transactions := ts ++ new } := by
  unfold scanFinish at *
  cases hc : s.current with
  | none =>
    simp only [hc] at h
    cases h
    exact ⟨[], by simp, fun ts _ => by simp⟩
  | some =>
    simp only [hc] at h
    obtain ⟨_, hlim, h⟩ := bind_eq_ok.1 h
    cases h
    refine ⟨_, rfl, fun ts hts => ?_⟩
    simp only [hts, hlim, ok_bind, pure_eq_ok]

theorem scanLoop_transactions {fuel : Nat} (h : sb.scanLoop log fuel s = .ok r) :
    ∃ new, r.transactions = s.transactions ++ new ∧ ∀ ts, ts.length = s.transactions.length →
      sb.scanLoop log fuel { s with transactions := ts } = .ok { r with transactions := ts ++ new } := by
  induction fuel generalizing s with
  | zero => exact scanFinish_transactions h
  | succ fuel ih =>
    rw [scanLoop] at h
    split_ifs at h with hrem
    · obtain ⟨new, heq, hall⟩ := scanFinish_transactions h
      refine ⟨new, heq, fun ts hts => ?_⟩
      rw [scanLoop, if_pos hrem]
      exact hall ts hts
    · obtain ⟨o, ho, h⟩ := bind_eq_ok.1 h
      cases o with
      | none =>
        obtain ⟨new, heq, hall⟩ := scanFinish_transactions h
        refine ⟨new, heq, fun ts hts => ?_⟩
        have hend := scanStep_eq_none.1 ho
        have hnone : sb.scanStep log { s with transactions := ts } = .ok none := scanStep_eq_none.2 hend
        rw [scanLoop, if_neg hrem, hnone]
        exact hall ts hts
      | some s1 =>
        obtain ⟨t, hh, hr, ht, hc⟩ := scanStep_cases ho
        obtain ⟨new1, heq1, hall1⟩ := scanControl_transactions hc
        simp only [advance] at heq1 hall1
        obtain ⟨new2, heq2, hall2⟩ := ih h
        refine ⟨new1 ++ new2, by rw [heq2, heq1, append_assoc], fun ts hts => ?_⟩
        have hstep : sb.scanStep log { s with transactions := ts } =
          .ok (some { s1 with transactions := ts ++ new1 }) := by
          rw [scanStep_control (s := { s with transactions := ts }) hh ht hr]
          exact map_eq_ok.2 ⟨_, hall1 ts hts, rfl⟩
        rw [scanLoop, if_neg hrem, hstep, ok_bind, ← append_assoc]
        exact hall2 (ts ++ new1) (by rw [heq1, length_append, length_append, hts])

theorem scanFrom_transactions (h : sb.scanFrom log s = .ok r) :
    ∃ new, r.transactions = s.transactions ++ new ∧ ∀ ts, ts.length = s.transactions.length →
      sb.scanFrom log { s with transactions := ts } = .ok { r with transactions := ts ++ new } :=
  scanLoop_transactions h

/-! ## A commit block ahead -/

/-- The blocks at `p`, of which `n` are left to scan, go on to a commit block of transaction
`sequence`: behind descriptors, with a data block for each of their tags, and revoke blocks. -/
inductive CommitAhead (sb : JournalSuperblock) (log : JournalContents) (sequence : TransactionId) : Nat → Nat → Prop
  | commit {p n : Nat} (header : parseHeader (log p) = .ok (some ⟨commitBlock, sequence⟩)) :
    CommitAhead sb log sequence p (n + 1)
  | revoke {p n : Nat} (header : parseHeader (log p) = .ok (some ⟨revokeBlock, sequence⟩))
    (rest : CommitAhead sb log sequence (sb.ring.adv p 1) n) : CommitAhead sb log sequence p (n + 1)
  | descriptor {p n : Nat} {tags : List DescriptorTag}
    (header : parseHeader (log p) = .ok (some ⟨descriptorBlock, sequence⟩))
    (parsed : sb.parseDescriptorTags (log p) = .ok tags)
    (rest : CommitAhead sb log sequence (sb.ring.adv (sb.ring.adv p 1) tags.length) n) :
    CommitAhead sb log sequence p (n + tags.length + 1)

variable {sequence : TransactionId} {n : Nat}

theorem CommitAhead.header (h : sb.CommitAhead log sequence p n) :
    n ≠ 0 ∧ ∃ t, parseHeader (log p) = .ok (some ⟨t, sequence⟩) := by
  cases h with
  | commit header => exact ⟨by omega, _, header⟩
  | revoke header => exact ⟨by omega, _, header⟩
  | descriptor header => exact ⟨by omega, _, header⟩

theorem commitAhead_revoke (header : parseHeader (log p) = .ok (some ⟨revokeBlock, sequence⟩)) :
    sb.CommitAhead log sequence p (n + 1) ↔ sb.CommitAhead log sequence (sb.ring.adv p 1) n := by
  constructor
  · intro h
    cases h with
    | revoke _ rest => exact rest
    | commit h => cases header.symm.trans h
    | descriptor h => cases header.symm.trans h
  · exact .revoke header

theorem commitAhead_descriptor {tags : List DescriptorTag}
    (header : parseHeader (log p) = .ok (some ⟨descriptorBlock, sequence⟩))
    (parsed : sb.parseDescriptorTags (log p) = .ok tags) :
    sb.CommitAhead log sequence p (n + tags.length + 1) ↔
      sb.CommitAhead log sequence (sb.ring.adv (sb.ring.adv p 1) tags.length) n := by
  constructor
  · intro h
    generalize hm : n + tags.length + 1 = m at h
    cases h with
    | @descriptor _ m _ _ hp rest =>
      obtain rfl := Except.ok.inj (parsed.symm.trans hp)
      obtain rfl : n = m := by omega
      exact rest
    | commit h => cases header.symm.trans h
    | revoke h => cases header.symm.trans h
  · exact .descriptor header parsed

/-- Whatever else the scanner finds is behind what it has. -/
theorem exists_committed {fuel : Nat} (h : sb.scanLoop log fuel s = .ok r)
    (hs : ∀ t ∈ s.transactions, t.state = .committed) :
    ∃ more, committedTransactions r = s.transactions ++ more := by
  obtain ⟨new, heq, -⟩ := scanLoop_transactions h
  refine ⟨new.filter fun t => t.state = .committed, ?_⟩
  rw [committedTransactions, heq, filter_append, filter_eq_self.2 (by simpa using hs)]

theorem committed_scanFinish (h : scanFinish s = .ok r) (hs : ∀ t ∈ s.transactions, t.state = .committed) :
    committedTransactions r = s.transactions := by
  have hall : s.transactions.filter (fun t => t.state = .committed) = s.transactions :=
    filter_eq_self.2 (by simpa using hs)
  unfold scanFinish at h
  cases hc : s.current with
  | none =>
    simp only [hc] at h
    cases h
    exact hall
  | some b =>
    simp only [hc] at h
    obtain ⟨_, -, h⟩ := bind_eq_ok.1 h
    cases h
    simp [committedTransactions, filter_append, hall, TransactionBuilder.finish]

/-- A scan that does not fail finds another committed transaction exactly when a commit block of the
expected transaction is ahead. -/
theorem committed_scanLoop {fuel : Nat} (hf : s.remainingBlocks ≤ fuel) (hr : sb.scanLoop log fuel s = .ok r)
    (hs : ∀ t ∈ s.transactions, t.state = .committed) :
    committedTransactions r = s.transactions ↔ ¬ sb.CommitAhead log s.expectedSequence s.cursor s.remainingBlocks := by
  induction fuel generalizing s with
  | zero => exact iff_of_true (committed_scanFinish hr hs) fun h => h.header.1 (by omega)
  | succ fuel ih =>
    rw [scanLoop] at hr
    split_ifs at hr with hrem
    · exact iff_of_true (committed_scanFinish hr hs) fun h => h.header.1 hrem
    · obtain ⟨o, ho, hr⟩ := bind_eq_ok.1 hr
      cases o with
      | none =>
        refine iff_of_true (committed_scanFinish hr hs) fun h => ?_
        obtain ⟨o, ho, hseq⟩ := scanStep_eq_none.1 ho
        obtain ⟨-, t, hheader⟩ := h.header
        exact hseq _ (Except.ok.inj (ho.symm.trans hheader)) rfl
      | some s1 =>
        have hlt := remaining_of_scanStep ho
        obtain ⟨t, hh, -, ht, hc⟩ := scanStep_cases ho
        rcases ht with rfl | rfl | rfl
        · obtain ⟨tags, b, htags, hle, rfl⟩ := scanDescriptor_spec hc
          simp only [advance] at hle hlt
          rw [show s.remainingBlocks = s.remainingBlocks - 1 - tags.length + tags.length + 1 by omega,
            commitAhead_descriptor hh htags]
          exact ih (by simp only [advance]; omega) hr hs
        · obtain ⟨_, _, rfl⟩ := scanRevoke_spec hc
          rw [show s.remainingBlocks = s.remainingBlocks - 1 + 1 by omega, commitAhead_revoke hh]
          exact ih (by simp only [advance]; omega) hr hs
        · obtain ⟨_, -, hc⟩ := bind_eq_ok.1 hc
          obtain ⟨_, -, hc⟩ := bind_eq_ok.1 hc
          cases hc
          obtain ⟨more, hmore⟩ := exists_committed hr (forall_mem_append.2 ⟨hs, forall_mem_singleton.2 rfl⟩)
          refine iff_of_false ?_ (not_not_intro ?_)
          · simp [hmore, advance]
          · rw [show s.remainingBlocks = s.remainingBlocks - 1 + 1 by omega]
            exact .commit hh

/-! ## A scan that starts elsewhere -/

/-- The superblock of a journal whose oldest transaction is `sequence` at `start`. -/
def startedAt (sb : JournalSuperblock) (start : Nat) (sequence : TransactionId) (h : sb.ring.Mem start) :
    JournalSuperblock :=
  sb.withStart sb.encoded sequence start h

section StartedAt

variable {start : Nat} {sequence : TransactionId} {h : sb.ring.Mem start}

theorem parseTagLoop_startedAt (input : Bytes) (stop fuel offset : Nat) (isFirst : Bool) :
    (sb.startedAt start sequence h).parseTagLoop input stop fuel offset isFirst =
      sb.parseTagLoop input stop fuel offset isFirst := by
  induction fuel generalizing offset isFirst with
  | zero => rfl
  | succ fuel ih =>
    rw [parseTagLoop, parseTagLoop]
    simp only [ih]
    rfl

theorem parseRevokeEntries_startedAt (input : Bytes) (n offset : Nat) :
    (sb.startedAt start sequence h).parseRevokeEntries input n offset = sb.parseRevokeEntries input n offset := by
  induction n generalizing offset with
  | zero => rfl
  | succ n ih =>
    rw [parseRevokeEntries, parseRevokeEntries]
    simp only [ih]
    rfl

theorem scanTags_startedAt (tags : List DescriptorTag) (b : TransactionBuilder) (s : ScanState) :
    (sb.startedAt start sequence h).scanTags log tags b s = sb.scanTags log tags b s := by
  induction tags generalizing b s with
  | nil => rfl
  | cons tag tags ih =>
    rw [scanTags, scanTags]
    simp only [ih]
    rfl

theorem scanDescriptor_startedAt (p : Nat) (s : ScanState) :
    (sb.startedAt start sequence h).scanDescriptor log p s = sb.scanDescriptor log p s := by
  simp only [scanDescriptor, parseDescriptorTags, parseTagLoop_startedAt, scanTags_startedAt]
  rfl

theorem scanRevoke_startedAt (p : Nat) (s : ScanState) :
    (sb.startedAt start sequence h).scanRevoke log p s = sb.scanRevoke log p s := by
  simp only [scanRevoke, parseRevokeBlocks, parseRevokeEntries_startedAt]
  rfl

theorem scanStep_startedAt (s : ScanState) :
    (sb.startedAt start sequence h).scanStep log s = sb.scanStep log s := by
  simp only [scanStep, scanDescriptor_startedAt, scanRevoke_startedAt]
  rfl

theorem scanLoop_startedAt (fuel : Nat) (s : ScanState) :
    (sb.startedAt start sequence h).scanLoop log fuel s = sb.scanLoop log fuel s := by
  induction fuel generalizing s with
  | zero => rfl
  | succ fuel ih => simp only [scanLoop, ih, scanStep_startedAt]

end StartedAt

/-! ## The round trip -/

theorem stored_of_place {bs : List Bytes} (hp : sb.ring.Mem p) (hl : bs.length ≤ sb.ring.size) (log : JournalContents) :
    sb.Stored (applyWrites (sb.ring.place p bs) log) p bs := by
  intro w hw
  exact applyWrites_of_mem (Ring.nodup_place hp hl) hw

theorem length_le_ring {n : Nat} (h : n ≤ sb.usableLogCapacity) : n ≤ sb.ring.size :=
  le_trans h (Nat.sub_le _ _)

theorem scanFrom_image (hid : s.expectedSequence = id) (hlim : WithinLimits s)
    (hsize : img.blocks.length ≤ s.remainingBlocks) (h : sb.Stored log s.cursor img.blocks) :
    sb.scanFrom log s = .ok r ↔
      WithinLimits (sb.afterAll s img.records) ∧ sb.scanFrom log (sb.afterAll s img.records) = .ok r := by
  rw [← img.blocks_records] at h
  have hmeets := meets_records img hid hsize (controls_of_stored h)
  rw [scanFrom_records hmeets, acceptsAll_iff hmeets hlim, and_iff_left (verifiesAll_of_stored h)]

/-- The scanner behind a commit that it read from an otherwise empty log as `t`. -/
def behind (sb : JournalSuperblock) (lc : JournalLogCommit) (t : JournalTransaction) : ScanState where
  transactions := [t]
  current := none
  cursor := lc.head
  expectedSequence := lc.nextSequence
  totalUpdates := lc.updateCount
  totalRevokes := lc.revokeCount
  remainingBlocks := sb.logCapacity - lc.journalBlockCount

/-- A scan at the start of a written transaction returns the transaction exactly when its
targets fit the tags, its counts are in the scanner's limits, and what the log holds behind
it does not make the scan fail. -/
theorem scanJournal_writeJournalCommit (sb : JournalSuperblock) (start : Nat) (hstart : sb.ring.Mem start)
    (commit : RuntimeTransaction) (blocks : List JournalCommitBlock) (lc : JournalLogCommit) (writes : List BlockWrite)
    (hw : sb.writeJournalCommit start commit blocks = .ok (lc, writes)) (log : JournalContents) :
    (∃ scan t ts, (sb.startedAt start commit.id hstart).scanJournal (applyWrites writes log) = .ok scan ∧
      scan.transactions = t :: ts ∧
      Recovers (applyWrites writes log) t commit.id blocks commit.revokedBlocks) ↔
    (∀ b ∈ blocks, sb.has64bit = true ∨ b.target.toNat < 2 ^ 32) ∧
      blocks.length ≤ maxScannedUpdates ∧ commit.revokedBlocks.length ≤ maxScannedRevokes ∧
      ∀ t, ∃ r, sb.scanFrom (applyWrites writes log) (sb.behind lc t) = .ok r := by
  obtain ⟨img, himg⟩ := writeJournalCommit_spec hw
  have hsize : img.blocks.length ≤ sb.ring.size := length_le_ring himg.length_le
  have hstored : sb.Stored (applyWrites writes log) start img.blocks := by
    rw [himg.writes_eq]
    exact stored_of_place hstart hsize log
  generalize applyWrites writes log = log' at hstored ⊢
  let s0 : ScanState := ⟨[], none, start, commit.id, 0, 0, sb.ring.size⟩
  have hscan : (sb.startedAt start commit.id hstart).scanJournal log' = sb.scanFrom log' s0 := by
    have hfeat : (sb.startedAt start commit.id hstart).validateSupportedFeatures = .ok () := himg.features
    rw [scanJournal, hfeat, ok_bind]
    exact scanLoop_startedAt _ _
  have hafter : sb.afterAll s0 img.records = sb.behind lc (img.transactionAt start) := by
    rw [afterAll_records img rfl rfl, behind, himg.log_eq, ← himg.updates_eq, ← himg.revoked_eq]
    simp [s0]
    rfl
  have hlimits : WithinLimits (sb.behind lc (img.transactionAt start)) ↔
      blocks.length ≤ maxScannedUpdates ∧ commit.revokedBlocks.length ≤ maxScannedRevokes := by
    rw [behind, himg.log_eq]
    constructor
    · intro h
      exact ⟨h.updates, h.revokes⟩
    · rintro ⟨h1, h2⟩
      exact ⟨h1, h2, by simp [maxScannedTransactions]⟩
  have hok : ∀ r, sb.scanFrom log' s0 = .ok r ↔
      (blocks.length ≤ maxScannedUpdates ∧ commit.revokedBlocks.length ≤ maxScannedRevokes) ∧
        sb.scanFrom log' (sb.behind lc (img.transactionAt start)) = .ok r := by
    intro r
    rw [scanFrom_image img rfl ⟨by simp [s0], by simp [s0], by simp [s0]⟩ hsize hstored, hafter, hlimits]
  have hrec := recovers_iff img hstored
  rw [himg.updates_eq, himg.revoked_eq] at hrec
  rw [hscan]
  constructor
  · rintro ⟨scan, t, ts, hr, ht, hrecovers⟩
    obtain ⟨⟨hu, hv⟩, hrest⟩ := (hok scan).1 hr
    obtain ⟨new, heq, hall⟩ := scanFrom_transactions hrest
    have htx : t = img.transactionAt start := by
      rw [heq, behind] at ht
      exact (cons.inj ht).1.symm
    subst htx
    exact ⟨hrec.1 hrecovers, hu, hv, fun t => ⟨_, hall [t] rfl⟩⟩
  · rintro ⟨hfits, hu, hv, hrest⟩
    obtain ⟨r, hr⟩ := hrest (img.transactionAt start)
    obtain ⟨new, heq, -⟩ := scanFrom_transactions hr
    exact ⟨r, _, new, (hok r).2 ⟨⟨hu, hv⟩, hr⟩, heq, hrec.2 hfits⟩

/-- A journal with revoke records and nothing else. -/
def sampleRevoke : JournalSuperblock := sampleSuperblock incompatRevoke 0

theorem sampleStart : sampleRevoke.ring.Mem 1022 := by decide

/-- A transaction at the end of the log that updates `target` and revokes block 9. -/
def sampleCommit : RuntimeTransaction := ⟨5, [target], [9]⟩

/-- The block starts with the magic number of the journal. -/
def sampleBlocks : List JournalCommitBlock := [⟨target, UInt32.toBeBytes magicNumber ++ zeros 1020⟩]

def sampleWritten : Ext4Result (JournalLogCommit × List BlockWrite) :=
  sampleRevoke.writeJournalCommit 1022 (sampleCommit target) (sampleBlocks target)

def sampleLog : JournalContents := fun _ => zeros 1024

/-- What the scanner returns for the written transaction. -/
def sampleScanned : Ext4Result JournalLogScan := do
  let (_, writes) ← sampleWritten target
  (sampleRevoke.startedAt 1022 5 sampleStart).scanJournal (applyWrites writes sampleLog)

theorem scanJournal_writeJournalCommit_sample :
    ∃ lc writes, sampleWritten 7 = .ok (lc, writes) ∧ ∃ scan t ts,
      (sampleRevoke.startedAt 1022 5 sampleStart).scanJournal (applyWrites writes sampleLog) = .ok scan ∧
      scan.transactions = t :: ts ∧ Recovers (applyWrites writes sampleLog) t 5 (sampleBlocks 7) [9] := by
  have hw : ∃ q, sampleWritten 7 = .ok q := by
    have hsome : (sampleWritten 7).toOption.isSome = true := by decide +kernel
    cases h : sampleWritten 7 with
    | error => simp [h, Except.toOption] at hsome
    | ok q => exact ⟨q, rfl⟩
  obtain ⟨⟨lc, writes⟩, hw⟩ := hw
  refine ⟨lc, writes, hw, ?_⟩
  refine (scanJournal_writeJournalCommit sampleRevoke 1022 sampleStart _ _ lc writes hw sampleLog).2
    ⟨by decide, by decide, by decide, fun t => ?_⟩
  -- behind the commit block the log is blank
  have hblank : (sampleWritten 7).toOption.map (fun q => (parseHeader (applyWrites q.2 sampleLog q.1.head)).toOption) =
      some (some none) := by decide +kernel
  have hheader : parseHeader (applyWrites writes sampleLog lc.head) = .ok none := by
    rw [hw] at hblank
    cases hp : parseHeader (applyWrites writes sampleLog lc.head) with
    | error => simp [Except.toOption, hp] at hblank
    | ok => simpa [Except.toOption, hp] using hblank
  exact ⟨_, scanFrom_none (scanStep_eq_none.2 ⟨none, hheader, nofun⟩)⟩

/-- A block number above 32 bits comes back as its low half. -/
theorem scanJournal_truncates_target :
    ∃ lc writes, sampleWritten (2 ^ 32 + 7) = .ok (lc, writes) ∧ ¬ ∃ scan t ts,
      (sampleRevoke.startedAt 1022 5 sampleStart).scanJournal (applyWrites writes sampleLog) = .ok scan ∧
      scan.transactions = t :: ts ∧ Recovers (applyWrites writes sampleLog) t 5 (sampleBlocks (2 ^ 32 + 7)) [9] := by
  have hscan : (sampleScanned (2 ^ 32 + 7)).toOption.map
      (fun scan => scan.transactions.map fun t => t.updates.map JournalUpdate.target) = some [[7]] := by decide +kernel
  cases hw : sampleWritten (2 ^ 32 + 7) with
  | error => simp [sampleScanned, hw, Except.toOption] at hscan
  | ok q =>
    refine ⟨q.1, q.2, rfl, ?_⟩
    rintro ⟨scan, t, ts, hs, ht, hr⟩
    simp [sampleScanned, hw, hs, ht, Except.toOption, hr.targets_eq, sampleBlocks] at hscan
    exact absurd hscan.1 (by decide)

end JournalSuperblock

end XKernel.Ext4
