import XKernel.Ext4.JournalScan
import XKernel.Ext4.JournalReplay
import XKernel.Lib.Disk
/-!
# Lists of records

A scan over a list of records is the scan behind them, as long as each record is accepted.
Where the log holds a whole transaction, what the scanner has collected by its commit block
is the transaction: the same blocks in the same order, their contents and the revokes.
-/

namespace XKernel.Ext4

open XKernel.Lib List LogRecord

namespace JournalSuperblock

variable {sb : JournalSuperblock} {log : JournalContents} {s s' : ScanState} {r : JournalLogScan} {rec : LogRecord}
  {recs more : List LogRecord}

/-! ## One record -/

@[simp]
theorem cursor_after : (sb.after s rec).cursor = sb.ring.adv s.cursor rec.blocks.length := by
  cases rec <;> simp [after, advance, blocks, updates, Nat.add_comm]

@[simp]
theorem remainingBlocks_after : (sb.after s rec).remainingBlocks = s.remainingBlocks - rec.blocks.length := by
  cases rec <;> simp [after, advance, blocks, updates, Nat.add_comm]

@[simp]
theorem totalUpdates_after : (sb.after s rec).totalUpdates = s.totalUpdates + rec.updates.length := by
  cases rec <;> simp [after, advance, updates]

@[simp]
theorem totalRevokes_after : (sb.after s rec).totalRevokes = s.totalRevokes + rec.revoked.length := by
  cases rec <;> simp [after, advance, revoked]

end JournalSuperblock

/-- A record in front of the commit block. -/
def LogRecord.IsBody : LogRecord → Prop
  | .commit _ => False
  | _ => True

namespace JournalSuperblock

variable {sb : JournalSuperblock} {log : JournalContents} {s s' : ScanState} {r : JournalLogScan} {rec : LogRecord}
  {recs more : List LogRecord}

theorem expectedSequence_after (h : rec.IsBody) : (sb.after s rec).expectedSequence = s.expectedSequence := by
  cases rec with
  | commit => exact h.elim
  | _ => rfl

/-- What the scanner collects from a record whose control block is at `p`. -/
def recordUpdates (sb : JournalSuperblock) (sequence : TransactionId) (p : Nat) (rec : LogRecord) :
    List JournalUpdate :=
  sb.tagUpdates (sb.ring.next p) (sb.tagsOf sequence rec.updates)

theorem builder_after (h : rec.IsBody) (p : Nat) :
    (sb.after s rec).builder p = {
      s.builder s.cursor with
      updates := (s.builder s.cursor).updates ++ sb.recordUpdates s.expectedSequence s.cursor rec
      revokedBlocks := (s.builder s.cursor).revokedBlocks ++ rec.revoked } := by
  cases rec with
  | group => simp [after, ScanState.builder, recordUpdates, updates, revoked]
  | revoke =>
    simp [after, ScanState.builder, recordUpdates, updates, revoked, tagsOf, groupTags, tagUpdates]
  | commit => exact h.elim

/-! ## Lists -/

/-- The state behind a list of records. -/
def afterAll (sb : JournalSuperblock) (s : ScanState) (recs : List LogRecord) : ScanState := recs.foldl sb.after s

@[simp]
theorem afterAll_nil : sb.afterAll s [] = s := rfl

@[simp]
theorem afterAll_cons : sb.afterAll s (rec :: recs) = sb.afterAll (sb.after s rec) recs := rfl

theorem afterAll_append : sb.afterAll s (recs ++ more) = sb.afterAll (sb.afterAll s recs) more := by
  simp [afterAll]

def AcceptsAll (sb : JournalSuperblock) (log : JournalContents) : ScanState → List LogRecord → Prop
  | _, [] => True
  | s, rec :: recs => sb.Accepts log s rec ∧ sb.AcceptsAll log (sb.after s rec) recs

/-- The scanner meets the control blocks of the records, each of the expected sequence, and
there is room for them. -/
def Meets (sb : JournalSuperblock) (log : JournalContents) : ScanState → List LogRecord → Prop
  | _, [] => True
  | s, rec :: recs =>
    (rec.blocks.length ≤ s.remainingBlocks ∧ rec.IsOf sb s.expectedSequence ∧ log s.cursor = rec.control) ∧
      sb.Meets log (sb.after s rec) recs

theorem meets_append :
    sb.Meets log s (recs ++ more) ↔ sb.Meets log s recs ∧ sb.Meets log (sb.afterAll s recs) more := by
  induction recs generalizing s with
  | nil => simp [Meets]
  | cons rec recs ih => simp [Meets, ih, and_assoc]

theorem scanFrom_records (h : sb.Meets log s recs) :
    sb.scanFrom log s = .ok r ↔ sb.AcceptsAll log s recs ∧ sb.scanFrom log (sb.afterAll s recs) = .ok r := by
  induction recs generalizing s with
  | nil => simp [AcceptsAll]
  | cons rec recs ih =>
    obtain ⟨⟨hle, hof, hlog⟩, hrest⟩ := h
    have hr : s.remainingBlocks ≠ 0 := by
      simp only [blocks, length_cons] at hle
      omega
    rw [scanFrom_record hr hof hlog, ih hrest, afterAll_cons, AcceptsAll, and_assoc]

/-- The number of blocks of a list of records. -/
def recordsSize (recs : List LogRecord) : Nat := (recs.flatMap LogRecord.blocks).length

theorem recordsSize_cons : recordsSize (rec :: recs) = rec.blocks.length + recordsSize recs := by
  simp [recordsSize]

theorem cursor_afterAll : (sb.afterAll s recs).cursor = sb.ring.adv s.cursor (recordsSize recs) := by
  induction recs generalizing s with
  | nil => rfl
  | cons rec recs ih => rw [afterAll_cons, ih, cursor_after, recordsSize_cons, Ring.adv_add]

theorem remainingBlocks_afterAll : (sb.afterAll s recs).remainingBlocks = s.remainingBlocks - recordsSize recs := by
  induction recs generalizing s with
  | nil => rfl
  | cons rec recs ih => rw [afterAll_cons, ih, remainingBlocks_after, recordsSize_cons, Nat.sub_sub]

theorem totalUpdates_afterAll :
    (sb.afterAll s recs).totalUpdates = s.totalUpdates + (recs.flatMap updates).length := by
  induction recs generalizing s with
  | nil => rfl
  | cons rec recs ih =>
    rw [afterAll_cons, ih, totalUpdates_after, flatMap_cons, length_append, Nat.add_assoc]

theorem totalRevokes_afterAll :
    (sb.afterAll s recs).totalRevokes = s.totalRevokes + (recs.flatMap revoked).length := by
  induction recs generalizing s with
  | nil => rfl
  | cons rec recs ih =>
    rw [afterAll_cons, ih, totalRevokes_after, flatMap_cons, length_append, Nat.add_assoc]

/-! ## Limits -/

/-- The scanner's counters are in their limits. -/
structure WithinLimits (s : ScanState) : Prop where
  updates : s.totalUpdates ≤ maxScannedUpdates
  revokes : s.totalRevokes ≤ maxScannedRevokes
  transactions : s.transactions.length ≤ maxScannedTransactions

theorem WithinLimits.of_after (h : WithinLimits (sb.after s rec)) : WithinLimits s where
  updates := by have := h.updates; simp at this; omega
  revokes := by have := h.revokes; simp at this; omega
  transactions := le_trans (by cases rec <;> simp [after, advance]) h.transactions

theorem WithinLimits.of_afterAll (h : WithinLimits (sb.afterAll s recs)) : WithinLimits s := by
  induction recs generalizing s with
  | nil => exact h
  | cons rec recs ih => exact (ih h).of_after

/-- The data behind the control block has the checksums of the tags. -/
def Verifies (sb : JournalSuperblock) (log : JournalContents) (s : ScanState) (rec : LogRecord) : Prop :=
  sb.DataVerifies log s.expectedSequence (sb.ring.next s.cursor) (sb.tagsOf s.expectedSequence rec.updates)

def VerifiesAll (sb : JournalSuperblock) (log : JournalContents) : ScanState → List LogRecord → Prop
  | _, [] => True
  | s, rec :: recs => sb.Verifies log s rec ∧ sb.VerifiesAll log (sb.after s rec) recs

theorem verifiesAll_append :
    sb.VerifiesAll log s (recs ++ more) ↔ sb.VerifiesAll log s recs ∧ sb.VerifiesAll log (sb.afterAll s recs) more := by
  induction recs generalizing s with
  | nil => simp [VerifiesAll]
  | cons rec recs ih => simp [VerifiesAll, ih, and_assoc]

theorem accepts_iff (hle : rec.blocks.length ≤ s.remainingBlocks) (hof : rec.IsOf sb s.expectedSequence)
    (hs : WithinLimits s) : sb.Accepts log s rec ↔ WithinLimits (sb.after s rec) ∧ sb.Verifies log s rec := by
  obtain ⟨hu, hv, ht⟩ := hs
  cases rec with
  | group updates =>
    simp only [LogRecord.blocks, LogRecord.updates, length_cons, length_map] at hle
    constructor
    · rintro ⟨-, hlim, hdata⟩
      refine ⟨⟨?_, by simpa [LogRecord.revoked] using hv, ht⟩, hdata⟩
      rw [totalUpdates_after, LogRecord.updates]
      by_cases hne : updates = []
      · simpa [hne] using hu
      · exact hlim hne
    · rintro ⟨hlim, hdata⟩
      have := hlim.updates
      exact ⟨by omega, fun _ => this, hdata⟩
  | revoke =>
    simp only [Accepts, hof.1]
    constructor
    · intro hlim
      exact ⟨⟨by simpa [LogRecord.updates] using hu, by simpa [LogRecord.revoked] using hlim, ht⟩, trivial⟩
    · rintro ⟨hlim, -⟩
      simpa [LogRecord.revoked] using hlim.revokes
  | commit =>
    simp only [Accepts]
    constructor
    · intro hlim
      exact ⟨⟨by simpa [LogRecord.updates] using hu, by simpa [LogRecord.revoked] using hv,
        by simpa [after] using hlim⟩, trivial⟩
    · rintro ⟨hlim, -⟩
      simpa [after] using hlim.transactions

/-- A list of records is accepted when the counters behind it are in their limits and all
data has the checksums of its tags. -/
theorem acceptsAll_iff (h : sb.Meets log s recs) (hs : WithinLimits s) :
    sb.AcceptsAll log s recs ↔ WithinLimits (sb.afterAll s recs) ∧ sb.VerifiesAll log s recs := by
  induction recs generalizing s with
  | nil => simp [AcceptsAll, VerifiesAll, hs]
  | cons rec recs ih =>
    obtain ⟨⟨hle, hof, -⟩, hrest⟩ := h
    rw [AcceptsAll, VerifiesAll, afterAll_cons, accepts_iff hle hof hs]
    constructor
    · rintro ⟨⟨hlim, hdata⟩, hall⟩
      obtain ⟨hend, hverify⟩ := (ih hrest hlim).1 hall
      exact ⟨hend, hdata, hverify⟩
    · rintro ⟨hend, hdata, hverify⟩
      have hlim := hend.of_afterAll
      exact ⟨⟨hlim, hdata⟩, (ih hrest hlim).2 ⟨hend, hverify⟩⟩

/-! ## The part in front of the commit block -/

section

variable (h : ∀ rec ∈ recs, rec.IsBody)
include h

theorem transactions_afterAll : (sb.afterAll s recs).transactions = s.transactions := by
  induction recs generalizing s with
  | nil => rfl
  | cons rec recs ih =>
    rw [forall_mem_cons] at h
    rw [afterAll_cons, ih h.2]
    cases rec with
    | commit => exact h.1.elim
    | _ => rfl

theorem expectedSequence_afterAll :
    (sb.afterAll s recs).expectedSequence = s.expectedSequence := by
  induction recs generalizing s with
  | nil => rfl
  | cons rec recs ih =>
    rw [forall_mem_cons] at h
    rw [afterAll_cons, ih h.2, expectedSequence_after h.1]

/-- What the scanner collects from records that start at `p`. -/
def recordsUpdates (sb : JournalSuperblock) (sequence : TransactionId) : Nat → List LogRecord → List JournalUpdate
  | _, [] => []
  | p, rec :: recs =>
    sb.recordUpdates sequence p rec ++ sb.recordsUpdates sequence (sb.ring.adv p rec.blocks.length) recs

theorem builder_afterAll :
    (sb.afterAll s recs).builder (sb.afterAll s recs).cursor = {
      s.builder s.cursor with
      updates := (s.builder s.cursor).updates ++ sb.recordsUpdates s.expectedSequence s.cursor recs
      revokedBlocks := (s.builder s.cursor).revokedBlocks ++ recs.flatMap revoked } := by
  induction recs generalizing s with
  | nil => simp [recordsUpdates]
  | cons rec recs ih =>
    rw [forall_mem_cons] at h
    rw [afterAll_cons, ih h.2, builder_after h.1, expectedSequence_after h.1, cursor_after]
    simp [recordsUpdates]

end

/-! ## Stored blocks -/

/-- The log holds `blocks` at `p` and behind it. -/
def Stored (sb : JournalSuperblock) (log : JournalContents) (p : Nat) (blocks : List Bytes) : Prop :=
  ∀ w ∈ sb.ring.place p blocks, log w.1 = w.2

variable {p : Nat}

theorem stored_cons {b : Bytes} {bs : List Bytes} :
    sb.Stored log p (b :: bs) ↔ log p = b ∧ sb.Stored log (sb.ring.next p) bs := by
  simp [Stored, Ring.place]

theorem stored_append {bs cs : List Bytes} :
    sb.Stored log p (bs ++ cs) ↔ sb.Stored log p bs ∧ sb.Stored log (sb.ring.adv p bs.length) cs := by
  simp only [Stored, Ring.place_append, forall_mem_append]

/-- The control blocks of records that start at `p` are in the log. -/
def Controls (sb : JournalSuperblock) (log : JournalContents) : Nat → List LogRecord → Prop
  | _, [] => True
  | p, rec :: recs => log p = rec.control ∧ sb.Controls log (sb.ring.adv p rec.blocks.length) recs

theorem controls_of_stored (h : sb.Stored log p (recs.flatMap blocks)) : sb.Controls log p recs := by
  induction recs generalizing p with
  | nil => trivial
  | cons rec recs ih =>
    rw [flatMap_cons, stored_append] at h
    exact ⟨(stored_cons.1 h.1).1, ih h.2⟩

/-- Records of one transaction are met where their control blocks are. -/
theorem meets_of_controls (hbody : ∀ rec ∈ recs.dropLast, rec.IsBody)
    (hof : ∀ rec ∈ recs, rec.IsOf sb s.expectedSequence)
    (hsize : recordsSize recs ≤ s.remainingBlocks) (h : sb.Controls log s.cursor recs) : sb.Meets log s recs := by
  induction recs generalizing s with
  | nil => trivial
  | cons rec recs ih =>
    rw [forall_mem_cons] at hof
    rw [recordsSize_cons] at hsize
    refine ⟨⟨by omega, hof.1, h.1⟩, ?_⟩
    cases recs with
    | nil => trivial
    | cons =>
      rw [dropLast_cons_cons, forall_mem_cons] at hbody
      apply ih hbody.2
      · rw [expectedSequence_after hbody.1]
        exact hof.2
      · rw [remainingBlocks_after]
        omega
      · rw [cursor_after]
        exact h.2

variable (sequence : TransactionId)

theorem dataVerifies_of_stored (total index p : Nat) (updates : List JournalCommitBlock)
    (h : sb.Stored log p (updates.map loggedData)) :
    sb.DataVerifies log sequence p (sb.groupTags sequence total index updates) := by
  induction updates generalizing p index with
  | nil => trivial
  | cons b bs ih =>
    rw [map_cons, stored_cons] at h
    refine ⟨?_, ih _ _ h.2⟩
    rw [h.1]
    exact sb.verifyDataBlockChecksum_own sequence p (loggedData b)

theorem verifies_of_stored (h : sb.Stored log s.cursor rec.blocks) : sb.Verifies log s rec :=
  dataVerifies_of_stored _ _ _ _ _ (stored_cons.1 h).2

theorem verifiesAll_of_stored (h : sb.Stored log s.cursor (recs.flatMap blocks)) : sb.VerifiesAll log s recs := by
  induction recs generalizing s with
  | nil => trivial
  | cons rec recs ih =>
    rw [flatMap_cons, stored_append] at h
    refine ⟨verifies_of_stored h.1, ih ?_⟩
    rw [cursor_after]
    exact h.2

/-! ## What the scanner collects -/

theorem target_tagUpdates (total index p : Nat) (updates : List JournalCommitBlock) :
    (sb.tagUpdates p (sb.groupTags sequence total index updates)).map JournalUpdate.target =
      updates.map fun b => sb.storedTarget b.target := by
  induction updates generalizing p index with
  | nil => rfl
  | cons b bs ih => simp [groupTags, tagUpdates, ih, tagOf]

theorem target_recordsUpdates (p : Nat) (recs : List LogRecord) :
    (sb.recordsUpdates sequence p recs).map JournalUpdate.target =
      (recs.flatMap updates).map fun b => sb.storedTarget b.target := by
  induction recs generalizing p with
  | nil => rfl
  | cons rec recs ih =>
    simp only [recordsUpdates, recordUpdates, tagsOf, map_append, target_tagUpdates, ih, flatMap_cons]

/-- What replay takes for an update from the log. -/
def readLogged (log : JournalContents) (u : JournalUpdate) : Ext4Result Bytes :=
  readJournalReplayUpdate (fun p => .ok (log p)) u

/-- The logged bytes give back the contents of the block. -/
theorem readLogged_eq {b : JournalCommitBlock} (target : UInt64) (h : log p = loggedData b) :
    readLogged log ⟨target, p, isEscaped b⟩ = .ok b.bytes := by
  unfold readLogged readJournalReplayUpdate
  simp only [h]
  unfold loggedData isEscaped escapeJournalData
  split
  · rename_i hmagic
    obtain ⟨hle, htake⟩ := Bytes.get_eq_some.1 hmagic
    rw [drop_zero] at htake
    have hlen : (UInt32.toBeBytes 0).length = 4 := by simp
    have hdrop : (UInt32.toBeBytes 0 ++ b.bytes.drop 4).drop 4 = b.bytes.drop 4 := by
      rw [← hlen, drop_left]
    have hok : ¬ (UInt32.toBeBytes 0 ++ b.bytes.drop 4).length < 4 := by
      rw [length_append, hlen]
      omega
    simp only [if_true, failIf, hok, if_false, ok_bind, pure_eq_ok, hdrop, ← htake, take_append_drop]
  · rfl

theorem contents_tagUpdates (total index p : Nat) (updates : List JournalCommitBlock)
    (h : sb.Stored log p (updates.map loggedData)) :
    (sb.tagUpdates p (sb.groupTags sequence total index updates)).map (readLogged log) =
      updates.map fun b => .ok b.bytes := by
  induction updates generalizing p index with
  | nil => rfl
  | cons b bs ih =>
    rw [map_cons, stored_cons] at h
    have hesc : decide ((sb.tagOf sequence index total b).flags &&& flagEscape ≠ 0) = isEscaped b := by
      rw [Bool.eq_iff_iff, decide_eq_true_iff]
      exact (sb.tagFlags_say index total (isEscaped b)).escape
    simp only [groupTags, tagUpdates, map_cons, ih _ _ h.2, hesc, readLogged_eq _ h.1]

theorem contents_recordsUpdates (p : Nat) (recs : List LogRecord) (h : sb.Stored log p (recs.flatMap blocks)) :
    (sb.recordsUpdates sequence p recs).map (readLogged log) = (recs.flatMap updates).map fun b => .ok b.bytes := by
  induction recs generalizing p with
  | nil => rfl
  | cons rec recs ih =>
    rw [flatMap_cons, stored_append] at h
    simp only [recordsUpdates, recordUpdates, tagsOf, map_append, flatMap_cons, ih _ h.2]
    rw [contents_tagUpdates _ _ _ _ _ (stored_cons.1 h.1).2]

end JournalSuperblock

end XKernel.Ext4
