import XKernel.Ext4.JournalWrites
/-!
# The scanner, one control block at a time

A round of the scanner that does not end the loop takes at least the control block, so the
rest of the scan does not depend on the fuel: `scanFrom` of a state is `scanFrom` of the
state behind the control block. For each kind of control block the lemma says exactly when
the scan goes on behind it.
-/

namespace XKernel.Ext4

open XKernel.Lib List Option

namespace JournalSuperblock

variable {sb : JournalSuperblock} {log : JournalContents} {s s' : ScanState} {r : JournalLogScan}

/-! ## Rounds -/

/-- The cursor `n` blocks further. -/
def advance (sb : JournalSuperblock) (s : ScanState) (n : Nat) : ScanState :=
  { s with cursor := sb.ring.adv s.cursor n, remainingBlocks := s.remainingBlocks - n }

theorem consumeBlock_eq_ok : sb.consumeBlock s = .ok s' ↔ s.remainingBlocks ≠ 0 ∧ s' = sb.advance s 1 := by
  unfold consumeBlock
  rw [bind_eq_ok]
  constructor
  · rintro ⟨_, hne, h⟩
    exact ⟨failIf_eq_ok.1 hne, (Except.ok.inj h).symm⟩
  · rintro ⟨hne, rfl⟩
    exact ⟨(), failIf_eq_ok.2 hne, rfl⟩

/-- The updates of a group whose data starts at `p`. -/
def tagUpdates (sb : JournalSuperblock) : Nat → List DescriptorTag → List JournalUpdate
  | _, [] => []
  | p, tag :: tags => ⟨tag.target, p, tag.flags &&& flagEscape ≠ 0⟩ :: sb.tagUpdates (sb.ring.next p) tags

/-- The data blocks from `p` on have the checksums of the tags. -/
def DataVerifies (sb : JournalSuperblock) (log : JournalContents) (sequence : TransactionId) :
    Nat → List DescriptorTag → Prop
  | _, [] => True
  | p, tag :: tags =>
    sb.verifyDataBlockChecksum (log p) sequence p tag.checksum = .ok () ∧
      sb.DataVerifies log sequence (sb.ring.next p) tags

theorem scanTags_eq_ok {tags : List DescriptorTag} {b : TransactionBuilder} {q : TransactionBuilder × ScanState} :
    sb.scanTags log tags b s = .ok q ↔
      (tags.length ≤ s.remainingBlocks ∧ (tags ≠ [] → s.totalUpdates + tags.length ≤ maxScannedUpdates) ∧
        sb.DataVerifies log s.expectedSequence s.cursor tags) ∧
      q = ({ b with updates := b.updates ++ sb.tagUpdates s.cursor tags },
        { sb.advance s tags.length with totalUpdates := s.totalUpdates + tags.length }) := by
  induction tags generalizing b s with
  | nil => simp [scanTags, DataVerifies, tagUpdates, advance, eq_comm]
  | cons tag tags ih =>
    have hupd : b.updates ++ sb.tagUpdates s.cursor (tag :: tags) =
        (b.updates ++ [⟨tag.target, s.cursor, tag.flags &&& flagEscape ≠ 0⟩]) ++
          sb.tagUpdates (sb.ring.adv s.cursor 1) tags := by
      rw [append_assoc]
      rfl
    have hrem : s.remainingBlocks - (tag :: tags).length = s.remainingBlocks - 1 - tags.length := by
      rw [length_cons]
      omega
    have htotal : s.totalUpdates + (tag :: tags).length = s.totalUpdates + 1 + tags.length := by
      rw [length_cons]
      omega
    have hcur : sb.ring.adv s.cursor (tag :: tags).length = sb.ring.adv (sb.ring.adv s.cursor 1) tags.length := rfl
    simp only [scanTags, bind_eq_ok, failIf_eq_ok, consumeBlock_eq_ok, ensureScanLimit, ih]
    constructor
    · rintro ⟨_, hne, _, hver, s1, ⟨-, rfl⟩, _, hlim, ⟨hlen, htot, hdata⟩, rfl⟩
      simp only [advance] at hlen htot hdata hlim
      refine ⟨⟨by rw [length_cons]; omega, ?_, hver, hdata⟩, ?_⟩
      · intro _
        rw [htotal]
        rcases eq_nil_or_concat tags with ht | ⟨_, _, ht⟩
        · rw [ht, length_nil]
          omega
        · exact htot (by simp [ht])
      · simp only [advance, hupd, hrem, htotal, hcur]
    · rintro ⟨⟨hlen, htot, hver, hdata⟩, rfl⟩
      have htot := htot (cons_ne_nil tag tags)
      rw [htotal] at htot
      refine ⟨(), by omega, (), hver, _, ⟨by omega, rfl⟩, (), ?_, ⟨?_, ?_, hdata⟩, ?_⟩
      · simp only [advance]
        omega
      · simp only [advance]
        omega
      · intro _
        exact htot
      · simp only [advance, hupd, hrem, htotal, hcur]

/-! ## Fuel -/

variable {p : Nat}

theorem scanDescriptor_spec (h : sb.scanDescriptor log p s = .ok s') :
    ∃ tags b, sb.parseDescriptorTags (log p) = .ok tags ∧ tags.length ≤ s.remainingBlocks ∧
      s' = { sb.advance s tags.length with totalUpdates := s.totalUpdates + tags.length, current := some b } := by
  obtain ⟨_, _, h⟩ := bind_eq_ok.1 h
  obtain ⟨tags, htags, h⟩ := bind_eq_ok.1 h
  obtain ⟨q, hq, h⟩ := bind_eq_ok.1 h
  obtain ⟨hok, rfl⟩ := scanTags_eq_ok.1 hq
  cases h
  exact ⟨tags, _, htags, hok.1, rfl⟩

theorem scanRevoke_spec (h : sb.scanRevoke log p s = .ok s') :
    ∃ total b, s' = { s with totalRevokes := total, current := b } := by
  obtain ⟨_, _, h⟩ := bind_eq_ok.1 h
  obtain ⟨_, _, h⟩ := bind_eq_ok.1 h
  obtain ⟨_, _, h⟩ := bind_eq_ok.1 h
  obtain ⟨_, _, h⟩ := bind_eq_ok.1 h
  cases h
  exact ⟨_, _, rfl⟩

/-- What a round does with the block at the cursor. -/
def scanControl (sb : JournalSuperblock) (log : JournalContents) (blockType : UInt32) (controlBlock : Nat)
    (s : ScanState) :
    Ext4Result ScanState :=
  if blockType = descriptorBlock then sb.scanDescriptor log controlBlock s
  else if blockType = revokeBlock then sb.scanRevoke log controlBlock s
  else sb.scanCommit log controlBlock s

variable {t : UInt32}

theorem remaining_of_scanControl (h : sb.scanControl log t p s = .ok s') :
    s'.remainingBlocks ≤ s.remainingBlocks := by
  unfold scanControl at h
  split_ifs at h
  · obtain ⟨_, _, -, -, rfl⟩ := scanDescriptor_spec h
    exact Nat.sub_le _ _
  · obtain ⟨_, _, rfl⟩ := scanRevoke_spec h
    exact le_rfl
  · obtain ⟨_, -, h⟩ := bind_eq_ok.1 h
    obtain ⟨_, -, h⟩ := bind_eq_ok.1 h
    cases h
    exact le_rfl

/-- A block of one of the three types with the expected sequence is taken. -/
theorem scanStep_control (hh : parseHeader (log s.cursor) = .ok (some ⟨t, s.expectedSequence⟩))
    (ht : t = descriptorBlock ∨ t = revokeBlock ∨ t = commitBlock) (hr : s.remainingBlocks ≠ 0) :
    sb.scanStep log s = some <$> sb.scanControl log t s.cursor (sb.advance s 1) := by
  have hknown : ¬ (t ≠ descriptorBlock ∧ t ≠ revokeBlock ∧ t ≠ commitBlock) := by tauto
  have hc : sb.consumeBlock s = .ok (sb.advance s 1) := consumeBlock_eq_ok.2 ⟨hr, rfl⟩
  simp only [scanStep, hh, ok_bind, ne_eq, not_true_eq_false, if_false, hknown, hc, scanControl]
  split_ifs <;> rfl

theorem scanStep_cases (h : sb.scanStep log s = .ok (some s')) :
    ∃ t, parseHeader (log s.cursor) = .ok (some ⟨t, s.expectedSequence⟩) ∧ s.remainingBlocks ≠ 0 ∧
      (t = descriptorBlock ∨ t = revokeBlock ∨ t = commitBlock) ∧
      sb.scanControl log t s.cursor (sb.advance s 1) = .ok s' := by
  obtain ⟨hdr, hh, h⟩ := bind_eq_ok.1 h
  cases hdr with
  | none => cases h
  | some hdr =>
    obtain ⟨t, q⟩ := hdr
    simp only at h
    split at h
    · cases h
    · rename_i hseq
      obtain ⟨_, hknown, h⟩ := bind_eq_ok.1 h
      obtain ⟨s1, hc, h⟩ := bind_eq_ok.1 h
      obtain ⟨hr, rfl⟩ := consumeBlock_eq_ok.1 hc
      have hq : q = s.expectedSequence := by simpa using hseq
      subst hq
      refine ⟨t, hh, hr, ?_, ?_⟩
      · have := failIf_eq_ok.1 hknown
        tauto
      · have hmap : some <$> sb.scanControl log t s.cursor (sb.advance s 1) = .ok (some s') := by
          rw [← h]
          simp only [scanControl]
          split_ifs <;> rfl
        cases hx : sb.scanControl log t s.cursor (sb.advance s 1) with
        | error => simp [hx] at hmap
        | ok => simpa [hx] using hmap

/-- The loop ends at a block that is no control block of the expected sequence. -/
theorem scanStep_eq_none :
    sb.scanStep log s = .ok none ↔
      ∃ o, parseHeader (log s.cursor) = .ok o ∧ ∀ hdr, o = some hdr → hdr.sequence ≠ s.expectedSequence := by
  unfold scanStep
  rw [bind_eq_ok]
  refine exists_congr fun o => and_congr_right fun _ => ?_
  cases o with
  | none => simp
  | some hdr =>
    simp only [some.injEq, forall_eq']
    by_cases hseq : hdr.sequence = s.expectedSequence
    · simp only [hseq, ne_eq, not_true_eq_false, iff_false]
      intro h
      obtain ⟨_, _, h⟩ := bind_eq_ok.1 h
      obtain ⟨s1, _, h⟩ := bind_eq_ok.1 h
      split_ifs at h <;> obtain ⟨_, _, h⟩ := map_eq_ok.1 h <;> cases h
    · simp [hseq]

theorem remaining_of_scanStep (h : sb.scanStep log s = .ok (some s')) : s'.remainingBlocks < s.remainingBlocks := by
  obtain ⟨t, _, hr, _, hc⟩ := scanStep_cases h
  have := remaining_of_scanControl hc
  simp only [advance] at this
  omega

theorem scanLoop_fuel {fuel fuel' : Nat} (h : s.remainingBlocks ≤ fuel) (h' : s.remainingBlocks ≤ fuel') :
    sb.scanLoop log fuel s = sb.scanLoop log fuel' s := by
  induction fuel generalizing s fuel' with
  | zero =>
    cases fuel' with
    | zero => rfl
    | succ => rw [scanLoop, scanLoop, if_pos (by omega)]
  | succ fuel ih =>
    cases fuel' with
    | zero => rw [scanLoop, scanLoop, if_pos (by omega)]
    | succ =>
      rw [scanLoop, scanLoop]
      split
      · rfl
      · cases hs : sb.scanStep log s with
        | error => rfl
        | ok o =>
          cases o with
          | none => rfl
          | some =>
            have := remaining_of_scanStep hs
            exact ih (by omega) (by omega)

/-- The scan goes on from the state behind the block at the cursor. -/
theorem scanFrom_some (hs : sb.scanStep log s = .ok (some s')) : sb.scanFrom log s = sb.scanFrom log s' := by
  have hlt := remaining_of_scanStep hs
  obtain ⟨n, hn⟩ : ∃ n, s.remainingBlocks = n + 1 := ⟨s.remainingBlocks - 1, by omega⟩
  rw [scanFrom, hn, scanLoop, if_neg (by omega), hs, ok_bind]
  exact scanLoop_fuel (by omega) le_rfl

theorem scanFrom_none (hs : sb.scanStep log s = .ok none) : sb.scanFrom log s = scanFinish s := by
  cases hn : s.remainingBlocks with
  | zero => rw [scanFrom, hn, scanLoop]
  | succ => rw [scanFrom, hn, scanLoop, if_neg (by omega), hs, ok_bind]

/-- Behind a control block of the expected sequence, the scan succeeds exactly when the
block is accepted and the scan from the state behind it succeeds. -/
theorem scanFrom_control (hh : parseHeader (log s.cursor) = .ok (some ⟨t, s.expectedSequence⟩))
    (ht : t = descriptorBlock ∨ t = revokeBlock ∨ t = commitBlock) (hr : s.remainingBlocks ≠ 0) :
    sb.scanFrom log s = .ok r ↔
      ∃ s', sb.scanControl log t s.cursor (sb.advance s 1) = .ok s' ∧ sb.scanFrom log s' = .ok r := by
  have hstep : sb.scanStep log s = some <$> sb.scanControl log t s.cursor (sb.advance s 1) :=
    scanStep_control hh ht hr
  cases hc : sb.scanControl log t s.cursor (sb.advance s 1) with
  | error =>
    rw [hc, Except.map_error] at hstep
    obtain ⟨n, hn⟩ : ∃ n, s.remainingBlocks = n + 1 := ⟨s.remainingBlocks - 1, by omega⟩
    rw [scanFrom, hn, scanLoop, if_neg (by omega), hstep, error_bind]
    simp
  | ok =>
    rw [hc, Except.map_ok] at hstep
    rw [scanFrom_some hstep]
    simp

/-! ## Records -/

end JournalSuperblock

/-- A control block of the log with what it stands for. -/
inductive LogRecord where
  | group (updates : List JournalCommitBlock) (block : Bytes)
  | revoke (revoked : List UInt64) (block : Bytes)
  | commit (block : Bytes)
  deriving DecidableEq

namespace LogRecord

def control : LogRecord → Bytes
  | group _ block => block
  | revoke _ block => block
  | commit block => block

/-- The metadata blocks whose data stands behind the control block. -/
def updates : LogRecord → List JournalCommitBlock
  | group updates _ => updates
  | _ => []

def blocks (rec : LogRecord) : List Bytes := rec.control :: rec.updates.map JournalSuperblock.loggedData

def revoked : LogRecord → List UInt64
  | revoke revoked _ => revoked
  | _ => []

/-- The control block is one of transaction `sequence`. -/
def IsOf (sb : JournalSuperblock) (sequence : TransactionId) : LogRecord → Prop
  | group updates block => sb.IsDescriptor sequence updates block
  | revoke revoked block => sb.hasRevoke = true ∧ sb.IsRevoke sequence revoked block
  | commit block => sb.IsCommit sequence block

end LogRecord

namespace JournalSuperblock

variable {sb : JournalSuperblock} {log : JournalContents} {s s' : ScanState} {r : JournalLogScan} {rec : LogRecord}
  {recs : List LogRecord}

/-- The tags that the scanner reads from the descriptor of a group. -/
def tagsOf (sb : JournalSuperblock) (sequence : TransactionId) (updates : List JournalCommitBlock) :
    List DescriptorTag :=
  sb.groupTags sequence updates.length 0 updates

/-- The state behind a record. -/
def after (sb : JournalSuperblock) (s : ScanState) : LogRecord → ScanState
  | .group updates _ =>
    { sb.advance s (1 + updates.length) with
      totalUpdates := s.totalUpdates + updates.length
      current := some {
        s.builder s.cursor with
        updates := (s.builder s.cursor).updates ++
          sb.tagUpdates (sb.ring.next s.cursor) (sb.tagsOf s.expectedSequence updates) } }
  | .revoke revoked _ =>
    { sb.advance s 1 with
      totalRevokes := s.totalRevokes + revoked.length
      current := some {
        s.builder s.cursor with
        revokedBlocks := (s.builder s.cursor).revokedBlocks ++ revoked } }
  | .commit _ =>
    { sb.advance s 1 with
      current := none
      transactions := s.transactions ++ [(s.builder s.cursor).finish (sb.ring.next s.cursor) .committed]
      expectedSequence := s.expectedSequence + 1 }

/-- The scanner accepts a record: it stays in its limits, and the data has the checksums
of the tags. -/
def Accepts (sb : JournalSuperblock) (log : JournalContents) (s : ScanState) : LogRecord → Prop
  | .group updates _ =>
    updates.length < s.remainingBlocks ∧ (updates ≠ [] → s.totalUpdates + updates.length ≤ maxScannedUpdates) ∧
      sb.DataVerifies log s.expectedSequence (sb.ring.next s.cursor) (sb.tagsOf s.expectedSequence updates)
  | .revoke revoked _ => sb.hasRevoke = true ∧ s.totalRevokes + revoked.length ≤ maxScannedRevokes
  | .commit _ => s.transactions.length + 1 ≤ maxScannedTransactions

theorem length_groupTags (sb : JournalSuperblock) (sequence : TransactionId) (total index : Nat)
    (updates : List JournalCommitBlock) : (sb.groupTags sequence total index updates).length = updates.length := by
  induction updates generalizing index with
  | nil => rfl
  | cons b bs ih => simp [groupTags, ih]

variable {block : Bytes}

theorem scanControl_group {updates : List JournalCommitBlock} (hr : s.remainingBlocks ≠ 0)
    (hd : sb.IsDescriptor s.expectedSequence updates block) (hlog : log s.cursor = block) :
    sb.scanControl log descriptorBlock s.cursor (sb.advance s 1) = .ok s' ↔
      sb.Accepts log s (.group updates block) ∧ s' = sb.after s (.group updates block) := by
  have hlen : (sb.groupTags s.expectedSequence updates.length 0 updates).length = updates.length :=
    sb.length_groupTags _ _ _ _
  have hnil : sb.groupTags s.expectedSequence updates.length 0 updates ≠ [] ↔ updates ≠ [] := by
    rw [ne_eq, ← length_eq_zero_iff, hlen, length_eq_zero_iff]
  have hadv : sb.ring.adv (sb.ring.adv s.cursor 1) updates.length = sb.ring.adv s.cursor (1 + updates.length) :=
    (sb.ring.adv_add _ _ _).symm
  simp only [scanControl, if_true, scanDescriptor, hlog, hd.checksum_ok, hd.tags_eq, ok_bind, bind_eq_ok,
    scanTags_eq_ok, hlen, hnil, after]
  constructor
  · rintro ⟨_, ⟨⟨hrem, htot, hdata⟩, rfl⟩, h⟩
    refine ⟨⟨?_, htot, hdata⟩, ?_⟩
    · simp only [advance] at hrem
      omega
    · rw [← Except.ok.inj h]
      simp only [advance, hadv, Nat.sub_sub]
      rfl
  · rintro ⟨⟨hrem, htot, hdata⟩, rfl⟩
    refine ⟨_, ⟨⟨?_, htot, hdata⟩, rfl⟩, ?_⟩
    · simp only [advance]
      omega
    · simp only [advance, hadv, Nat.sub_sub]
      rfl

theorem scanControl_revoke {revoked : List UInt64}
    (hd : sb.IsRevoke s.expectedSequence revoked block) (hlog : log s.cursor = block) :
    sb.scanControl log revokeBlock s.cursor (sb.advance s 1) = .ok s' ↔
      sb.Accepts log s (.revoke revoked block) ∧ s' = sb.after s (.revoke revoked block) := by
  have hne : revokeBlock ≠ descriptorBlock := by decide
  simp only [scanControl, if_neg hne, if_true, scanRevoke, hlog, hd.checksum_ok, hd.revokes_eq, ok_bind, bind_eq_ok,
    failIf_eq_ok, ensureScanLimit, after]
  constructor
  · rintro ⟨_, hrev, _, hlim, h⟩
    refine ⟨⟨by simpa using hrev, Nat.le_of_not_lt hlim⟩, ?_⟩
    rw [← Except.ok.inj h]
    rfl
  · rintro ⟨⟨hrev, hlim⟩, rfl⟩
    exact ⟨(), by simpa using hrev, (), Nat.not_lt.2 hlim, rfl⟩

theorem scanControl_commit (hd : sb.IsCommit s.expectedSequence block) (hlog : log s.cursor = block) :
    sb.scanControl log commitBlock s.cursor (sb.advance s 1) = .ok s' ↔
      sb.Accepts log s (.commit block) ∧ s' = sb.after s (.commit block) := by
  have h1 : commitBlock ≠ descriptorBlock := by decide
  have h2 : commitBlock ≠ revokeBlock := by decide
  simp only [scanControl, if_neg h1, if_neg h2, scanCommit, hlog, hd.checksum_ok, ok_bind, bind_eq_ok, failIf_eq_ok,
    ensureScanLimit, after]
  constructor
  · rintro ⟨_, hlim, h⟩
    refine ⟨Nat.le_of_not_lt hlim, ?_⟩
    rw [← Except.ok.inj h]
    rfl
  · rintro ⟨hlim, rfl⟩
    exact ⟨(), Nat.not_lt.2 hlim, rfl⟩

theorem scanFrom_record (hr : s.remainingBlocks ≠ 0) (hrec : rec.IsOf sb s.expectedSequence)
    (hlog : log s.cursor = rec.control) :
    sb.scanFrom log s = .ok r ↔ sb.Accepts log s rec ∧ sb.scanFrom log (sb.after s rec) = .ok r := by
  cases rec with
  | group =>
    have hh : parseHeader (log s.cursor) = .ok (some ⟨descriptorBlock, s.expectedSequence⟩) := by
      rw [hlog]
      exact hrec.header_eq
    rw [scanFrom_control hh (.inl rfl) hr]
    simp [scanControl_group hr hrec hlog]
  | revoke =>
    have hh : parseHeader (log s.cursor) = .ok (some ⟨revokeBlock, s.expectedSequence⟩) := by
      rw [hlog]
      exact hrec.2.header_eq
    rw [scanFrom_control hh (.inr (.inl rfl)) hr]
    simp [scanControl_revoke hrec.2 hlog]
  | commit =>
    have hh : parseHeader (log s.cursor) = .ok (some ⟨commitBlock, s.expectedSequence⟩) := by
      rw [hlog]
      exact hrec.header_eq
    rw [scanFrom_control hh (.inr (.inr rfl)) hr]
    simp [scanControl_commit hrec hlog]

end JournalSuperblock

end XKernel.Ext4
