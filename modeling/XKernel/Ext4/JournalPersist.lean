import XKernel.Ext4.JournalUpdates
import XKernel.Ext4.JournalWrites
/-!
# Appending a transaction

What `persist_journal_commit` does when it succeeds, and when it does, for a journal whose
cached superblock is the one on the disk.
-/

namespace XKernel.Ext4

open XKernel.Lib

namespace JournalSuperblock

variable {sb : JournalSuperblock} {previous : Option JournalLogCommit} {commit : RuntimeTransaction}
  {blocks : List JournalCommitBlock} {p : PersistedCommit} {tail : Nat}

theorem ensureLogSpace_eq_ok {head required : Nat} :
    sb.ensureLogSpace tail head required = .ok () ↔
      sb.ring.Mem tail ∧ sb.ring.Mem head ∧ sb.ring.dist tail head + required ≤ sb.usableLogCapacity := by
  unfold ensureLogSpace logDistance
  simp only [bind_eq_ok, validateStart_eq_ok, failIf_eq_ok]
  constructor
  · rintro ⟨_, ht, _, hh, hno⟩
    exact ⟨ht, hh, by omega⟩
  · rintro ⟨ht, hh, hle⟩
    exact ⟨(), ht, (), hh, by omega⟩

/-! ## The superblock -/

theorem writeJournalSuperblockActive_eq (h : sb.Encodes) (sequence : TransactionId) {start : Nat}
    (hs : sb.ring.Mem start) :
    ∃ output, sb.writeJournalSuperblockActive sequence start =
        .ok (sb.withStart output sequence start hs, [(0, output)]) ∧
          (sb.withStart output sequence start hs).Encodes := by
  obtain ⟨output, hup, henc, hlen⟩ := updated_active h sequence hs
  refine ⟨output, ?_, henc⟩
  simp only [writeJournalSuperblockActive, updateJournalSuperblock, hup, ok_bind, hlen, failIf, ne_eq,
    not_true_eq_false, if_false, pure_eq_ok]

theorem cleanLogHead_mem (sb : JournalSuperblock) : sb.ring.Mem sb.cleanLogHead := by
  unfold cleanLogHead
  split
  · rename_i h
    exact h
  · exact ⟨le_rfl, sb.first_lt⟩

/-! ## Append -/

/-- A clean journal becomes active at its head. -/
theorem persistJournalCommit_zero (he : sb.Encodes) (hz : sb.start = .zero)
    (h : sb.persistJournalCommit previous commit blocks = .ok p) :
    ∃ output writes, ∃ img : LogImage p.superblock commit.id,
      p.superblock = sb.withStart output commit.id sb.cleanLogHead sb.cleanLogHead_mem ∧ p.superblock.Encodes ∧
      p.phases = [[(0, output)], writes] ∧ Written p.superblock sb.cleanLogHead commit blocks p.log writes img := by
  obtain ⟨required, hreq, h⟩ := bind_eq_ok.1 h
  obtain ⟨point, hpoint, h⟩ := bind_eq_ok.1 h
  obtain ⟨_, hspace, h⟩ := bind_eq_ok.1 h
  obtain ⟨⟨active, phases⟩, hact, h⟩ := bind_eq_ok.1 h
  obtain ⟨⟨log, writes⟩, hw, hres⟩ := bind_eq_ok.1 h
  rw [appendPoint, hz] at hpoint
  obtain ⟨_, -, hpoint⟩ := bind_eq_ok.1 hpoint
  cases hpoint
  cases hres
  obtain ⟨output, hwrite, henc⟩ := writeJournalSuperblockActive_eq he commit.id sb.cleanLogHead_mem
  simp only [activate, hwrite, pure_eq_ok] at hact
  cases hact
  obtain ⟨img, himg⟩ := writeJournalCommit_spec hw
  exact ⟨output, writes, img, rfl, henc, rfl, himg⟩

theorem persistJournalCommit_block (hb : sb.start = .block tail)
    (h : sb.persistJournalCommit previous commit blocks = .ok p) :
    ∃ last writes, ∃ img : LogImage sb commit.id,
      previous = some last ∧ commit.id = last.nextSequence ∧ sb.ring.Mem tail ∧
        p.superblock = sb ∧ p.phases = [writes] ∧
        Written sb last.head commit blocks p.log writes img ∧
        sb.ring.dist tail last.head + img.blocks.length ≤ sb.usableLogCapacity := by
  obtain ⟨required, hreq, h⟩ := bind_eq_ok.1 h
  obtain ⟨point, hpoint, h⟩ := bind_eq_ok.1 h
  obtain ⟨_, hspace, h⟩ := bind_eq_ok.1 h
  obtain ⟨⟨active, phases⟩, hact, h⟩ := bind_eq_ok.1 h
  obtain ⟨⟨log, writes⟩, hw, hres⟩ := bind_eq_ok.1 h
  rw [appendPoint, hb] at hpoint
  obtain ⟨last, hlast, hpoint⟩ := bind_eq_ok.1 hpoint
  obtain ⟨_, hid, hpoint⟩ := bind_eq_ok.1 hpoint
  cases hpoint
  cases hres
  obtain ⟨htail, -, hle⟩ := ensureLogSpace_eq_ok.1 hspace
  cases hact
  obtain ⟨img, himg⟩ := writeJournalCommit_spec hw
  obtain rfl : required = img.blocks.length := Except.ok.inj (hreq.symm.trans himg.required)
  have hid := failIf_eq_ok.1 hid
  push Not at hid
  exact ⟨last, writes, img, okOr_eq_ok.1 hlast, hid, htail, rfl, rfl, himg, hle⟩

/-! ## When an append succeeds -/

variable {encoded : Bytes} {sequence : TransactionId} {start : Nat} {h : sb.ring.Mem start}

theorem tagCapacityLoop_withStart (stop fuel count : Nat) :
    (sb.withStart encoded sequence start h).tagCapacityLoop stop fuel count = sb.tagCapacityLoop stop fuel count := by
  induction fuel generalizing count with
  | zero => rfl
  | succ fuel ih =>
    rw [tagCapacityLoop, tagCapacityLoop]
    simp only [ih]
    rfl

/-- The state of the log plays no part in the size of a transaction. -/
theorem journalBlocksRequired_withStart :
    (sb.withStart encoded sequence start h).journalBlocksRequired commit blocks =
      sb.journalBlocksRequired commit blocks := by
  simp only [journalBlocksRequired, journalTransactionBlocksRequired, journalLogBlocksForCounts, descriptorTagCapacity,
    tagCapacityLoop_withStart]
  rfl

/-- The revoked blocks have numbers that their entries can hold. -/
def RevokesFit (sb : JournalSuperblock) (commit : RuntimeTransaction) : Prop :=
  ∀ t ∈ commit.revokedBlocks, sb.TargetFits t

theorem RevokesFit.chunks (h : sb.RevokesFit commit) (hsize : sb.blockSize < 2 ^ 32) :
    ∀ c, sb.revokeBlockCapacity sb.blockSize = .ok c → ∀ g ∈ chunks c commit.revokedBlocks, sb.RevokeFits g := by
  intro c hc g hg
  obtain ⟨stop, hstop, hpos, hfit⟩ := revokeBlockCapacity_spec hc
  have hmul := Nat.mul_le_mul_right sb.revokeEntrySize (length_le_of_mem_chunks hpos hg)
  have hle := (sb.length_of_payloadEnd hstop).1
  refine ⟨by omega, fun t ht => h t ?_⟩
  rw [← flatten_chunks hpos commit.revokedBlocks]
  exact List.mem_flatten.2 ⟨g, hg, ht⟩

theorem required_le {total : Nat} (h : sb.journalBlocksRequired commit blocks = .ok total) :
    total ≤ sb.usableLogCapacity := by
  obtain ⟨_, _, h⟩ := bind_eq_ok.1 h
  obtain ⟨n, _, h⟩ := bind_eq_ok.1 h
  obtain ⟨_, hle, h⟩ := bind_eq_ok.1 h
  cases h
  exact Nat.le_of_not_lt (failIf_eq_ok.1 hle)

theorem persistJournalCommit_zero_exists {total : Nat} (he : sb.Encodes) (hz : sb.start = .zero)
    (hid : commit.id = sb.sequence) (hreq : sb.journalBlocksRequired commit blocks = .ok total)
    (hfit : sb.RevokesFit commit) :
    ∃ p, sb.persistJournalCommit none commit blocks = .ok p := by
  have hmem := sb.cleanLogHead_mem
  have hspace : sb.ensureLogSpace sb.cleanLogHead sb.cleanLogHead total = .ok () := by
    refine ensureLogSpace_eq_ok.2 ⟨hmem, hmem, ?_⟩
    have := required_le hreq
    rw [Ring.dist, if_pos le_rfl]
    omega
  obtain ⟨output, hwrite, -⟩ := writeJournalSuperblockActive_eq he commit.id hmem
  have hstart : (sb.withStart output commit.id sb.cleanLogHead hmem).validateStart sb.cleanLogHead = .ok () :=
    validateStart_eq_ok.2 hmem
  obtain ⟨log, writes, -, hw, -⟩ := writeJournalCommit_exists hstart (journalBlocksRequired_withStart.trans hreq)
    (RevokesFit.chunks hfit he.blockSize_lt)
  have hpoint : sb.appendPoint none commit.id = .ok ⟨commit.id, sb.cleanLogHead, sb.cleanLogHead, true⟩ := by
    simp [appendPoint, hz, failIf, hid]
  refine ⟨⟨log, sb.withStart output commit.id sb.cleanLogHead hmem, [[(0, output)]] ++ [writes]⟩, ?_⟩
  simp only [persistJournalCommit, hreq, hpoint, ok_bind, hspace, activate, if_true, hwrite, pure_eq_ok, hw]

end JournalSuperblock

end XKernel.Ext4
