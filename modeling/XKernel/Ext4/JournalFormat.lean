import XKernel.Ext4.JournalLog
/-!
# The block formats, read back

Each control block that `commit.rs` builds is its header, the entries behind it and zeros,
with a checksum in the last word where the journal has one. What `log.rs` reads from such a
block is what was written, but for a target above 32 bits in a journal without `64BIT`:
`storedTarget` is the block number that a tag can carry.
-/

namespace XKernel.Ext4

open XKernel.Lib List Option
open Ext4.UInt32 (toBeBytes length_toBeBytes)

namespace JournalSuperblock

variable (sb : JournalSuperblock)

/-! ## Words -/

theorem toUInt64_split (t : UInt64) : (((t >>> 32).toUInt32.toUInt64) <<< 32) ||| t.toUInt32.toUInt64 = t := by
  apply UInt64.toNat_inj.1
  have ht : t.toNat < 2 ^ 64 := t.toNat_lt
  have hhigh : ((((t >>> 32).toUInt32.toUInt64) <<< 32 : UInt64)).toNat = t.toNat / 2 ^ 32 * 2 ^ 32 := by
    simp [Nat.shiftRight_eq_div_pow]
    omega
  rw [UInt64.toNat_or, hhigh]
  have hlow : t.toUInt32.toUInt64.toNat = t.toNat % 2 ^ 32 := by simp
  rw [hlow, Nat.mul_comm, ← Nat.two_pow_add_eq_or_of_lt (Nat.mod_lt _ (by decide))]
  omega

/-- The block number that is read back from a tag. -/
def storedTarget (target : UInt64) : UInt64 := if sb.has64bit then target else target.toUInt32.toUInt64

theorem storedTarget_eq_iff (t : UInt64) : sb.storedTarget t = t ↔ sb.has64bit = true ∨ t.toNat < 2 ^ 32 := by
  unfold storedTarget
  by_cases h : sb.has64bit = true
  · simp [h]
  · simp only [h]
    rw [← UInt64.toNat_inj]
    simp

/-! ## Headers -/

/-- The first twelve bytes of a control block. -/
def header (blockType : UInt32) (transaction : TransactionId) : Bytes :=
  toBeBytes magicNumber ++ (toBeBytes blockType ++ toBeBytes transaction)

@[simp]
theorem length_header (blockType : UInt32) (transaction : TransactionId) :
    (header blockType transaction).length = 12 := by
  simp [header]

variable {blockSize off : Nat} {input : Bytes}

/-- A field behind those that are written. -/
theorem putBe_zeros (pre v : Bytes) (k : Nat) (ho : pre.length = off) (hk : v.length ≤ k) :
    putBe (pre ++ zeros k) off v = .ok ((pre ++ v) ++ zeros (k - v.length)) := putBytes_zeros _ _ _ _ ho hk

/-- A field that is not written is zero. -/
theorem skip_zeros (pre : Bytes) {k n : Nat} (hn : n ≤ k) : pre ++ zeros k = (pre ++ zeros n) ++ zeros (k - n) := by
  rw [append_assoc, ← zeros_add, Nat.add_sub_cancel' hn]

theorem blockHeader_eq (blockType : UInt32) (transaction : TransactionId) (h : 12 ≤ blockSize) :
    blockHeader blockType transaction blockSize = .ok (header blockType transaction ++ zeros (blockSize - 12)) := by
  rw [blockHeader, ← nil_append (zeros blockSize), putBe_zeros [] _ _ length_nil (by simp; omega), ok_bind,
    putBe_zeros _ _ _ (by simp) (by simp; omega), ok_bind, putBe_zeros _ _ _ (by simp) (by simp; omega)]
  simp [header, Nat.sub_sub]

theorem parseHeader_header {blockType : UInt32} {transaction : TransactionId}
    (h : Bytes.Holds input 0 (header blockType transaction)) :
    parseHeader input = .ok (some ⟨blockType, transaction⟩) := by
  have h4 : Bytes.Holds input 4 _ := h.right (length_toBeBytes _)
  have h8 : Bytes.Holds input 8 _ := h4.right (length_toBeBytes _)
  simp [parseHeader, beU32_of_holds h.left, beU32_of_holds h4.left, beU32_of_holds h8]

/-! ## Tags -/

/-- A descriptor tag as it is stored. -/
def tagBytes (target : UInt64) (flags : UInt32) (checksum : Option UInt32) : Bytes :=
  let low := toBeBytes target.toUInt32
  let high := toBeBytes (target >>> 32).toUInt32
  if sb.hasChecksumV3 then
    low ++ (toBeBytes flags ++ ((if sb.has64bit then high else zeros 4) ++ toBeBytes (checksum.getD 0)))
  else
    low ++ ((match checksum with | some c => UInt16.toBeBytes c.toUInt16 | none => zeros 2) ++
      (UInt16.toBeBytes flags.toUInt16 ++ (if sb.has64bit then high else [])))

theorem length_tagBytes (target : UInt64) (flags : UInt32) (checksum : Option UInt32) :
    (sb.tagBytes target flags checksum).length = sb.journalTagSize := by
  unfold tagBytes journalTagSize
  cases checksum with
  | none | some => split_ifs <;> simp

theorem writeDescriptorTag_eq (pre : Bytes) (k : Nat) (target : UInt64) (flags : UInt32)
    (checksum : Option UInt32) (ho : pre.length = off) (hk : sb.journalTagSize ≤ k) (hf : flags.toNat < 2 ^ 16) :
    sb.writeDescriptorTag (pre ++ zeros k) off target flags checksum =
      .ok ((pre ++ sb.tagBytes target flags checksum) ++ zeros (k - sb.journalTagSize)) := by
  subst ho
  simp only [writeDescriptorTag, tagBytes]
  generalize hlow : toBeBytes target.toUInt32 = low
  generalize hhigh : toBeBytes (target >>> 32).toUInt32 = high
  have hl : low.length = 4 := by simp [← hlow]
  have hh : high.length = 4 := by simp [← hhigh]
  have h8 : 8 ≤ sb.journalTagSize := by
    unfold journalTagSize
    split_ifs <;> omega
  rw [putBe_zeros pre low k rfl (by omega), ok_bind]
  by_cases h3 : sb.hasChecksumV3 = true
  · have hsize : sb.journalTagSize = 16 := by simp [journalTagSize, h3]
    rw [hsize] at hk ⊢
    simp only [h3]
    rw [putBe_zeros _ _ _ (by simp [hl]) (by simp; omega), ok_bind]
    by_cases h64 : sb.has64bit = true
    · simp only [h64]
      rw [putBe_zeros _ high _ (by simp [hl]) (by simp; omega), ok_bind, putBe_zeros _ _ _
        (by simp [hl, hh]) (by simp; omega)]
      simp [hl, hh, Nat.sub_sub]
    · simp only [h64, Bool.false_eq_true, if_false]
      rw [ok_bind, skip_zeros _ (n := 4) (by simp; omega), putBe_zeros _ _ _ (by simp [hl]) (by simp; omega)]
      simp [hl, Nat.sub_sub]
  · simp only [h3, Bool.false_eq_true, if_false]
    have hsize : sb.journalTagSize = if sb.has64bit then 12 else 8 := by simp [journalTagSize, h3]
    have hflags : failIf (2 ^ 16 ≤ flags.toNat) Ext4Error.overflow = .ok () := by
      rw [failIf, if_neg (by omega)]
    have htail : ∀ mid : Bytes, mid.length = 2 → (do
        failIf (2 ^ 16 ≤ flags.toNat) Ext4Error.overflow
        let output ← putBe (pre ++ low ++ mid ++ zeros (k - low.length - 2))
          (pre.length + 6) (UInt16.toBeBytes flags.toUInt16)
        if sb.has64bit = true then putBe output (pre.length + 8) high else pure output) =
        .ok (pre ++ (low ++ (mid ++ (UInt16.toBeBytes flags.toUInt16 ++ if sb.has64bit = true then high else []))) ++
          zeros (k - sb.journalTagSize)) := by
      intro mid hm
      rw [hflags, ok_bind, putBe_zeros _ _ _ (by simp [hl, hm]) (by simp; omega), ok_bind]
      by_cases h64 : sb.has64bit = true
      · simp only [h64, if_true] at hsize ⊢
        rw [putBe_zeros _ high _ (by simp [hl, hm]) (by simp; omega)]
        simp [hl, hh, hsize, Nat.sub_sub]
      · simp only [h64] at hsize ⊢
        simp [hl, hsize, Nat.sub_sub]
    cases checksum with
    | none =>
      rw [skip_zeros _ (n := 2) (by omega)]
      exact htail _ (by simp)
    | some =>
      simp only
      rw [putBe_zeros _ _ _ (by simp [hl]) (by simp; omega), ok_bind]
      exact htail _ (by simp)

/-- The checksum that a tag of this journal can carry. -/
def ChecksumFits (checksum : Option UInt32) : Prop :=
  (checksum.isSome = true ↔ sb.hasChecksumV2OrV3 = true) ∧
    (sb.hasChecksumV3 = false → ∀ c, checksum = some c → c.toNat < 2 ^ 16)

theorem hasChecksumV2OrV3_of_V3 (h : sb.hasChecksumV3 = true) : sb.hasChecksumV2OrV3 = true := by
  simp only [hasChecksumV3, hasChecksumV2OrV3, bne_iff_ne] at *
  intro h0
  apply h
  have hsub : sb.featureIncompat &&& incompatCsumV3 =
      (sb.featureIncompat &&& (incompatCsumV2 ||| incompatCsumV3)) &&& incompatCsumV3 := by
    rw [UInt32.and_assoc]
    rfl
  rw [hsub, h0, UInt32.zero_and]

theorem toUInt16_toUInt32 {v : UInt32} (h : v.toNat < 2 ^ 16) : v.toUInt16.toUInt32 = v := by
  rw [← UInt32.toNat_inj]
  simp
  omega

theorem parseTag_eq {target : UInt64} {flags : UInt32} {checksum : Option UInt32}
    (h : Bytes.Holds input off (sb.tagBytes target flags checksum)) (hf : flags.toNat < 2 ^ 16)
    (hc : sb.ChecksumFits checksum) : sb.parseTag input off = .ok ⟨sb.storedTarget target, flags, checksum⟩ := by
  by_cases h3 : sb.hasChecksumV3 = true
  · obtain ⟨c, rfl⟩ := isSome_iff_exists.1 (hc.1.2 (sb.hasChecksumV2OrV3_of_V3 h3))
    simp only [tagBytes, h3, getD_some] at h
    have h4 := h.right (length_toBeBytes _)
    have h8 : Bytes.Holds input (off + 8) _ := h4.right (length_toBeBytes _)
    have h12 : Bytes.Holds input (off + 12) _ := h8.right (n := 4) (by split <;> simp)
    simp only [parseTag, beU32_of_holds h.left, beU32_of_holds h4.left, beU32_of_holds h12, h3, storedTarget]
    by_cases h64 : sb.has64bit = true
    · rw [if_pos h64] at h8
      simp only [h64, if_true, beU32_of_holds h8.left, Except.map_ok, ok_bind, toUInt64_split, pure_eq_ok]
    · simp [h64]
  · simp only [tagBytes, h3] at h
    have h4 := h.right (length_toBeBytes _)
    have h6 : Bytes.Holds input (off + 6) _ := h4.right (n := 2) (by cases checksum <;> simp)
    have h8 : Bytes.Holds input (off + 8) _ := h6.right (UInt16.length_toBeBytes _)
    have hhigh : sb.has64bit = true → beU32 input (off + 8) = .ok (target >>> 32).toUInt32 := fun h64 => by
      rw [if_pos h64] at h8
      exact beU32_of_holds h8
    have hcs : sb.hasChecksumV2OrV3 = checksum.isSome := Bool.eq_iff_iff.2 hc.1.symm
    simp only [parseTag, beU32_of_holds h.left, beU16_of_holds h6.left, ok_bind, h3,
      toUInt16_toUInt32 hf, hcs, storedTarget]
    cases checksum with
    | none =>
      by_cases h64 : sb.has64bit = true
      · simpa [h64, hhigh] using toUInt64_split target
      · simp [h64]
    | some c =>
      have hsum := toUInt16_toUInt32 (hc.2 (Bool.eq_false_iff.2 h3) c rfl)
      by_cases h64 : sb.has64bit = true
      · simpa [h64, hhigh, beU16_of_holds h4.left, hsum] using toUInt64_split target
      · simp [h64, beU16_of_holds h4.left, hsum]

/-! ## Descriptors -/

/-- What the flags of a tag say to the scanner. -/
structure FlagsSay (flags : UInt32) (escaped last same : Bool) : Prop where
  lt : flags.toNat < 2 ^ 16
  known : flags &&& ~~~knownTagFlags = 0
  notDeleted : flags &&& flagDeleted = 0
  escape : (flags &&& flagEscape ≠ 0) ↔ escaped = true
  lastTag : (flags &&& flagLastTag ≠ 0) ↔ last = true
  sameUuid : (flags &&& flagSameUuid ≠ 0) ↔ same = true

def flagWord (escaped last same : Bool) : UInt32 :=
  let flags := if escaped then flagEscape else 0
  let flags := if last then flags ||| flagLastTag else flags
  if same then flags ||| flagSameUuid else flags

theorem flagWord_says : ∀ escaped last same, FlagsSay (flagWord escaped last same) escaped last same := by
  intro escaped last same
  cases escaped <;> cases last <;> cases same <;>
    exact ⟨by decide, by decide, by decide, by decide, by decide, by decide⟩

theorem tagFlags_say (index total : Nat) (escaped : Bool) :
    FlagsSay (sb.tagFlags index total escaped) escaped (index + 1 = total) (¬ sb.hasChecksumV3 ∧ index ≠ 0) := by
  have h : sb.tagFlags index total escaped =
      flagWord escaped (index + 1 = total) (¬ sb.hasChecksumV3 ∧ index ≠ 0) := by
    simp only [tagFlags, flagWord, decide_eq_true_eq]
  rw [h]
  exact flagWord_says _ _ _

theorem dataBlockChecksum_fits (seed : UInt32) (transaction : TransactionId) (data : Bytes) :
    sb.ChecksumFits (sb.dataBlockChecksum seed transaction data) := by
  unfold dataBlockChecksum ChecksumFits
  by_cases hcs : sb.hasChecksumV2OrV3 = true
  · by_cases h3 : sb.hasChecksumV3 = true
    · simp [h3]
    · simp only [hcs, h3]
      refine ⟨by simp, ?_⟩
      rintro - c hc
      rw [← some.inj hc, UInt32.toNat_and]
      exact lt_of_le_of_lt Nat.and_le_right (by decide)
  · simp [hcs]

/-- The data of the scanned block has the checksum that its tag carries. -/
theorem verifyDataBlockChecksum_own (transaction : TransactionId) (block : Nat) (data : Bytes) :
    sb.verifyDataBlockChecksum data transaction block (sb.dataBlockChecksum sb.checksumSeed transaction data) =
      .ok () := by
  unfold verifyDataBlockChecksum dataBlockChecksum
  by_cases hcs : sb.hasChecksumV2OrV3 = true
  · by_cases h3 : sb.hasChecksumV3 = true
    · simp [hcs, h3, verifyChecksum]
    · simp [hcs, h3, verifyChecksum]
  · simp [hcs]

/-- The bytes that are logged for a metadata block. -/
def loggedData (block : JournalCommitBlock) : Bytes := (escapeJournalData block.bytes).1

def isEscaped (block : JournalCommitBlock) : Bool := (escapeJournalData block.bytes).2

variable (transaction : TransactionId)

/-- The tag that the scanner reads for the block at `index` of a group of `total`. -/
def tagOf (index total : Nat) (block : JournalCommitBlock) : DescriptorTag where
  target := sb.storedTarget block.target
  flags := sb.tagFlags index total (isEscaped block)
  checksum := sb.dataBlockChecksum sb.checksumSeed transaction (loggedData block)

def groupTags (total : Nat) : Nat → List JournalCommitBlock → List DescriptorTag
  | _, [] => []
  | index, block :: blocks => sb.tagOf transaction index total block :: groupTags total (index + 1) blocks

/-- The tags of a group as they are stored, with the uuid behind the first. -/
def tagArea (total : Nat) : Nat → List JournalCommitBlock → Bytes
  | _, [] => []
  | index, block :: blocks =>
    sb.tagBytes block.target (sb.tagFlags index total (isEscaped block))
        (sb.dataBlockChecksum sb.checksumSeed transaction (loggedData block)) ++
      ((if ¬ sb.hasChecksumV3 ∧ index = 0 ∧ total > 1 then sb.uuid.1 else []) ++ tagArea total (index + 1) blocks)

theorem length_tagArea_succ (total index : Nat) (blocks : List JournalCommitBlock) :
    (sb.tagArea transaction total (index + 1) blocks).length = blocks.length * sb.journalTagSize := by
  induction blocks generalizing index with
  | nil => simp [tagArea]
  | cons b bs ih =>
    simp only [tagArea, length_append, ih, length_tagBytes, length_cons]
    simp
    ring

theorem length_tagArea (blocks : List JournalCommitBlock) :
    (sb.tagArea transaction blocks.length 0 blocks).length = sb.descriptorTagAreaSize blocks.length := by
  cases blocks with
  | nil => simp [tagArea, descriptorTagAreaSize]
  | cons b bs =>
    simp only [tagArea, length_append, length_tagArea_succ, length_tagBytes, length_cons,
      descriptorTagAreaSize]
    by_cases h3 : sb.hasChecksumV3 = true
    · simp [h3]
      ring
    · by_cases hlen : bs.length + 1 ≤ 1
      · have hnil : bs = [] := length_eq_zero_iff.1 (by omega)
        simp [h3, hnil]
      · have h1 : ¬ (sb.hasChecksumV3 = true ∨ bs.length + 1 ≤ 1) := by simp [h3, hlen]
        have h2 : ¬ sb.hasChecksumV3 = true ∧ True ∧ bs.length + 1 > 1 := ⟨h3, trivial, by omega⟩
        rw [if_neg h1, if_pos h2, sb.uuid.2]
        ring

theorem journalTagSize_ge : 8 ≤ sb.journalTagSize := by
  unfold journalTagSize
  split_ifs <;> omega

theorem writeDescriptorTags_eq (total : Nat) (blocks : List JournalCommitBlock) (pre : Bytes) (index k : Nat)
    (ho : pre.length = off) (hk : (sb.tagArea transaction total index blocks).length ≤ k) :
    sb.writeDescriptorTags sb.checksumSeed transaction total index off blocks (pre ++ zeros k) =
      .ok ((pre ++ sb.tagArea transaction total index blocks) ++
        zeros (k - (sb.tagArea transaction total index blocks).length), blocks.map loggedData) := by
  induction blocks generalizing pre index k off with
  | nil => simp [writeDescriptorTags, tagArea]
  | cons b bs ih =>
    simp only [tagArea, length_append, length_tagBytes] at hk
    have hsays := sb.tagFlags_say index total (isEscaped b)
    have htag := sb.writeDescriptorTag_eq pre k b.target (sb.tagFlags index total (isEscaped b))
      (sb.dataBlockChecksum sb.checksumSeed transaction (loggedData b)) ho (by omega) hsays.lt
    have hesc : escapeJournalData b.bytes = (loggedData b, isEscaped b) := rfl
    have hlen : (pre ++ sb.tagBytes b.target (sb.tagFlags index total (isEscaped b))
        (sb.dataBlockChecksum sb.checksumSeed transaction (loggedData b))).length = off + sb.journalTagSize := by
      rw [length_append, length_tagBytes, ho]
    simp only [writeDescriptorTags, hesc, htag, ok_bind]
    by_cases huuid : ¬ sb.hasChecksumV3 = true ∧ index = 0 ∧ total > 1
    · rw [if_pos huuid] at hk ⊢
      rw [putBe_zeros _ _ _ hlen (by omega), ok_bind,
        ih _ (index + 1) _ (by rw [length_append, hlen, sb.uuid.2]) (by omega), ok_bind]
      simp only [tagArea, if_pos huuid, pure_eq_ok, map_cons, append_assoc, length_append, length_tagBytes,
        Nat.sub_sub, Nat.add_assoc]
    · rw [if_neg huuid] at hk ⊢
      rw [ih _ (index + 1) _ hlen (by rw [length_nil] at hk; omega), ok_bind]
      simp only [tagArea, if_neg huuid, pure_eq_ok, map_cons, append_assoc, length_append, length_tagBytes,
        Nat.sub_sub, nil_append]

theorem parseTagLoop_eq (total stop : Nat) (blocks : List JournalCommitBlock) (index fuel : Nat)
    (h : Bytes.Holds input off (sb.tagArea transaction total index blocks)) (hne : blocks ≠ [])
    (htotal : index + blocks.length = total) (hstop : off + (sb.tagArea transaction total index blocks).length ≤ stop)
    (hfuel : blocks.length ≤ fuel) :
    sb.parseTagLoop input stop fuel off (index = 0) = .ok (sb.groupTags transaction total index blocks) := by
  induction blocks generalizing index fuel off with
  | nil => exact absurd rfl hne
  | cons b bs ih =>
    obtain ⟨fuel, rfl⟩ : ∃ n, fuel = n + 1 := ⟨fuel - 1, by simp only [length_cons] at hfuel; omega⟩
    rw [length_cons] at hfuel htotal
    have hsays := sb.tagFlags_say index total (isEscaped b)
    have hparse : sb.parseTag input off = .ok (sb.tagOf transaction index total b) :=
      sb.parseTag_eq h.left hsays.lt (sb.dataBlockChecksum_fits _ _ _)
    have hrest := h.right (sb.length_tagBytes _ _ _)
    simp only [tagArea, length_append, length_tagBytes] at hstop
    have hflags : (sb.tagOf transaction index total b).flags = sb.tagFlags index total (isEscaped b) := rfl
    have hlast : index + 1 = total ↔ bs = [] := by
      rw [← length_eq_zero_iff]
      omega
    have hend : ¬ stop < off + sb.journalTagSize := by omega
    have hfirst : ¬ (¬ sb.tagFlags index total (isEscaped b) &&& flagSameUuid = 0 ∧ decide (index = 0) = true) := by
      rintro ⟨h, h0⟩
      have := hsays.sameUuid.1 h
      simp only [decide_eq_true_eq] at this h0
      exact this.2 h0
    simp only [parseTagLoop, groupTags, hparse, ok_bind, failIf, hend, if_false, hflags, hsays.known,
      hsays.notDeleted, ne_eq]
    rw [if_neg hfirst]
    by_cases hnil : bs = []
    · have hl : ¬ sb.tagFlags index total (isEscaped b) &&& flagLastTag = 0 := hsays.lastTag.2 (by simp [hlast, hnil])
      simp [hl, hnil, groupTags]
    · have hl : sb.tagFlags index total (isEscaped b) &&& flagLastTag = 0 := by
        by_contra h
        exact hnil (hlast.1 (by simpa using hsays.lastTag.1 h))
      have hpos : 0 < bs.length := length_pos_of_ne_nil hnil
      have hrec : ∀ {off : Nat}, Bytes.Holds input off (sb.tagArea transaction total (index + 1) bs) →
          off + (sb.tagArea transaction total (index + 1) bs).length ≤ stop →
          sb.parseTagLoop input stop fuel off false = .ok (sb.groupTags transaction total (index + 1) bs) :=
        fun h hle => ih (index + 1) fuel h hnil (by omega) hle (by omega)
      simp only [hl, not_true_eq_false, if_false]
      by_cases huuid : ¬ sb.hasChecksumV3 = true ∧ index = 0 ∧ total > 1
      · -- the uuid stands behind the first tag
        have hsame : sb.tagFlags index total (isEscaped b) &&& flagSameUuid = 0 := by
          by_contra h
          have := hsays.sameUuid.1 h
          simp only [decide_eq_true_eq] at this
          exact this.2 huuid.2.1
        rw [if_pos huuid] at hstop hrest
        have hlen := sb.uuid.2
        have hend' : ¬ stop < off + sb.journalTagSize + 16 := by omega
        simp only [huuid.1, Bool.false_eq_true, if_false, hsame, if_true, hend', hrest.left.get hlen, not_true_eq_false,
          ok_bind, hrec (hrest.right hlen) (by omega), pure_eq_ok]
      · rw [if_neg huuid] at hstop hrest
        have hr := hrec hrest (by omega)
        by_cases h3 : sb.hasChecksumV3 = true
        · simp only [h3, if_true, hr, ok_bind, pure_eq_ok]
        · have hsame : ¬ sb.tagFlags index total (isEscaped b) &&& flagSameUuid = 0 :=
            hsays.sameUuid.2 (by simp only [decide_eq_true_eq]; exact ⟨h3, fun h0 => huuid ⟨h3, h0, by omega⟩⟩)
          simp only [h3, Bool.false_eq_true, if_false, hsame, hr, ok_bind, pure_eq_ok]

/-! ## Control blocks -/

/-- The checksum does not depend on the word it is stored in. -/
theorem checksumWithZeroedU32_eq (seed : UInt32) (pre mid post : Bytes) (ho : pre.length = off)
    (hm : mid.length = 4) :
    checksumWithZeroedU32 seed (pre ++ (mid ++ post)) off =
      .ok (crc32c (crc32c (crc32c seed pre) [0, 0, 0, 0]) post) := by
  subst ho
  have h1 : ¬ (pre ++ (mid ++ post)).length < pre.length := by simp
  have h2 : ¬ (pre ++ (mid ++ post)).length < pre.length + 4 := by
    simp only [length_append]
    omega
  have hdrop : (pre ++ (mid ++ post)).drop (pre.length + 4) = post := by
    rw [← drop_drop, drop_left, ← hm, drop_left]
  simp only [checksumWithZeroedU32, failIf, h1, h2, if_false, ok_bind, take_left, hdrop, pure_eq_ok]

/-- The last word of a control block is zero or its checksum; either is what the scanner expects. -/
theorem setControlBlockChecksum_spec (body : Bytes) (k : Nat) (hk : sb.hasChecksumV2OrV3 = true → 4 ≤ k) :
    ∃ tail, sb.setControlBlockChecksum (body ++ zeros k) sb.checksumSeed = .ok (body ++ tail) ∧ tail.length = k ∧
      ∀ block, sb.verifyControlBlockChecksum (body ++ tail) block = .ok () := by
  by_cases hcs : sb.hasChecksumV2OrV3 = true
  · have hk := hk hcs
    have hz : zeros k = zeros (k - 4) ++ (zeros 4 ++ []) := by
      rw [append_nil, ← zeros_add]
      congr 1
      omega
    generalize hsum : crc32c (crc32c (crc32c sb.checksumSeed (body ++ zeros (k - 4))) [0, 0, 0, 0]) [] = sum
    have hsum' : ∀ mid : Bytes, mid.length = 4 → ∀ off, (body ++ zeros (k - 4)).length = off →
        checksumWithZeroedU32 sb.checksumSeed ((body ++ zeros (k - 4)) ++ (mid ++ [])) off = .ok sum := by
      intro mid hm off ho
      rw [checksumWithZeroedU32_eq _ _ _ _ ho hm, hsum]
    have hlen : ∀ mid : Bytes, mid.length = 4 →
        (body ++ zeros (k - 4)).length = ((body ++ zeros (k - 4)) ++ (mid ++ [])).length - blockTailSize ∧
          ¬ ((body ++ zeros (k - 4)) ++ (mid ++ [])).length < blockTailSize := by
      intro mid hm
      simp only [length_append, blockTailSize, length_nil]
      omega
    refine ⟨zeros (k - 4) ++ toBeBytes sum, ?_, ?_, ?_⟩
    · obtain ⟨ho, hlt⟩ := hlen (zeros 4) (by simp)
      rw [hz, ← append_assoc]
      simp only [setControlBlockChecksum, hcs, failIf, hlt, ok_bind, hsum' (zeros 4) (by simp) _ ho]
      rw [putBe, putBytes_append _ _ _ _ _ ho (by simp)]
      simp
    · simp
      omega
    · intro block
      obtain ⟨ho, hlt⟩ := hlen (toBeBytes sum) (by simp)
      rw [← append_assoc, ← append_nil (toBeBytes sum)]
      simp only [verifyControlBlockChecksum, hcs, if_true, failIf, hlt, if_false, ok_bind,
        hsum' (toBeBytes sum) (by simp) _ ho, beU32_of_holds ⟨_, _, ho, rfl⟩, verifyChecksum]
  · refine ⟨zeros k, ?_, by simp, ?_⟩
    · simp [setControlBlockChecksum, hcs]
    · simp [verifyControlBlockChecksum, hcs]

variable {stop : Nat}

theorem length_of_payloadEnd (h : sb.descriptorPayloadEnd blockSize = .ok stop) :
    stop ≤ blockSize ∧ (sb.hasChecksumV2OrV3 = true → stop + 4 ≤ blockSize) := by
  unfold descriptorPayloadEnd blockTailSize at h
  by_cases hcs : sb.hasChecksumV2OrV3 = true
  · rw [if_pos hcs] at h
    split at h
    · cases h
      omega
    · cases h
  · rw [if_neg hcs] at h
    cases h
    exact ⟨le_rfl, fun h => absurd h hcs⟩

/-- A descriptor block of `group`, as the scanner sees it. -/
structure IsDescriptor (group : List JournalCommitBlock) (block : Bytes) : Prop where
  length_eq : block.length = sb.blockSize
  header_eq : parseHeader block = .ok (some ⟨descriptorBlock, transaction⟩)
  checksum_ok : ∀ pos, sb.verifyControlBlockChecksum block pos = .ok ()
  tags_eq : sb.parseDescriptorTags block = .ok (sb.groupTags transaction group.length 0 group)

theorem encodeDescriptorGroup_spec (hstop : sb.descriptorPayloadEnd sb.blockSize = .ok stop)
    {group : List JournalCommitBlock} (hne : group ≠ [])
    (hfit : headerSize + sb.descriptorTagAreaSize group.length ≤ stop) :
    ∃ block, sb.encodeDescriptorGroup transaction sb.checksumSeed sb.blockSize group =
        .ok (block :: group.map loggedData) ∧ sb.IsDescriptor transaction group block := by
  obtain ⟨hle, hcs⟩ := sb.length_of_payloadEnd hstop
  rw [← sb.length_tagArea transaction] at hfit
  unfold headerSize at hfit
  have htags := sb.writeDescriptorTags_eq transaction group.length group (header descriptorBlock transaction) 0
    (sb.blockSize - 12) (length_header _ _) (by omega)
  obtain ⟨tail, htail, hlen, hver⟩ := sb.setControlBlockChecksum_spec
    (header descriptorBlock transaction ++ sb.tagArea transaction group.length 0 group)
    (sb.blockSize - 12 - (sb.tagArea transaction group.length 0 group).length) (by intro h; have := hcs h; omega)
  refine ⟨_, ?_, ?_, ?_, hver, ?_⟩
  · simp only [encodeDescriptorGroup, blockHeader_eq _ _ (show 12 ≤ sb.blockSize by omega), ok_bind, headerSize,
      htags, htail, pure_eq_ok]
  · simp
    omega
  · exact parseHeader_header ⟨[], _, rfl, append_assoc _ _ _⟩
  · have hblen : (header descriptorBlock transaction ++ sb.tagArea transaction group.length 0 group ++ tail).length =
        sb.blockSize := by
      simp
      omega
    have hfuel : group.length ≤ sb.blockSize := by
      have h8 := sb.journalTagSize_ge
      have harea := sb.length_tagArea transaction group
      unfold descriptorTagAreaSize at harea
      split at harea <;> nlinarith
    rw [parseDescriptorTags, hblen, hstop, ok_bind]
    exact sb.parseTagLoop_eq transaction group.length stop group 0 sb.blockSize
      ⟨_, tail, length_header _ _, append_assoc _ _ _⟩ hne (Nat.zero_add _) hfit hfuel

/-! ## Revoke blocks -/

/-- A revoke entry as it is stored. -/
def entryBytes (target : UInt64) : Bytes :=
  if sb.has64bit then UInt64.toBeBytes target else toBeBytes target.toUInt32

def entryArea (revoked : List UInt64) : Bytes := (revoked.map sb.entryBytes).flatten

/-- The block number fits the journal's entries. -/
def TargetFits (target : UInt64) : Prop := sb.has64bit = true ∨ target.toNat < 2 ^ 32

theorem entryArea_cons (t : UInt64) (ts : List UInt64) :
    sb.entryArea (t :: ts) = sb.entryBytes t ++ sb.entryArea ts := rfl

theorem length_entryBytes (target : UInt64) : (sb.entryBytes target).length = sb.revokeEntrySize := by
  unfold entryBytes revokeEntrySize
  split <;> simp

section

variable (revoked : List UInt64)
include revoked

theorem length_entryArea : (sb.entryArea revoked).length = revoked.length * sb.revokeEntrySize := by
  induction revoked with
  | nil => simp [entryArea]
  | cons t ts ih =>
    rw [entryArea_cons, length_append, ih, length_entryBytes, length_cons]
    ring

theorem writeRevokeEntries_eq (pre : Bytes) (k : Nat) (ho : pre.length = off)
    (hk : (sb.entryArea revoked).length ≤ k) (hfit : ∀ t ∈ revoked, sb.TargetFits t) :
    sb.writeRevokeEntries off revoked (pre ++ zeros k) =
      .ok ((pre ++ sb.entryArea revoked) ++ zeros (k - (sb.entryArea revoked).length)) := by
  induction revoked generalizing pre k off with
  | nil => simp [writeRevokeEntries, entryArea]
  | cons t ts ih =>
    rw [entryArea_cons, length_append] at hk
    have hrec := ih (pre ++ sb.entryBytes t) (k - (sb.entryBytes t).length)
      (show _ = off + sb.revokeEntrySize by rw [length_append, length_entryBytes, ho]) (by omega)
      (fun t' ht' => hfit t' (mem_cons_of_mem t ht'))
    have hstep : sb.writeRevokeEntries off (t :: ts) (pre ++ zeros k) =
        (putBe (pre ++ zeros k) off (sb.entryBytes t) >>= fun block =>
          sb.writeRevokeEntries (off + sb.revokeEntrySize) ts block) := by
      by_cases h64 : sb.has64bit = true
      · simp only [writeRevokeEntries, h64, if_true, entryBytes]
      · have hlt : ¬ 2 ^ 32 ≤ t.toNat := by
          have := (hfit t mem_cons_self).resolve_left h64
          omega
        simp only [writeRevokeEntries, h64, Bool.false_eq_true, if_false, entryBytes, failIf, hlt, ok_bind]
    rw [hstep, putBe_zeros _ _ _ ho (by omega), ok_bind, hrec, entryArea_cons]
    simp only [append_assoc, length_append, Nat.sub_sub]

/-- A block number that does not fit is refused. -/
theorem fits_of_writeRevokeEntries {block r : Bytes}
    (h : sb.writeRevokeEntries off revoked block = .ok r) : ∀ t ∈ revoked, sb.TargetFits t := by
  induction revoked generalizing off block with
  | nil => nofun
  | cons t ts ih =>
    by_cases h64 : sb.has64bit = true
    · exact fun _ _ => .inl h64
    · simp only [writeRevokeEntries, h64] at h
      obtain ⟨_, hlt, h⟩ := bind_eq_ok.1 h
      obtain ⟨b, _, h⟩ := bind_eq_ok.1 h
      rw [failIf_eq_ok] at hlt
      exact forall_mem_cons.2 ⟨.inr (by omega), ih h⟩

theorem parseRevokeEntries_eq (h : Bytes.Holds input off (sb.entryArea revoked))
    (hfit : ∀ t ∈ revoked, sb.TargetFits t) : sb.parseRevokeEntries input revoked.length off = .ok revoked := by
  induction revoked generalizing off with
  | nil => rfl
  | cons t ts ih =>
    have hrec := ih (h.right (sb.length_entryBytes t)) fun t' ht' => hfit t' (mem_cons_of_mem t ht')
    have hget := h.left
    simp only [length_cons, parseRevokeEntries]
    by_cases h64 : sb.has64bit = true
    · rw [entryBytes, if_pos h64] at hget
      simp only [h64, if_true, beU64_of_holds hget, ok_bind, hrec, pure_eq_ok]
    · have ht := (sb.storedTarget_eq_iff t).2 (hfit t mem_cons_self)
      rw [entryBytes, if_neg h64] at hget
      rw [storedTarget, if_neg h64] at ht
      simp only [h64, Bool.false_eq_true, if_false, beU32_of_holds hget, Except.map_ok, ht, ok_bind, hrec, pure_eq_ok]

end

/-- A revoke block of `group`, as the scanner sees it. -/
structure IsRevoke (group : List UInt64) (block : Bytes) : Prop where
  length_eq : block.length = sb.blockSize
  header_eq : parseHeader block = .ok (some ⟨revokeBlock, transaction⟩)
  checksum_ok : ∀ pos, sb.verifyControlBlockChecksum block pos = .ok ()
  revokes_eq : sb.parseRevokeBlocks block = .ok group

/-- What `write_revoke_block` asks of the entries of a block. -/
structure RevokeFits (group : List UInt64) : Prop where
  count_lt : revokeHeaderSize + group.length * sb.revokeEntrySize < 2 ^ 32
  targets : ∀ t ∈ group, sb.TargetFits t

variable {group : List UInt64}

theorem revokeFits_of_encode {block : Bytes} {seed : UInt32}
    (h : sb.encodeRevokeBlock transaction seed blockSize group = .ok block) : sb.RevokeFits group := by
  obtain ⟨_, _, h⟩ := bind_eq_ok.1 h
  obtain ⟨_, hlt, h⟩ := bind_eq_ok.1 h
  obtain ⟨_, _, h⟩ := bind_eq_ok.1 h
  obtain ⟨_, hentries, _⟩ := bind_eq_ok.1 h
  exact ⟨Nat.lt_of_not_le (failIf_eq_ok.1 hlt), sb.fits_of_writeRevokeEntries group hentries⟩

theorem encodeRevokeBlock_spec (hstop : sb.descriptorPayloadEnd sb.blockSize = .ok stop)
    (hfit : revokeHeaderSize + group.length * sb.revokeEntrySize ≤ stop) (hok : sb.RevokeFits group) :
    ∃ block, sb.encodeRevokeBlock transaction sb.checksumSeed sb.blockSize group = .ok block ∧
      sb.IsRevoke transaction group block := by
  obtain ⟨hle, hcs⟩ := sb.length_of_payloadEnd hstop
  obtain ⟨hlt, hfits⟩ := hok
  rw [← length_entryArea] at hfit
  unfold revokeHeaderSize at hfit hlt
  generalize hcount : UInt32.ofNat (16 + group.length * sb.revokeEntrySize) = count
  have hput := putBe_zeros (header revokeBlock transaction) (toBeBytes count) (sb.blockSize - 12) (length_header _ _)
    (by simp; omega)
  rw [length_toBeBytes] at hput
  have hentries : sb.writeRevokeEntries 16 group
      ((header revokeBlock transaction ++ toBeBytes count) ++ zeros (sb.blockSize - 12 - 4)) =
        .ok (header revokeBlock transaction ++ toBeBytes count ++ sb.entryArea group ++
          zeros (sb.blockSize - 12 - 4 - (sb.entryArea group).length)) :=
    sb.writeRevokeEntries_eq group _ _ (by simp) (by omega) hfits
  obtain ⟨tail, htail, hlen, hver⟩ := sb.setControlBlockChecksum_spec
    (header revokeBlock transaction ++ toBeBytes count ++ sb.entryArea group)
    (sb.blockSize - 12 - 4 - (sb.entryArea group).length) (by intro h; have := hcs h; omega)
  have hblen : (header revokeBlock transaction ++ toBeBytes count ++ sb.entryArea group ++ tail).length =
      sb.blockSize := by
    simp
    omega
  have hbody : Bytes.Holds (header revokeBlock transaction ++ toBeBytes count ++ sb.entryArea group ++ tail) 0
      (header revokeBlock transaction ++ (toBeBytes count ++ sb.entryArea group)) :=
    ⟨[], tail, rfl, by simp only [append_assoc, nil_append]⟩
  refine ⟨_, ?_, hblen, parseHeader_header hbody.left, hver, ?_⟩
  · simp only [encodeRevokeBlock, blockHeader_eq _ _ (show 12 ≤ sb.blockSize by omega), ok_bind,
      revokeHeaderSize, hcount, hput, failIf, Nat.not_le.2 hlt, if_false, hentries, htail]
  · have h12 : Bytes.Holds _ 12 _ := hbody.right (length_header _ _)
    have hn : count.toNat = 16 + group.length * sb.revokeEntrySize := by
      rw [← hcount, UInt32.toNat_ofNat']
      omega
    have he : 0 < sb.revokeEntrySize := by
      unfold revokeEntrySize
      split <;> omega
    have hrange : ¬ ¬ (16 ≤ 16 + group.length * sb.revokeEntrySize ∧
        16 + group.length * sb.revokeEntrySize ≤ stop) := by
      rw [length_entryArea] at hfit
      omega
    have hparse := sb.parseRevokeEntries_eq group (h12.right (length_toBeBytes _)) hfits
    simp only [parseRevokeBlocks, beU32_of_holds h12.left, Except.map_ok, ok_bind, hblen, hstop, hn, revokeHeaderSize,
      failIf, hrange, if_false,
      Nat.add_sub_cancel_left, Nat.mul_mod_left, ne_eq, not_true_eq_false, Nat.mul_div_cancel _ he, hparse]

/-! ## Commit blocks -/

structure IsCommit (block : Bytes) : Prop where
  length_eq : block.length = sb.blockSize
  header_eq : parseHeader block = .ok (some ⟨commitBlock, transaction⟩)
  checksum_ok : ∀ pos, sb.verifyCommitBlockChecksum block pos = .ok ()

theorem encodeCommitBlock_spec (h20 : 20 ≤ sb.blockSize) :
    ∃ block, sb.encodeCommitBlock transaction sb.checksumSeed sb.blockSize = .ok block ∧
      sb.IsCommit transaction block := by
  have hhead := blockHeader_eq commitBlock transaction (show 12 ≤ sb.blockSize by omega)
  have hz : zeros (sb.blockSize - 12) = zeros 4 ++ (zeros 4 ++ zeros (sb.blockSize - 20)) := by
    rw [← zeros_add, ← zeros_add]
    congr 1
    omega
  have ho : (header commitBlock transaction ++ zeros 4).length = 16 := by simp
  by_cases hcs : sb.hasChecksumV2OrV3 = true
  · generalize hsum : crc32c (crc32c (crc32c sb.checksumSeed (header commitBlock transaction ++ zeros 4)) [0, 0, 0, 0])
      (zeros (sb.blockSize - 20)) = sum
    refine ⟨header commitBlock transaction ++ zeros 4 ++ (toBeBytes sum ++ zeros (sb.blockSize - 20)), ?_, ?_, ?_, ?_⟩
    · simp only [encodeCommitBlock, hhead, ok_bind, hcs, if_true]
      rw [hz, ← append_assoc, checksumWithZeroedU32_eq _ _ _ _ ho (by simp), ok_bind, hsum, putBe,
        putBytes_append _ _ _ _ _ ho (by simp)]
    · simp
      omega
    · exact parseHeader_header ⟨[], _, rfl, append_assoc _ _ _⟩
    · intro pos
      simp only [verifyCommitBlockChecksum, hcs, if_true, beU32_of_holds ⟨_, _, ho, rfl⟩, ok_bind,
        checksumWithZeroedU32_eq _ _ (toBeBytes sum) _ ho (by simp), hsum, verifyChecksum]
  · refine ⟨header commitBlock transaction ++ zeros (sb.blockSize - 12), ?_, ?_,
      parseHeader_header ⟨[], _, rfl, rfl⟩, ?_⟩
    · simp only [encodeCommitBlock, hhead, ok_bind, hcs, Bool.false_eq_true, if_false, pure_eq_ok]
    · simp
      omega
    · simp [verifyCommitBlockChecksum, hcs]

end JournalSuperblock

end XKernel.Ext4
