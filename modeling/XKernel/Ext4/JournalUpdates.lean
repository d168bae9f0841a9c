import XKernel.Ext4.JournalSuperblock
/-!
# Updates of the journal superblock

An update rewrites the sequence and the start in the cached image, sets the checksum where
the journal has one, and decodes the result. The decoded superblock is the old one with the
new fields, and its image is the block that goes to the disk.
-/

namespace XKernel.Ext4

open XKernel.Lib List Option Bytes

namespace JournalSuperblock

variable {input output : Bytes} {bs n : Nat} {uuid : Uuid} {sb : JournalSuperblock}

/-! ## What `decode` reads -/

structure Decodes (input : Bytes) (bs n : Nat) (uuid : Uuid) (sb : JournalSuperblock) (raw : Bytes)
    (blockType start : UInt32) : Prop where
  raw_eq : JournalSuperblock.raw input = .ok raw
  magic_eq : beU32 raw 0x00 = .ok magicNumber
  type_eq : beU32 raw 0x04 = .ok blockType
  type_known : ¬ (blockType ≠ superblockV1 ∧ blockType ≠ superblockV2)
  blockSize_eq : UInt32.toNat <$> beU32 raw 0x0c = .ok sb.blockSize
  blockSize_fs : sb.blockSize = bs
  encoded_eq : encodedImage input sb.blockSize = .ok sb.encoded
  maxBlocks_eq : UInt32.toNat <$> beU32 raw 0x10 = .ok sb.maxBlocks
  first_eq : UInt32.toNat <$> beU32 raw 0x14 = .ok sb.firstLogBlock
  maxBlocks_le : sb.maxBlocks ≤ n
  start_eq : beU32 raw startOffset = .ok start
  start_ok : Subtype.val <$> decodeStart sb.firstLogBlock sb.maxBlocks start = .ok sb.start
  features_eq : decodeFeatures raw blockType uuid =
    .ok (sb.featureCompat, sb.featureIncompat, sb.featureReadOnlyCompat, sb.uuid)
  features_ok : validateFeatures sb.featureCompat sb.featureIncompat sb.featureReadOnlyCompat = .ok ()
  uuid_ok : ¬ (blockType = superblockV2 ∧ sb.uuid ≠ uuid)
  checksum_ok : verifySuperblockChecksum raw sb.featureIncompat = .ok ()
  sequence_eq : beU32 raw sequenceOffset = .ok sb.sequence
  head_eq : UInt32.toNat <$> beU32 raw headOffset = .ok sb.head
  error_eq : beU32 raw 0x20 = .ok sb.error

theorem decodes_of_decode (h : decode input bs n uuid = .ok sb) :
    ∃ raw t start, Decodes input bs n uuid sb raw t start := by
  obtain ⟨raw, hraw, h⟩ := bind_eq_ok.1 h
  obtain ⟨magic, hmagic, h⟩ := bind_eq_ok.1 h
  obtain ⟨_, hm, h⟩ := bind_eq_ok.1 h
  obtain ⟨t, ht, h⟩ := bind_eq_ok.1 h
  obtain ⟨_, htype, h⟩ := bind_eq_ok.1 h
  obtain ⟨size, hsize, h⟩ := bind_eq_ok.1 h
  split at h
  · cases h
  rename_i hb
  obtain ⟨encoded, hencoded, h⟩ := bind_eq_ok.1 h
  obtain ⟨maxBlocks, hmax, h⟩ := bind_eq_ok.1 h
  obtain ⟨first, hfirst, h⟩ := bind_eq_ok.1 h
  split at h
  · cases h
  rename_i hg
  obtain ⟨start, hstart, h⟩ := bind_eq_ok.1 h
  obtain ⟨startOk, hstartOk, h⟩ := bind_eq_ok.1 h
  obtain ⟨⟨fc, fi, fr, u⟩, hfeatures, h⟩ := bind_eq_ok.1 h
  obtain ⟨_, hvalid, h⟩ := bind_eq_ok.1 h
  obtain ⟨_, huuid, h⟩ := bind_eq_ok.1 h
  obtain ⟨_, hsum, h⟩ := bind_eq_ok.1 h
  obtain ⟨sequence, hsequence, h⟩ := bind_eq_ok.1 h
  obtain ⟨head, hhead, h⟩ := bind_eq_ok.1 h
  obtain ⟨error, herror, h⟩ := bind_eq_ok.1 h
  cases h
  push Not at hb hg
  have hm' : magic = magicNumber := by simpa using failIf_eq_ok.1 hm
  exact ⟨raw, t, start, {
    raw_eq := hraw
    magic_eq := by rw [hmagic, hm']
    type_eq := ht
    type_known := failIf_eq_ok.1 htype
    blockSize_eq := hsize
    blockSize_fs := hb.2
    encoded_eq := hencoded
    maxBlocks_eq := hmax
    first_eq := hfirst
    maxBlocks_le := hg.2.1
    start_eq := hstart
    start_ok := by rw [hstartOk, Except.map_ok]
    features_eq := hfeatures
    features_ok := hvalid
    uuid_ok := failIf_eq_ok.1 huuid
    checksum_ok := hsum
    sequence_eq := hsequence
    head_eq := by rw [hhead, Except.map_ok]
    error_eq := herror }⟩

theorem decode_of_decodes {raw : Bytes} {t start : UInt32} (h : Decodes input bs n uuid sb raw t start) :
    decode input bs n uuid = .ok sb := by
  obtain ⟨head, hhead, hheadEq⟩ := map_eq_ok.1 h.head_eq
  obtain ⟨startOk, hstartOk, hstartEq⟩ := map_eq_ok.1 h.start_ok
  have hb : ¬ (sb.blockSize = 0 ∨ sb.blockSize ≠ bs) := by
    have := sb.blockSize_pos
    have := h.blockSize_fs
    omega
  have hg : ¬ (sb.maxBlocks < minJournalBlocks ∨ n < sb.maxBlocks ∨ sb.firstLogBlock = 0 ∨
      sb.maxBlocks ≤ sb.firstLogBlock) := by
    have h1 := sb.minBlocks_le
    have h2 := sb.first_pos
    have h3 := sb.first_lt
    have h4 := h.maxBlocks_le
    unfold minJournalBlocks
    omega
  simp only [decode, h.raw_eq, h.magic_eq, h.type_eq, failIf, h.type_known, h.blockSize_eq, hb, h.encoded_eq,
    h.maxBlocks_eq,
    h.first_eq, hg, h.start_eq, hstartOk, h.features_eq, h.features_ok, h.uuid_ok, h.checksum_ok, h.sequence_eq, hhead,
    h.error_eq, ok_bind, ne_eq, not_true_eq_false, if_false, dif_neg, not_false_eq_true]
  simp only [pure_eq_ok, hheadEq, hstartEq]

/-! ## Fields that an update leaves alone -/

/-- The `n` bytes at `o` are apart from the sequence, the start and the checksum. -/
def Apart (n o : Nat) : Prop :=
  (o + n ≤ sequenceOffset ∨ startOffset + 4 ≤ o) ∧ (o + n ≤ checksumOffset ∨ checksumOffset + 4 ≤ o)

instance (n o : Nat) : Decidable (Apart n o) := inferInstanceAs (Decidable (_ ∧ _))

structure Patched (input output : Bytes) : Prop where
  length_eq : output.length = input.length
  get_eq : ∀ n o, Apart n o → Bytes.get n o output = Bytes.get n o input

theorem Patched.trans {a b c : Bytes} (h : Patched a b) (h' : Patched b c) : Patched a c :=
  ⟨h'.length_eq.trans h.length_eq, fun n o hd => (h'.get_eq n o hd).trans (h.get_eq n o hd)⟩

/-- One word is set, and the rest stays. -/
structure WordSet (input : Bytes) (offset : Nat) (value : UInt32) (output : Bytes) : Prop where
  length_eq : output.length = input.length
  word_eq : beU32 output offset = .ok value
  get_eq : ∀ n o, o + n ≤ offset ∨ offset + 4 ≤ o → Bytes.get n o output = Bytes.get n o input

variable {o : Nat}

theorem beU32_congr (h : get 4 o output = get 4 o input) : beU32 output o = beU32 input o := by
  rw [beU32, beU32, bytes, bytes, h]

theorem putBeU32_spec (input : Bytes) (offset : Nat) (value : UInt32) (h : offset + 4 ≤ input.length) :
    ∃ output, putBeU32 input offset value = .ok output ∧ WordSet input offset value output := by
  have hv : (UInt32.toBeBytes value).length = 4 := by simp
  obtain ⟨output, hput⟩ : ∃ output, put (UInt32.toBeBytes value) offset input = some output :=
    ⟨_, put_eq_some.2 ⟨by rwa [hv], rfl⟩⟩
  refine ⟨output, by rw [putBeU32, putBytes, hput, okOr_some], length_of_put hput, ?_, ?_⟩
  · obtain ⟨-, rfl⟩ := put_eq_some.1 hput
    exact beU32_of_holds ⟨_, _, by rw [length_take]; omega, rfl⟩
  · intro n o hd
    exact get_put_disjoint hput (by rw [hv]; exact hd)

variable {value : UInt32}

theorem WordSet.beU32_eq {offset : Nat} (h : WordSet input offset value output)
    (hd : o + 4 ≤ offset ∨ offset + 4 ≤ o) : beU32 output o = beU32 input o :=
  beU32_congr (h.get_eq 4 o hd)

theorem WordSet.patched {offset : Nat} (h : WordSet input offset value output)
    (ho : offset = sequenceOffset ∨ offset = startOffset) : Patched input output := by
  refine ⟨h.length_eq, fun n o hd => h.get_eq n o ?_⟩
  unfold Apart sequenceOffset startOffset at hd
  unfold sequenceOffset startOffset at ho
  omega

/-! ## The raw superblock -/

theorem raw_eq_ok {raw : Bytes} :
    JournalSuperblock.raw input = .ok raw ↔ 1024 ≤ input.length ∧ input.take 1024 = raw := by
  rw [JournalSuperblock.raw, bytes, okOr_eq_ok, get_eq_some]
  simp [superblockSize]

theorem get_take {m n : Nat} (hm : m ≤ input.length) (h : o + n ≤ m) :
    Bytes.get n o (input.take m) = Bytes.get n o input := by
  have hlen : (input.take m).length = m := by
    rw [length_take]
    omega
  rw [Bytes.get, Bytes.get, hlen, if_pos h, if_pos (by omega), drop_take, take_take, Nat.min_eq_left (by omega)]

theorem Patched.take (h : Patched input output) (hlen : 1024 ≤ input.length) :
    Patched (input.take 1024) (output.take 1024) := by
  have hlen' : 1024 ≤ output.length := by rw [h.length_eq]; exact hlen
  refine ⟨by rw [length_take, length_take, h.length_eq], fun n o hd => ?_⟩
  by_cases hfit : o + n ≤ 1024
  · rw [get_take hlen' hfit, get_take hlen hfit, h.get_eq n o hd]
  · rw [Bytes.get, Bytes.get, if_neg (by rw [length_take]; omega), if_neg (by rw [length_take]; omega)]

theorem Patched.beU32_eq (h : Patched input output) (hd : Apart 4 o) : beU32 output o = beU32 input o :=
  beU32_congr (h.get_eq 4 o hd)

theorem getElem?_eq_get : input[o]? = (Bytes.get 1 o input).bind List.head? := by
  unfold Bytes.get
  by_cases h : o + 1 ≤ input.length
  · rw [if_pos h, bind_some, head?_take, if_neg (by decide), head?_drop]
  · rw [if_neg h, getElem?_eq_none (by omega)]
    rfl

theorem uuidAt_congr (h : get 16 o output = get 16 o input) : uuidAt output o = uuidAt input o := by
  unfold uuidAt
  split
  · rename_i b hb
    split
    · rename_i b' hb'
      rw [h, hb'] at hb
      cases hb
      rfl
    · rename_i hb'
      rw [h, hb'] at hb
      cases hb
  · rename_i hb
    split
    · rename_i b' hb'
      rw [h, hb'] at hb
      cases hb
    · rfl

theorem Patched.decodeFeatures_eq (h : Patched input output) (t : UInt32) :
    decodeFeatures output t uuid = decodeFeatures input t uuid := by
  unfold decodeFeatures
  rw [h.beU32_eq (by decide : Apart 4 0x24), h.beU32_eq (by decide : Apart 4 0x28),
    h.beU32_eq (by decide : Apart 4 0x2c), uuidAt_congr (h.get_eq 16 0x30 (by decide))]

/-- The checksum covers the raw superblock without its own field. -/
theorem journalSuperblockChecksum_congr (hin : 1024 ≤ input.length) (hout : 1024 ≤ output.length)
    (hbefore : get checksumOffset 0 output = get checksumOffset 0 input)
    (hafter : get (superblockSize - (checksumOffset + 4)) (checksumOffset + 4) output =
      get (superblockSize - (checksumOffset + 4)) (checksumOffset + 4) input) :
    journalSuperblockChecksum output = journalSuperblockChecksum input := by
  unfold journalSuperblockChecksum
  rw [raw_eq_ok.2 ⟨hin, rfl⟩, raw_eq_ok.2 ⟨hout, rfl⟩, ok_bind, ok_bind]
  unfold bytes
  rw [get_take hin (by decide), get_take hin (by decide), get_take hout (by decide), get_take hout (by decide),
    hbefore, hafter]

theorem journalSuperblockChecksum_isOk (hin : 1024 ≤ input.length) :
    ∃ sum, journalSuperblockChecksum input = .ok sum := by
  have hlen : (input.take 1024).length = 1024 := by
    rw [length_take]
    omega
  obtain ⟨before, hbefore⟩ := get_isSome (show 0 + checksumOffset ≤ (input.take 1024).length by rw [hlen]; decide)
  obtain ⟨behind, hbehind⟩ := get_isSome
    (show checksumOffset + 4 + (superblockSize - (checksumOffset + 4)) ≤ (input.take 1024).length by rw [hlen]; decide)
  unfold journalSuperblockChecksum
  rw [raw_eq_ok.2 ⟨hin, rfl⟩, ok_bind, bytes, hbefore, okOr_some, ok_bind, bytes, hbehind, okOr_some, ok_bind]
  exact ⟨_, rfl⟩

/-! ## Setting the checksum -/

/-- The last step of an update: the checksum is right behind it, where the journal has one. -/
theorem updateSuperblockChecksum_spec (hlen : 1024 ≤ input.length) (fi : UInt32) :
    ∃ output, updateSuperblockChecksum input fi = .ok output ∧ output.length = input.length ∧
      (∀ n o, o + n ≤ checksumOffset ∨ checksumOffset + 4 ≤ o → get n o output = get n o input) ∧
      (fi &&& (incompatCsumV2 ||| incompatCsumV3) ≠ 0 →
        ∃ sum, beU32 output checksumOffset = .ok sum ∧ journalSuperblockChecksum output = .ok sum) := by
  unfold updateSuperblockChecksum
  by_cases hcs : fi &&& (incompatCsumV2 ||| incompatCsumV3) ≠ 0
  · obtain ⟨sum, hsum⟩ := journalSuperblockChecksum_isOk hlen
    obtain ⟨output, hput, hset⟩ := putBeU32_spec input checksumOffset sum (by unfold checksumOffset; omega)
    refine ⟨output, by rw [if_pos hcs, hsum, ok_bind, hput], hset.length_eq, hset.get_eq,
      fun _ => ⟨sum, hset.word_eq, ?_⟩⟩
    rw [← hsum]
    exact journalSuperblockChecksum_congr hlen (by rw [hset.length_eq]; exact hlen) (hset.get_eq _ _ (by decide))
      (hset.get_eq _ _ (by decide))
  · exact ⟨input, by rw [if_neg hcs]; rfl, rfl, fun _ _ _ => rfl, fun h => absurd h hcs⟩

/-! ## The updated superblock -/

/-- The cached image is the block that `decode` read. -/
def Encodes (sb : JournalSuperblock) : Prop := decode sb.encoded sb.blockSize sb.maxBlocks sb.uuid = .ok sb

/-- The superblock of a journal whose oldest transaction is `sequence` at `start`. -/
def withStart (sb : JournalSuperblock) (encoded : Bytes) (sequence : TransactionId) (start : Nat)
    (h : sb.firstLogBlock ≤ start ∧ start < sb.maxBlocks) : JournalSuperblock :=
  { sb with encoded, sequence, start := .block start, start_inLog := fun _ hb => JournalStart.block.inj hb ▸ h }

theorem length_of_encodedImage {size : Nat} (h : encodedImage input size = .ok input) : input.length = size := by
  unfold encodedImage at h
  split at h
  · rename_i e he
    cases h
    exact Bytes.length_of_get he
  · rename_i hnone
    split at h
    · rename_i hlen
      have happ := congrArg List.length (Except.ok.inj h)
      rw [length_append, length_zeros] at happ
      unfold Bytes.get at hnone
      split at hnone
      · cases hnone
      · omega
    · cases h

theorem encodedImage_self {size : Nat} (h : input.length = size) : encodedImage input size = .ok input := by
  have hget : get size 0 input = some input := by
    rw [get_eq_some, drop_zero, ← h]
    exact ⟨by omega, take_length⟩
  rw [encodedImage, hget]

/-- What an update has to leave in the image. -/
structure UpdateOk (sb : JournalSuperblock) (sequence : TransactionId) (start : UInt32) (output : Bytes) : Prop where
  patched : Patched sb.encoded output
  sequence_eq : beU32 output sequenceOffset = .ok sequence
  start_eq : beU32 output startOffset = .ok start
  checksum_ok : sb.featureIncompat &&& (incompatCsumV2 ||| incompatCsumV3) ≠ 0 →
    ∃ sum, beU32 output checksumOffset = .ok sum ∧ journalSuperblockChecksum output = .ok sum

variable {raw : Bytes} {t w : UInt32}

theorem Decodes.length_ge (h : Decodes input bs n uuid sb raw t w) : 1024 ≤ input.length := (raw_eq_ok.1 h.raw_eq).1

variable {sequence : TransactionId} {start : Nat}

theorem Decodes.patched {word : UInt32}
    (h : Decodes sb.encoded bs n uuid sb raw t w) (hu : UpdateOk sb sequence word output)
    (hs : sb.firstLogBlock ≤ start ∧ start < sb.maxBlocks)
    (hdec : Subtype.val <$> decodeStart sb.firstLogBlock sb.maxBlocks word = .ok (.block start)) :
    Decodes output bs n uuid (sb.withStart output sequence start hs) (output.take 1024) t word := by
  have hlen := h.length_ge
  have hlen' : 1024 ≤ output.length := by rw [hu.patched.length_eq]; exact hlen
  obtain ⟨-, rfl⟩ := raw_eq_ok.1 h.raw_eq
  have hp := hu.patched.take hlen
  have hword : ∀ {o : Nat}, o + 4 ≤ 1024 → beU32 (output.take 1024) o = beU32 output o := fun ho =>
    beU32_congr (get_take hlen' ho)
  exact {
    raw_eq := raw_eq_ok.2 ⟨hlen', rfl⟩
    magic_eq := by rw [hp.beU32_eq (by decide), h.magic_eq]
    type_eq := by rw [hp.beU32_eq (by decide), h.type_eq]
    type_known := h.type_known
    blockSize_eq := by rw [hp.beU32_eq (by decide), h.blockSize_eq]; rfl
    blockSize_fs := h.blockSize_fs
    encoded_eq := encodedImage_self (hu.patched.length_eq.trans (length_of_encodedImage h.encoded_eq))
    maxBlocks_eq := by rw [hp.beU32_eq (by decide), h.maxBlocks_eq]; rfl
    first_eq := by rw [hp.beU32_eq (by decide), h.first_eq]; rfl
    maxBlocks_le := h.maxBlocks_le
    start_eq := by rw [hword (by decide), hu.start_eq]
    start_ok := hdec
    features_eq := by rw [hp.decodeFeatures_eq, h.features_eq]; rfl
    features_ok := h.features_ok
    uuid_ok := h.uuid_ok
    checksum_ok := by
      have hsum := h.checksum_ok
      unfold verifySuperblockChecksum at hsum ⊢
      change (if sb.featureIncompat &&& (incompatCsumV2 ||| incompatCsumV3) ≠ 0 then _ else _) = _
      by_cases hcs : sb.featureIncompat &&& (incompatCsumV2 ||| incompatCsumV3) ≠ 0
      · rw [if_pos hcs] at hsum ⊢
        obtain ⟨_, htype, -⟩ := bind_eq_ok.1 hsum
        obtain ⟨sum, hread, hcomputed⟩ := hu.checksum_ok hcs
        have hbyte : (output.take 1024)[0x50]? = (sb.encoded.take 1024)[0x50]? := by
          rw [getElem?_eq_get, getElem?_eq_get, hp.get_eq 1 0x50 (by decide)]
        have hsame : journalSuperblockChecksum (output.take 1024) = .ok sum := by
          rw [← hcomputed]
          exact journalSuperblockChecksum_congr hlen' (by rw [length_take]; omega) (get_take hlen' (by decide))
            (get_take hlen' (by decide))
        rw [hbyte, htype, ok_bind, hsame, ok_bind, hword (by decide), hread, ok_bind]
        simp
      · rw [if_neg hcs]
        rfl
    sequence_eq := by rw [hword (by decide), hu.sequence_eq]; rfl
    head_eq := by rw [hp.beU32_eq (by decide), h.head_eq]; rfl
    error_eq := by rw [hp.beU32_eq (by decide), h.error_eq]; rfl }

section

variable (h : Decodes input bs n uuid sb raw t w)
include h

theorem Decodes.validateMutable :
    validateMutableSuperblock input = .ok sb.featureIncompat := by
  have hf := h.features_eq
  have hok := h.features_ok
  simp only [validateMutableSuperblock, h.raw_eq, h.type_eq, ok_bind]
  unfold decodeFeatures at hf
  by_cases ht : t = superblockV2
  · rw [if_pos ht] at hf ⊢
    obtain ⟨fc, hfc, hf⟩ := bind_eq_ok.1 hf
    obtain ⟨fi, hfi, hf⟩ := bind_eq_ok.1 hf
    obtain ⟨fr, hfr, hf⟩ := bind_eq_ok.1 hf
    obtain ⟨u, -, hf⟩ := bind_eq_ok.1 hf
    obtain ⟨rfl, rfl, rfl, -⟩ := hf
    simp only [hfc, hfi, hfr, ok_bind, pure_eq_ok, hok]
  · rw [if_neg ht] at hf ⊢
    rw [pure_eq_ok, Except.ok.injEq, Prod.mk.injEq, Prod.mk.injEq, Prod.mk.injEq] at hf
    obtain ⟨hfc, hfi, hfr, -⟩ := hf
    rw [← hfc, ← hfi, ← hfr] at hok
    simp only [ok_bind, hok, pure_eq_ok, ← hfi]

theorem Decodes.maxBlocks_lt : sb.maxBlocks < 2 ^ 32 := by
  obtain ⟨v, -, hv⟩ := map_eq_ok.1 h.maxBlocks_eq
  rw [← hv]
  exact v.toNat_lt

theorem Decodes.blockSize_lt : sb.blockSize < 2 ^ 32 := by
  obtain ⟨v, -, hv⟩ := map_eq_ok.1 h.blockSize_eq
  rw [← hv]
  exact v.toNat_lt

end

theorem Encodes.blockSize_lt (h : sb.Encodes) : sb.blockSize < 2 ^ 32 := by
  obtain ⟨_, _, _, hd⟩ := decodes_of_decode h
  exact hd.blockSize_lt

theorem markSuperblockActive_spec (h : Decodes sb.encoded bs n uuid sb raw t w) (sequence : TransactionId)
    (hs : sb.firstLogBlock ≤ start ∧ start < sb.maxBlocks) :
    ∃ output, markSuperblockActive sb.encoded sequence start = .ok output ∧
      UpdateOk sb sequence (UInt32.ofNat start) output := by
  have hlen := h.length_ge
  obtain ⟨a, ha, hseq⟩ := putBeU32_spec sb.encoded sequenceOffset sequence (by unfold sequenceOffset; omega)
  obtain ⟨b, hb, hstart⟩ := putBeU32_spec a startOffset (UInt32.ofNat start)
    (by rw [hseq.length_eq]; unfold startOffset; omega)
  have hblen : 1024 ≤ b.length := by rw [hstart.length_eq, hseq.length_eq]; exact hlen
  obtain ⟨output, hout, hlength, hget, hsum⟩ := updateSuperblockChecksum_spec hblen sb.featureIncompat
  have hchecksum : Patched b output := ⟨hlength, fun n o hd => hget n o hd.2⟩
  refine ⟨output, ?_, ((hseq.patched (.inl rfl)).trans (hstart.patched (.inr rfl))).trans hchecksum, ?_, ?_, hsum⟩
  · simp only [markSuperblockActive, h.raw_eq, h.first_eq, h.maxBlocks_eq, ok_bind, failIf, hs, and_self,
      not_true_eq_false, if_false, h.validateMutable, ha, hb, hout]
  · rw [beU32_congr (hget _ _ (by decide)), hstart.beU32_eq (by decide), hseq.word_eq]
  · rw [beU32_congr (hget _ _ (by decide)), hstart.word_eq]

/-- Making the journal active at `start`. -/
theorem updated_active (h : sb.Encodes) (sequence : TransactionId)
    (hs : sb.firstLogBlock ≤ start ∧ start < sb.maxBlocks) :
    ∃ output, sb.updated (fun bytes => markSuperblockActive bytes sequence start) =
        .ok (output, sb.withStart output sequence start hs) ∧
      (sb.withStart output sequence start hs).Encodes ∧ output.length = sb.blockSize := by
  obtain ⟨raw, t, w, hd⟩ := decodes_of_decode h
  obtain ⟨output, hout, hu⟩ := markSuperblockActive_spec hd sequence hs
  have hmax := hd.maxBlocks_lt
  have hfirst := sb.first_pos
  have hnat : (UInt32.ofNat start).toNat = start := by
    rw [UInt32.toNat_ofNat']
    omega
  have hne : UInt32.ofNat start ≠ 0 := by
    intro hzero
    rw [hzero] at hnat
    have : start = 0 := hnat.symm
    omega
  have hdec : Subtype.val <$> decodeStart sb.firstLogBlock sb.maxBlocks (UInt32.ofNat start) = .ok (.block start) := by
    rw [decodeStart, if_neg hne, dif_pos (by rw [hnat]; exact hs), Except.map_ok]
    simp only [hnat]
  have hdecode := decode_of_decodes (hd.patched hu hs hdec)
  refine ⟨output, ?_, hdecode, hu.patched.length_eq.trans (length_of_encodedImage hd.encoded_eq)⟩
  rw [updated, hout, ok_bind, hdecode, ok_bind, pure_eq_ok]

/-! ## An example -/

/-- The superblock block of a clean journal of 1024 blocks of 1 KiB. -/
def sampleImage (featureIncompat checksum : UInt32) : Bytes :=
  ([magicNumber, superblockV2, 0, 1024, 1024, 1, 5, 0, 0, 0, featureIncompat, 0, 0, 0, 0, 0, 0, 0, 0, 0,
    0x04000000, 0, 1] ++ List.replicate 40 0 ++ [checksum]).flatMap UInt32.toBeBytes ++ zeros 768

def sampleSuperblock (featureIncompat checksum : UInt32) : JournalSuperblock where
  encoded := sampleImage featureIncompat checksum
  blockSize := 1024
  maxBlocks := 1024
  firstLogBlock := 1
  sequence := 5
  start := .zero
  head := 1
  error := 0
  featureCompat := 0
  featureIncompat := featureIncompat
  featureReadOnlyCompat := 0
  uuid := ⟨zeros 16, by simp⟩
  blockSize_pos := by decide
  minBlocks_le := by decide
  first_pos := by decide
  first_lt := by decide
  start_inLog := nofun

theorem sampleSuperblock_encodes : (sampleSuperblock incompatRevoke 0).Encodes := by
  unfold Encodes
  decide +kernel

end JournalSuperblock

end XKernel.Ext4
