import XKernel.Virtio.Queue
/-!
# Where the data path accesses guest memory

A ring object keeps the address and the size it was made with. If these are the queue's own
and the layout is valid, all accesses of the data path lie in the three regions that the
validation computed. Only the status byte is written elsewhere: into the buffer of the guest.
-/

namespace XKernel.Virtio

open XKernel.Lib QueueM AccessM List Option VirtioQueue AvailableRing

variable {β γ ρ : Type} {q q' : VirtioQueue} {m : GuestMemory} {log : GuestLog}

/-! ## Regions -/

namespace RingRegion

variable {region : RingRegion}

/-- All bytes of the access are in the region. -/
def Covers (region : RingRegion) (a : Access GuestPhysAddr) : Prop :=
  region.base.toNat ≤ a.addr.toNat ∧ a.addr.toNat + a.len ≤ region.base.toNat + region.size

instance (region : RingRegion) (a : Access GuestPhysAddr) : Decidable (region.Covers a) :=
  inferInstanceAs (Decidable (_ ∧ _))

def Fits (region : RingRegion) : Prop := region.base.toNat + region.size < 2 ^ 64

/-- The sum of base and offset does not wrap in a region that fits. -/
theorem Fits.covers_offset (hfit : region.Fits) {off len : Nat} (h : off + len ≤ region.size) (isWrite : Bool) :
    region.Covers ⟨isWrite, region.base + UInt64.ofNat off, len⟩ := by
  unfold Fits at hfit
  have hoff : (UInt64.ofNat off).toNat = off := UInt64.toNat_ofNat_of_lt' (by simp [UInt64.size]; omega)
  have hadd : (region.base + UInt64.ofNat off).toNat = region.base.toNat + off := by
    rw [UInt64.toNat_add, hoff, Nat.mod_eq_of_lt (by omega)]
  simp only [Covers]
  omega

theorem fits_iff_stop : region.Fits ↔ region.stop ≠ none := by
  simp [Fits, stop]

/-- Two regions share no byte. -/
def Apart (region other : RingRegion) : Prop :=
  region.base.toNat + region.size ≤ other.base.toNat ∨ other.base.toNat + other.size ≤ region.base.toNat

theorem overlaps_eq_false_iff {other : RingRegion} :
    region.overlaps other = false ↔ (region.Fits ∧ other.Fits) ∧ region.Apart other := by
  unfold overlaps stop Fits Apart
  by_cases h : region.base.toNat + region.size < 2 ^ 64
  · by_cases h' : other.base.toNat + other.size < 2 ^ 64
    · simp only [h, h', if_true, decide_eq_false_iff_not, and_self, true_and]
      omega
    · simp only [h', if_false, and_false, false_and, iff_false]
      split <;> simp_all
  · simp only [h, if_false, false_and, iff_false]
    simp

end RingRegion

open RingRegion

/-! ## The rings -/

namespace AvailableRing

def region (ring : AvailableRing) : RingRegion := ⟨ring.baseAddr, layoutSize ring.size⟩

variable {ring : AvailableRing}

theorem readAvailIdxWithMemory_within (hfit : ring.region.Fits) :
    Within ring.region.Covers ring.readAvailIdxWithMemory := by
  unfold readAvailIdxWithMemory
  split
  · exact within_fail _
  · have hidx : ring.region.Covers ⟨false, ring.baseAddr + 2, 2⟩ :=
      hfit.covers_offset (by simp [region, layoutSize, headerSize]; omega) false
    exact (within_read hidx).bind fun _ => within_pure _

theorem readAvailRingEntryWithMemory_within (hfit : ring.region.Fits) (ringIndex : UInt16) :
    Within ring.region.Covers (ring.readAvailRingEntryWithMemory ringIndex) := by
  unfold readAvailRingEntryWithMemory ringEntryAddr
  split
  · exact within_fail _
  · generalize ringIndex % ring.size = index
    by_cases hlt : index ≥ ring.size
    · simp only [hlt]
      exact within_fail _
    · simp only [hlt]
      have hindex : index.toNat < ring.size.toNat := UInt16.lt_iff_toNat_lt.1 (UInt16.not_le.1 hlt)
      refine (within_read (hfit.covers_offset ?_ false)).bind fun _ => within_pure _
      simp only [region, layoutSize]
      omega

theorem interruptsSuppressed_within : Within ring.region.Covers ring.interruptsSuppressed := by
  unfold interruptsSuppressed
  split
  · exact within_fail _
  · have hheader : ring.region.Covers ⟨false, ring.baseAddr, headerSize⟩ := by
      simp [Covers, region, layoutSize]
      omega
    exact (within_read hheader).bind fun _ => within_pure _

theorem interruptsSuppressedWithMemory_within : Within ring.region.Covers ring.interruptsSuppressedWithMemory := by
  unfold interruptsSuppressedWithMemory
  split
  · exact within_fail _
  · have hflags : ring.region.Covers ⟨false, ring.baseAddr, 2⟩ := by
      simp only [Covers, region, layoutSize]
      omega
    exact (within_read hflags).bind fun _ => within_pure _

end AvailableRing

namespace UsedRing

def region (ring : UsedRing) : RingRegion := ⟨ring.baseAddr, layoutSize ring.size⟩

variable {ring : UsedRing}

theorem writeUsedIdxWithMemory_within (hfit : ring.region.Fits) :
    Within ring.region.Covers ring.writeUsedIdxWithMemory := by
  unfold writeUsedIdxWithMemory
  split
  · exact within_fail _
  · have hidx : ring.region.Covers ⟨true, ring.baseAddr + 2, (Bytes.toLe 2 ring.usedIdx.toNat).length⟩ :=
      hfit.covers_offset (by simp [region, layoutSize, headerSize]; omega) true
    exact within_write hidx

theorem addUsedWithMemory_within (hfit : ring.region.Fits) (id len : UInt32) (m : GuestMemory) (log : GuestLog) :
    ∃ new, (ring.addUsedWithMemory id len m log).2.2 = log ++ new ∧ ∀ a ∈ new, ring.region.Covers a := by
  unfold addUsedWithMemory ringEntryAddr
  split
  · exact ⟨[], by simp⟩
  generalize ring.usedIdx % ring.size = index
  by_cases hlt : index ≥ ring.size
  · simp only [hlt]
    exact ⟨[], by simp⟩
  simp only [hlt, if_false]
  have hindex : index.toNat < ring.size.toNat := UInt16.lt_iff_toNat_lt.1 (UInt16.not_le.1 hlt)
  have helem : ring.region.Covers ⟨true, ring.baseAddr + UInt64.ofNat (headerSize + index.toNat * usedElemSize),
      (Bytes.toLe 4 id.toNat ++ Bytes.toLe 4 len.toNat).length⟩ := by
    refine hfit.covers_offset ?_ true
    simp [region, layoutSize, usedElemSize]
    omega
  obtain ⟨new, hnew, hcov⟩ := within_write helem m log
  rcases hw : write _ _ m log with ⟨_ | ⟨⟨⟩⟩, log'⟩
  · rw [hw] at hnew
    exact ⟨new, hnew, hcov⟩
  · rw [hw] at hnew
    obtain rfl : log' = log ++ new := hnew
    have hidx : Within ring.region.Covers { ring with usedIdx := ring.usedIdx + 1 }.writeUsedIdxWithMemory :=
      writeUsedIdxWithMemory_within hfit
    obtain ⟨more, hmore, hcov'⟩ := hidx m (log ++ new)
    exact ⟨new ++ more, by rw [← append_assoc]; exact hmore, forall_mem_append.2 ⟨hcov, hcov'⟩⟩

theorem addUsedWithMemory_ring (ring : UsedRing) (id len : UInt32) (m : GuestMemory) (log : GuestLog) :
    (ring.addUsedWithMemory id len m log).2.1.baseAddr = ring.baseAddr ∧
      (ring.addUsedWithMemory id len m log).2.1.size = ring.size := by
  unfold addUsedWithMemory
  split
  · exact ⟨rfl, rfl⟩
  cases ring.ringEntryAddr (ring.usedIdx % ring.size) with
  | none => exact ⟨rfl, rfl⟩
  | some addr =>
    dsimp only
    rcases write addr _ m log with ⟨_ | ⟨⟨⟩⟩, log'⟩ <;> exact ⟨rfl, rfl⟩

end UsedRing

namespace DescriptorTable

def region (table : DescriptorTable) : RingRegion := ⟨table.baseAddr, layoutSize table.size⟩

variable {table : DescriptorTable}

section

variable (hfit : table.region.Fits)
include hfit

theorem readDesc_within (index : UInt16) : Within table.region.Covers (table.readDesc index) := by
  unfold readDesc descAddr
  split
  · exact within_fail _
  by_cases hlt : index ≥ table.size
  · simp only [hlt]
    exact within_fail _
  · simp only [hlt]
    have hindex : index.toNat < table.size.toNat := UInt16.lt_iff_toNat_lt.1 (UInt16.not_le.1 hlt)
    refine (within_read (hfit.covers_offset ?_ false)).bind fun _ => within_pure _
    simp only [region, layoutSize, descSize]
    omega

theorem followFrom_within (n : Nat) (current : UInt16) (descriptors : List VirtQueueDesc) :
    Within table.region.Covers (table.followFrom n current descriptors) := by
  induction n generalizing current descriptors with
  | zero => exact within_fail _
  | succ n ih =>
    unfold followFrom
    split
    · exact within_fail _
    refine (readDesc_within hfit current).bind fun desc => ?_
    dsimp only
    split
    · exact within_pure _
    split
    · exact within_fail _
    · exact ih _ _

theorem followChain_within (headIndex : UInt16) :
    Within table.region.Covers (table.followChain headIndex) := by
  unfold followChain
  split
  · exact within_fail _
  · exact followFrom_within hfit _ _ _

theorem chainFrom_within (n : Nat) (current : UInt16) (descriptors : List VirtQueueDesc) :
    Within table.region.Covers (table.chainFrom n current descriptors) := by
  induction n generalizing current descriptors with
  | zero => exact within_fail _
  | succ n ih =>
    unfold chainFrom
    split
    · exact within_fail _
    refine (readDesc_within hfit current).bind fun desc => ?_
    dsimp only
    split
    · exact within_fail _
    split
    · exact within_fail _
    split
    · exact within_pure _
    split
    · exact within_fail _
    · exact ih _ _

theorem descriptorChain_within (head : UInt16) :
    Within table.region.Covers (table.descriptorChain head) := by
  unfold descriptorChain
  split
  · exact within_fail _
  split
  · exact within_fail _
  · exact (chainFrom_within hfit _ _ _).bind fun _ => within_pure _

theorem getStatusAddr_within (headIndex : UInt16) :
    Within table.region.Covers (table.getStatusAddr headIndex) := by
  refine (followChain_within hfit headIndex).bind fun descriptors => ?_
  split
  · exact within_fail _
  split
  · exact within_fail _
  · exact within_pure _

end

end DescriptorTable

/-! ## The queue -/

/-- Both queues have their rings at the same places, with the same sizes. -/
structure SameLayout (q q' : VirtioQueue) : Prop where
  ready : q'.ready = q.ready
  size : q'.size = q.size
  descTableAddr : q'.descTableAddr = q.descTableAddr
  availRingAddr : q'.availRingAddr = q.availRingAddr
  usedRingAddr : q'.usedRingAddr = q.usedRingAddr
  descTable : q'.descTable = q.descTable
  availRing : q'.availRing.map (fun ring => (ring.baseAddr, ring.size)) =
    q.availRing.map fun ring => (ring.baseAddr, ring.size)
  usedRing : q'.usedRing.map (fun ring => (ring.baseAddr, ring.size)) =
    q.usedRing.map fun ring => (ring.baseAddr, ring.size)

namespace SameLayout

theorem refl (q : VirtioQueue) : SameLayout q q := ⟨rfl, rfl, rfl, rfl, rfl, rfl, rfl, rfl⟩

theorem trans {q1 q2 q3 : VirtioQueue} (h : SameLayout q1 q2) (h' : SameLayout q2 q3) : SameLayout q1 q3 :=
  ⟨h'.ready.trans h.ready, h'.size.trans h.size, h'.descTableAddr.trans h.descTableAddr,
    h'.availRingAddr.trans h.availRingAddr, h'.usedRingAddr.trans h.usedRingAddr, h'.descTable.trans h.descTable,
    h'.availRing.trans h.availRing, h'.usedRing.trans h.usedRing⟩

theorem latchFault (h : SameLayout q q') : SameLayout q q'.latchFault :=
  { h with }

theorem ringRegions (h : SameLayout q q') : q'.ringRegions = q.ringRegions := by
  simp [VirtioQueue.ringRegions, h.size, h.descTableAddr, h.availRingAddr, h.usedRingAddr]

theorem validateLayout (h : SameLayout q q') : q'.validateLayout = q.validateLayout := by
  simp [VirtioQueue.validateLayout, h.ringRegions, h.descTableAddr, h.availRingAddr, h.usedRingAddr]

theorem updateLastAvailIdx (idx : UInt16) : SameLayout q (q.updateLastAvailIdx idx) := by
  unfold VirtioQueue.updateLastAvailIdx
  cases hr : q.availRing with
  | none | some => exact ⟨rfl, rfl, rfl, rfl, rfl, rfl, by simp [hr], rfl⟩

end SameLayout

/-- The ring objects lie in the regions of the queue, and these fit into the address space. -/
structure Fenced (q : VirtioQueue) : Prop where
  desc : ∀ table, q.descTable = some table → table.region ∈ q.ringRegions
  avail : ∀ ring, q.availRing = some ring → ring.region ∈ q.ringRegions
  used : ∀ ring, q.usedRing = some ring → ring.region ∈ q.ringRegions
  fits : ∀ region ∈ q.ringRegions, region.Fits

theorem Fenced.congr (h : Fenced q) (hl : SameLayout q q') : Fenced q' := by
  refine ⟨fun table ht => ?_, fun ring hr => ?_, fun ring hr => ?_, fun region hm => ?_⟩
  · rw [hl.ringRegions]
    exact h.desc table (hl.descTable ▸ ht)
  · have hmap := hl.availRing
    rw [hr, map_some, eq_comm, map_eq_some_iff] at hmap
    obtain ⟨ring0, hr0, heq⟩ := hmap
    have hregion : ring.region = ring0.region := by simp_all [region]
    rw [hl.ringRegions, hregion]
    exact h.avail ring0 hr0
  · have hmap := hl.usedRing
    rw [hr, map_some, eq_comm, map_eq_some_iff] at hmap
    obtain ⟨ring0, hr0, heq⟩ := hmap
    have hregion : ring.region = ring0.region := by simp_all [UsedRing.region]
    rw [hl.ringRegions, hregion]
    exact h.used ring0 hr0
  · exact h.fits region (hl.ringRegions ▸ hm)

/-- The access lies in one of the regions of the queue. -/
def Inside (q : VirtioQueue) (a : Access GuestPhysAddr) : Prop := ∃ region ∈ q.ringRegions, region.Covers a

def KeepsLayout (x : QueueM β) : Prop := ∀ q m log, SameLayout q (x q m log).2.1

/-- The outcome of a call on `q` that keeps the layout and whose accesses are inside, also if it fails. -/
def Stays (q : VirtioQueue) (log : GuestLog) (outcome : Except VirtioError β × VirtioQueue × GuestLog) : Prop :=
  SameLayout q outcome.2.1 ∧ (Fenced q → ∃ new, outcome.2.2 = log ++ new ∧ ∀ a ∈ new, Inside q a)

def Tame (x : QueueM β) : Prop := ∀ q m log, Stays q log (x q m log)

variable {m : GuestMemory} {log log' : GuestLog} {result : Except VirtioError β} {result' : Except VirtioError γ}

theorem stays_idle : Stays q log (result, q, log) := ⟨.refl q, fun _ => ⟨[], by simp⟩⟩

theorem Stays.latch (h : Stays q log (result, q', log')) :
    Stays q log (result', q'.latchFault, log') := ⟨h.1.latchFault, h.2⟩

theorem stays_access {region : RingRegion} (hl : SameLayout q q') (hmem : Fenced q → region ∈ q.ringRegions)
    (hx : region.Fits → ∃ new, log' = log ++ new ∧ ∀ a ∈ new, region.Covers a) : Stays q log (result, q', log') := by
  refine ⟨hl, fun hq => ?_⟩
  obtain ⟨new, hnew, hcov⟩ := hx (hq.fits _ (hmem hq))
  exact ⟨new, hnew, fun a ha => ⟨region, hmem hq, hcov a ha⟩⟩

/-- A second part of the call, on the queue that the first one left. -/
theorem Stays.trans {q'' : VirtioQueue} {log'' : GuestLog} (h : Stays q log (result, q', log'))
    (h' : Stays q' log' (result', q'', log'')) : Stays q log (result', q'', log'') := by
  refine ⟨h.1.trans h'.1, fun hq => ?_⟩
  obtain ⟨new, rfl, hin⟩ := h.2 hq
  obtain ⟨more, hmore, hin'⟩ := h'.2 (hq.congr h.1)
  refine ⟨new ++ more, by rw [← append_assoc]; exact hmore, forall_mem_append.2 ⟨hin, fun a ha => ?_⟩⟩
  obtain ⟨region, hregion, hcov⟩ := hin' a ha
  exact ⟨region, h.1.ringRegions ▸ hregion, hcov⟩

variable {x : QueueM β}

theorem own_tame (hx : Tame x) : Tame x.own := fun _ _ _ => hx _ _ _

theorem andThen_tame {f : β → QueueM γ} (hx : Tame x) (hf : ∀ b, Tame (f b)) : Tame (x.andThen f) := by
  intro q m log
  have hstays := hx q m log
  unfold andThen
  rcases h : x q m log with ⟨_ | b, q', log'⟩ <;> rw [h] at hstays
  · exact hstays
  · exact hstays.trans (hf b q' m log')

theorem served_tame (b : β) : Tame fun q _ log => (.ok b, q, log) := fun _ _ _ => stays_idle

theorem guarded_tame {ring : VirtioQueue → Option ρ} {region : ρ → RingRegion} {body : ρ → GuestM β}
    (hring : ∀ q, Fenced q → ∀ r, ring q = some r → region r ∈ q.ringRegions)
    (hbody : ∀ r, (region r).Fits → Within (region r).Covers (body r)) : Tame (guarded ring body) := by
  intro q m log
  unfold guarded
  split
  · exact stays_idle
  cases hr : ring q with
  | none => exact stays_idle
  | some r =>
    have hx := fun hfit => hbody r hfit m log
    dsimp only
    rcases hb : body r m log with ⟨_ | b, log'⟩ <;> rw [hb] at hx
    · exact stays_access (SameLayout.refl q).latchFault (hring q · r hr) hx
    · exact stays_access (.refl q) (hring q · r hr) hx

/-! ## The operations -/

namespace VirtioQueue

theorem availGuarded_tame {body : AvailableRing → GuestM β}
    (hbody : ∀ ring, ring.region.Fits → Within ring.region.Covers (body ring)) : Tame (guarded availRing body) :=
  guarded_tame (fun _ hq => hq.avail) hbody

theorem descGuarded_tame {body : DescriptorTable → GuestM β}
    (hbody : ∀ table, table.region.Fits → Within table.region.Covers (body table)) : Tame (guarded descTable body) :=
  guarded_tame (fun _ hq => hq.desc) hbody

theorem popHead_tame (availIdx : UInt16) : Tame (popHead availIdx) := by
  intro q m log
  unfold popHead
  dsimp only
  split
  · exact ⟨(SameLayout.refl q).latchFault, fun _ => ⟨[], by simp⟩⟩
  split
  · exact stays_idle
  cases hr : q.availRing with
  | none => exact stays_idle
  | some ring =>
    have hx := fun hfit => ring.readAvailRingEntryWithMemory_within hfit (q.getLastAvailIdx % q.size) m log
    dsimp only
    rcases hread : ring.readAvailRingEntryWithMemory (q.getLastAvailIdx % q.size) m log with ⟨_ | head, log'⟩ <;>
      rw [hread] at hx
    · exact stays_access (SameLayout.refl q).latchFault (·.avail ring hr) hx
    · exact stays_access (.updateLastAvailIdx _) (·.avail ring hr) hx

theorem popAvailableHeadWithMemory_tame : Tame popAvailableHeadWithMemory := by
  intro q m log
  unfold popAvailableHeadWithMemory
  split
  · exact stays_idle
  split
  · exact stays_idle
  · have hread : Tame readAvailIdxWithMemory := availGuarded_tame fun _ hfit => readAvailIdxWithMemory_within hfit
    exact andThen_tame hread popHead_tame q m log

theorem descriptorChainWithMemory_tame (head : UInt16) : Tame (descriptorChainWithMemory head) :=
  descGuarded_tame fun _ hfit => DescriptorTable.descriptorChain_within hfit head

theorem popAvailable_tame : Tame popAvailable := by
  refine andThen_tame (own_tame popAvailableHeadWithMemory_tame) fun head => ?_
  cases head with
  | none => exact served_tame none
  | some head => exact andThen_tame (own_tame (descriptorChainWithMemory_tame head)) fun chain => served_tame _

theorem stays_addUsed {ring ring' : UsedRing} {id len : UInt32} {added : Except VirtioError Unit}
    (hu : q.usedRing = some ring) (hadd : ring.addUsedWithMemory id len m log = (added, ring', log'))
    (nextUsed : UInt16) :
    Stays q log (added, { q with usedRing := some ring', nextUsed }, log') := by
  have hring := ring.addUsedWithMemory_ring id len m log
  have hx := fun hfit : ring.region.Fits => UsedRing.addUsedWithMemory_within hfit id len m log
  rw [hadd] at hring hx
  exact stays_access ⟨rfl, rfl, rfl, rfl, rfl, rfl, rfl, by simpa [hu] using hring⟩ (·.used ring hu) hx

theorem addUsed_tame (descIndex : UInt16) (len : UInt32) : Tame (addUsed descIndex len) := by
  intro q m log
  simp only [addUsed, own]
  split
  · exact stays_idle
  split
  · exact stays_idle
  cases hu : q.usedRing with
  | none => exact stays_idle
  | some ring =>
    dsimp only
    rcases hadd : ring.addUsedWithMemory descIndex.toUInt32 len (m.withError .invalidAddress) log with
      ⟨_ | ⟨⟨⟩⟩, ring', log'⟩
    · exact (stays_addUsed hu hadd q.nextUsed).latch
    · exact stays_addUsed hu hadd _

theorem shouldNotify_tame : Tame shouldNotify :=
  own_tame (availGuarded_tame fun _ _ => interruptsSuppressed_within.bind fun _ => within_pure _)

section

variable (head : UInt16) (writtenLen : UInt32)
include head writtenLen

theorem complete_tame : Tame (complete head writtenLen) :=
  andThen_tame (addUsed_tame head writtenLen) fun _ => shouldNotify_tame

theorem completeBody_tame : Tame (completeBody head writtenLen) := by
  intro q m log
  unfold completeBody
  cases hu : q.usedRing with
  | none => exact stays_idle
  | some ring =>
    dsimp only
    rcases hadd : ring.addUsedWithMemory head.toUInt32 writtenLen m log with ⟨_ | ⟨⟨⟩⟩, ring', log'⟩
    · exact stays_addUsed hu hadd q.nextUsed
    · have hadded := stays_addUsed hu hadd ring'.usedIdx
      dsimp only
      generalize hq' : { q with usedRing := some ring', nextUsed := ring'.usedIdx } = q' at hadded ⊢
      have havail : q'.availRing = q.availRing := by rw [← hq']
      cases hr : q.availRing with
      | none => exact hadded
      | some avail =>
        have hy := fun _ : avail.region.Fits => avail.interruptsSuppressedWithMemory_within m log'
        dsimp only
        rcases hread : avail.interruptsSuppressedWithMemory m log' with ⟨_ | _, log''⟩ <;> rw [hread] at hy <;>
          exact hadded.trans (stays_access (.refl _) (·.avail avail (havail.trans hr)) hy)

theorem completeWithMemory_tame : Tame (completeWithMemory head writtenLen) := by
  intro q m log
  unfold completeWithMemory
  split
  · exact stays_idle
  have hbody := completeBody_tame head writtenLen q m log
  rcases hres : completeBody head writtenLen q m log with ⟨_ | _, q', log'⟩ <;> rw [hres] at hbody
  · exact hbody.latch
  · exact hbody

end

theorem getStatusAddr_tame (headIndex : UInt16) : Tame (getStatusAddr headIndex) :=
  own_tame (descGuarded_tame fun _ hfit => DescriptorTable.getStatusAddr_within hfit headIndex)

theorem writeStatusByte_keepsLayout (headIndex : UInt16) (status : UInt8) :
    KeepsLayout (writeStatusByte headIndex status) := by
  intro q m log
  unfold writeStatusByte
  split
  · exact .refl q
  have hkept := (getStatusAddr_tame headIndex q m log).1
  unfold andThen
  rcases hget : getStatusAddr headIndex q m log with ⟨_ | addr, q', log'⟩ <;> rw [hget] at hkept <;> exact hkept

end VirtioQueue

end XKernel.Virtio
