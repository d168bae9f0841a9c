import XKernel.Virtio.Fault
/-!
# The queues behind the MMIO registers

The guest programs a queue by register writes in any order. `QUEUE_READY` checks the layout of
the addresses and the size at that moment, but a ring object has the size of the moment its
address was written, and an address may be written again while the queue is ready. So the
data path stays in the checked regions under a condition on these two writes, and without it
a guest gets the device to read elsewhere.
-/

namespace XKernel.Virtio

open XKernel.Lib List Option

variable {q q' : VirtioQueue} {m : GuestMemory} {log : GuestLog}

/-! ## The data path stays inside -/

section

open QueueM AccessM VirtioQueue AvailableRing

variable {β : Type} {x : QueueM β}

namespace DataOp

/-- The operation that writes into a buffer of the guest. -/
def WritesStatus : DataOp → Prop
  | .writeStatusByte _ _ => True
  | _ => False

variable (op : DataOp)

theorem discard_tame (hx : Tame x) : Tame x.discard := andThen_tame hx fun _ => served_tame ()

theorem tame (h : ¬ op.WritesStatus) : Tame op.run := by
  cases op with
  | readAvailIdx =>
    exact discard_tame (own_tame (availGuarded_tame fun _ hfit => readAvailIdxWithMemory_within hfit))
  | readAvailIdxWithMemory =>
    exact discard_tame (availGuarded_tame fun _ hfit => readAvailIdxWithMemory_within hfit)
  | readAvailEntry ringIndex =>
    exact discard_tame (own_tame (availGuarded_tame fun _ hfit =>
      readAvailRingEntryWithMemory_within hfit ringIndex))
  | readAvailEntryWithMemory ringIndex =>
    exact discard_tame (availGuarded_tame fun _ hfit => readAvailRingEntryWithMemory_within hfit ringIndex)
  | shouldNotify => exact discard_tame shouldNotify_tame
  | popAvailableHead => exact discard_tame (own_tame popAvailableHeadWithMemory_tame)
  | popAvailableHeadWithMemory => exact discard_tame popAvailableHeadWithMemory_tame
  | popAvailable => exact discard_tame popAvailable_tame
  | descriptorChain head => exact discard_tame (own_tame (descriptorChainWithMemory_tame head))
  | descriptorChainWithMemory head => exact discard_tame (descriptorChainWithMemory_tame head)
  | addUsed descIndex len => exact addUsed_tame descIndex len
  | complete head writtenLen => exact discard_tame (complete_tame head writtenLen)
  | completeWithMemory head writtenLen => exact discard_tame (completeWithMemory_tame head writtenLen)
  | validateVirtioBlockChain headIndex =>
    exact discard_tame (own_tame (descGuarded_tame fun _ hfit =>
      (DescriptorTable.followChain_within hfit headIndex).bind fun _ => within_pure _))
  | getDataBuffers headIndex isBlock =>
    refine discard_tame (own_tame (descGuarded_tame fun _ hfit =>
      (DescriptorTable.followChain_within hfit headIndex).bind fun _ => ?_))
    split <;> exact within_pure _
  | getStatusAddr headIndex => exact discard_tame (getStatusAddr_tame headIndex)
  | writeStatusByte => exact absurd trivial h

theorem keepsLayout : KeepsLayout op.run := by
  by_cases h : op.WritesStatus
  · cases op with
    | writeStatusByte headIndex status => exact writeStatusByte_keepsLayout headIndex status
    | _ => exact h.elim
  · exact fun q m log => (op.tame h q m log).1

end DataOp

end

/-! ## The transport -/

/-- The registers; those that do not concern the queues are one. -/
inductive Register
  | queueSel
  | queueNum
  | queueReady
  | queueDescLow
  | queueDescHigh
  | queueAvailLow
  | queueAvailHigh
  | queueUsedLow
  | queueUsedHigh
  | status
  | other
  deriving DecidableEq, Repr

/-- The six halves of the ring addresses. -/
def Register.isAddress : Register → Bool
  | .queueDescLow | .queueDescHigh | .queueAvailLow | .queueAvailHigh | .queueUsedLow | .queueUsedHigh => true
  | _ => false

def combineAddr (current : GuestPhysAddr) (half : UInt32) (low : Bool) : GuestPhysAddr :=
  if low then (current &&& (0xffffffff00000000 : UInt64)) ||| half.toUInt64
  else (current &&& (0xffffffff : UInt64)) ||| (half.toUInt64 <<< 32)

def writeQueueAddress (q : VirtioQueue) (reg : Register) (val : UInt32) : VirtioQueue :=
  match reg with
  | .queueDescLow => q.setDescTableAddr (combineAddr q.descTableAddr val true)
  | .queueDescHigh => q.setDescTableAddr (combineAddr q.descTableAddr val false)
  | .queueAvailLow => q.setAvailRingAddr (combineAddr q.availRingAddr val true)
  | .queueAvailHigh => q.setAvailRingAddr (combineAddr q.availRingAddr val false)
  | .queueUsedLow => q.setUsedRingAddr (combineAddr q.usedRingAddr val true)
  | .queueUsedHigh => q.setUsedRingAddr (combineAddr q.usedRingAddr val false)
  | _ => q

/-- The write of `QUEUE_READY`. -/
def writeQueueReady (q : VirtioQueue) (val : UInt32) (m : GuestMemory) (log : GuestLog) : VirtioQueue × GuestLog :=
  if q.isConfigured then
    let (result, log) := q.validateLayoutWithMemory m log
    (q.setReady (val ≠ 0 ∧ result.isOk), log)
  else (q.setReady false, log)

structure MmioState where
  queueSel : UInt16
  queues : List VirtioQueue
  log : GuestLog

/-- A register write of the guest, or a call of the device's data path. -/
inductive MmioOp
  | write (reg : Register) (val : UInt32) (m : GuestMemory)
  | data (index : Nat) (op : DataOp) (m : GuestMemory)

namespace MmioState

def start (sizes : List UInt16) : MmioState := ⟨0, sizes.map .new, []⟩

def selected (s : MmioState) : Option VirtioQueue := s.queues[s.queueSel.toNat]?

def onQueue (s : MmioState) (index : Nat) (f : VirtioQueue → GuestLog → VirtioQueue × GuestLog) : MmioState :=
  match s.queues[index]? with
  | none => s
  | some q => let (q, log) := f q s.log; { s with queues := s.queues.set index q, log }

def mmioWrite (s : MmioState) (reg : Register) (val : UInt32) (m : GuestMemory) : MmioState :=
  match reg with
  | .queueSel => if val.toUInt16.toNat < s.queues.length then { s with queueSel := val.toUInt16 } else s
  -- a refused size is ignored
  | .queueNum => s.onQueue s.queueSel.toNat fun q log => ((q.setSize val.toUInt16).toOption.getD q, log)
  | .queueReady => s.onQueue s.queueSel.toNat fun q log => writeQueueReady q val m log
  | .status => if val = 0 then { s with queueSel := 0, queues := s.queues.map .reset } else s
  | .other => s
  | reg => s.onQueue s.queueSel.toNat fun q log => (writeQueueAddress q reg val, log)

def step (s : MmioState) : MmioOp → Option MmioState
  | .write reg val m => some (s.mmioWrite reg val m)
  | .data index op m => some (s.onQueue index fun q log => (op.run q m log).2)

end MmioState

/-! ## A valid layout -/

namespace VirtioQueue

/-- What `validate_layout` accepts. -/
structure LaidOut (q : VirtioQueue) : Prop where
  nonzero : q.descTableAddr ≠ 0 ∧ q.availRingAddr ≠ 0 ∧ q.usedRingAddr ≠ 0
  aligned : q.descTableAddr.toNat % virtqDescAlign = 0 ∧ q.availRingAddr.toNat % virtqAvailAlign = 0 ∧
    q.usedRingAddr.toNat % virtqUsedAlign = 0
  fits : ∀ region ∈ q.ringRegions, region.Fits
  apart : q.ringRegions.Pairwise RingRegion.Apart

theorem checkRegions_eq_ok_iff (regions : List RingRegion) :
    checkRegions regions = .ok () ↔ (∀ region ∈ regions, region.Fits) ∧ regions.Pairwise RingRegion.Apart := by
  induction regions with
  | nil => simp [checkRegions]
  | cons region rest ih =>
    simp only [checkRegions, forall_mem_cons, pairwise_cons]
    by_cases hfit : region.Fits
    · rw [if_neg (RingRegion.fits_iff_stop.1 hfit)]
      by_cases hany : rest.any region.overlaps = true
      · rw [if_pos hany]
        obtain ⟨other, hmem, hover⟩ := any_eq_true.1 hany
        refine iff_of_false (by simp) fun h => ?_
        rw [RingRegion.overlaps_eq_false_iff.2 ⟨⟨hfit, h.1.2 other hmem⟩, h.2.1 other hmem⟩] at hover
        cases hover
      · rw [if_neg hany, ih]
        have hnone : ∀ other ∈ rest, region.Apart other := fun other hmem =>
          (RingRegion.overlaps_eq_false_iff.1 (by simpa using fun h => hany (any_eq_true.2 ⟨other, hmem, h⟩))).2
        exact ⟨fun h => ⟨⟨hfit, h.1⟩, hnone, h.2⟩, fun h => ⟨h.1.2, h.2.2⟩⟩
    · have hstop : region.stop = none := by
        by_contra h
        exact hfit (RingRegion.fits_iff_stop.2 h)
      simp [hstop, hfit]

theorem validateLayout_eq_ok_iff : q.validateLayout = .ok () ↔ q.LaidOut := by
  unfold validateLayout
  constructor
  · intro h
    split at h
    · cases h
    rename_i hzero
    split at h
    · cases h
    rename_i halign
    obtain ⟨hfits, hapart⟩ := (checkRegions_eq_ok_iff _).1 h
    exact ⟨by simpa [ringRegions] using hzero, not_not.1 halign, hfits, hapart⟩
  · rintro ⟨hzero, halign, hfits, hapart⟩
    rw [if_neg (by simpa [ringRegions] using hzero), if_neg (not_not_intro halign)]
    exact (checkRegions_eq_ok_iff _).2 ⟨hfits, hapart⟩

/-! ## The ring objects and the queue -/

/-- A ring object is there if its address is programmed, and has that address. -/
structure Placed (q : VirtioQueue) : Prop where
  desc : q.descTable.map (·.baseAddr) = if q.descTableAddr ≠ 0 then some q.descTableAddr else none
  avail : q.availRing.map (·.baseAddr) = if q.availRingAddr ≠ 0 then some q.availRingAddr else none
  used : q.usedRing.map (·.baseAddr) = if q.usedRingAddr ≠ 0 then some q.usedRingAddr else none

/-- The ring objects have the size of the queue. -/
def sizesMatch (q : VirtioQueue) : Bool :=
  q.descTable.all (fun table => table.size = q.size) ∧ q.availRing.all (fun ring => ring.size = q.size) ∧
    q.usedRing.all fun ring => ring.size = q.size

/-- What holds of a queue that is ready: the ring objects have its size, the regions are
aligned, within the address space and apart, and the data path stays in them. -/
structure Secure (q : VirtioQueue) : Prop where
  desc : ∃ table, q.descTable = some table ∧ table.size = q.size
  avail : ∃ ring, q.availRing = some ring ∧ ring.size = q.size
  used : ∃ ring, q.usedRing = some ring ∧ ring.size = q.size
  laidOut : q.LaidOut
  inside : ∀ (op : DataOp) m log, ¬ op.WritesStatus → ∃ new, (op.run q m log).2.2 = log ++ new ∧ ∀ a ∈ new, Inside q a

theorem Placed.new (size : UInt16) : (new size).Placed := ⟨rfl, rfl, rfl⟩

theorem Placed.reset : q.reset.Placed := ⟨rfl, rfl, rfl⟩

theorem Placed.congr (h : q.Placed) (hl : SameLayout q q') : q'.Placed := by
  have havail : q'.availRing.map (·.baseAddr) = q.availRing.map (·.baseAddr) := by
    simpa [Option.map_map, Function.comp_def] using congrArg (Option.map Prod.fst) hl.availRing
  have hused : q'.usedRing.map (·.baseAddr) = q.usedRing.map (·.baseAddr) := by
    simpa [Option.map_map, Function.comp_def] using congrArg (Option.map Prod.fst) hl.usedRing
  exact ⟨by rw [hl.descTable, hl.descTableAddr]; exact h.desc, by rw [havail, hl.availRingAddr]; exact h.avail,
    by rw [hused, hl.usedRingAddr]; exact h.used⟩

theorem sizesMatch_congr (hl : SameLayout q q') : q'.sizesMatch = q.sizesMatch := by
  have havail : q'.availRing.map (·.size) = q.availRing.map (·.size) := by
    simpa [Option.map_map, Function.comp_def] using congrArg (Option.map Prod.snd) hl.availRing
  have hused : q'.usedRing.map (·.size) = q.usedRing.map (·.size) := by
    simpa [Option.map_map, Function.comp_def] using congrArg (Option.map Prod.snd) hl.usedRing
  have hall : ∀ {ρ : Type} (o : Option ρ) (f : ρ → UInt16), o.all (fun r => f r = q.size) =
      (o.map f).all (· = q.size) :=
    fun o f => by cases o <;> rfl
  simp only [sizesMatch, hl.size, hl.descTable, hall _ AvailableRing.size, hall _ UsedRing.size, havail, hused]

/-- For a queue whose objects are placed, the property is that the sizes match and the layout
is valid. -/
theorem Placed.secure_iff (h : q.Placed) : q.Secure ↔ q.sizesMatch = true ∧ q.LaidOut := by
  constructor
  · rintro ⟨⟨table, ht, hts⟩, ⟨avail, ha, has⟩, ⟨used, hu, hus⟩, hlaid, -⟩
    exact ⟨by simp [sizesMatch, ht, ha, hu, hts, has, hus], hlaid⟩
  · rintro ⟨hsizes, hlaid⟩
    obtain ⟨hd, ha, hu⟩ := hlaid.nonzero
    obtain ⟨hdesc, havail, hused⟩ := h
    rw [if_pos hd, map_eq_some_iff] at hdesc
    rw [if_pos ha, map_eq_some_iff] at havail
    rw [if_pos hu, map_eq_some_iff] at hused
    obtain ⟨table, ht, htb⟩ := hdesc
    obtain ⟨avail, hav, hab⟩ := havail
    obtain ⟨used, hus, hub⟩ := hused
    simp only [sizesMatch, ht, hav, hus, all_some, decide_eq_true_eq] at hsizes
    obtain ⟨hts, has, huss⟩ := hsizes
    have hfenced : Fenced q := by
      refine ⟨fun table' ht' => ?_, fun ring hr => ?_, fun ring hr => ?_, hlaid.fits⟩
      · cases ht.symm.trans ht'
        simp [DescriptorTable.region, ringRegions, htb, hts]
      · cases hav.symm.trans hr
        simp [AvailableRing.region, ringRegions, hab, has]
      · cases hus.symm.trans hr
        simp [UsedRing.region, ringRegions, hub, huss]
    exact ⟨⟨table, ht, hts⟩, ⟨avail, hav, has⟩, ⟨used, hus, huss⟩, hlaid,
      fun op m log hop => (op.tame hop q m log).2 hfenced⟩

def Safe (q : VirtioQueue) : Prop := q.ready = true → q.Secure

theorem Placed.safe_iff (h : q.Placed) : q.Safe ↔ (q.ready = true → q.sizesMatch = true ∧ q.LaidOut) :=
  forall_congr' fun _ => h.secure_iff

theorem safe_of_not_ready (h : q.ready = false) : q.Safe := by
  intro hr
  rw [h] at hr
  cases hr

/-! ## What the writes do to one queue -/

theorem Safe.congr (h : q.Safe) (hp : q.Placed) (hl : SameLayout q q') : q'.Safe := by
  have hlaid : q'.LaidOut ↔ q.LaidOut := by rw [← validateLayout_eq_ok_iff, hl.validateLayout, validateLayout_eq_ok_iff]
  rw [(hp.congr hl).safe_iff, hl.ready, sizesMatch_congr hl, hlaid]
  exact hp.safe_iff.1 h

/-- A size is accepted only while the queue is not ready. -/
theorem setSize_cases (size : UInt16) :
    (q.setSize size).toOption.getD q = q ∨ q.ready = false ∧ (q.setSize size).toOption.getD q = { q with size } := by
  unfold setSize
  split
  · exact .inl rfl
  split
  · exact .inl rfl
  · rename_i hready
    exact .inr ⟨by simpa using fun h => hready (.inl h), rfl⟩

theorem Placed.setSize (h : q.Placed) (size : UInt16) : ((q.setSize size).toOption.getD q).Placed := by
  obtain hsame | ⟨-, hset⟩ := setSize_cases size
  · rwa [hsame]
  · rw [hset]
    exact { h with }

theorem Safe.setSize (h : q.Safe) (size : UInt16) : ((q.setSize size).toOption.getD q).Safe := by
  obtain hsame | ⟨hready, hset⟩ := setSize_cases size
  · rwa [hsame]
  · rw [hset]
    exact safe_of_not_ready hready

/-- An address write sets one of the three addresses, or is none. -/
theorem writeQueueAddress_cases {P : VirtioQueue → Prop} (hdesc : ∀ addr, P (q.setDescTableAddr addr))
    (havail : ∀ addr, P (q.setAvailRingAddr addr)) (hused : ∀ addr, P (q.setUsedRingAddr addr)) (h : P q)
    (reg : Register) (val : UInt32) : P (writeQueueAddress q reg val) := by
  cases reg with
  | queueDescLow | queueDescHigh => exact hdesc _
  | queueAvailLow | queueAvailHigh => exact havail _
  | queueUsedLow | queueUsedHigh => exact hused _
  | _ => exact h

theorem Placed.writeQueueAddress (h : q.Placed) : ∀ reg val, (writeQueueAddress q reg val).Placed := by
  refine writeQueueAddress_cases (fun addr => ?_) (fun addr => ?_) (fun addr => ?_) h
  · exact ⟨by by_cases ha : addr = 0 <;> simp [setDescTableAddr, ha], h.avail, h.used⟩
  · exact ⟨h.desc, by by_cases ha : addr = 0 <;> simp [setAvailRingAddr, ha], h.used⟩
  · exact ⟨h.desc, h.avail, by by_cases ha : addr = 0 <;> simp [setUsedRingAddr, ha]⟩

/-- The new ring object gets the size of the queue. -/
theorem writeQueueAddress_sizesMatch (h : q.sizesMatch = true) :
    ∀ reg val, (writeQueueAddress q reg val).sizesMatch = true := by
  have hsizes := h
  simp only [sizesMatch, decide_eq_true_eq] at hsizes
  obtain ⟨hd, ha, hu⟩ := hsizes
  refine writeQueueAddress_cases (P := fun q => q.sizesMatch = true) (fun addr => ?_) (fun addr => ?_)
    (fun addr => ?_) h
  · by_cases hz : addr = 0 <;> simp [sizesMatch, setDescTableAddr, hz, ha, hu]
  · by_cases hz : addr = 0 <;> simp [sizesMatch, setAvailRingAddr, hz, hd, hu]
  · by_cases hz : addr = 0 <;> simp [sizesMatch, setUsedRingAddr, hz, hd, ha]

/-- On a ready queue, an address write is safe exactly if it leaves a valid layout. -/
theorem Safe.writeQueueAddress_iff (h : q.Safe) (hp : q.Placed) (reg : Register) (val : UInt32) :
    (writeQueueAddress q reg val).Safe ↔ (q.ready = true → (writeQueueAddress q reg val).validateLayout = .ok ()) := by
  rw [(hp.writeQueueAddress reg val).safe_iff, show (writeQueueAddress q reg val).ready = q.ready by cases reg <;> rfl]
  refine forall_congr' fun hready => ?_
  have hsizes : q.sizesMatch = true := ((hp.safe_iff.1 h) hready).1
  rw [validateLayout_eq_ok_iff]
  exact and_iff_right (writeQueueAddress_sizesMatch hsizes reg val)

/-- A write of `val` to `QUEUE_READY` finds three ring addresses, in a layout that guest memory holds. -/
def becomesReady (q : VirtioQueue) (val : UInt32) (m : GuestMemory) (log : GuestLog) : Bool :=
  q.isConfigured ∧ val ≠ 0 ∧ (q.validateLayoutWithMemory m log).1.isOk

theorem validateLayout_of_becomesReady {val : UInt32} (h : q.becomesReady val m log = true) :
    q.validateLayout = .ok () := by
  have hok := (of_decide_eq_true h).2.2
  unfold validateLayoutWithMemory at hok
  cases hv : q.validateLayout with
  | ok => rfl
  | error => simp [hv, AccessM.fail, Except.toBool] at hok

/-- The queue becomes ready safely exactly if the ring objects have its size. -/
theorem Placed.writeQueueReady_iff (hp : q.Placed) (val : UInt32) :
    (writeQueueReady q val m log).1.Placed ∧
      ((writeQueueReady q val m log).1.Safe ↔ (q.becomesReady val m log = true → q.sizesMatch = true)) := by
  have hplaced : (q.setReady (q.becomesReady val m log)).Placed := { hp with }
  have hwrite : (writeQueueReady q val m log).1 = q.setReady (q.becomesReady val m log) := by
    unfold writeQueueReady becomesReady
    split <;> simp [*]
  rw [hwrite]
  refine ⟨hplaced, hplaced.safe_iff.trans (forall_congr' fun hr => ?_)⟩
  have hlaid : q.LaidOut := validateLayout_eq_ok_iff.1 (validateLayout_of_becomesReady hr)
  exact ⟨fun h => h.1, fun h => ⟨h, { hlaid with }⟩⟩

end VirtioQueue

/-! ## Runs -/

namespace MmioState

variable {s s' : MmioState}

/-- The condition on the guest. A queue becomes ready only with ring objects of its size: no
`QUEUE_NUM` write changed the size after an address was written. An address is written on a
ready queue only if the layout is valid then. -/
def allowed (s : MmioState) : MmioOp → Bool
  | .write .queueReady val m =>
    match s.selected with
    | none => true
    | some q => !q.becomesReady val m s.log || q.sizesMatch
  | .write reg val _ =>
    if reg.isAddress then
      match s.selected with
      | none => true
      | some q => !q.ready || (writeQueueAddress q reg val).validateLayout = .ok ()
    else true
  | .data _ _ _ => true

def Safe (s : MmioState) : Prop := ∀ q ∈ s.queues, q.Safe

def Placed (s : MmioState) : Prop := ∀ q ∈ s.queues, q.Placed

variable {f : VirtioQueue → GuestLog → VirtioQueue × GuestLog} {index : Nat} {P : VirtioQueue → Prop}

theorem forall_mem_onQueue
    (h : ∀ q ∈ s.queues, P q) (hq : s.queues[index]? = some q) :
    (∀ q' ∈ (s.onQueue index f).queues, P q') ↔ P (f q s.log).1 := by
  simp only [onQueue, hq]
  obtain ⟨hlt, -⟩ := List.getElem?_eq_some_iff.1 hq
  constructor
  · exact fun hall => hall _ (mem_set hlt _)
  · intro hP q' hmem
    obtain hold | rfl := mem_or_eq_of_mem_set hmem
    · exact h q' hold
    · exact hP

theorem onQueue_of_none (f : VirtioQueue → GuestLog → VirtioQueue × GuestLog) (hq : s.queues[index]? = none) :
    s.onQueue index f = s := by
  simp [onQueue, hq]

/-- What a change of one queue keeps of all queues. -/
theorem onQueue_keeps
    (h : ∀ q ∈ s.queues, P q) (hf : ∀ q ∈ s.queues, P q → P (f q s.log).1) :
    ∀ q' ∈ (s.onQueue index f).queues, P q' := by
  cases hq : s.queues[index]? with
  | none =>
    rw [onQueue_of_none f hq]
    exact h
  | some q =>
    have hmem := mem_of_getElem? hq
    exact (forall_mem_onQueue h hq).2 (hf q hmem (h q hmem))

theorem Placed.step (h : s.Placed) {o : MmioOp} (hs : s.step o = some s') : s'.Placed := by
  cases o with
  | data index op m =>
    cases hs
    exact onQueue_keeps h fun q _ hp => hp.congr (op.keepsLayout q m s.log)
  | write reg val m =>
    have haddr : Placed (s.onQueue s.queueSel.toNat fun q log => (writeQueueAddress q reg val, log)) :=
      onQueue_keeps h fun q _ hp => hp.writeQueueAddress reg val
    obtain rfl : s.mmioWrite reg val m = s' := some.inj hs
    cases reg
    case queueSel =>
      simp only [mmioWrite]
      split <;> exact h
    case queueNum => exact onQueue_keeps h fun q _ hp => hp.setSize _
    case queueReady => exact onQueue_keeps h fun q _ hp => (hp.writeQueueReady_iff val).1
    case status =>
      simp only [mmioWrite]
      split
      · exact forall_mem_map.2 fun q _ => VirtioQueue.Placed.reset
      · exact h
    case other => exact h
    all_goals exact haddr

/-- A change of the selected queue is safe exactly if it leaves that queue safe. -/
theorem Safe.onQueue_iff {ok : VirtioQueue → Bool} (h : s.Safe)
    (hf : ∀ q ∈ s.queues, (f q s.log).1.Safe ↔ ok q = true) :
    Safe (s.onQueue s.queueSel.toNat f) ↔
      (match s.selected with
        | none => true
        | some q => ok q) = true := by
  cases hq : s.selected with
  | none =>
    rw [onQueue_of_none _ hq]
    exact iff_of_true h rfl
  | some q => exact (forall_mem_onQueue h hq).trans (hf q (mem_of_getElem? hq))

/-- From a safe state, a step leads to a safe state exactly if it is allowed. -/
theorem Safe.step_iff (h : s.Safe) (hp : s.Placed) {o : MmioOp} (hs : s.step o = some s') :
    s'.Safe ↔ s.allowed o = true := by
  cases o with
  | data index op m =>
    cases hs
    exact iff_of_true (onQueue_keeps h fun q hmem hsafe => hsafe.congr (hp q hmem) (op.keepsLayout q m s.log)) rfl
  | write reg val m =>
    have haddr : ∀ q ∈ s.queues, (writeQueueAddress q reg val).Safe ↔
        (!q.ready || (writeQueueAddress q reg val).validateLayout = .ok ()) = true := by
      intro q hmem
      rw [(h q hmem).writeQueueAddress_iff (hp q hmem) reg val]
      by_cases hready : q.ready = true <;> simp [hready]
    obtain rfl : s.mmioWrite reg val m = s' := some.inj hs
    cases reg
    case queueSel =>
      refine iff_of_true ?_ rfl
      simp only [mmioWrite]
      split <;> exact h
    case queueNum =>
      exact iff_of_true (onQueue_keeps h fun q _ hsafe => hsafe.setSize _) rfl
    case queueReady =>
      refine h.onQueue_iff fun q hmem => ((hp q hmem).writeQueueReady_iff val).2.trans ?_
      by_cases hready : q.becomesReady val m s.log = true <;> simp [hready]
    case status =>
      refine iff_of_true ?_ rfl
      simp only [mmioWrite]
      split
      · exact forall_mem_map.2 fun q _ => VirtioQueue.safe_of_not_ready rfl
      · exact h
    case other => exact iff_of_true h rfl
    all_goals exact h.onQueue_iff haddr

/-- In every run whose steps the condition allows, a queue that is ready has ring objects of
its size in a valid layout, and the data path stays inside; and from each such state the
condition is exactly what keeps it so. -/
theorem run_layout (sizes : List UInt16) (s : MmioState)
    (hrun : Run step (fun s o => s.allowed o = true) (start sizes) s) :
    (∀ q ∈ s.queues, q.ready = true → q.Secure) ∧
      ∀ o s', s.step o = some s' → ((∀ q ∈ s'.queues, q.ready = true → q.Secure) ↔ s.allowed o = true) := by
  have hinv : s.Placed ∧ s.Safe := by
    refine hrun.inv (fun s => s.Placed ∧ s.Safe) ⟨?_, ?_⟩ fun s o s' h hok hs => ?_
    · exact forall_mem_map.2 fun size _ => VirtioQueue.Placed.new size
    · exact forall_mem_map.2 fun size _ => VirtioQueue.safe_of_not_ready rfl
    · exact ⟨h.1.step hs, (h.2.step_iff h.1 hs).2 hok⟩
  exact ⟨hinv.2, fun o s' hs => hinv.2.step_iff hinv.1 hs⟩

theorem length_zeroBytes (n : Nat) : (replicate n (0 : UInt8)).length = n := length_replicate

/-- Guest memory full of zeros that takes every write. -/
def zeroGuest : GuestMemory where
  read _ _ n := .ok ⟨List.replicate n 0, length_zeroBytes n⟩
  write _ _ _ := .ok ()

/-- The writes of a driver that sets the size first. -/
def setup : List MmioOp :=
  [.write .queueNum 16 zeroGuest, .write .queueDescLow 0x1000 zeroGuest, .write .queueAvailLow 0x2000 zeroGuest,
    .write .queueUsedLow 0x3000 zeroGuest, .write .queueReady 1 zeroGuest, .data 0 (.complete 3 0) zeroGuest]

theorem run_layout_setup :
    ∃ (s : MmioState) (q : VirtioQueue), q ∈ s.queues ∧ q.ready = true ∧ s.log.length = 9 ∧ q.Secure := by
  obtain ⟨s, hrun, ⟨q, hmem, hready⟩, hlen⟩ : ∃ s, Run step (fun s o => s.allowed o = true) (start [256]) s ∧
      (∃ q ∈ s.queues, q.ready = true) ∧ s.log.length = 9 := Run.exists_of_exec setup (by decide +kernel)
  exact ⟨s, q, hmem, hready, hlen, (run_layout [256] s hrun).1 q hmem hready⟩

/-- The descriptor table is made for 256 entries, then the size becomes 16. The queue is ready
with a valid layout, and a chain that starts at descriptor 200 is read outside of it. -/
theorem resize_reads_outside :
    ∃ s, Run step (fun _ _ => True) (start [256]) s ∧ ∃ q ∈ s.queues, q.ready = true ∧ q.sizesMatch = false ∧
      (DataOp.run (.descriptorChain 200) q zeroGuest []).1 = .ok () ∧
        ∃ a ∈ (DataOp.run (.descriptorChain 200) q zeroGuest []).2.2, ¬ Inside q a := by
  unfold Inside
  exact Run.exists_of_exec [.write .queueDescLow 0x1000 zeroGuest, .write .queueNum 16 zeroGuest,
    .write .queueAvailLow 0x2000 zeroGuest, .write .queueUsedLow 0x3000 zeroGuest, .write .queueReady 1 zeroGuest]
    (by decide +kernel)

end MmioState

end XKernel.Virtio
