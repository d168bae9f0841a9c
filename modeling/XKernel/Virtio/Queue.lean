import XKernel.Lib.Untrusted
/-!
# Virtqueues

The split-ring queue of the VirtIO transport: its rings and descriptor table, the
configuration setters, and the data-path operations with their fault latch. Guest memory
answers as it likes. Addresses are 64 bits wide and their sums wrap.
-/

namespace XKernel.Virtio

open XKernel.Lib

abbrev GuestPhysAddr := UInt64

inductive VirtioError
  | invalidQueue
  | queueNotReady
  | invalidDescriptor
  | invalidAccessWidth
  | deviceNotReady
  | invalidDeviceIndex
  | backendError
  | memoryError
  | invalidConfig
  | featureNegotiationFailed
  | invalidRequest
  | notSupported
  | invalidBufferSize
  | invalidSector
  | invalidRegister
  | invalidAddress
  | ringMisaligned
  | ringOverlap
  | invalidRingLayout
  | queueFaulted
  | notFound
  | wouldBlock
  | invalidInput
  deriving DecidableEq, Repr

abbrev GuestMemory := Memory GuestPhysAddr VirtioError
abbrev GuestLog := List (Access GuestPhysAddr)
abbrev GuestM := AccessM GuestPhysAddr VirtioError

def leU16 (b : Bytes) : UInt16 := UInt16.ofNat (Bytes.ofLe b)
def leU32 (b : Bytes) : UInt32 := UInt32.ofNat (Bytes.ofLe b)
def leU64 (b : Bytes) : UInt64 := UInt64.ofNat (Bytes.ofLe b)

def virtqDescAlign : Nat := 16
def virtqAvailAlign : Nat := 2
def virtqUsedAlign : Nat := 4
def virtqAvailFNoInterrupt : UInt16 := 1
def virtqDescFNext : UInt16 := 1
def virtqDescFWrite : UInt16 := 2
def virtqDescFIndirect : UInt16 := 4

/-- `core::mem::size_of::<VirtQueueDesc>()`. -/
def descSize : Nat := 16

/-- The size of the `flags` and `idx` header of a ring. -/
def headerSize : Nat := 4

/-- `core::mem::size_of::<VirtqUsedElem>()`. -/
def usedElemSize : Nat := 8

/-! ## The available ring -/

structure AvailableRing where
  baseAddr : GuestPhysAddr
  size : UInt16
  lastAvailIdx : UInt16
  deriving DecidableEq, Repr

namespace AvailableRing

def layoutSize (size : UInt16) : Nat := headerSize + size.toNat * 2 + 2

variable (ring : AvailableRing)

def isValid : Bool := ring.baseAddr ≠ 0 ∧ ring.size > 0

def ringEntryAddr (index : UInt16) : Option GuestPhysAddr :=
  if index ≥ ring.size then none else some (ring.baseAddr + UInt64.ofNat (headerSize + index.toNat * 2))

def readAvailIdxWithMemory : GuestM UInt16 :=
  if ¬ ring.isValid then .fail .queueNotReady
  else do
    let bytes ← .read (ring.baseAddr + 2) 2
    return leU16 bytes

def readAvailRingEntryWithMemory (ringIndex : UInt16) : GuestM UInt16 :=
  if ¬ ring.isValid then .fail .queueNotReady
  else
    match ring.ringEntryAddr (ringIndex % ring.size) with
    | none => .fail .invalidQueue
    | some entryAddr => do
      let bytes ← .read entryAddr 2
      return leU16 bytes

/-- Reads the whole header, through the queue's own accessor. -/
def interruptsSuppressed : GuestM Bool :=
  if ¬ ring.isValid then .fail .queueNotReady
  else do
    let header ← .read ring.baseAddr headerSize
    return leU16 (header.take 2) &&& virtqAvailFNoInterrupt ≠ 0

def interruptsSuppressedWithMemory : GuestM Bool :=
  if ¬ ring.isValid then .fail .queueNotReady
  else do
    let bytes ← .read ring.baseAddr 2
    return leU16 bytes &&& virtqAvailFNoInterrupt ≠ 0

end AvailableRing

/-! ## The used ring -/

structure UsedRing where
  baseAddr : GuestPhysAddr
  size : UInt16
  usedIdx : UInt16
  deriving DecidableEq, Repr

namespace UsedRing

def layoutSize (size : UInt16) : Nat := headerSize + size.toNat * usedElemSize + 2

variable (ring : UsedRing)

def isValid : Bool := ring.baseAddr ≠ 0 ∧ ring.size > 0

def ringEntryAddr (index : UInt16) : Option GuestPhysAddr :=
  if index ≥ ring.size then none else some (ring.baseAddr + UInt64.ofNat (headerSize + index.toNat * usedElemSize))

def writeUsedIdxWithMemory : GuestM Unit :=
  if ¬ ring.isValid then .fail .queueNotReady else .write (ring.baseAddr + 2) (Bytes.toLe 2 ring.usedIdx.toNat)

/-- The element is written first; the index in the ring object moves on even when the write of
the header fails. -/
def addUsedWithMemory (id len : UInt32) (m : GuestMemory) (log : GuestLog) :
    Except VirtioError Unit × UsedRing × GuestLog :=
  if ¬ ring.isValid then (.error .queueNotReady, ring, log)
  else
    match ring.ringEntryAddr (ring.usedIdx % ring.size) with
    | none => (.error .invalidQueue, ring, log)
    | some elemAddr =>
      match AccessM.write elemAddr (Bytes.toLe 4 id.toNat ++ Bytes.toLe 4 len.toNat) m log with
      | (.error error, log) => (.error error, ring, log)
      | (.ok (), log) =>
        let ring := { ring with usedIdx := ring.usedIdx + 1 }
        let (result, log) := ring.writeUsedIdxWithMemory m log
        (result, ring, log)

end UsedRing

/-! ## The descriptor table -/

structure VirtQueueDesc where
  baseAddr : GuestPhysAddr
  len : UInt32
  flags : UInt16
  next : UInt16
  deriving DecidableEq, Repr

namespace VirtQueueDesc

variable (desc : VirtQueueDesc)

def hasNext : Bool := desc.flags &&& virtqDescFNext ≠ 0
def isWrite : Bool := desc.flags &&& virtqDescFWrite ≠ 0
def isIndirect : Bool := desc.flags &&& virtqDescFIndirect ≠ 0

end VirtQueueDesc

structure DescriptorTable where
  baseAddr : GuestPhysAddr
  size : UInt16
  deriving DecidableEq, Repr

structure DescriptorChain where
  head : UInt16
  descriptors : List VirtQueueDesc
  deriving DecidableEq, Repr

namespace DescriptorTable

def layoutSize (size : UInt16) : Nat := size.toNat * descSize

variable (table : DescriptorTable)

def isValid : Bool := table.baseAddr ≠ 0 ∧ table.size > 0

def descAddr (index : UInt16) : Option GuestPhysAddr :=
  if index ≥ table.size then none else some (table.baseAddr + UInt64.ofNat (index.toNat * descSize))

def readDesc (index : UInt16) : GuestM VirtQueueDesc :=
  if ¬ table.isValid then .fail .queueNotReady
  else
    match table.descAddr index with
    | none => .fail .invalidQueue
    | some descAddr => do
      let bytes ← .read descAddr descSize
      return ⟨leU64 (bytes.take 8), leU32 ((bytes.drop 8).take 4), leU16 ((bytes.drop 12).take 2),
        leU16 ((bytes.drop 14).take 2)⟩

/-- The loop of `follow_chain`. The first number bounds the descriptors that may still be read:
one more than the table has. -/
def followFrom : Nat → UInt16 → List VirtQueueDesc → GuestM (List VirtQueueDesc)
  | 0, _, _ => .fail .invalidQueue
  | n + 1, currentIndex, descriptors =>
    if currentIndex ≥ table.size then .fail .invalidQueue
    else do
      let desc ← table.readDesc currentIndex
      let descriptors := descriptors ++ [desc]
      if ¬ desc.hasNext then return descriptors
      else if descriptors.length > table.size.toNat then .fail .invalidQueue
      else followFrom n desc.next descriptors

variable (headIndex : UInt16)

def followChain : GuestM (List VirtQueueDesc) :=
  if ¬ table.isValid then .fail .queueNotReady else table.followFrom (table.size.toNat + 1) headIndex []

/-- The loop of `descriptor_chain`. -/
def chainFrom : Nat → UInt16 → List VirtQueueDesc → GuestM (List VirtQueueDesc)
  | 0, _, _ => .fail .invalidDescriptor
  | n + 1, current, descriptors =>
    if current ≥ table.size then .fail .invalidDescriptor
    else do
      let desc ← table.readDesc current
      if desc.isIndirect then .fail .notSupported
      else if desc.baseAddr.toNat + desc.len.toNat ≥ 2 ^ 64 then .fail .invalidDescriptor
      else
        let descriptors := descriptors ++ [desc]
        if ¬ desc.hasNext then return descriptors
        else if descriptors.length > table.size.toNat then .fail .invalidDescriptor
        else chainFrom n desc.next descriptors

def descriptorChain (head : UInt16) : GuestM DescriptorChain :=
  if ¬ table.isValid then .fail .queueNotReady
  else if head ≥ table.size then .fail .invalidDescriptor
  else do
    let descriptors ← table.chainFrom (table.size.toNat + 1) head []
    return ⟨head, descriptors⟩

/-- For a block device the first and the last descriptor are not data. -/
def getDataBuffers (isBlock : Bool) : GuestM (List (GuestPhysAddr × Nat × Bool)) := do
  let descriptors ← table.followChain headIndex
  if isBlock ∧ descriptors.length < 2 then return []
  else
    let data := if isBlock then (descriptors.drop 1).dropLast else descriptors
    return data.map fun desc => (desc.baseAddr, desc.len.toNat, desc.isWrite)

def getStatusAddr : GuestM GuestPhysAddr := do
  let descriptors ← table.followChain headIndex
  match descriptors.getLast? with
  | none => .fail .invalidQueue
  | some statusDesc =>
    if ¬ statusDesc.isWrite ∨ statusDesc.len < 1 then .fail .invalidQueue else return statusDesc.baseAddr

end DescriptorTable

/-! ## The queue -/

structure VirtioQueue where
  size : UInt16
  descTable : Option DescriptorTable
  availRing : Option AvailableRing
  usedRing : Option UsedRing
  maxSize : UInt16
  ready : Bool
  descTableAddr : GuestPhysAddr
  availRingAddr : GuestPhysAddr
  usedRingAddr : GuestPhysAddr
  nextAvail : UInt16
  nextUsed : UInt16
  faulted : Bool
  deriving DecidableEq, Repr

/-- The half-open guest region `[base, base + size)`. -/
structure RingRegion where
  base : GuestPhysAddr
  size : Nat
  deriving DecidableEq, Repr

namespace RingRegion

/-- The exclusive end, unless it overflows. -/
def stop (region : RingRegion) : Option Nat :=
  if region.base.toNat + region.size < 2 ^ 64 then some (region.base.toNat + region.size) else none

/-- A region whose end overflows overlaps with every other one. -/
def overlaps (region other : RingRegion) : Bool :=
  match region.stop, other.stop with
  | some stop, some otherStop => region.base.toNat < otherStop ∧ other.base.toNat < stop
  | _, _ => true

end RingRegion

namespace VirtioQueue

def new (size : UInt16) : VirtioQueue where
  size
  descTable := none
  availRing := none
  usedRing := none
  maxSize := size
  ready := false
  descTableAddr := 0
  availRingAddr := 0
  usedRingAddr := 0
  nextAvail := 0
  nextUsed := 0
  faulted := false

variable (q : VirtioQueue)

def isConfigured : Bool := q.descTableAddr ≠ 0 ∧ q.availRingAddr ≠ 0 ∧ q.usedRingAddr ≠ 0

def setSize (size : UInt16) : Except VirtioError VirtioQueue :=
  if size = 0 ∨ size > q.maxSize ∨ size &&& (size - 1) ≠ 0 then .error .invalidQueue
  else if q.ready ∨ q.isConfigured then .error .invalidQueue
  else .ok { q with size }

variable (addr : GuestPhysAddr)

def setDescTableAddr : VirtioQueue :=
  { q with descTableAddr := addr, descTable := if addr ≠ 0 then some ⟨addr, q.size⟩ else none }

def setAvailRingAddr : VirtioQueue :=
  { q with availRingAddr := addr, availRing := if addr ≠ 0 then some ⟨addr, q.size, 0⟩ else none }

def setUsedRingAddr : VirtioQueue :=
  { q with usedRingAddr := addr, usedRing := if addr ≠ 0 then some ⟨addr, q.size, 0⟩ else none }

def setReady (ready : Bool) : VirtioQueue := { q with ready }

def ringRegions : List RingRegion :=
  [⟨q.descTableAddr, DescriptorTable.layoutSize q.size⟩, ⟨q.availRingAddr, AvailableRing.layoutSize q.size⟩,
    ⟨q.usedRingAddr, UsedRing.layoutSize q.size⟩]

/-- The loop of `validate_layout` over the regions. -/
def checkRegions : List RingRegion → Except VirtioError Unit
  | [] => .ok ()
  | region :: rest =>
    if region.stop = none then .error .invalidRingLayout
    else if rest.any region.overlaps then .error .ringOverlap
    else checkRegions rest

def validateLayout : Except VirtioError Unit :=
  if ¬ q.ringRegions.all fun region => region.base ≠ 0 then .error .invalidRingLayout
  else if ¬ (q.descTableAddr.toNat % virtqDescAlign = 0 ∧ q.availRingAddr.toNat % virtqAvailAlign = 0 ∧
      q.usedRingAddr.toNat % virtqUsedAlign = 0) then .error .ringMisaligned
  else checkRegions q.ringRegions

/-- Probes the first and the last byte of every region. -/
def probeRegions : List RingRegion → GuestM Unit
  | [] => return ()
  | region :: rest =>
    match region.stop with
    | none => .fail .invalidRingLayout
    | some stop => do
      let _ ← (AccessM.read region.base 1).orFail .invalidRingLayout
      let _ ← (AccessM.read (UInt64.ofNat (stop - 1)) 1).orFail .invalidRingLayout
      probeRegions rest

def validateLayoutWithMemory : GuestM Unit :=
  match q.validateLayout with
  | .error error => .fail error
  | .ok () => probeRegions q.ringRegions

def isValid : Bool := q.ready ∧ q.isConfigured ∧ q.validateLayout = .ok ()

def latchFault : VirtioQueue := { q with faulted := true }

def reset : VirtioQueue :=
  { q with
    ready := false, descTableAddr := 0, availRingAddr := 0, usedRingAddr := 0, nextAvail := 0, nextUsed := 0
    descTable := none, availRing := none, usedRing := none, faulted := false }

def getLastAvailIdx : UInt16 :=
  match q.availRing with
  | some ring => ring.lastAvailIdx
  | none => q.nextAvail

def updateLastAvailIdx (idx : UInt16) : VirtioQueue :=
  match q.availRing with
  | some ring => { q with availRing := some { ring with lastAvailIdx := idx } }
  | none => { q with nextAvail := idx % q.size }

end VirtioQueue

/-! ## The data path -/

/-- An operation on the queue. The queue is changed also when it fails. -/
def QueueM (β : Type) : Type := VirtioQueue → GuestMemory → GuestLog → Except VirtioError β × VirtioQueue × GuestLog

namespace QueueM

variable {ρ β γ : Type}

/-- The form without a memory argument: the queue's own accessor, all of whose errors become
`InvalidAddress`. -/
def own (x : QueueM β) : QueueM β := fun q m log => x q (m.withError .invalidAddress) log

/-- The rule that most operations follow: a faulted queue refuses, a ring that is not configured
is reported, and a failure on the ring latches the fault. -/
def guarded (ring : VirtioQueue → Option ρ) (body : ρ → GuestM β) : QueueM β := fun q m log =>
  if q.faulted then (.error .queueFaulted, q, log)
  else
    match ring q with
    | none => (.error .queueNotReady, q, log)
    | some r =>
      match body r m log with
      | (.ok b, log) => (.ok b, q, log)
      | (.error error, log) => (.error error, q.latchFault, log)

/-- The rest of an operation behind a first one, `?` on its error. -/
def andThen (x : QueueM β) (f : β → QueueM γ) : QueueM γ := fun q m log =>
  match x q m log with
  | (.ok b, q, log) => f b q m log
  | (.error error, q, log) => (.error error, q, log)

end QueueM

namespace VirtioQueue

open QueueM

def readAvailIdxWithMemory : QueueM UInt16 := guarded availRing fun ring => ring.readAvailIdxWithMemory

def readAvailIdx : QueueM UInt16 := readAvailIdxWithMemory.own

def readAvailEntryWithMemory (ringIndex : UInt16) : QueueM UInt16 :=
  guarded availRing fun ring => ring.readAvailRingEntryWithMemory ringIndex

def readAvailEntry (ringIndex : UInt16) : QueueM UInt16 := (readAvailEntryWithMemory ringIndex).own

variable (head headIndex : UInt16) (writtenLen : UInt32)

def descriptorChainWithMemory : QueueM DescriptorChain :=
  guarded descTable fun table => table.descriptorChain head

def descriptorChain : QueueM DescriptorChain := (descriptorChainWithMemory head).own

def validateVirtioBlockChain (minLength : Nat) : QueueM Bool :=
  own (guarded descTable fun table => do
    let descriptors ← table.followChain headIndex
    return descriptors.length ≥ minLength)

def getDataBuffers (isBlock : Bool) : QueueM (List (GuestPhysAddr × Nat × Bool)) :=
  own (guarded descTable fun table => table.getDataBuffers headIndex isBlock)

def getStatusAddr : QueueM GuestPhysAddr :=
  own (guarded descTable fun table => table.getStatusAddr headIndex)

def shouldNotify : QueueM Bool :=
  own (guarded availRing fun ring => do
    let suppressed ← ring.interruptsSuppressed
    return !suppressed)

/-- The part of `pop_available_head_with_memory` behind the read of the index. -/
def popHead (availIdx : UInt16) : QueueM (Option UInt16) := fun q m log =>
  let last := q.getLastAvailIdx
  let pending := availIdx - last
  if pending > q.size then (.error .invalidQueue, q.latchFault, log)
  else if pending = 0 then (.ok none, q, log)
  else
    match q.availRing with
    | none => (.error .queueNotReady, q, log)
    | some ring =>
      match ring.readAvailRingEntryWithMemory (last % q.size) m log with
      | (.ok head, log) => (.ok (some head), q.updateLastAvailIdx (last + 1), log)
      | (.error error, log) => (.error error, q.latchFault, log)

def popAvailableHeadWithMemory : QueueM (Option UInt16) := fun q m log =>
  if q.faulted then (.error .queueFaulted, q, log)
  else if ¬ q.isValid then (.error .queueNotReady, q, log)
  else readAvailIdxWithMemory.andThen popHead q m log

def popAvailableHead : QueueM (Option UInt16) := popAvailableHeadWithMemory.own

def popAvailable : QueueM (Option DescriptorChain) :=
  popAvailableHead.andThen fun head =>
    match head with
    | none => fun q _ log => (.ok none, q, log)
    | some head => (descriptorChain head).andThen fun chain => fun q _ log => (.ok (some chain), q, log)

def addUsed (descIndex : UInt16) (len : UInt32) : QueueM Unit := own fun q m log =>
  if q.faulted then (.error .queueFaulted, q, log)
  else if ¬ q.isValid then (.error .queueNotReady, q, log)
  else
    match q.usedRing with
    | none => (.error .queueNotReady, q, log)
    | some ring =>
      match ring.addUsedWithMemory descIndex.toUInt32 len m log with
      | (.ok (), ring, log) => (.ok (), { q with usedRing := some ring, nextUsed := ring.usedIdx }, log)
      | (.error error, ring, log) => (.error error, { q with usedRing := some ring }.latchFault, log)

def complete : QueueM Bool := (addUsed head writtenLen).andThen fun _ => shouldNotify

/-- The closure of `complete_with_memory`. -/
def completeBody : QueueM Bool := fun q m log =>
  match q.usedRing with
  | none => (.error .queueNotReady, q, log)
  | some ring =>
    match ring.addUsedWithMemory head.toUInt32 writtenLen m log with
    | (.error error, ring, log) => (.error error, { q with usedRing := some ring }, log)
    | (.ok (), ring, log) =>
      let q := { q with usedRing := some ring, nextUsed := ring.usedIdx }
      match q.availRing with
      | none => (.error .queueNotReady, q, log)
      | some avail =>
        match avail.interruptsSuppressedWithMemory m log with
        | (.ok suppressed, log) => (.ok !suppressed, q, log)
        | (.error error, log) => (.error error, q, log)

def completeWithMemory : QueueM Bool := fun q m log =>
  if q.faulted then (.error .queueFaulted, q, log)
  else
    match completeBody head writtenLen q m log with
    | (.ok b, q, log) => (.ok b, q, log)
    -- every error latches the fault here
    | (.error error, q, log) => (.error error, q.latchFault, log)

/-- The write of the status byte itself: its failure does not latch the fault. -/
def writeStatus (status : UInt8) (addr : GuestPhysAddr) : QueueM Unit := fun q m log =>
  match AccessM.write addr [status] (m.withError .invalidAddress) log with
  | (result, log) => (result, q, log)

def writeStatusByte (status : UInt8) : QueueM Unit := fun q m log =>
  if q.faulted then (.error .queueFaulted, q, log)
  else (getStatusAddr headIndex).andThen (writeStatus status) q m log

end VirtioQueue

end XKernel.Virtio
