import XKernel.Lib.Runs
import XKernel.Virtio.Layout
/-!
# The fault latch of a virtqueue

A data-path operation that fails leaves the queue faulted, unless it failed because a ring is
not configured; a faulted queue leaves guest memory alone until it is reset. Three operations
do not keep this: `complete_with_memory` latches the fault for a ring that is not configured,
`write_status_byte` does not latch it when the write itself fails, and the layout check of
the transport probes guest memory also for a faulted queue.
-/

namespace XKernel.Virtio

open XKernel.Lib QueueM Option VirtioQueue AccessM

variable {ρ β γ : Type}

/-! ## What one call does to the latch -/

/-- The outcome of a call on a queue that was not faulted: a failure leaves it so exactly if a
ring it needed was not configured. -/
def Lawful (notConfigured : Prop) (outcome : Except VirtioError β × VirtioQueue × GuestLog) : Prop :=
  match outcome.1 with
  | .ok _ => outcome.2.1.faulted = false ∧ ¬ notConfigured
  | .error _ => outcome.2.1.faulted = false ↔ notConfigured

/-- A faulted queue refuses the call and touches nothing. -/
def Refuses (x : QueueM β) : Prop := ∀ q m log, q.faulted = true → x q m log = (.error .queueFaulted, q, log)

variable {q : VirtioQueue} {m : GuestMemory} {log : GuestLog} {P : Prop}

theorem Lawful.congr {Q : Prop} {outcome : Except VirtioError β × VirtioQueue × GuestLog} (h : Lawful P outcome)
    (hPQ : P ↔ Q) : Lawful Q outcome := propext hPQ ▸ h

variable {error : VirtioError}

theorem lawful_refused (hq : q.faulted = false) (hP : P) :
    Lawful P ((.error error, q, log) : Except VirtioError β × VirtioQueue × GuestLog) := iff_of_true hq hP

theorem lawful_latched (hP : ¬ P) :
    Lawful P ((.error error, q.latchFault, log) : Except VirtioError β × VirtioQueue × GuestLog) :=
  iff_of_false (by simp [latchFault]) hP

theorem lawful_served {b : β} (hq : q.faulted = false) (hP : ¬ P) :
    Lawful P ((.ok b, q, log) : Except VirtioError β × VirtioQueue × GuestLog) := ⟨hq, hP⟩

theorem guarded_refuses (ring : VirtioQueue → Option ρ) (body : ρ → GuestM β) : Refuses (guarded ring body) := by
  intro q m log hq
  simp [guarded, hq]

theorem guarded_lawful (ring : VirtioQueue → Option ρ) (body : ρ → GuestM β) (hq : q.faulted = false) :
    Lawful (ring q = none) (guarded ring body q m log) := by
  simp only [guarded, hq]
  cases hr : ring q with
  | none => exact lawful_refused hq rfl
  | some r =>
    dsimp only
    rcases body r m log with ⟨_ | b, log'⟩
    · exact lawful_latched (some_ne_none r)
    · exact lawful_served hq (some_ne_none r)

/-- A guarded operation never changes the queue otherwise. -/
theorem guarded_ok {ring : VirtioQueue → Option ρ} {body : ρ → GuestM β} {b : β} {q' : VirtioQueue} {log' : GuestLog}
    (h : guarded ring body q m log = (.ok b, q', log')) : q' = q ∧ ∃ r, ring q = some r := by
  simp only [guarded] at h
  split at h
  · cases h
  · cases hr : ring q with
    | none => rw [hr] at h; cases h
    | some r =>
      rw [hr] at h
      rcases hb : body r m log with ⟨_ | b', log''⟩ <;> simp only [hb] at h <;> cases h
      exact ⟨rfl, r, rfl⟩

variable {x : QueueM β}

theorem own_refuses (hx : Refuses x) : Refuses x.own := fun _ _ _ hq => hx _ _ _ hq

variable {f : β → QueueM γ}

theorem andThen_refuses (hx : Refuses x) : Refuses (x.andThen f) := by
  intro q m log hq
  simp [andThen, hx q m log hq]

/-- The second call decides if the first one returned. -/
theorem andThen_lawful {R : Prop} (hx : Lawful P (x q m log))
    (hf : ∀ b q' log', x q m log = (.ok b, q', log') → q'.faulted = false → Lawful R (f b q' m log'))
    (hfail : ∀ e, (x q m log).1 = .error e → ¬ R) : Lawful (P ∨ R) (x.andThen f q m log) := by
  simp only [andThen]
  rcases h : x q m log with ⟨e | b, q', log'⟩
  · have hR : ¬ R := hfail e (by rw [h])
    rw [h] at hx
    have hlaw : q'.faulted = false ↔ P := hx
    exact hlaw.trans (by simp [hR])
  · rw [h] at hx
    obtain ⟨hq', hP⟩ : q'.faulted = false ∧ ¬ P := hx
    exact (hf b q' log' h hq').congr (by simp [hP])

/-! ## The operations -/

namespace VirtioQueue

theorem popHead_lawful {ring : AvailableRing} (hr : q.availRing = some ring) (hq : q.faulted = false)
    (availIdx : UInt16) :
    Lawful False (popHead availIdx q m log) := by
  simp only [popHead, hr]
  split
  · exact lawful_latched not_false
  · split
    · exact lawful_served hq not_false
    · rcases ring.readAvailRingEntryWithMemory _ m log with ⟨_ | head, log'⟩
      · exact lawful_latched not_false
      · exact lawful_served (by simp [updateLastAvailIdx, hr, hq]) not_false

theorem popAvailableHeadWithMemory_refuses : Refuses popAvailableHeadWithMemory := by
  intro q m log hq
  simp [popAvailableHeadWithMemory, hq]

theorem popAvailableHeadWithMemory_lawful (hq : q.faulted = false) :
    Lawful (q.isValid = false ∨ q.availRing = none) (popAvailableHeadWithMemory q m log) := by
  simp only [popAvailableHeadWithMemory, hq]
  cases hv : q.isValid with
  | false => exact lawful_refused hq (.inl rfl)
  | true =>
    have hread : Lawful (q.availRing = none) (readAvailIdxWithMemory q m log) := guarded_lawful _ _ hq
    refine (andThen_lawful hread (fun b q' log' h _ => ?_) fun _ _ => not_false).congr (by simp)
    obtain ⟨rfl, ring, hring⟩ := guarded_ok h
    exact popHead_lawful hring hq b

theorem addUsed_refuses (descIndex : UInt16) (len : UInt32) : Refuses (addUsed descIndex len) := by
  intro q m log hq
  simp [addUsed, own, hq]

theorem addUsed_lawful (hq : q.faulted = false) (descIndex : UInt16) (len : UInt32) :
    Lawful (q.isValid = false ∨ q.usedRing = none) (addUsed descIndex len q m log) := by
  simp only [addUsed, own, hq]
  cases hv : q.isValid with
  | false => exact lawful_refused hq (.inl rfl)
  | true =>
    cases hu : q.usedRing with
    | none => exact lawful_refused hq (.inr rfl)
    | some ring =>
      have hset : ¬ (true = false ∨ some ring = none) := by simp
      dsimp only
      rcases ring.addUsedWithMemory descIndex.toUInt32 len (m.withError .invalidAddress) log with
        ⟨_ | ⟨⟨⟩⟩, ring', log'⟩
      · exact lawful_latched hset
      · exact ⟨rfl, hset⟩

theorem popAvailable_lawful (hq : q.faulted = false) :
    Lawful ((q.isValid = false ∨ q.availRing = none) ∨
      (∃ head, (popAvailableHead q m log).1 = .ok (some head)) ∧ q.descTable = none) (popAvailable q m log) := by
  refine andThen_lawful (popAvailableHeadWithMemory_lawful hq) (fun head q' log' h hq' => ?_) ?_
  · have hkept : SameLayout q (popAvailableHead q m log).2.1 := (own_tame popAvailableHeadWithMemory_tame q m log).1
    have htable : q'.descTable = q.descTable := by
      rw [h] at hkept
      exact hkept.descTable
    rw [h]
    cases head with
    | none => exact lawful_served hq' (by simp)
    | some head =>
      have hchain : Lawful (q'.descTable = none) (descriptorChain head q' m log') := guarded_lawful _ _ hq'
      refine (andThen_lawful hchain (fun _ _ _ _ hq'' => lawful_served hq'' not_false) fun _ _ => not_false).congr ?_
      simp [htable]
  · rintro e he ⟨⟨head, hok⟩, -⟩
    rw [he] at hok
    cases hok

theorem complete_lawful (hq : q.faulted = false) (head : UInt16) (writtenLen : UInt32) :
    Lawful ((q.isValid = false ∨ q.usedRing = none) ∨
      (addUsed head writtenLen q m log).1 = .ok () ∧ q.availRing = none) (complete head writtenLen q m log) := by
  refine andThen_lawful (addUsed_lawful hq head writtenLen) (fun _ q' log' h hq' => ?_) ?_
  · have hkept := (addUsed_tame head writtenLen q m log).1
    have hnotify : Lawful (q'.availRing = none) (shouldNotify q' m log') := guarded_lawful _ _ hq'
    refine hnotify.congr ?_
    rw [h] at hkept ⊢
    rw [← map_eq_none_iff, hkept.availRing, map_eq_none_iff]
    simp
  · rintro e he ⟨hok, -⟩
    rw [he] at hok
    cases hok

/-- When the closure of `complete_with_memory` fails for a ring that is not configured. -/
def CompletesUnconfigured (head : UInt16) (writtenLen : UInt32) (q : VirtioQueue) (m : GuestMemory)
    (log : GuestLog) : Prop :=
  match q.usedRing with
  | none => True
  | some ring => (ring.addUsedWithMemory head.toUInt32 writtenLen m log).1 = .ok () ∧ q.availRing = none

variable {writtenLen : UInt32} {head : UInt16}

/-- Any failure of `complete_with_memory` latches the fault. -/
theorem completeWithMemory_latches (hq : q.faulted = false) {e : VirtioError}
    (h : (completeWithMemory head writtenLen q m log).1 = .error e) :
    (completeWithMemory head writtenLen q m log).2.1.faulted = true := by
  simp only [completeWithMemory, hq] at h ⊢
  rcases hbody : completeBody head writtenLen q m log with ⟨_ | b, q', log'⟩
  · rfl
  · rw [hbody] at h
    cases h

theorem completeWithMemory_unconfigured (hq : q.faulted = false)
    (h : CompletesUnconfigured head writtenLen q m log) :
    (completeWithMemory head writtenLen q m log).1 = .error .queueNotReady := by
  simp only [completeWithMemory, hq]
  have hbody : (completeBody head writtenLen q m log).1 = .error .queueNotReady := by
    unfold CompletesUnconfigured at h
    unfold completeBody
    cases hu : q.usedRing with
    | none => rfl
    | some ring =>
      rw [hu] at h
      obtain ⟨hadd, hav⟩ := h
      rcases hres : ring.addUsedWithMemory head.toUInt32 writtenLen m log with ⟨_ | _, ring', log'⟩
      · rw [hres] at hadd
        cases hadd
      · simp [hres, hav]
  rcases hres : completeBody head writtenLen q m log with ⟨e | b, q', log'⟩ <;> rw [hres] at hbody <;> cases hbody
  rfl

/-- The address of the status byte is found, and guest memory then refuses the write. -/
def StatusRefused (headIndex : UInt16) (status : UInt8) (q : VirtioQueue) (m : GuestMemory) (log : GuestLog) : Prop :=
  ∃ addr q' log', getStatusAddr headIndex q m log = (.ok addr, q', log') ∧ ∃ e, m.write log' addr [status] = .error e

/-- Apart from that write, `write_status_byte` fails as `get_status_addr` does. -/
theorem writeStatusByte_lawful (hq : q.faulted = false) (headIndex : UInt16) (status : UInt8)
    (h : ¬ StatusRefused headIndex status q m log) :
    Lawful (q.descTable = none) (writeStatusByte headIndex status q m log) := by
  simp only [writeStatusByte, hq]
  have haddr : Lawful (q.descTable = none) (getStatusAddr headIndex q m log) := guarded_lawful _ _ hq
  refine (andThen_lawful haddr (fun addr q' log' hget hq' => ?_) fun _ _ => not_false).congr (iff_of_eq (or_false _))
  simp only [writeStatus, write, Memory.withError]
  cases hw : m.write log' addr [status] with
  | error e => exact absurd ⟨addr, q', log', hget, e, hw⟩ h
  | ok => exact lawful_served hq' not_false

theorem writeStatusByte_escapes (hq : q.faulted = false) {headIndex : UInt16} {status : UInt8}
    (h : StatusRefused headIndex status q m log) :
    (writeStatusByte headIndex status q m log).1 = .error .invalidAddress ∧
      (writeStatusByte headIndex status q m log).2.1.faulted = false ∧ q.descTable ≠ none := by
  obtain ⟨addr, q', log', hget, e, hw⟩ := h
  obtain ⟨rfl, table, htable⟩ := guarded_ok hget
  have hres : writeStatusByte headIndex status q' m log = (.error .invalidAddress, q', log' ++ [⟨true, addr, 1⟩]) := by
    simp [writeStatusByte, hq, andThen, hget, writeStatus, write, Memory.withError, hw, Except.mapError]
  rw [hres, htable]
  exact ⟨rfl, hq, some_ne_none table⟩

end VirtioQueue

/-! ## Every data-path operation -/

inductive DataOp
  | readAvailIdx
  | readAvailIdxWithMemory
  | readAvailEntry (ringIndex : UInt16)
  | readAvailEntryWithMemory (ringIndex : UInt16)
  | popAvailableHead
  | popAvailableHeadWithMemory
  | popAvailable
  | descriptorChain (head : UInt16)
  | descriptorChainWithMemory (head : UInt16)
  | addUsed (descIndex : UInt16) (len : UInt32)
  | complete (head : UInt16) (writtenLen : UInt32)
  | completeWithMemory (head : UInt16) (writtenLen : UInt32)
  | validateVirtioBlockChain (headIndex : UInt16) (minLength : Nat)
  | getDataBuffers (headIndex : UInt16) (isBlock : Bool)
  | getStatusAddr (headIndex : UInt16)
  | shouldNotify
  | writeStatusByte (headIndex : UInt16) (status : UInt8)
  deriving DecidableEq, Repr

/-- The operation without the value it returns. -/
def QueueM.discard (x : QueueM β) : QueueM Unit := x.andThen fun _ q _ log => (.ok (), q, log)

namespace DataOp

def run : DataOp → QueueM Unit
  | .readAvailIdx => VirtioQueue.readAvailIdx.discard
  | .readAvailIdxWithMemory => VirtioQueue.readAvailIdxWithMemory.discard
  | .readAvailEntry ringIndex => (VirtioQueue.readAvailEntry ringIndex).discard
  | .readAvailEntryWithMemory ringIndex => (VirtioQueue.readAvailEntryWithMemory ringIndex).discard
  | .popAvailableHead => VirtioQueue.popAvailableHead.discard
  | .popAvailableHeadWithMemory => VirtioQueue.popAvailableHeadWithMemory.discard
  | .popAvailable => VirtioQueue.popAvailable.discard
  | .descriptorChain head => (VirtioQueue.descriptorChain head).discard
  | .descriptorChainWithMemory head => (VirtioQueue.descriptorChainWithMemory head).discard
  | .addUsed descIndex len => VirtioQueue.addUsed descIndex len
  | .complete head writtenLen => (VirtioQueue.complete head writtenLen).discard
  | .completeWithMemory head writtenLen => (VirtioQueue.completeWithMemory head writtenLen).discard
  | .validateVirtioBlockChain headIndex minLength => (VirtioQueue.validateVirtioBlockChain headIndex minLength).discard
  | .getDataBuffers headIndex isBlock => (VirtioQueue.getDataBuffers headIndex isBlock).discard
  | .getStatusAddr headIndex => (VirtioQueue.getStatusAddr headIndex).discard
  | .shouldNotify => VirtioQueue.shouldNotify.discard
  | .writeStatusByte headIndex status => VirtioQueue.writeStatusByte headIndex status

/-- The call reaches a ring that is not configured. For `pop` and `add_used`, and so for
`complete`, the whole queue has to be ready with a valid layout. -/
def NotConfigured (op : DataOp) (q : VirtioQueue) (m : GuestMemory) (log : GuestLog) : Prop :=
  match op with
  | .readAvailIdx | .readAvailIdxWithMemory | .readAvailEntry _ | .readAvailEntryWithMemory _ | .shouldNotify =>
    q.availRing = none
  | .popAvailableHead | .popAvailableHeadWithMemory => q.isValid = false ∨ q.availRing = none
  | .popAvailable =>
    (q.isValid = false ∨ q.availRing = none) ∨
      (∃ head, (VirtioQueue.popAvailableHead q m log).1 = .ok (some head)) ∧ q.descTable = none
  | .descriptorChain _ | .descriptorChainWithMemory _ | .validateVirtioBlockChain _ _ | .getDataBuffers _ _
  | .getStatusAddr _ | .writeStatusByte _ _ => q.descTable = none
  | .addUsed _ _ => q.isValid = false ∨ q.usedRing = none
  | .complete head writtenLen =>
    (q.isValid = false ∨ q.usedRing = none) ∨ (VirtioQueue.addUsed head writtenLen q m log).1 = .ok () ∧
      q.availRing = none
  | .completeWithMemory head writtenLen => VirtioQueue.CompletesUnconfigured head writtenLen q m log

/-- A failure of the call leaves the queue un-faulted exactly if a ring was not configured. -/
def Latches (op : DataOp) (q : VirtioQueue) (m : GuestMemory) (log : GuestLog) : Prop :=
  ∀ e, (op.run q m log).1 = .error e → ((op.run q m log).2.1.faulted = false ↔ op.NotConfigured q m log)

/-- The two cases in which it is not so. -/
def Escapes (op : DataOp) (q : VirtioQueue) (m : GuestMemory) (log : GuestLog) : Prop :=
  match op with
  | .completeWithMemory head writtenLen => VirtioQueue.CompletesUnconfigured head writtenLen q m log
  | .writeStatusByte headIndex status => VirtioQueue.StatusRefused headIndex status q m log
  | _ => False

end DataOp

theorem discard_lawful (hx : Lawful P (x q m log)) : Lawful P (x.discard q m log) :=
  (andThen_lawful hx (fun _ _ _ _ hq' => lawful_served hq' not_false) fun _ _ => not_false).congr
    (iff_of_eq (or_false P))

variable {e : VirtioError}

theorem Lawful.latch (hx : Lawful P (x q m log))
    (he : (x q m log).1 = .error e) : (x q m log).2.1.faulted = false ↔ P := by
  unfold Lawful at hx
  rwa [he] at hx

theorem discard_fst_error :
    (x.discard q m log).1 = .error e ↔ (x q m log).1 = .error e := by
  unfold QueueM.discard andThen
  rcases x q m log with ⟨_ | _, q', log'⟩ <;> simp

theorem discard_queue (x : QueueM β) : (x.discard q m log).2 = (x q m log).2 := by
  unfold QueueM.discard andThen
  rcases x q m log with ⟨_ | _, q', log'⟩ <;> rfl

namespace DataOp

variable (op : DataOp)

theorem refuses : Refuses op.run := by
  have hpop : Refuses VirtioQueue.popAvailableHead := own_refuses VirtioQueue.popAvailableHeadWithMemory_refuses
  cases op with
  | readAvailIdx | readAvailEntry | descriptorChain | validateVirtioBlockChain | getDataBuffers | getStatusAddr
  | shouldNotify => exact andThen_refuses (own_refuses (guarded_refuses _ _))
  | readAvailIdxWithMemory | readAvailEntryWithMemory | descriptorChainWithMemory =>
    exact andThen_refuses (guarded_refuses _ _)
  | popAvailableHead => exact andThen_refuses hpop
  | popAvailableHeadWithMemory => exact andThen_refuses VirtioQueue.popAvailableHeadWithMemory_refuses
  | popAvailable => exact andThen_refuses (andThen_refuses hpop)
  | addUsed descIndex len => exact VirtioQueue.addUsed_refuses descIndex len
  | complete head writtenLen => exact andThen_refuses (andThen_refuses (VirtioQueue.addUsed_refuses head writtenLen))
  | completeWithMemory head writtenLen =>
      exact andThen_refuses fun q m log hq => by simp [VirtioQueue.completeWithMemory, hq]
  | writeStatusByte =>
      intro q m log hq
      simp [run, VirtioQueue.writeStatusByte, hq]

/-- All operations but the two follow the same rule. -/
theorem lawful_run (hq : q.faulted = false) (hmem : ∀ head len, op ≠ .completeWithMemory head len)
    (hesc : ¬ op.Escapes q m log) : Lawful (op.NotConfigured q m log) (op.run q m log) := by
  cases op with
  | readAvailIdx | readAvailIdxWithMemory | readAvailEntry | readAvailEntryWithMemory | descriptorChain
  | descriptorChainWithMemory | validateVirtioBlockChain | getDataBuffers | getStatusAddr | shouldNotify =>
    exact discard_lawful (guarded_lawful _ _ hq)
  | popAvailableHead | popAvailableHeadWithMemory =>
    exact discard_lawful (popAvailableHeadWithMemory_lawful hq)
  | popAvailable => exact discard_lawful (popAvailable_lawful hq)
  | addUsed descIndex len => exact addUsed_lawful hq descIndex len
  | complete head writtenLen => exact discard_lawful (complete_lawful hq head writtenLen)
  | completeWithMemory head len => exact absurd rfl (hmem head len)
  | writeStatusByte headIndex status => exact writeStatusByte_lawful hq headIndex status hesc

theorem completeWithMemory_latches_iff (hq : q.faulted = false) (head : UInt16) (writtenLen : UInt32) :
    (completeWithMemory head writtenLen).Latches q m log ↔ ¬ (completeWithMemory head writtenLen).Escapes q m log := by
  constructor
  · intro h hesc
    have hfail := completeWithMemory_unconfigured hq hesc
    have hun := (h _ (discard_fst_error.2 hfail)).2 hesc
    simp only [run, discard_queue] at hun
    cases (completeWithMemory_latches hq hfail).symm.trans hun
  · intro hesc e he
    have hfault := completeWithMemory_latches hq (discard_fst_error.1 he)
    refine iff_of_false ?_ hesc
    simp [run, discard_queue, hfault]

theorem latches_iff (hq : q.faulted = false) : op.Latches q m log ↔ ¬ op.Escapes q m log := by
  by_cases hmem : ∃ head len, op = .completeWithMemory head len
  · obtain ⟨head, len, rfl⟩ := hmem
    exact completeWithMemory_latches_iff hq head len
  constructor
  · intro h hesc
    cases op with
    | writeStatusByte =>
      obtain ⟨hfail, hun, htable⟩ := writeStatusByte_escapes hq hesc
      exact htable ((h _ hfail).1 hun)
    | completeWithMemory head len => exact hmem ⟨head, len, rfl⟩
    | _ => exact hesc
  · intro hesc e he
    exact (op.lawful_run hq (fun head len h => hmem ⟨head, len, h⟩) hesc).latch he

end DataOp

/-! ## Sequences of operations -/

/-- An operation on the queue. Guest memory may answer differently at each of them. -/
inductive QueueOp
  | data (op : DataOp) (m : GuestMemory)
  | setSize (size : UInt16)
  | setDescTableAddr (addr : GuestPhysAddr)
  | setAvailRingAddr (addr : GuestPhysAddr)
  | setUsedRingAddr (addr : GuestPhysAddr)
  | setReady (ready : Bool)
  | updateLastAvailIdx (idx : UInt16)
  | validateLayoutWithMemory (m : GuestMemory)
  | reset

/-- A queue and all accesses to guest memory so far. -/
structure QueueState where
  queue : VirtioQueue
  log : GuestLog

namespace QueueState

def step (s : QueueState) : QueueOp → Option QueueState
  | .data op m => let outcome := op.run s.queue m s.log; some ⟨outcome.2.1, outcome.2.2⟩
  -- a refused size leaves the queue as it is
  | .setSize size => some ⟨(s.queue.setSize size).toOption.getD s.queue, s.log⟩
  | .setDescTableAddr addr => some { s with queue := s.queue.setDescTableAddr addr }
  | .setAvailRingAddr addr => some { s with queue := s.queue.setAvailRingAddr addr }
  | .setUsedRingAddr addr => some { s with queue := s.queue.setUsedRingAddr addr }
  | .setReady ready => some { s with queue := s.queue.setReady ready }
  | .updateLastAvailIdx idx => some { s with queue := s.queue.updateLastAvailIdx idx }
  | .validateLayoutWithMemory m => some { s with log := (s.queue.validateLayoutWithMemory m s.log).2 }
  | .reset => some { s with queue := s.queue.reset }

/-- What the latch promises of a step: the outcome of a data-path operation on a queue that is
not faulted, and that a faulted queue leaves guest memory alone and stays faulted. -/
def Latches (s : QueueState) (o : QueueOp) : Prop :=
  match o with
  | .reset => True
  | .data op m => if s.queue.faulted then s.step o = some s else op.Latches s.queue m s.log
  | _ => s.queue.faulted = true → ∀ s', s.step o = some s' → s'.log = s.log ∧ s'.queue.faulted = true

/-- The steps that break the promise. -/
def Escapes (s : QueueState) (o : QueueOp) : Prop :=
  match o with
  | .data op m => s.queue.faulted = false ∧ op.Escapes s.queue m s.log
  | .validateLayoutWithMemory _ => s.queue.faulted = true ∧ s.queue.validateLayout = .ok ()
  | _ => False

end QueueState

namespace VirtioQueue

theorem probeRegions_within (regions : List RingRegion) : AccessM.Within (fun _ => True) (probeRegions regions) := by
  induction regions with
  | nil => exact within_pure ()
  | cons region rest ih =>
    unfold probeRegions
    cases region.stop with
    | none => exact within_fail _
    | some =>
      exact ((within_read trivial).orFail _).bind fun _ => ((within_read trivial).orFail _).bind fun _ => ih

theorem probeRegions_reads {region : RingRegion} {stop : Nat} (hstop : region.stop = some stop)
    (rest : List RingRegion) :
    ∃ new, (probeRegions (region :: rest) m log).2 = log ++ ⟨false, region.base, 1⟩ :: new := by
  simp only [probeRegions, hstop]
  refine bind_log_of (P := fun _ => True) (orFail_log _ _ m log) fun _ => ?_
  exact ((within_read trivial).orFail _).bind fun _ => probeRegions_within rest

/-- The check of a layout that is valid reads guest memory: the first byte of the descriptor
table at least. -/
theorem validateLayoutWithMemory_log :
    (q.validateLayoutWithMemory m log).2 = log ↔ q.validateLayout ≠ .ok () := by
  unfold validateLayoutWithMemory
  cases hv : q.validateLayout with
  | error => simp [fail]
  | ok =>
    have hstop : (RingRegion.mk q.descTableAddr (DescriptorTable.layoutSize q.size)).stop ≠ none := by
      intro hnone
      simp only [validateLayout, ringRegions, checkRegions] at hv
      split at hv
      · cases hv
      split at hv <;> cases hv
    obtain ⟨stop, hstop⟩ := ne_none_iff_exists'.1 hstop
    obtain ⟨new, hlog⟩ : ∃ new, (probeRegions q.ringRegions m log).2 = log ++ ⟨false, q.descTableAddr, 1⟩ :: new :=
      probeRegions_reads hstop q.ringRegions.tail
    simp [hlog]

end VirtioQueue

namespace QueueState

theorem latches_iff (s : QueueState) (o : QueueOp) : s.Latches o ↔ ¬ s.Escapes o := by
  cases o with
  | data op m =>
    unfold Latches Escapes
    cases hq : s.queue.faulted with
    | false => simpa using op.latches_iff hq
    | true => simp [step, op.refuses s.queue m s.log hq]
  | validateLayoutWithMemory m =>
    have hlog : (s.queue.validateLayoutWithMemory m s.log).2 = s.log ↔ s.queue.validateLayout ≠ .ok () :=
      validateLayoutWithMemory_log
    have hkeeps : s.Latches (.validateLayoutWithMemory m) ↔
        (s.queue.faulted = true → s.queue.validateLayout ≠ .ok () ∧ s.queue.faulted = true) := by
      simp [Latches, step, hlog]
    exact hkeeps.trans ⟨fun h hesc => (h hesc.1).1 hesc.2, fun h hq => ⟨fun hv => h ⟨hq, hv⟩, hq⟩⟩
  | setSize size =>
    have hkept : ((s.queue.setSize size).toOption.getD s.queue).faulted = s.queue.faulted := by
      unfold setSize
      split_ifs <;> rfl
    simp [Latches, Escapes, step, hkept]
  | updateLastAvailIdx => cases hring : s.queue.availRing <;> simp [Latches, Escapes, step, updateLastAvailIdx, hring]
  | _ => simp [Latches, Escapes, step, setDescTableAddr, setAvailRingAddr,
      setUsedRingAddr, setReady]

def IsReset : QueueOp → Prop
  | .reset => True
  | _ => False

/-- A step other than a reset that keeps the promise leaves a faulted queue faulted and the
log as it is. -/
theorem Latches.faulted_step {s s' : QueueState} {o : QueueOp} (h : s.Latches o) (hq : s.queue.faulted = true)
    (hreset : ¬ IsReset o) (hs : s.step o = some s') : s'.queue.faulted = true ∧ s'.log = s.log := by
  cases o with
  | reset => exact absurd trivial hreset
  | data =>
    simp only [Latches, hq] at h
    cases h.symm.trans hs
    exact ⟨hq, rfl⟩
  | _ => exact (h hq s' hs).symm

/-- Each step keeps the latch's promise unless it is one of the three that escape it; so a
faulted queue leaves guest memory alone in every run of other steps, up to a reset. -/
theorem run_fault_latch (s₀ : QueueState) :
    (∀ o, s₀.Latches o ↔ ¬ s₀.Escapes o) ∧
      (s₀.queue.faulted = true → ∀ s, Run step (fun s o => ¬ IsReset o ∧ ¬ s.Escapes o) s₀ s →
        s.queue.faulted = true ∧ s.log = s₀.log) := by
  refine ⟨latches_iff s₀, fun hq s hrun => ?_⟩
  refine hrun.inv (fun s => s.queue.faulted = true ∧ s.log = s₀.log) ⟨hq, rfl⟩ ?_
  rintro s o s' ⟨hf, hlog⟩ ⟨hreset, hesc⟩ hs
  obtain ⟨hf', hlog'⟩ := ((latches_iff s o).2 hesc).faulted_step hf hreset hs
  exact ⟨hf', hlog'.trans hlog⟩

/-- Guest memory in which every descriptor is a writable byte, and no write succeeds. -/
def readOnlyGuest : GuestMemory where
  read _ _ n := .ok ⟨(List.range n).map fun i => if i = 8 then 1 else if i = 12 then 2 else 0, by simp⟩
  write _ _ _ := .error .memoryError

/-- A fresh queue is faulted by `complete_with_memory`; a configured queue is not faulted by a
status byte that guest memory refuses; a faulted queue is probed. -/
theorem fault_latch_escaped :
    ¬ (mk (.new 16) []).Latches (.data (.completeWithMemory 0 0) readOnlyGuest) ∧
      ¬ (mk ((new 16).setDescTableAddr 0x1000) []).Latches
        (.data (.writeStatusByte 0 0) readOnlyGuest) ∧
      ¬ (mk ((((new 16).setDescTableAddr 0x1000).setAvailRingAddr 0x2000).setUsedRingAddr
        0x3000).latchFault []).Latches (.validateLayoutWithMemory readOnlyGuest) := by
  refine ⟨fun h => ?_, fun h => ?_, fun h => ?_⟩
  · have hres : (DataOp.run (.completeWithMemory 0 0) (.new 16) readOnlyGuest []).1 = .error .queueNotReady := rfl
    cases (h _ hres).2 trivial
  · have hres : (DataOp.run (.writeStatusByte 0 0) ((new 16).setDescTableAddr 0x1000) readOnlyGuest []).1 =
      .error .invalidAddress := by decide +kernel
    cases (h _ hres).1 (by decide +kernel)
  · have hlog := (h rfl _ rfl).1
    revert hlog
    decide +kernel

end QueueState

end XKernel.Virtio
