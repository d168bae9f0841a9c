import XKernel.Futex.Table
import XKernel.Lib.Runs
/-!
# Futex calls

The calls of the table as processes. A step is one critical section of the bucket locks, or one
access outside of them: a read of a user word, or a load of a waiter's state or route. User
memory changes at any time. What a wake selected is recorded.
-/

namespace XKernel.Futex

open XKernel.Lib
open Function (update)

/-! ## The operation of `FUTEX_WAKE_OP` -/

inductive Operation
  | set
  | add
  | or
  | andNot
  | xor
  deriving DecidableEq, Repr

inductive Comparison
  | equal
  | notEqual
  | less
  | lessOrEqual
  | greater
  | greaterOrEqual
  deriving DecidableEq, Repr

structure FutexWakeOp where
  operation : Operation
  operationArgument : Int32
  comparison : Comparison
  comparisonArgument : Int32
  deriving DecidableEq, Repr

namespace FutexWakeOp

variable (op : FutexWakeOp)

def apply (old : UInt32) : UInt32 :=
  let old := old.toInt32
  let new := match op.operation with
    | .set => op.operationArgument
    | .add => old + op.operationArgument
    | .or => old ||| op.operationArgument
    | .andNot => old &&& ~~~op.operationArgument
    | .xor => old ^^^ op.operationArgument
  new.toUInt32

def compare (old : UInt32) : Bool :=
  let old := old.toInt32
  match op.comparison with
  | .equal => old = op.comparisonArgument
  | .notEqual => old ≠ op.comparisonArgument
  | .less => old < op.comparisonArgument
  | .lessOrEqual => old ≤ op.comparisonArgument
  | .greater => old > op.comparisonArgument
  | .greaterOrEqual => old ≥ op.comparisonArgument

end FutexWakeOp

/-! ## Calls -/

inductive KError
  | fault
  | wouldBlock
  | timedOut
  | interrupted
  deriving DecidableEq, Repr

/-- Where a call of `wait` is. -/
inductive WaitPc
  /-- The check of `wait` itself. -/
  | check
  /-- Before a poll of the future, which has no waiter yet. -/
  | poll
  /-- In that poll, before the bucket lock. -/
  | enqueue
  /-- The future has its waiter and is polled again. -/
  | queued (w : Nat)
  /-- The loop of `cancel`: before `is_woken`, before `is_queued`, before the route is read, and
  before the bucket lock. -/
  | cancelWoken (w : Nat) (error : KError)
  | cancelQueued (w : Nat) (error : KError)
  | cancelRoute (w : Nat) (error : KError)
  | cancelLock (w : Nat) (error : KError) (bucket : BucketId) (generation : UInt64)
  /-- Returned, with the waiter of the call. -/
  | returned (result : Except KError Bool) (w : Option Nat)
  deriving DecidableEq

def WaitPc.waiter : WaitPc → Option Nat
  | .check | .poll | .enqueue => none
  | .queued w | .cancelWoken w _ | .cancelQueued w _ | .cancelRoute w _ | .cancelLock w _ _ _ => some w
  | .returned _ w => w

structure WaitCall where
  key : FutexKey
  uaddr : Nat
  expected : UInt32
  matchMask : UInt32
  pc : WaitPc
  deriving DecidableEq

inductive WakeRequest
  | wake (key : FutexKey) (count : Nat) (mask : UInt32)
  | wakeOp (source target : FutexKey) (uaddr2 : Nat) (sourceCount targetCount : Nat) (operation : FutexWakeOp)
  | requeue (source target : FutexKey) (wakeCount requeueCount : Nat) (compare : Option (Nat × UInt32))
  deriving DecidableEq

/-- Where a call of `wake`, `wake_op` or `requeue` is. -/
inductive WakePc
  /-- The checks of `requeue` before the locks. -/
  | check
  | load
  | locked
  | drain (buckets : List BucketId) (count : Nat)
  | returned (result : Except KError Nat)
  deriving DecidableEq

/-- Only `requeue` reads a word before it takes the locks. -/
def WakeRequest.first : WakeRequest → WakePc
  | .requeue _ _ _ _ _ => .check
  | _ => .locked

structure WakeCall where
  request : WakeRequest
  pc : WakePc
  deriving DecidableEq

/-- The system. A word of user memory that faults is `none`. -/
structure Futexes where
  hashSeed : UInt64
  memory : Nat → Option UInt32
  queues : BucketId → List Nat
  waiters : Waiters
  waits : Nat → Option WaitCall
  wakes : Nat → Option WakeCall
  /-- Each selection and each move: the call that made it and the waiter. -/
  selected : List (Nat × Nat)
  moved : List (Nat × Nat)

namespace Futexes

def start (hashSeed : UInt64) : Futexes :=
  ⟨hashSeed, fun _ => none, fun _ => [], fun _ => none, fun _ => none, fun _ => none, [], []⟩

variable (s : Futexes)

def bucketId (key : FutexKey) : BucketId := Futex.bucketId s.hashSeed key

variable (c : Nat) (call : WaitCall)

def setWait (pc : WaitPc) : Futexes :=
  { s with waits := update s.waits c (some { call with pc }) }

def setWake (call : WakeCall) (pc : WakePc) : Futexes :=
  { s with wakes := update s.wakes c (some { call with pc }) }

/-! ### `wait` -/

/-- `atomic_u32_eq` on the word of the call: goes on if it has the expected value. -/
def checkWord (next : WaitPc) : Futexes :=
  match s.memory call.uaddr with
  | none => s.setWait c call (.returned (.error .fault) none)
  | some value => if value = call.expected then s.setWait c call next else s.setWait c call (.returned (.ok false) none)

/-- The critical section that enqueues a new waiter. -/
def enqueue (w : Nat) : Futexes :=
  let bucket := s.bucketId call.key
  match s.memory call.uaddr with
  -- the word was evicted: the future is polled again
  | none => s.setWait c call .poll
  | some value =>
    if value = call.expected then
      { s.setWait c call (.queued w) with
        waiters := update s.waiters w (some { FutexWaiter.new call.key bucket call.matchMask with state := .queued })
        queues := update s.queues bucket (s.queues bucket ++ [w]) }
    else s.setWait c call (.returned (.ok false) none)

/-- The critical section of `cancel`. -/
def cancelLocked (w : Nat) (waiter : FutexWaiter) (error : KError) (bucket : BucketId)
    (generation : UInt64) : Futexes :=
  if bucket ≠ waiter.route.bucket ∨ generation ≠ waiter.route.generation then s.setWait c call (.cancelWoken w error)
  else if waiter.isQueued then
    { s.setWait c call (.returned (.error error) (some w)) with
      waiters := update s.waiters w (some { waiter with state := .cancelled })
      queues := update s.queues bucket ((s.queues bucket).filter (· ≠ w)) }
  else s.setWait c call (.cancelWoken w error)

/-- The next step of a call of `wait`. A new waiter gets the address `fresh`. -/
def stepWait (fresh : Nat) : Option Futexes :=
  match call.pc with
  | .check => some (s.checkWord c call .poll)
  | .poll => some (s.checkWord c call .enqueue)
  | .enqueue => if (s.waiters fresh).isSome then none else some (s.enqueue c call fresh)
  | .queued w => do
    let waiter ← s.waiters w
    if waiter.isWoken then some (s.setWait c call (.returned (.ok true) (some w))) else none
  | .cancelWoken w error => do
    let waiter ← s.waiters w
    if waiter.isWoken then some (s.setWait c call (.returned (.ok true) (some w)))
    else some (s.setWait c call (.cancelQueued w error))
  | .cancelQueued w error => do
    let waiter ← s.waiters w
    if ¬ waiter.isQueued then some (s.setWait c call (.returned (.error error) (some w)))
    else some (s.setWait c call (.cancelRoute w error))
  | .cancelRoute w error => do
    let waiter ← s.waiters w
    some (s.setWait c call (.cancelLock w error waiter.route.bucket waiter.route.generation))
  | .cancelLock w error bucket generation => do
    let waiter ← s.waiters w
    some (s.cancelLocked c call w waiter error bucket generation)
  | .returned _ _ => none

/-- A timeout or a signal ends the waiting between two polls. -/
def interruptWait (error : KError) : Option Futexes :=
  match call.pc with
  | .poll => some (s.setWait c call (.returned (.error error) none))
  | .queued w => some (s.setWait c call (.cancelWoken w error))
  | _ => none

/-! ### `wake`, `wake_op` and `requeue` -/

/-- `mark_wake_locked` on the queue of the key, by the call `c`. -/
def mark (key : FutexKey) (count : Nat) (mask : UInt32) : Futexes × Nat :=
  let (waiters, selected) := markWakeLocked s.waiters (s.queues (s.bucketId key)) key count mask
  ({ s with waiters, selected := s.selected ++ selected.map (c, ·) }, selected.length)

/-- The critical section of `wake_op`. Behind the load the word may change, and the exchange may fault. -/
def wakeOpLocked (source target : FutexKey) (uaddr2 sourceCount targetCount : Nat) (operation : FutexWakeOp)
    (exchanged : Option Bool) : Except KError (Futexes × Nat) :=
  match s.memory uaddr2 with
  | none => .error .fault
  | some old =>
    match exchanged with
    | none => .error .fault
    | some false => .error .wouldBlock
    | some true =>
      let s := { s with memory := update s.memory uaddr2 (some (operation.apply old)) }
      let (s, count) := s.mark c source sourceCount 0xffffffff
      if operation.compare old then
        let (s, more) := s.mark c target targetCount 0xffffffff
        .ok (s, count + more)
      else .ok (s, count)

/-- The two forms of requeueing, after the comparison. -/
def requeueQueues (source target : FutexKey) (wakeCount requeueCount : Nat) : Futexes × Nat :=
  let sourceId := s.bucketId source
  let targetId := s.bucketId target
  if sourceId = targetId then
    let r := requeueSameBucket s.waiters (s.queues sourceId) source target targetId wakeCount requeueCount
    ({ s with
      waiters := r.waiters
      queues := update s.queues sourceId r.source
      selected := s.selected ++ r.woken.map (c, ·)
      moved := s.moved ++ r.moved.map (c, ·) }, r.woken.length + r.moved.length)
  else
    let r := requeueDistinctBuckets s.waiters (s.queues sourceId)
      (s.queues targetId) source target targetId wakeCount requeueCount
    ({ s with
      waiters := r.waiters
      queues := update (update s.queues sourceId r.source) targetId r.target
      selected := s.selected ++ r.woken.map (c, ·)
      moved := s.moved ++ r.moved.map (c, ·) }, r.woken.length + r.moved.length)

/-- `compare_locked`, and the check before the locks. -/
def compareWord (compare : Option (Nat × UInt32)) : Except KError Unit :=
  match compare with
  | none => .ok ()
  | some (uaddr, expected) =>
    match s.memory uaddr with
    | none => .error .fault
    | some value => if value = expected then .ok () else .error .wouldBlock

/-- The critical section of a call. The two locks of two buckets are held together. -/
def lockedWake (call : WakeCall) (exchanged : Option Bool) : Futexes :=
  match call.request with
  | .wake key count mask =>
    if count = 0 then s.setWake c call (.returned (.ok 0))
    else
      let (s', selected) := s.mark c key count mask
      s'.setWake c call (.drain [s.bucketId key] selected)
  | .wakeOp source target uaddr2 sourceCount targetCount operation =>
    match s.wakeOpLocked c source target uaddr2 sourceCount targetCount operation exchanged with
    | .error error => s.setWake c call (.returned (.error error))
    | .ok (s', count) =>
      s'.setWake c call (.drain
        (if s.bucketId target ≠ s.bucketId source then [s.bucketId source, s.bucketId target]
          else [s.bucketId source]) count)
  | .requeue source target wakeCount requeueCount compare =>
    match s.compareWord compare with
    | .error error => s.setWake c call (.returned (.error error))
    | .ok () =>
      let (s', count) := s.requeueQueues c source target wakeCount requeueCount
      s'.setWake c call (.drain [s.bucketId source] count)

/-- The reads of `requeue` before the locks. -/
def checkWake (call : WakeCall) (next : WakePc) : Futexes :=
  match call.request with
  | .requeue _ _ _ _ compare =>
    match s.compareWord compare with
    | .error error => s.setWake c call (.returned (.error error))
    | .ok () => s.setWake c call next
  | _ => s.setWake c call next

/-- `atomic_load_u32`: only a fault ends the call. -/
def loadWake (call : WakeCall) : Futexes :=
  match call.request with
  | .requeue _ _ _ _ (some (uaddr, _)) =>
    if (s.memory uaddr).isNone then s.setWake c call (.returned (.error .fault)) else s.setWake c call .locked
  | _ => s.setWake c call .locked

def stepWake (call : WakeCall) (exchanged : Option Bool) : Option Futexes :=
  match call.pc with
  | .check => some (s.checkWake c call .load)
  | .load => some (s.loadWake c call)
  | .locked => some (s.lockedWake c call exchanged)
  | .drain [] count => some (s.setWake c call (.returned (.ok count)))
  | .drain (bucket :: buckets) count =>
    some { s.setWake c call (.drain buckets count) with
      queues := update s.queues bucket (drained s.waiters (s.queues bucket)) }
  | .returned _ => none

end Futexes

inductive FutexOp
  /-- User memory changes, or a page is mapped or evicted. -/
  | store (uaddr : Nat) (value : Option UInt32)
  | startWait (c : Nat) (key : FutexKey) (uaddr : Nat) (expected matchMask : UInt32)
  | startWake (c : Nat) (request : WakeRequest)
  | wait (c fresh : Nat)
  | interrupt (c : Nat) (error : KError)
  | wake (c : Nat) (exchanged : Option Bool)

namespace Futexes

def step (s : Futexes) : FutexOp → Option Futexes
  | .store uaddr value => some { s with memory := update s.memory uaddr value }
  | .startWait c key uaddr expected matchMask =>
    if (s.waits c).isSome then none
    else some { s with waits := update s.waits c (some ⟨key, uaddr, expected, matchMask, .check⟩) }
  | .startWake c request =>
    if (s.wakes c).isSome then none else some { s with wakes := update s.wakes c (some ⟨request, request.first⟩) }
  | .wait c fresh => do s.stepWait c (← s.waits c) fresh
  | .interrupt c error => do
    if error = .timedOut ∨ error = .interrupted then s.interruptWait c (← s.waits c) error else none
  | .wake c exchanged => do s.stepWake c (← s.wakes c) exchanged

end Futexes

end XKernel.Futex
