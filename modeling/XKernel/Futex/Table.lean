import Mathlib
/-!
# The queues of the futex table

Waiters and the operations on a locked bucket queue: marking waiters for a wake, requeueing,
draining. A waiter is shared by its future and the queue, so queues hold waiter ids and the
waiters are in one heap. Each function under a bucket lock has one lemma that says which waiters
it selects: the first ones in queue order.
-/

namespace XKernel.Futex

open List

inductive FutexKey
  | «private» (mmId : UInt64) (address : UInt64)
  | shared (object : UInt64) (pageIndex : UInt64) (offsetInPage : UInt16)
  deriving DecidableEq, Repr

abbrev BucketId := Nat

def bucketCount : Nat := 256
def hashMix : UInt64 := 0x9e3779b97f4a7c15

/-! ## Hashing -/

/-- The native-endian bytes of a word. -/
def nativeBytes (n : Nat) (value : UInt64) : List UInt8 :=
  (List.range n).map fun i => (value >>> UInt64.ofNat (8 * i)).toUInt8

/-- `FutexHasher::write`. -/
def hashWrite (hash : UInt64) (bytes : List UInt8) : UInt64 :=
  bytes.foldl (fun hash byte => let hash := (hash ^^^ byte.toUInt64) * hashMix; hash ^^^ (hash >>> 32)) hash

/-- The derived hash of a key: its discriminant, then its fields. -/
def FutexKey.hash (key : FutexKey) (hash : UInt64) : UInt64 :=
  match key with
  | .private mmId address => [(8, 0), (8, mmId), (8, address)].foldl (fun h f => hashWrite h (nativeBytes f.1 f.2)) hash
  | .shared object pageIndex offsetInPage =>
    [(8, 1), (8, object), (8, pageIndex), (2, offsetInPage.toUInt64)].foldl
      (fun h f => hashWrite h (nativeBytes f.1 f.2)) hash

def bucketId (hashSeed : UInt64) (key : FutexKey) : BucketId := (key.hash hashSeed).toNat % bucketCount

/-! ## Waiters -/

inductive WaiterState
  | init
  | queued
  | woken
  | cancelled
  deriving DecidableEq, Repr

structure WaiterRoute where
  key : FutexKey
  bucket : BucketId
  generation : UInt64
  deriving DecidableEq, Repr

structure FutexWaiter where
  state : WaiterState
  route : WaiterRoute
  matchMask : UInt32
  deriving DecidableEq, Repr

namespace FutexWaiter

def new (key : FutexKey) (bucket : BucketId) (matchMask : UInt32) : FutexWaiter := ⟨.init, ⟨key, bucket, 0⟩, matchMask⟩

variable (waiter : FutexWaiter)

def isQueued : Bool := waiter.state = .queued
def isWoken : Bool := waiter.state = .woken

def requeueTo (key : FutexKey) (bucket : BucketId) : FutexWaiter :=
  { waiter with route := ⟨key, bucket, waiter.route.generation + 1⟩ }

/-- Queued on the key. -/
def waitsOn (key : FutexKey) : Bool := waiter.isQueued ∧ waiter.route.key = key

/-- Queued on the key, with a bit of the mask. -/
def matchesWake (key : FutexKey) (mask : UInt32) : Bool := waiter.waitsOn key ∧ waiter.matchMask &&& mask ≠ 0

end FutexWaiter

/-- All waiters, by the address of their allocation. -/
abbrev Waiters := Nat → Option FutexWaiter

namespace Waiters

variable (waiters : Waiters)

def holds (p : FutexWaiter → Bool) (w : Nat) : Bool := (waiters w).any p

/-- Changes the waiters of a list. -/
def changeAll (f : FutexWaiter → FutexWaiter) (l : List Nat) : Waiters :=
  fun w => if w ∈ l then (waiters w).map f else waiters w

def wakeAll (l : List Nat) : Waiters := waiters.changeAll (fun waiter => { waiter with state := .woken }) l

def requeueAll (key : FutexKey) (bucket : BucketId) (l : List Nat) : Waiters :=
  waiters.changeAll (fun waiter => waiter.requeueTo key bucket) l

variable {waiters}

theorem changeAll_nil (f : FutexWaiter → FutexWaiter) : waiters.changeAll f [] = waiters := by
  funext w
  simp [changeAll]

variable {f : FutexWaiter → FutexWaiter} {l : List Nat} {w : Nat}

theorem changeAll_of_mem (h : w ∈ l) :
    waiters.changeAll f l w = (waiters w).map f := by
  simp [changeAll, h]

theorem changeAll_of_not_mem (h : w ∉ l) :
    waiters.changeAll f l w = waiters w := by
  simp [changeAll, h]

/-- One more waiter in front, if it is not in the list. -/
theorem changeAll_cons (h : w ∉ l) :
    (waiters.changeAll f [w]).changeAll f l = waiters.changeAll f (w :: l) := by
  funext v
  by_cases hv : v ∈ l
  · have hne : v ≠ w := fun e => h (e ▸ hv)
    simp [changeAll, hne]
  · simp [changeAll, hv]

theorem wakeAll_cons (h : w ∉ l) : (waiters.wakeAll [w]).wakeAll l = waiters.wakeAll (w :: l) :=
  changeAll_cons h

variable {bucket : BucketId} {key : FutexKey}

theorem wakeAll_nil : waiters.wakeAll [] = waiters := changeAll_nil _

theorem holds_changeAll_of_not_mem (p : FutexWaiter → Bool)
    (h : w ∉ l) : (waiters.changeAll f l).holds p w = waiters.holds p w := by
  simp [holds, changeAll_of_not_mem h]

/-- A change of one waiter does not concern a queue without it. -/
theorem filter_changeAll {queue : List Nat} (p : FutexWaiter → Bool)
    (h : w ∉ queue) : queue.filter ((waiters.changeAll f [w]).holds p) = queue.filter (waiters.holds p) := by
  refine filter_congr fun v hv => holds_changeAll_of_not_mem p ?_
  simpa using fun e : v = w => h (e ▸ hv)

end Waiters

/-! ## Waking -/

/-- The loop of `mark_wake_locked`, with the waiters selected so far. -/
def markLoop (key : FutexKey) (count : Nat) (mask : UInt32) : List Nat → Waiters → List Nat → Waiters × List Nat
  | [], waiters, selected => (waiters, selected)
  | w :: queue, waiters, selected =>
    if selected.length < count ∧ waiters.holds (fun waiter => waiter.matchesWake key mask) w then
      markLoop key count mask queue (waiters.wakeAll [w]) (selected ++ [w])
    else markLoop key count mask queue waiters selected

variable (waiters : Waiters) (key : FutexKey)

def markWakeLocked (queue : List Nat) (key : FutexKey) (count : Nat) (mask : UInt32) :
    Waiters × List Nat := markLoop key count mask queue waiters []

/-- The waiters of the queue that a wake may select. -/
def matching (queue : List Nat) (key : FutexKey) (mask : UInt32) : List Nat :=
  queue.filter (waiters.holds fun waiter => waiter.matchesWake key mask)

variable {queue : List Nat}

theorem markLoop_eq {key : FutexKey} {count : Nat} {mask : UInt32} (hn : queue.Nodup)
    (waiters : Waiters) (selected : List Nat) :
    markLoop key count mask queue waiters selected =
      (waiters.wakeAll ((matching waiters queue key mask).take (count - selected.length)),
        selected ++ (matching waiters queue key mask).take (count - selected.length)) := by
  induction queue generalizing waiters selected with
  | nil => simp [markLoop, matching, Waiters.wakeAll, Waiters.changeAll_nil]
  | cons w queue ih =>
    obtain ⟨hw, hn⟩ := nodup_cons.1 hn
    have hcons : matching waiters (w :: queue) key mask = _ := filter_cons
    unfold markLoop
    by_cases hm : waiters.holds (fun waiter => waiter.matchesWake key mask) w = true
    · rw [if_pos hm] at hcons
      by_cases hlt : selected.length < count
      · -- `w` is selected, and the rest of the queue does not contain it
        have hrest : matching (waiters.wakeAll [w]) queue key mask = matching waiters queue key mask :=
          Waiters.filter_changeAll _ hw
        have htake : (matching waiters (w :: queue) key mask).take (count - selected.length) =
            w :: (matching waiters queue key mask).take (count - (selected ++ [w]).length) := by
          have hcount : count - selected.length = count - (selected ++ [w]).length + 1 := by simp; omega
          rw [hcons, hcount, take_succ_cons]
          rfl
        have hnot : w ∉ (matching waiters queue key mask).take (count - (selected ++ [w]).length) :=
          fun hm => hw (mem_of_mem_filter (mem_of_mem_take hm))
        rw [if_pos ⟨hlt, hm⟩, ih hn, hrest, htake, Waiters.wakeAll_cons hnot]
        simp
      · have hzero : count - selected.length = 0 := by omega
        rw [if_neg fun h => hlt h.1, ih hn, hzero]
        simp
    · rw [if_neg hm] at hcons
      rw [if_neg fun h => hm h.2, ih hn, hcons, matching]

/-! ## Requeueing -/

/-- What the loop of `requeue` has built: the back of the source queue, the target queue, the
waiters woken and those moved. -/
structure Requeued where
  waiters : Waiters
  source : List Nat
  target : List Nat
  woken : List Nat
  moved : List Nat

/-- The loop of both forms of `requeue`. Each waiter is taken from the front and put back;
`place` says where one that moves is put. -/
def requeueLoop (place : Requeued → Nat → Requeued) (source target : FutexKey) (targetId : BucketId)
    (wakeCount requeueCount : Nat) : List Nat → Requeued → Requeued
  | [], r => r
  | w :: queue, r =>
    if r.waiters.holds (fun waiter => waiter.waitsOn source) w then
      if r.woken.length < wakeCount then
        requeueLoop place source target targetId wakeCount requeueCount queue
          { r with waiters := r.waiters.wakeAll [w], source := r.source ++ [w], woken := r.woken ++ [w] }
      else if r.moved.length < requeueCount then
        requeueLoop place source target targetId wakeCount requeueCount queue
          (place { r with waiters := r.waiters.requeueAll target targetId [w], moved := r.moved ++ [w] } w)
      else requeueLoop place source target targetId wakeCount requeueCount queue { r with source := r.source ++ [w] }
    else requeueLoop place source target targetId wakeCount requeueCount queue { r with source := r.source ++ [w] }

/-- In one bucket, a waiter that moves stays in the queue. -/
def placeSame (r : Requeued) (w : Nat) : Requeued := { r with source := r.source ++ [w] }

def placeDistinct (r : Requeued) (w : Nat) : Requeued := { r with target := r.target ++ [w] }

def requeueSameBucket (queue : List Nat) (source target : FutexKey) (targetId : BucketId)
    (wakeCount requeueCount : Nat) : Requeued :=
  requeueLoop placeSame source target targetId wakeCount requeueCount queue ⟨waiters, [], [], [], []⟩

def requeueDistinctBuckets (sourceQueue targetQueue : List Nat) (source target : FutexKey)
    (targetId : BucketId) (wakeCount requeueCount : Nat) : Requeued :=
  requeueLoop placeDistinct source target targetId wakeCount requeueCount sourceQueue ⟨waiters, [], targetQueue, [], []⟩

/-- The waiters of the queue that a requeue may wake or move. -/
def waiting (queue : List Nat) (key : FutexKey) : List Nat :=
  queue.filter (waiters.holds fun waiter => waiter.waitsOn key)

section

variable {source target : FutexKey} {targetId : BucketId} {wakeCount requeueCount : Nat}

/-- Which waiters the loop still wakes, and which it moves: the first ones that wait on the
source, up to the two counts. -/
def stillWoken (source : FutexKey) (wakeCount : Nat) (queue : List Nat) (r : Requeued) : List Nat :=
  (waiting r.waiters queue source).take (wakeCount - r.woken.length)

def stillMoved (source : FutexKey) (wakeCount requeueCount : Nat) (queue : List Nat) (r : Requeued) : List Nat :=
  ((waiting r.waiters queue source).drop (wakeCount - r.woken.length)).take (requeueCount - r.moved.length)

variable {queue : List Nat} {r : Requeued} {w : Nat}

theorem waiting_changeAll (f : FutexWaiter → FutexWaiter) (waiters : Waiters) (h : w ∉ queue) :
    waiting (waiters.changeAll f [w]) queue source = waiting waiters queue source := Waiters.filter_changeAll _ h

/-- The steps of the loop: what it does with its first waiter, and how the choices go on. -/
inductive Chosen (source : FutexKey) (wakeCount requeueCount : Nat) (queue : List Nat) (w : Nat) (r : Requeued) : Prop
  | wakes (waits : r.waiters.holds (fun waiter => waiter.waitsOn source) w = true) (budget : r.woken.length < wakeCount)
      (woken : stillWoken source wakeCount (w :: queue) r =
        w :: (waiting r.waiters queue source).take (wakeCount - (r.woken.length + 1)))
      (moved : stillMoved source wakeCount requeueCount (w :: queue) r =
        ((waiting r.waiters queue source).drop (wakeCount - (r.woken.length + 1))).take (requeueCount - r.moved.length))
  | moves (waits : r.waiters.holds (fun waiter => waiter.waitsOn source) w = true)
      (spent : ¬ r.woken.length < wakeCount) (budget : r.moved.length < requeueCount)
      (woken : stillWoken source wakeCount (w :: queue) r = [])
      (moved : stillMoved source wakeCount requeueCount (w :: queue) r =
        w :: (waiting r.waiters queue source).take (requeueCount - (r.moved.length + 1)))
  | stays (woken : stillWoken source wakeCount (w :: queue) r = stillWoken source wakeCount queue r)
      (moved : stillMoved source wakeCount requeueCount (w :: queue) r =
        stillMoved source wakeCount requeueCount queue r)
      (step : ∀ place target targetId, requeueLoop place source target targetId wakeCount requeueCount (w :: queue) r =
        requeueLoop place source target targetId wakeCount requeueCount queue { r with source := r.source ++ [w] })

theorem chosen (source : FutexKey) (wakeCount requeueCount : Nat) (queue : List Nat) (w : Nat) (r : Requeued) :
    Chosen source wakeCount requeueCount queue w r := by
  by_cases hw : r.waiters.holds (fun waiter => waiter.waitsOn source) w = true
  · have hcons : waiting r.waiters (w :: queue) source = w :: waiting r.waiters queue source := filter_cons_of_pos hw
    by_cases hwoken : r.woken.length < wakeCount
    · have hbudget : wakeCount - r.woken.length = wakeCount - (r.woken.length + 1) + 1 := by omega
      refine .wakes hw hwoken ?_ ?_
      · rw [stillWoken, hcons, hbudget, take_succ_cons]
      · rw [stillMoved, hcons, hbudget, drop_succ_cons]
    · have hspent : wakeCount - r.woken.length = 0 := by omega
      by_cases hmoved : r.moved.length < requeueCount
      · have hbudget : requeueCount - r.moved.length = requeueCount - (r.moved.length + 1) + 1 := by omega
        refine .moves hw hwoken hmoved ?_ ?_
        · rw [stillWoken, hspent, take_zero]
        · rw [stillMoved, hcons, hspent, drop_zero, hbudget, take_succ_cons]
      · have hnone : requeueCount - r.moved.length = 0 := by omega
        refine .stays ?_ ?_ fun place target targetId => ?_
        · rw [stillWoken, stillWoken, hspent, take_zero, take_zero]
        · rw [stillMoved, stillMoved, hnone, take_zero, take_zero]
        · rw [requeueLoop, if_pos hw, if_neg hwoken, if_neg hmoved]
  · have hcons : waiting r.waiters (w :: queue) source = waiting r.waiters queue source := filter_cons_of_neg hw
    refine .stays ?_ ?_ fun place target targetId => ?_
    · rw [stillWoken, stillWoken, hcons]
    · rw [stillMoved, stillMoved, hcons]
    · rw [requeueLoop, if_neg hw]

/-- Where the two forms put a waiter that moves. -/
def placeIn (same : Bool) : Requeued → Nat → Requeued := if same then placeSame else placeDistinct

/-- A requeue wakes the first waiters on the source and moves the next ones. In one bucket the queue stays as it was,
into another one those that move are appended there in order. -/
theorem requeueLoop_eq (same : Bool) (hn : queue.Nodup) :
    requeueLoop (placeIn same) source target targetId wakeCount requeueCount queue r =
      { waiters := (r.waiters.wakeAll (stillWoken source wakeCount queue r)).requeueAll target targetId
          (stillMoved source wakeCount requeueCount queue r)
        source := r.source ++ if same then queue
        else queue.filter (· ∉ stillMoved source wakeCount requeueCount queue r)
        target := r.target ++ if same then [] else stillMoved source wakeCount requeueCount queue r
        woken := r.woken ++ stillWoken source wakeCount queue r
        moved := r.moved ++ stillMoved source wakeCount requeueCount queue r } := by
  induction queue generalizing r with
  | nil => cases same <;> simp [requeueLoop, stillWoken, stillMoved, waiting, Waiters.wakeAll_nil,
    Waiters.requeueAll, Waiters.changeAll_nil]
  | cons w queue ih =>
    obtain ⟨hw, hn⟩ := nodup_cons.1 hn
    have hnot : ∀ n k, w ∉ ((waiting r.waiters queue source).drop n).take k := fun n k hm =>
      hw (mem_of_mem_filter (mem_of_mem_drop (mem_of_mem_take hm)))
    cases chosen source wakeCount requeueCount queue w r with
    | wakes waits budget woken moved =>
      have hcons : (r.waiters.wakeAll [w]).wakeAll _ = _ :=
        Waiters.wakeAll_cons (hnot 0 (wakeCount - (r.woken.length + 1)))
      rw [requeueLoop, if_pos waits, if_pos budget, ih hn, woken, moved,
        filter_cons_of_pos (by exact decide_eq_true (hnot _ _))]
      simp only [stillWoken, stillMoved, Waiters.wakeAll, waiting_changeAll _ _ hw, length_append, length_singleton,
        drop_zero] at hcons ⊢
      rw [hcons]
      cases same <;> simp
    | moves waits spent budget woken moved =>
      have hspent : wakeCount - r.woken.length = 0 := by omega
      have hcons : (r.waiters.requeueAll target targetId [w]).requeueAll target targetId _ =
          r.waiters.requeueAll target targetId (w :: _) :=
        Waiters.changeAll_cons (hnot 0 (requeueCount - (r.moved.length + 1)))
      -- `w` itself leaves the source; it is not among the others
      have hkeep : ∀ l : List Nat, queue.filter (· ∉ w :: l) = queue.filter (· ∉ l) := fun l =>
        filter_congr fun v hv => by
          have hne : v ≠ w := fun e => hw (e ▸ hv)
          simp [hne]
      rw [requeueLoop, if_pos waits, if_neg spent, if_pos budget, ih hn, woken, moved,
        filter_cons_of_neg (by simp), hkeep]
      simp only [Waiters.requeueAll, drop_zero] at hcons
      cases same <;> simp [placeIn, placeSame, placeDistinct, stillWoken, stillMoved, Waiters.requeueAll,
        waiting_changeAll _ _ hw, hspent, Waiters.wakeAll_nil, hcons]
    | stays woken moved step =>
      rw [step, ih hn, woken, moved, filter_cons_of_pos (by exact decide_eq_true (hnot _ _))]
      simp only [append_assoc]
      cases same <;> rfl

/-- The waiters that a requeue wakes, and those it moves. -/
def toWake (waiters : Waiters) (queue : List Nat) (source : FutexKey) (wakeCount : Nat) : List Nat :=
  (waiting waiters queue source).take wakeCount

def toMove (waiters : Waiters) (queue : List Nat) (source : FutexKey) (wakeCount requeueCount : Nat) : List Nat :=
  ((waiting waiters queue source).drop wakeCount).take requeueCount

end

/-! ## Draining -/

/-- `drain_inactive` under the bucket lock: the waiters that stay. -/
def drained (queue : List Nat) : List Nat := queue.filter (waiters.holds FutexWaiter.isQueued)

end XKernel.Futex
