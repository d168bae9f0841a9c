import XKernel.Sched.Entity
/-!
# The realtime class (`ksched`, `classes/rt.rs`, `ready_list.rs`)

One list of waiting tasks for each priority, with a bitmap of the lists that are not
empty, and a share of each period for the whole class. `none` is a failed assertion.
-/

namespace XKernel.Sched.RtClass

variable (s : Scheduler) (t : TaskId) (c : RtClass) (priority : Nat)

/-- The range check of `idx` is made by its callers here, or is an assertion. -/
def idx : Nat := priority - minRtPriority

def inRange : Bool := minRtPriority ≤ priority && priority ≤ maxRtPriority

def bit : BitVec 128 := 1#128 <<< idx priority

def isOccupied : Bool := c.occupied &&& bit priority != 0

def markOccupied : RtClass := { c with occupied := c.occupied ||| bit priority }

def markEmptyIf : RtClass :=
  if (c.queues (idx priority)).isEmpty then { c with occupied := c.occupied &&& ~~~ bit priority } else c

/-- The position of the highest bit, `127 - leading_zeros`. -/
def highestReadyPrio : Option Nat :=
  if c.occupied = 0 then none else some (c.occupied.toNat.log2 + minRtPriority)

def hasSamePrioWaiter : Bool := inRange priority && c.isOccupied priority

/-- `is_linked`: a task has one link for the lists of all priorities. -/
def isLinked (t : TaskId) : Bool := (List.range rtPrioLevels).any fun i => t ∈ c.queues i

def setQueue (l : List TaskId) : RtClass :=
  { c with queues := Function.update c.queues (idx priority) l }

def enqueueReady (front : Bool) : Option Scheduler :=
  let priority := (s.tasks t).rtPriority
  let s := s.setSeat t .rt
  if !inRange priority then none
  else if s.rt.isLinked t then some s
  else
    let list := s.rt.queues (idx priority)
    let c := s.rt.setQueue priority (if front then t :: list else list ++ [t])
    some { s with rt := { c with queued := c.queued + 1 }.markOccupied priority }

def enqueueTail : Option Scheduler := enqueueReady s t false

def enqueueHead : Option Scheduler := enqueueReady s t true

/-- A task was taken out of the list of `priority`. -/
def removed (t : TaskId) : Scheduler :=
  let c := s.rt.setQueue priority ((s.rt.queues (idx priority)).erase t)
  { s.setSeat t .detached with rt := { c with queued := c.queued - 1 }.markEmptyIf priority }

def dequeueAddr (t : TaskId) : Option TaskId × Scheduler :=
  if !inRange priority || !s.rt.isOccupied priority then (none, s)
  else if t ∈ s.rt.queues (idx priority) then (some t, removed s priority t)
  else (none, s)

def nsUntilThrottle : Nat := c.rtRuntimeNs - c.usedNs

/-! ## Class operations -/

def hasRunnable : Bool := s.rt.occupied != 0 && !s.rt.isThrottled

def advance : Scheduler :=
  let now := s.clock.nowNs
  let c := if s.rt.periodStartNs = 0 then { s.rt with periodStartNs := now } else s.rt
  let period := max c.rtPeriodNs 1
  if satAdd c.periodStartNs period ≤ now then
    let steps := (now - c.periodStartNs) / period
    { s with rt := { c with
      periodStartNs := satAdd c.periodStartNs (satMul steps period)
      usedNs := 0
      isThrottled := false } }
  else { s with rt := c }

def enqueue (kind : EnqueueKind) : Option Scheduler :=
  enqueueTail
    (if kind = .new ∧ (s.tasks t).policy = .rr then
      s.modifyRt t fun e => { e with rrLeftNs := s.rt.rrSliceNs } else s) t

def dequeue : Option TaskId × Scheduler :=
  if (s.tasks t).seat ≠ .rt then (none, s) else dequeueAddr s (s.tasks t).rtPriority t

/-- The loop of `steal` from a priority downwards. -/
def stealLoop (want : List TaskId → TaskId → Bool) (s : Scheduler) :
    Nat → List TaskId → Option TaskId × List TaskId × Scheduler
  | 0, asked => (none, asked, s)
  | p + 1, asked =>
    if !s.rt.isOccupied (p + 1) then stealLoop want s p asked
    else
      match firstWanted want asked (s.rt.queues (idx (p + 1))) with
      | (some t, asked) => (some t, asked, removed s (p + 1) t)
      | (none, asked) => stealLoop want s p asked

def steal (want : List TaskId → TaskId → Bool) (s : Scheduler) : Option TaskId × List TaskId × Scheduler :=
  match s.rt.highestReadyPrio with
  | none => (none, [], s)
  | some highest => stealLoop want s highest []

def pickNext : Option TaskId × Scheduler :=
  if s.rt.isThrottled then (none, s)
  else
    match s.rt.highestReadyPrio with
    | none => (none, s)
    | some prio =>
      match s.rt.queues (idx prio) with
      | [] => (none, s)
      | t :: _ =>
        let s := removed s prio t
        (some t,
          if (s.tasks t).policy = .rr ∧ (s.tasks t).rt.rrLeftNs = 0 then
            s.modifyRt t fun e => { e with rrLeftNs := s.rt.rrSliceNs }
          else s)

def setCurr (_ : TaskId) : Scheduler := s

def putPrev (reason : LeaveReason) : Option Scheduler :=
  let rotate := (s.tasks t).rt.rrRotate
  let s := s.modifyRt t fun e => { e with rrRotate := false }
  match reason with
  | .yield => enqueueTail s t
  | .preempt => if rotate then enqueueTail s t else enqueueHead s t
  | .block | .migrate | .exit => some s

def account (elapsedNs : Nat) : Scheduler × Bool :=
  if elapsedNs = 0 then (s, false)
  else
    let used := satAdd s.rt.usedNs elapsedNs
    let s := { s with rt := { s.rt with
      usedNs := used
      isThrottled := if s.rt.rtRuntimeNs ≤ used then true else s.rt.isThrottled } }
    if (s.tasks t).policy = .rr then
      let old := (s.tasks t).rt.rrLeftNs
      let left := old - min elapsedNs old
      if left = 0 then
        let rotate := s.rt.hasSamePrioWaiter (s.tasks t).rtPriority
        (s.modifyRt t fun _ => ⟨s.rt.rrSliceNs, rotate⟩, rotate || s.rt.isThrottled)
      else (s.modifyRt t fun e => { e with rrLeftNs := left }, s.rt.isThrottled)
    else (s, s.rt.isThrottled)

def wakeupPreempts : Bool :=
  if (s.tasks t).rt.rrRotate then true
  else if s.rt.isThrottled then false
  else
    match s.rt.highestReadyPrio with
    | some highest => (s.tasks t).rtPriority < highest
    | none => false

def tickPreempts : Bool := wakeupPreempts s t

def currTimerNs : Option Nat :=
  if s.rt.isThrottled then none
  else if (s.tasks t).policy = .rr ∧ s.rt.hasSamePrioWaiter (s.tasks t).rtPriority then
    some (min s.rt.nsUntilThrottle (s.tasks t).rt.rrLeftNs)
  else some s.rt.nsUntilThrottle

def classTimerNs : Option Nat :=
  if s.rt.isThrottled then some (satAdd s.rt.periodStartNs s.rt.rtPeriodNs - s.clock.nowNs) else none

def attrChanged (old : SchedAttr) (isCurr : Bool) : Option Scheduler :=
  let new := (s.tasks t).rtPriority
  let s :=
    if old.policy ≠ .rr ∧ (s.tasks t).policy = .rr then s.modifyRt t fun _ => ⟨s.rt.rrSliceNs, false⟩
    else if (s.tasks t).policy ≠ .rr then s.modifyRt t fun e => { e with rrRotate := false }
    else s
  if isCurr then some s
  else if old.rtPriority.get ≠ new then
    match dequeueAddr s old.rtPriority.get t with
    | (some r, s) => if new < old.rtPriority.get then enqueueHead s r else enqueueTail s r
    | (none, s) => some s
  else some s

def switchedFrom : Scheduler := s.modifyRt t fun e => { e with rrRotate := false }

def switchedTo : Scheduler :=
  if (s.tasks t).policy = .rr then s.modifyRt t fun _ => ⟨s.rt.rrSliceNs, false⟩ else s

end XKernel.Sched.RtClass
