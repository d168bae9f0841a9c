import XKernel.Sched.Entity
/-!
# The Deadline class (`ksched`, `classes/deadline.rs`)

Budget enforcement with earliest-deadline order. A task with budget left is in the
ready tree by its deadline, a task without is in the throttled tree by the start of
its next period.
-/

namespace XKernel.Sched.DeadlineClass

open Lib

variable (s : Scheduler) (t : TaskId)

def readyKey : Nat ×ₗ Nat :=
  toLex ((s.tasks t).deadline.deadlineNs, (s.tasks t).deadline.treeId)

def throttledKey : Nat ×ₗ Nat :=
  toLex ((s.tasks t).deadline.periodStartNs, (s.tasks t).deadline.treeId)

/-- `alloc_enqueue_id`, with the identifier stored in the task. -/
def allocEnqueueId : Scheduler :=
  { s.modifyDeadline t fun e => { e with treeId := s.deadline.nextEnqueueId } with
    deadline := { s.deadline with nextEnqueueId := s.deadline.nextEnqueueId + 1 } }

def insertReady : Scheduler :=
  let s := (allocEnqueueId s t).setSeat t .deadline
  { s with deadline := { s.deadline with ready := Index.insert (readyKey s) t s.deadline.ready } }

def insertThrottled : Scheduler :=
  let s := (allocEnqueueId s t).setSeat t .deadline
  { s with deadline := { s.deadline with throttled := Index.insert (throttledKey s) t s.deadline.throttled } }

def params : Option DlParams := (s.tasks t).attr.dlParams

def replenish (nowNs : Nat) : Scheduler :=
  match params s t with
  | none => s
  | some p => s.modifyDeadline t fun e => { e with
      budgetLeftNs := p.runtimeNs
      deadlineNs := satAdd nowNs p.deadlineNs
      periodStartNs := satAdd nowNs p.periodNs
      isActive := true
      isThrottled := false }

def reservingPpm : Nat :=
  match params s t with
  | some p => p.loadPpm
  | none => 0

def treeLoadPpm (tree : List TaskId) : Nat :=
  tree.foldl (fun total t => satAdd total (reservingPpm s t)) 0

def residentLoadPpm : Nat :=
  satAdd (satAdd (treeLoadPpm s s.deadline.ready) (treeLoadPpm s s.deadline.throttled))
    (match s.deadline.running with
      | some r => r.ppm
      | none => 0)

def isCounted : Bool :=
  (s.tasks t).seat == .deadline || s.deadline.running.any fun r => r.id == (s.tasks t).deadline.treeId

def noteRunner : Scheduler :=
  { s with deadline := { s.deadline with running := some ⟨(s.tasks t).deadline.treeId, reservingPpm s t⟩ } }

def clearRunner : Scheduler := { s with deadline := { s.deadline with running := none } }

/-! ## Class operations -/

def hasRunnable : Bool := !s.deadline.ready.isEmpty

/-- The loop of `advance`; the list is the throttled tree. -/
def advanceLoop : List TaskId → Scheduler → Scheduler
  | [], s => s
  | t :: rest, s =>
    if (s.tasks t).deadline.periodStartNs ≤ s.clock.nowNs then
      let s := { s with deadline := { s.deadline with throttled := rest } }
      match params s t with
      | none => advanceLoop rest (s.setSeat t .detached)
      | some p =>
        advanceLoop rest (insertReady (s.modifyDeadline t fun e => { e with
          budgetLeftNs := p.runtimeNs
          isThrottled := false
          deadlineNs := satAdd s.clock.nowNs p.deadlineNs
          periodStartNs := satAdd s.clock.nowNs p.periodNs }) t)
    else s

def advance : Scheduler := advanceLoop s.deadline.throttled s

def enqueue (kind : EnqueueKind) : Scheduler :=
  -- a task without budget waits for its next period
  let resume (s : Scheduler) : Scheduler :=
    if (s.tasks t).deadline.budgetLeftNs = 0 then
      insertThrottled (s.modifyDeadline t fun e => { e with isThrottled := true }) t
    else insertReady s t
  match kind with
  | .new => insertReady (replenish s t s.clock.nowNs) t
  | .classChange => insertReady s t
  | .migrateIn => resume s
  | .wake _ => resume s

def dequeue : Option TaskId × Scheduler :=
  if (s.tasks t).seat ≠ .deadline then (none, s)
  else
    match Index.find (throttledKey s) (throttledKey s t) s.deadline.throttled with
    | some r =>
      (some r, { s with
        deadline := { s.deadline with throttled := s.deadline.throttled.erase r } }.setSeat t .detached)
    | none =>
      match Index.find (readyKey s) (readyKey s t) s.deadline.ready with
      | some r =>
        (some r, { s with deadline := { s.deadline with ready := s.deadline.ready.erase r } }.setSeat t .detached)
      | none => (none, s)

def pickNext : Option TaskId × Scheduler :=
  match s.deadline.ready with
  | [] => (none, s)
  | t :: _ =>
    match Index.find (readyKey s) (readyKey s t) s.deadline.ready with
    | none => (none, s)
    | some r =>
      (some r, noteRunner ({ s with
        deadline := { s.deadline with ready := s.deadline.ready.erase r } }.setSeat r .detached) r)

def setCurr : Scheduler :=
  let s := if (s.tasks t).deadline.isActive then s else replenish s t s.clock.nowNs
  (noteRunner s t).setSeat t .detached

def putPrev (reason : LeaveReason) : Scheduler :=
  let s := clearRunner s
  match reason with
  | .yield | .preempt => if (s.tasks t).deadline.isThrottled then insertThrottled s t else insertReady s t
  | .block | .migrate => s.setSeat t .detached
  | .exit => (s.modifyDeadline t fun e => { e with isActive := false, isThrottled := false }).setSeat t .detached

/-- `true` if this interval has spent the budget. -/
def account (elapsedNs : Nat) : Scheduler × Bool :=
  if elapsedNs = 0 then (s, false)
  else
    let budget := (s.tasks t).deadline.budgetLeftNs
    if budget = 0 then (s, false)
    else
      let left := budget - elapsedNs
      let s := s.modifyDeadline t fun e => { e with budgetLeftNs := left }
      if left = 0 then (s.modifyDeadline t fun e => { e with isThrottled := true }, true) else (s, false)

def tickPreempts (_ : Scheduler) (_ : TaskId) : Bool := false

def wakeupPreempts : Bool :=
  match s.deadline.ready with
  | [] => false
  | w :: _ => (s.tasks w).deadline.deadlineNs < (s.tasks t).deadline.deadlineNs

def currTimerNs : Option Nat :=
  let e := (s.tasks t).deadline
  if e.isThrottled then some (e.periodStartNs - s.clock.nowNs)
  else some (min (satAdd s.clock.nowNs e.budgetLeftNs) e.deadlineNs - s.clock.nowNs)

def classTimerNs : Option Nat :=
  let ready := s.deadline.ready.head?.map fun t => (s.tasks t).deadline.deadlineNs - s.clock.nowNs
  let throttled := s.deadline.throttled.head?.map fun t => (s.tasks t).deadline.periodStartNs - s.clock.nowNs
  match ready, throttled with
  | some a, some b => some (min a b)
  | some a, none => some a
  | none, some b => some b
  | none, none => none

def attrChanged (isCurr : Bool) : Scheduler :=
  let s := s.modifyDeadline t fun e => { e with isActive := false, isThrottled := false }
  if isCurr then noteRunner s t else s

def canAdmit (k : Kconfig) (s : Scheduler) (t : TaskId) (new : SchedAttr) : Except SchedError Unit :=
  match new.dlParams with
  | none => .error .invalidPolicy
  | some p =>
    let load := residentLoadPpm s
    let load := if isCounted s t then load - reservingPpm s t else load
    if 1000000 - k.dlBwMarginPpm < satAdd load p.loadPpm then .error .admissionFull else .ok ()

def switchedFrom (isCurr : Bool) : Scheduler :=
  let s := if isCurr then clearRunner s else s
  s.modifyDeadline t fun e => { e with isActive := false, isThrottled := false, budgetLeftNs := 0 }

def switchedTo (isCurr : Bool) : Scheduler :=
  let s := replenish s t s.clock.nowNs
  if isCurr then noteRunner s t else s

end XKernel.Sched.DeadlineClass
