import XKernel.Sched.Policy
import XKernel.Lib.Index
/-!
# Tasks and run queues (`ksched`, `entity.rs`, `ready_list.rs`)

A task is its scheduling state, known by the identity of its allocation; the state of
all tasks is a part of the state of the run queue, since every access holds its lock.
The trees of a class are ordered indices over the tasks (`XKernel.Lib.Index`), and a
list of waiting tasks is the list of their identities. The identifiers that break ties
between equal keys are counters; the source's `u64` would wrap after `2 ^ 64` enqueues.
-/

namespace XKernel.Sched

abbrev TaskId := Nat

inductive QueueSeat where
  | detached
  | stop
  | deadline
  | rt
  | fair
  | idle
  deriving DecidableEq, Repr

def QueueSeat.fromSchedClass : SchedClass → QueueSeat
  | .stop => .stop
  | .deadline => .deadline
  | .rt => .rt
  | .fair => .fair
  | .idle => .idle

inductive KernelClass where
  | stop
  | idle
  deriving DecidableEq, Repr

def KernelClass.schedClass : KernelClass → SchedClass
  | stop => .stop
  | idle => .idle

/-! ## Tasks -/

/-- `vruntime`, `deadline` and `vlag` are `i64`. -/
structure FairEntity where
  vruntime : Int
  deadline : Int
  vlag : Int
  sliceLeftNs : Nat
  requestNs : Nat
  weight : Nat
  treeId : Nat

def FairEntity.new (requestNs : Nat) : FairEntity := ⟨0, 0, 0, requestNs, requestNs, Nice.default.weight, 0⟩

structure RtEntity where
  rrLeftNs : Nat
  rrRotate : Bool

structure DeadlineEntity where
  budgetLeftNs : Nat
  deadlineNs : Nat
  periodStartNs : Nat
  isActive : Bool
  isThrottled : Bool
  treeId : Nat

def DeadlineEntity.new : DeadlineEntity := ⟨0, 0, 0, false, false, 0⟩

structure SchedTask where
  schedClass : SchedClass
  rtPrio : Nat
  sumExecRuntimeNs : Nat
  seat : QueueSeat
  attr : SchedAttr
  fair : FairEntity
  rt : RtEntity
  deadline : DeadlineEntity

namespace SchedTask

def newWithClass (k : Kconfig) (c : SchedClass) (attr : SchedAttr) : SchedTask where
  schedClass := c
  rtPrio := attr.rtPriority.get
  sumExecRuntimeNs := 0
  seat := .detached
  attr := attr
  fair := .new k.defaultSliceNs
  rt := ⟨k.defaultRrSliceNs, false⟩
  deadline := .new

def new (k : Kconfig) : SchedTask := newWithClass k .fair .default

def newKernel (k : Kconfig) (c : KernelClass) : SchedTask := newWithClass k c.schedClass .default

/-- Fair reads the weight from the entity. -/
def setAttr (t : SchedTask) (attr : SchedAttr) : SchedTask :=
  { t with
    attr
    fair := { t.fair with weight := attr.nice.weight }
    rtPrio := if attr.policy.isRealtime then attr.rtPriority.get else 0 }

def policy (t : SchedTask) : SchedPolicy := t.attr.policy

def rtPriority (t : SchedTask) : Nat := t.attr.rtPriority.get

end SchedTask

/-! ## Run queues -/

structure DeadlineRunner where
  id : Nat
  ppm : Nat

structure DeadlineClass where
  ready : List TaskId
  throttled : List TaskId
  nextEnqueueId : Nat
  running : Option DeadlineRunner

def DeadlineClass.new : DeadlineClass := ⟨[], [], 0, none⟩

structure RtClass where
  queues : Nat → List TaskId
  occupied : BitVec 128
  queued : Nat
  usedNs : Nat
  periodStartNs : Nat
  isThrottled : Bool
  rrSliceNs : Nat
  rtRuntimeNs : Nat
  rtPeriodNs : Nat

def RtClass.new (k : Kconfig) : RtClass :=
  ⟨fun _ => [], 0, 0, 0, 0, false, k.defaultRrSliceNs, k.defaultRtRuntimeNs, k.defaultRtPeriodNs⟩

/-- `sumWv` is `i128`, in which the sum cannot overflow. -/
structure FairClass where
  ready : List TaskId
  vruntimeTree : List TaskId
  firstDeadline : Option TaskId
  firstVruntime : Option TaskId
  queued : Nat
  minVruntime : Int
  sumWv : Int
  totalWeight : Int
  nextBuddy : Option TaskId
  hasSyncWake : Bool
  nextEnqueueId : Nat
  requestNs : Nat

def FairClass.new (k : Kconfig) : FairClass := ⟨[], [], none, none, 0, 0, 0, 0, none, false, 0, k.defaultSliceNs⟩

/-- `stop` is the waiter of `StopClass`, `idle` the task that `IdleClass` keeps. -/
structure Scheduler where
  tasks : TaskId → SchedTask
  clock : RqClock
  curr : Option TaskId
  stop : Option TaskId
  deadline : DeadlineClass
  rt : RtClass
  fair : FairClass
  idle : TaskId

namespace Scheduler

/-- `kernel` gives the tasks that were made as kernel tasks; the others are Fair tasks. -/
def new (k : Kconfig) (kernel : TaskId → Option KernelClass) (idle : TaskId) (nowNs : Nat) : Scheduler where
  tasks t := match kernel t with
    | some c => .newKernel k c
    | none => .new k
  clock := .new nowNs
  curr := none
  stop := none
  deadline := .new
  rt := .new k
  fair := .new k
  idle := idle

variable (s : Scheduler) (t : TaskId)

def modify (f : SchedTask → SchedTask) : Scheduler :=
  { s with tasks := Function.update s.tasks t (f (s.tasks t)) }

def setSeat (seat : QueueSeat) : Scheduler := s.modify t fun x => { x with seat }

def modifyFair (f : FairEntity → FairEntity) : Scheduler :=
  s.modify t fun x => { x with fair := f x.fair }

def modifyRt (f : RtEntity → RtEntity) : Scheduler :=
  s.modify t fun x => { x with rt := f x.rt }

def modifyDeadline (f : DeadlineEntity → DeadlineEntity) : Scheduler :=
  s.modify t fun x => { x with deadline := f x.deadline }

theorem modify_tasks (u : TaskId) (f : SchedTask → SchedTask) :
    (s.modify t f).tasks u = if u = t then f (s.tasks t) else s.tasks u := Function.update_apply ..

variable {s t} {u : TaskId} {f : SchedTask → SchedTask}

theorem modify_self : (s.modify t f).tasks t = f (s.tasks t) := Function.update_self ..

theorem modify_of_ne (hu : u ≠ t) : (s.modify t f).tasks u = s.tasks u := Function.update_of_ne hu ..

end Scheduler

/-! ## Kinds of operations (`class.rs`) -/

inductive EnqueueKind where
  | new
  | wake (sync : Bool)
  | migrateIn
  | classChange
  deriving DecidableEq, Repr

inductive LeaveReason where
  | yield
  | preempt
  | block
  | migrate
  | exit
  deriving DecidableEq, Repr

structure Decision where
  resched : Bool
  nextEventNs : Option Nat
  deriving DecidableEq, Repr

inductive UpdateKind where
  | account
  | schedTick
  | wakeProbe
  deriving DecidableEq, Repr

/-- The first task that `want` accepts. `want` is a closure with a state of its own, so its answer may depend on the
tasks it was asked about before; they are returned too. -/
def firstWanted (want : List TaskId → TaskId → Bool) : List TaskId → List TaskId → Option TaskId × List TaskId
  | asked, [] => (none, asked)
  | asked, t :: l => if want asked t then (some t, t :: asked) else firstWanted want (t :: asked) l

theorem firstWanted_mem {want : List TaskId → TaskId → Bool} {asked l asked' : List TaskId} {t : TaskId}
    (h : firstWanted want asked l = (some t, asked')) : t ∈ l := by
  induction l generalizing asked with
  | nil => cases h
  | cons u l ih =>
    unfold firstWanted at h
    split at h
    · cases h
      exact List.mem_cons_self
    · exact List.mem_cons_of_mem _ (ih h)

end XKernel.Sched
