import XKernel.Sched.Deadline
import XKernel.Sched.Rt
import XKernel.Sched.Fair
import XKernel.Lib.Runs
/-!
# The class arbitrator (`ksched`, `scheduler.rs`, `classes/stop.rs` and `classes/idle.rs`)

Stop, Deadline, realtime, Fair and Idle, in this order. Every public operation takes
the time, charges the runner for the time since the last operation, and works on the
queue of the task's class. `none` is a failed assertion or a panic.
-/

namespace XKernel.Sched

/-! ## The Stop class -/

namespace StopClass

variable (s : Scheduler) (t : TaskId)

def pushWaiter : Scheduler := { s.setSeat t .stop with stop := some t }

def enqueue (curr : Option TaskId) : Option Scheduler :=
  if curr.isNone && s.stop.isNone then some (pushWaiter s t) else none

def dequeue : Option TaskId × Scheduler :=
  if s.stop = some t then (some t, { s with stop := none }.setSeat t .detached) else (none, s)

def pickNext : Option TaskId × Scheduler :=
  match s.stop with
  | some t => (some t, { s with stop := none }.setSeat t .detached)
  | none => (none, s)

def setCurr : Option Scheduler := if s.stop.isNone then some s else none

def putPrev : LeaveReason → Scheduler
  | .yield | .preempt => pushWaiter s t
  | .block | .migrate | .exit => s

end StopClass

namespace Scheduler

/-! ## Dispatch to the classes -/

variable (s : Scheduler) (t : TaskId)

/-- The runner if it belongs to the class. -/
def currFor (c : SchedClass) : Option TaskId := s.curr.filter fun t => (s.tasks t).schedClass = c

def hasRunnable : SchedClass → Bool
  | .stop => s.stop.isSome
  | .deadline => DeadlineClass.hasRunnable s
  | .rt => RtClass.hasRunnable s
  | .fair => FairClass.hasRunnable s
  | .idle => true

def advanceClasses : Scheduler := RtClass.advance (DeadlineClass.advance s)

def classEnqueue (kind : EnqueueKind) (c : SchedClass) : Option Scheduler :=
  match c with
  | .stop => StopClass.enqueue s t (s.currFor .stop)
  | .deadline => some (DeadlineClass.enqueue s t kind)
  | .rt => RtClass.enqueue s t kind
  | .fair => some (FairClass.enqueue s t kind (s.currFor .fair))
  | .idle => none

def classDequeue (c : SchedClass) : Option (Option TaskId × Scheduler) :=
  match c with
  | .stop => some (StopClass.dequeue s t)
  | .deadline => some (DeadlineClass.dequeue s t)
  | .rt => some (RtClass.dequeue s t)
  | .fair => FairClass.dequeue s t (s.currFor .fair)
  | .idle => some (none, s)

def classSetCurr (c : SchedClass) : Option Scheduler :=
  match c with
  | .stop => StopClass.setCurr s
  | .deadline => some (DeadlineClass.setCurr s t)
  | .rt => some (RtClass.setCurr s t)
  | .fair => some (FairClass.setCurr s t)
  | .idle => some s

def classPutPrev (reason : LeaveReason) (c : SchedClass) : Option Scheduler :=
  match c with
  | .stop => some (StopClass.putPrev s t reason)
  | .deadline => some (DeadlineClass.putPrev s t reason)
  | .rt => RtClass.putPrev s t reason
  | .fair => some (FairClass.putPrev s t reason)
  | .idle => some s

def classAccount (elapsedNs : Nat) (c : SchedClass) : Scheduler × Bool :=
  match c with
  | .stop | .idle => (s, false)
  | .deadline => DeadlineClass.account s t elapsedNs
  | .rt => RtClass.account s t elapsedNs
  | .fair => FairClass.account s t elapsedNs

def classTickPreempts (c : SchedClass) : Option Bool :=
  match c with
  | .stop | .idle => some false
  | .deadline => some (DeadlineClass.tickPreempts s t)
  | .rt => some (RtClass.tickPreempts s t)
  | .fair => FairClass.tickPreempts s t

def classWakeupPreempts (c : SchedClass) : Option Bool :=
  match c with
  | .stop | .idle => some false
  | .deadline => some (DeadlineClass.wakeupPreempts s t)
  | .rt => some (RtClass.wakeupPreempts s t)
  | .fair => FairClass.wakeupPreempts s t

def classCurrTimerNs (c : SchedClass) : Option Nat :=
  match c with
  | .stop | .idle => none
  | .deadline => DeadlineClass.currTimerNs s t
  | .rt => RtClass.currTimerNs s t
  | .fair => FairClass.currTimerNs s t

def classAttrChanged (old : SchedAttr) (isCurr : Bool) (c : SchedClass) : Option Scheduler :=
  match c with
  | .stop | .idle => some s
  | .deadline => some (DeadlineClass.attrChanged s t isCurr)
  | .rt => RtClass.attrChanged s t old isCurr
  | .fair => FairClass.attrChanged s t old isCurr

def classCanAdmit (k : Kconfig) (s : Scheduler) (t : TaskId) (new : SchedAttr) (c : SchedClass) :
    Except SchedError Unit :=
  match c with
  | .stop | .idle => .error .kernelClassImmutable
  | .deadline => DeadlineClass.canAdmit k s t new
  | .rt | .fair => .ok ()

def classSwitchedFrom (isCurr : Bool) (c : SchedClass) : Scheduler :=
  match c with
  | .stop | .idle => s
  | .deadline => DeadlineClass.switchedFrom s t isCurr
  | .rt => RtClass.switchedFrom s t
  | .fair => FairClass.switchedFrom s t isCurr

def classSwitchedTo (isCurr : Bool) (c : SchedClass) : Scheduler :=
  match c with
  | .stop | .idle => s
  | .deadline => DeadlineClass.switchedTo s t isCurr
  | .rt => RtClass.switchedTo s t
  | .fair => FairClass.switchedTo s t isCurr

/-! ## Charging and decisions -/

variable (nowNs : Nat)

/-- The clock moves, and each class with it. -/
def advanceTo : Scheduler :=
  advanceClasses { s with clock := (s.clock.advance nowNs).2 }

def accountRuntime (elapsedNs : Nat) : Scheduler :=
  s.modify t fun x => { x with sumExecRuntimeNs := satAdd x.sumExecRuntimeNs elapsedNs }

/-- `true` if the runner has used up what its class gave it. -/
def charge : Scheduler × Bool :=
  let elapsed := (s.clock.advance nowNs).1
  let s := s.advanceTo nowNs
  match s.curr with
  | none => (s, false)
  | some t =>
    let c := (s.tasks t).schedClass
    let s := if c ≠ .idle ∧ elapsed ≠ 0 then s.accountRuntime t elapsed else s
    s.classAccount t elapsed c

def classesByRank : List SchedClass := [.stop, .deadline, .rt, .fair, .idle]

def higherClassRunnable (than : SchedClass) : Bool :=
  (classesByRank.takeWhile fun c => c.isAbove than).any fun c => s.hasRunnable c

def reschedNeeded (kind : UpdateKind) (exhausted : Bool) : Option Bool :=
  match s.curr with
  | none => some true
  | some t =>
    let c := (s.tasks t).schedClass
    if exhausted || s.higherClassRunnable c then some true
    else
      match kind with
      | .account => some false
      | .schedTick => s.classTickPreempts t c
      | .wakeProbe => s.classWakeupPreempts t c

def minWith (acc v : Option Nat) : Option Nat :=
  match v with
  | none => acc
  | some ns =>
    match acc with
    | none => some ns
    | some a => some (min a ns)

def computeNextEvent : Option Nat :=
  let classes (next : Option Nat) : Option Nat :=
    minWith (minWith next (DeadlineClass.classTimerNs s)) (RtClass.classTimerNs s)
  match s.curr with
  | none => classes none
  | some t =>
    let c := (s.tasks t).schedClass
    if s.higherClassRunnable c then some 0 else classes (minWith none (s.classCurrTimerNs t c))

def decision (kind : UpdateKind) (exhausted : Bool) : Option Decision :=
  match s.reschedNeeded kind exhausted with
  | none => none
  | some resched => some ⟨resched, s.computeNextEvent⟩

/-! ## Public operations -/

def leave (reason : LeaveReason) : Option (TaskId × Scheduler) :=
  let s := (s.charge nowNs).1
  match s.curr with
  | none => none
  | some t =>
    match { s with curr := none }.classPutPrev t reason (s.tasks t).schedClass with
    | none => none
    | some s => some (t, s)

def installCurrent : Option Scheduler :=
  if s.curr.isSome then none
  else
    let s := s.advanceTo nowNs
    match s.classSetCurr t (s.tasks t).schedClass with
    | none => none
    | some s => some { s with curr := some t }

def update (kind : UpdateKind) : Option (Decision × Scheduler) :=
  let (s, exhausted) := s.charge nowNs
  match s.decision kind exhausted with
  | none => none
  | some d => some (d, s)

def enqueue (kind : EnqueueKind) (nowNs : Nat) : Option (Decision × Scheduler) :=
  let s := (s.charge nowNs).1
  match s.classEnqueue t kind (s.tasks t).schedClass with
  | none => none
  | some s =>
    match s.decision .wakeProbe false with
    | none => none
    | some d => some (d, s)

def dequeue : Option (Option TaskId × Scheduler) :=
  let s := (s.charge nowNs).1
  if (s.tasks t).seat = .detached then some (none, s) else s.classDequeue t (s.tasks t).schedClass

def steal (want : List TaskId → TaskId → Bool) (nowNs : Nat) : Option (Option TaskId × Scheduler) :=
  let s := (s.charge nowNs).1
  match RtClass.steal want s with
  | (some t, _, s) => some (some t, s)
  | (none, asked, s) => FairClass.steal want asked s (s.currFor .fair)

/-- Idle always supplies a task. -/
def pickNext : Option (TaskId × Scheduler) :=
  if s.curr.isSome then none
  else
    let run (r : TaskId × Scheduler) : TaskId × Scheduler := (r.1, { r.2 with curr := some r.1 })
    let s := s.advanceTo nowNs
    match StopClass.pickNext s with
    | (some t, s) => some (run (t, s))
    | (none, s) =>
      match DeadlineClass.pickNext s with
      | (some t, s) => some (run (t, s))
      | (none, s) =>
        match RtClass.pickNext s with
        | (some t, s) => some (run (t, s))
        | (none, s) =>
          match FairClass.pickNext s with
          | none => none
          | some (some t, s) => some (run (t, s))
          | some (none, s) => some (run (s.idle, s))

def yieldCurrent : Option (TaskId × Scheduler) := s.leave nowNs .yield

def preemptCurrent : Option (TaskId × Scheduler) := s.leave nowNs .preempt

def blockCurrent : Option (TaskId × Scheduler) := s.leave nowNs .block

def migrateCurrent : Option (TaskId × Scheduler) := s.leave nowNs .migrate

def exitCurrent : Option (TaskId × Scheduler) := s.leave nowNs .exit

/-- The part of `set_attr` for a change of the class. -/
def switchClass (attr : SchedAttr) (isCurr : Bool) : Option Scheduler :=
  let old := (s.tasks t).attr.schedClass
  let new := attr.schedClass
  let wasQueued := (s.tasks t).seat ≠ .detached
  let s? :=
    if !isCurr ∧ wasQueued then
      match s.classDequeue t old with
      | some (some _, s) => some s
      | _ => none
    else some s
  match s? with
  | none => none
  | some s =>
    let s := (s.classSwitchedFrom t isCurr old).modify t fun x => { x.setAttr attr with schedClass := new }
    let s := s.classSwitchedTo t isCurr new
    if !isCurr ∧ wasQueued then s.classEnqueue t .classChange new else some s

def setAttr (k : Kconfig) (s : Scheduler) (t : TaskId) (attr : SchedAttr) (nowNs : Nat) :
    Option (Except SchedError Decision × Scheduler) :=
  match attr.validate k with
  | .error e => some (.error e, s)
  | .ok () =>
    let s := (s.charge nowNs).1
    if (s.tasks t).schedClass.isKernelOnly then some (.error .kernelClassImmutable, s)
    else
      let old := (s.tasks t).attr
      let isCurr := s.curr == some t
      match s.classCanAdmit k t attr attr.schedClass with
      | .error e => some (.error e, s)
      | .ok () =>
        let s? :=
          if old.schedClass = attr.schedClass then
            (s.modify t fun x => x.setAttr attr).classAttrChanged t old isCurr attr.schedClass
          else s.switchClass t attr isCurr
        match s? with
        | none => none
        | some s =>
          match s.decision .wakeProbe false with
          | none => none
          | some d => some (.ok d, s)

end Scheduler

/-! ## Runs -/

inductive Op where
  | installCurrent (task : TaskId) (nowNs : Nat)
  | update (nowNs : Nat) (kind : UpdateKind)
  | enqueue (task : TaskId) (kind : EnqueueKind) (nowNs : Nat)
  | dequeue (task : TaskId) (nowNs : Nat)
  | steal (want : List TaskId → TaskId → Bool) (nowNs : Nat)
  | pickNext (nowNs : Nat)
  | yieldCurrent (nowNs : Nat)
  | preemptCurrent (nowNs : Nat)
  | blockCurrent (nowNs : Nat)
  | migrateCurrent (nowNs : Nat)
  | exitCurrent (nowNs : Nat)
  | setAttr (task : TaskId) (attr : SchedAttr) (nowNs : Nat)

/-- What an operation returns to its caller. -/
inductive Output where
  | unit
  | decision (d : Decision)
  | task (t : Option TaskId)
  | attr (r : Except SchedError Decision)

def exec (k : Kconfig) (s : Scheduler) : Op → Option (Output × Scheduler)
  | .installCurrent t nowNs => (s.installCurrent t nowNs).map fun s => (.unit, s)
  | .update nowNs kind => (s.update nowNs kind).map fun (d, s) => (.decision d, s)
  | .enqueue t kind nowNs => (s.enqueue t kind nowNs).map fun (d, s) => (.decision d, s)
  | .dequeue t nowNs => (s.dequeue t nowNs).map fun (t, s) => (.task t, s)
  | .steal want nowNs => (s.steal want nowNs).map fun (t, s) => (.task t, s)
  | .pickNext nowNs => (s.pickNext nowNs).map fun (t, s) => (.task (some t), s)
  | .yieldCurrent nowNs => (s.yieldCurrent nowNs).map fun (_, s) => (.unit, s)
  | .preemptCurrent nowNs => (s.preemptCurrent nowNs).map fun (_, s) => (.unit, s)
  | .blockCurrent nowNs => (s.blockCurrent nowNs).map fun (_, s) => (.unit, s)
  | .migrateCurrent nowNs => (s.migrateCurrent nowNs).map fun (_, s) => (.unit, s)
  | .exitCurrent nowNs => (s.exitCurrent nowNs).map fun (t, s) => (.task (some t), s)
  | .setAttr t attr nowNs => (s.setAttr k t attr nowNs).map fun (r, s) => (.attr r, s)

def step (k : Kconfig) (s : Scheduler) (o : Op) : Option Scheduler := (exec k s o).map (·.2)

end XKernel.Sched
