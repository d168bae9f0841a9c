import XKernel.Sched.Entity
/-!
# The Fair class (`ksched`, `classes/fair.rs`)

Earliest eligible virtual deadline first. The waiting tasks are in two trees, by their
virtual deadline and by their virtual runtime; the runner is in neither. Sums and
quotients are taken in `i128` and cut to `i64`; `nextEnqueueId`, a `u64` of the source, is not
cut. `none` is a failed assertion.
-/

namespace XKernel.Sched.FairClass

open Lib

/-- A value as an `i64` keeps it. -/
def i64 (x : Int) : Int := Int.bmod x (2 ^ 64)

def i64Min : Int := -2 ^ 63

def i64Max : Int := 2 ^ 63 - 1

def vruntimeDelta (elapsedNs : Nat) (weight : Int) : Int :=
  if elapsedNs = 0 ∨ weight ≤ 0 then 0 else max i64Min (min i64Max (Int.tdiv (elapsedNs * nice0Weight) weight))

def vruntimeToWallNs (deltaVruntime weight : Int) : Nat :=
  if deltaVruntime ≤ 0 ∨ weight ≤ 0 then 0
  else (min (Int.tdiv (deltaVruntime * weight + (nice0Weight - 1)) nice0Weight) u64Max).toNat

def requestDeadline (vruntime : Int) (requestNs : Nat) (weight : Int) : Int :=
  i64 (vruntime + vruntimeDelta requestNs weight)

def isEligible (vruntime avgVruntime : Int) : Bool := vruntime ≤ avgVruntime

variable (s : Scheduler) (t : TaskId) (curr : Option TaskId)

def deadlineKey : Int ×ₗ Nat :=
  toLex ((s.tasks t).fair.deadline, (s.tasks t).fair.treeId)

def vruntimeKey : Int ×ₗ Nat :=
  toLex ((s.tasks t).fair.vruntime, (s.tasks t).fair.treeId)

def weight : Int := (s.tasks t).fair.weight

def avgVruntime : Int :=
  match curr with
  | none =>
    if s.fair.totalWeight ≤ 0 then s.fair.minVruntime else i64 (Int.tdiv s.fair.sumWv s.fair.totalWeight)
  | some c =>
    let total := s.fair.totalWeight + weight s c
    if total ≤ 0 then s.fair.minVruntime
    else i64 (Int.tdiv (s.fair.sumWv + (s.tasks c).fair.vruntime * weight s c) total)

def load : Int :=
  match curr with
  | some c => i64 (s.fair.totalWeight + weight s c)
  | none => s.fair.totalWeight

def setRequest (vruntime : Int) (requestNs : Nat) : Scheduler :=
  s.modifyFair t fun e => { e with
    vruntime
    sliceLeftNs := requestNs
    deadline := requestDeadline vruntime requestNs e.weight }

def clampVlag (lag weight : Int) (requestNs : Nat) : Int :=
  let limit := vruntimeDelta (max (satMul requestNs 2) 1) weight
  max (-limit) (min limit lag)

def placeNewEntity : Scheduler :=
  let vruntime := avgVruntime s curr
  setRequest (s.modifyFair t fun e => { e with requestNs := s.fair.requestNs, vlag := 0 }) t vruntime s.fair.requestNs

def placeEntity (avg load : Int) : Int :=
  if load ≤ 0 then s.fair.minVruntime
  else
    let lag := clampVlag (s.tasks t).fair.vlag (weight s t) (s.tasks t).fair.requestNs
    i64 (avg - Int.tdiv (lag * (load + weight s t)) load)

def applyLag : Scheduler :=
  setRequest s t (placeEntity s t (avgVruntime s curr) (load s curr)) (s.tasks t).fair.requestNs

def updateMinVruntime : Scheduler :=
  let treeMin := s.fair.firstVruntime.map fun t => (s.tasks t).fair.vruntime
  let candidate := match curr, treeMin with
    | some c, some m => min (s.tasks c).fair.vruntime m
    | some c, none => (s.tasks c).fair.vruntime
    | none, some m => m
    | none, none => s.fair.minVruntime
  { s with fair := { s.fair with minVruntime := max s.fair.minVruntime candidate } }

def firstDeadlineKey : Option (Int ×ₗ Nat) := s.fair.firstDeadline.map (deadlineKey s)

def contains : Bool :=
  Index.find (deadlineKey s) (deadlineKey s t) s.fair.ready == some t

def enqueueTree : Scheduler :=
  let s := { s.modifyFair t fun e => { e with treeId := s.fair.nextEnqueueId } with
    fair := { s.fair with nextEnqueueId := s.fair.nextEnqueueId + 1 } }
  let s := s.setSeat t (.fromSchedClass .fair)
  let isFirst (key : TaskId → Int ×ₗ Nat) : Option TaskId → Bool
    | none => true
    | some first => key t < key first
  let s := { s with fair := { s.fair with
    ready := Index.insert (deadlineKey s) t s.fair.ready
    vruntimeTree := Index.insert (vruntimeKey s) t s.fair.vruntimeTree
    firstDeadline := if isFirst (deadlineKey s) s.fair.firstDeadline then some t else s.fair.firstDeadline
    firstVruntime := if isFirst (vruntimeKey s) s.fair.firstVruntime then some t else s.fair.firstVruntime
    queued := s.fair.queued + 1
    sumWv := s.fair.sumWv + (s.tasks t).fair.vruntime * weight s t
    totalWeight := i64 (s.fair.totalWeight + weight s t) } }
  if curr.isSome then updateMinVruntime s curr else s

/-- The task with the key, if there is one, taken out of both trees. -/
def dequeueEntityWithWeight (key : Int ×ₗ Nat) (queuedWeight : Option Int) :
    Option (Option TaskId × Scheduler) :=
  match Index.find (deadlineKey s) key s.fair.ready with
  | none => some (none, s)
  | some t =>
    let weight := queuedWeight.getD (weight s t)
    -- the task is in the other tree too
    if Index.find (vruntimeKey s) (vruntimeKey s t) s.fair.vruntimeTree ≠ some t then none
    else
      let s := { s with fair := { s.fair with
        ready := s.fair.ready.erase t
        vruntimeTree := s.fair.vruntimeTree.erase t
        firstDeadline := if s.fair.firstDeadline = some t then Index.next t s.fair.ready else s.fair.firstDeadline
        firstVruntime :=
          if s.fair.firstVruntime = some t then Index.next t s.fair.vruntimeTree else s.fair.firstVruntime
        queued := s.fair.queued - 1
        sumWv := s.fair.sumWv - (s.tasks t).fair.vruntime * weight
        totalWeight := i64 (s.fair.totalWeight - weight) } }
      some (some t, s.setSeat t .detached)

def dequeueEntity (key : Int ×ₗ Nat) : Option (Option TaskId × Scheduler) :=
  dequeueEntityWithWeight s key none

def earliestEligible (avg : Int) : Option (Int ×ₗ Nat) :=
  match s.fair.firstDeadline with
  | none => none
  | some first =>
    if isEligible (s.tasks first).fair.vruntime avg then some (deadlineKey s first)
    else
      ((s.fair.vruntimeTree.takeWhile fun t => isEligible (s.tasks t).fair.vruntime avg).map (deadlineKey s)).min?

def clearBuddy : Scheduler := { s with fair := { s.fair with nextBuddy := none, hasSyncWake := false } }

def clearBuddyIf : Scheduler := if s.fair.nextBuddy = some t then clearBuddy s else s

def isBuddyEligible (avg : Int) : Bool :=
  s.fair.nextBuddy.any fun b => isEligible (s.tasks b).fair.vruntime avg

def entityBefore (a b : TaskId) : Bool := deadlineKey s a < deadlineKey s b

def setNextBuddy (wakee : TaskId) : Scheduler :=
  match s.fair.nextBuddy with
  | some b =>
    if entityBefore s b wakee then s else { s with fair := { s.fair with nextBuddy := some wakee } }
  | none => { s with fair := { s.fair with nextBuddy := some wakee } }

def pickBuddy : Option (Option TaskId × Scheduler) :=
  match s.fair.nextBuddy with
  | none => some (none, s)
  | some buddy =>
    if !isBuddyEligible s (avgVruntime s none) then some (none, s)
    else
      match dequeueEntity (clearBuddy s) (deadlineKey s buddy) with
      | some (some t, s) => some (some t, s)
      | _ => none

def updateEntityLag : Scheduler :=
  let lag := i64 (avgVruntime s (some t) - (s.tasks t).fair.vruntime)
  s.modifyFair t fun e => { e with vlag := clampVlag lag e.weight e.requestNs }

def rescaleVlag (oldWeight : Int) : Scheduler :=
  if weight s t ≠ oldWeight ∧ weight s t ≠ 0 then
    s.modifyFair t fun e => { e with vlag := i64 (Int.tdiv (e.vlag * oldWeight) e.weight) }
  else s

def updateDeadline : Scheduler × Bool :=
  let e := (s.tasks t).fair
  if e.deadline ≤ e.vruntime ∨ e.sliceLeftNs = 0 then
    (setRequest s t e.vruntime e.requestNs, !s.fair.ready.isEmpty)
  else (s, false)

def dequeueWithLag : Option (Option TaskId × Scheduler) :=
  if !contains s t then some (none, s)
  else
    let s := clearBuddyIf s t
    let lag := i64 (avgVruntime s curr - (s.tasks t).fair.vruntime)
    match dequeueEntity s (deadlineKey s t) with
    | none => none
    | some (none, s) => some (none, s)
    | some (some r, s) =>
      let s := s.modifyFair r fun e => { e with vlag := clampVlag lag e.weight e.requestNs }
      some (some r, updateMinVruntime s curr)

def enqueueWake (sync : Bool) : Scheduler :=
  let s := setNextBuddy (enqueueTree (applyLag s t curr) t curr) t
  if sync && s.fair.nextBuddy.isSome then { s with fair := { s.fair with hasSyncWake := true } } else s

def requeuePrev : Scheduler := enqueueTree s t none

def peerPreempts : Option Bool :=
  if s.fair.ready.isEmpty then some false
  else
    let avg := avgVruntime s (some t)
    if s.fair.hasSyncWake && isBuddyEligible s avg then some true
    else
      match earliestEligible s avg with
      | none => some false
      | some key =>
        match Index.find (deadlineKey s) key s.fair.ready with
        | none => none
        | some peer => some (!isEligible (s.tasks t).fair.vruntime avg || !entityBefore s t peer)

def isUnplaced : Bool :=
  (s.tasks t).fair.vlag == 0 && (s.tasks t).fair.vruntime == 0 && (s.tasks t).fair.deadline == 0

def rescaleDeadline (oldWeight : Int) : Scheduler :=
  (rescaleVlag s t oldWeight).modifyFair t fun e =>
    { e with deadline := requestDeadline e.vruntime (max e.sliceLeftNs 1) e.weight }

/-! ## Class operations -/

def hasRunnable : Bool := !s.fair.ready.isEmpty

def enqueue (kind : EnqueueKind) (curr : Option TaskId) : Scheduler :=
  match kind with
  | .new => enqueueTree (placeNewEntity s t curr) t curr
  | .wake sync => enqueueWake s t curr sync
  | .migrateIn => enqueueWake s t curr false
  | .classChange => enqueueTree (applyLag s t curr) t curr

def dequeue : Option (Option TaskId × Scheduler) :=
  dequeueWithLag s t curr

/-- `asked` are the tasks that `want` has been asked about already. -/
def steal (want : List TaskId → TaskId → Bool) (asked : List TaskId) (s : Scheduler) (curr : Option TaskId) :
    Option (Option TaskId × Scheduler) :=
  match (firstWanted want asked s.fair.ready).1 with
  | none => some (none, s)
  | some t => dequeueWithLag s t curr

def pickNext : Option (Option TaskId × Scheduler) :=
  if s.fair.ready.isEmpty then some (none, clearBuddy s)
  else
    match pickBuddy s with
    | none => none
    | some (some t, s) => some (some t, s)
    | some (none, s) =>
      let key := match earliestEligible s (avgVruntime s none) with
        | some key => some key
        | none => firstDeadlineKey s
      match key with
      | none => none
      | some key =>
        match dequeueEntity s key with
        | some (some t, s) => some (some t, clearBuddyIf s t)
        | _ => none

def setCurr : Scheduler :=
  updateMinVruntime (if isUnplaced s t then placeNewEntity s t none else s) (some t)

def putPrev (reason : LeaveReason) : Scheduler :=
  let s := updateMinVruntime (clearBuddyIf s t) (some t)
  let vruntime := max (s.tasks t).fair.vruntime s.fair.minVruntime
  match reason with
  | .yield => requeuePrev (setRequest s t vruntime (s.tasks t).fair.requestNs) t
  | .preempt =>
    let s := s.modifyFair t fun e => { e with vruntime }
    let e := (s.tasks t).fair
    requeuePrev
      (if e.sliceLeftNs = 0 then setRequest s t vruntime e.requestNs
      else if e.deadline ≤ vruntime then
        s.modifyFair t fun e => { e with deadline := requestDeadline vruntime e.sliceLeftNs e.weight }
      else s) t
  | .block | .migrate => updateEntityLag s t
  | .exit => s

def account (elapsedNs : Nat) : Scheduler × Bool :=
  let s :=
    if 0 < elapsedNs then
      s.modifyFair t fun e => { e with
        vruntime := max i64Min (min i64Max (e.vruntime + vruntimeDelta elapsedNs e.weight))
        sliceLeftNs := e.sliceLeftNs - min elapsedNs e.sliceLeftNs }
    else s
  updateDeadline s t

def tickPreempts : Option Bool := peerPreempts s t

def wakeupPreempts : Option Bool := peerPreempts s t

def currTimerNs : Option Nat :=
  let e := (s.tasks t).fair
  if s.fair.ready.isEmpty then none
  else if e.deadline ≤ e.vruntime then some 0
  else
    let avg := avgVruntime s (some t)
    let load := load s (some t)
    match s.fair.nextBuddy with
    | some b =>
      if s.fair.hasSyncWake ∧ !isEligible (s.tasks b).fair.vruntime avg ∧ 0 < load then
        some (min e.sliceLeftNs (vruntimeToWallNs (i64 ((s.tasks b).fair.vruntime - avg)) load))
      else some e.sliceLeftNs
    | none => some e.sliceLeftNs

def attrChanged (old : SchedAttr) (isCurr : Bool) : Option Scheduler :=
  let oldWeight : Int := old.nice.weight
  if isCurr then some (rescaleDeadline s t oldWeight)
  else if (s.tasks t).seat ≠ .fair then some (rescaleVlag s t oldWeight)
  else
    match dequeueEntityWithWeight s (deadlineKey s t) (some oldWeight) with
    | none => none
    | some (none, s) => some s
    | some (some r, s) => some (enqueueTree (rescaleDeadline s r oldWeight) r none)

def switchedFrom (isCurr : Bool) : Scheduler :=
  if isCurr then updateMinVruntime (updateEntityLag s t) none else s

def switchedTo (isCurr : Bool) : Scheduler := if isCurr then setCurr s t else s

end XKernel.Sched.FairClass
