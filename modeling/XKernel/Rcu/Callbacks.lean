import XKernel.Rcu.GracePeriod
/-!
# RCU callbacks

One queue for each CPU and the driver that assigns their work to periods, controls the periods and
promotes what has waited. A step is one section of a queue's lock, one section of a node's or the
coordinator's lock, or the invocation of one callback. Each queue keeps a record of what it accepted
and what was invoked.
-/

namespace XKernel.Rcu

structure Callback where
  node : Nat
  isMarker : Bool
  /-- The number of periods that had started. -/
  since : Nat
  deriving DecidableEq

structure WaitingSegment where
  period : Option PeriodId
  callbacks : List Callback

/-- Detached work of an executor that may still invoke `budget` callbacks. -/
structure CallbackBatch where
  callbacks : List Callback
  completed : Nat
  budget : Nat

structure CallbackQueue where
  unassigned : List Callback
  first : WaitingSegment
  second : WaitingSegment
  eligible : List Callback
  isExecuting : Bool
  outstanding : Nat
  batches : List CallbackBatch
  accepted : List Callback
  invoked : List Callback
  /-- The number of callbacks in the accounts of the executors that have returned. -/
  returned : Nat

namespace CallbackQueue

def new : CallbackQueue := ⟨[], ⟨none, []⟩, ⟨none, []⟩, [], false, 0, [], [], [], 0⟩

variable (q : CallbackQueue)

def submit (callback : Callback) : CallbackQueue :=
  { q with
    unassigned := q.unassigned ++ [callback], outstanding := q.outstanding + 1, accepted := q.accepted ++ [callback] }

def pushFirst (callback : Callback) : CallbackQueue :=
  { q with first := { q.first with callbacks := q.first.callbacks ++ [callback] } }

def pushSecond (callback : Callback) : CallbackQueue :=
  { q with second := { q.second with callbacks := q.second.callbacks ++ [callback] } }

/-- The slots are reused, so the later period may stand in either. -/
def pushLast (callback : Callback) : CallbackQueue :=
  if !q.unassigned.isEmpty then { q with unassigned := q.unassigned ++ [callback] }
  else match q.first.period, q.second.period with
    | some first, some second => if first + 1 = second then q.pushSecond callback else q.pushFirst callback
    | some _, none => q.pushFirst callback
    | none, some _ => q.pushSecond callback
    | none, none => { q with eligible := q.eligible ++ [callback] }

def enqueueDrainMarker (marker : Callback) : CallbackQueue :=
  if q.outstanding = 0 then q
  else { q.pushLast marker with outstanding := q.outstanding + 1, accepted := q.accepted ++ [marker] }

/-- Asserts that the target is in the window of two periods; returns whether there was work. -/
def assignPending (period : PeriodId) : Option (CallbackQueue × Bool) :=
  if q.unassigned.isEmpty then some (q, false)
  else
    let first := { q with unassigned := [], first := ⟨some period, q.first.callbacks ++ q.unassigned⟩ }
    let second := { q with unassigned := [], second := ⟨some period, q.second.callbacks ++ q.unassigned⟩ }
    if q.first.period = some period then some (first, true)
    else if q.second.period = some period then some (second, true)
    else if q.first.period = none then some (first, true)
    else if q.second.period = none then some (second, true)
    else none

def promote (completed : PeriodId) : CallbackQueue :=
  let q := if q.first.period = some completed then
    { q with eligible := q.eligible ++ q.first.callbacks, first := ⟨none, []⟩ } else q
  if q.second.period = some completed then
    { q with eligible := q.eligible ++ q.second.callbacks, second := ⟨none, []⟩ } else q

def needsPeriod : Bool := q.first.period.isSome || q.second.period.isSome

/-- `CallbackBatch::take`, for `invoke_ready` with a budget. -/
def take (budget : Nat) : CallbackQueue :=
  if budget = 0 ∨ q.isExecuting = true ∨ q.eligible = [] then q
  else { q with isExecuting := true, eligible := [], batches := ⟨q.eligible, 0, budget⟩ :: q.batches }

/-- The next callback of a batch runs. -/
def invoke (i : Nat) : Option CallbackQueue := do
  let batch ← q.batches[i]?
  match batch.callbacks, batch.budget with
  | callback :: callbacks, budget + 1 =>
    some { q with
      batches := q.batches.set i ⟨callbacks, batch.completed + 1, budget⟩, invoked := q.invoked ++ [callback] }
  | _, _ => none

/-- A batch at its end, or out of budget, goes back; asserts the claim and the account. -/
def drop (i : Nat) : Option CallbackQueue := do
  let batch ← q.batches[i]?
  if batch.callbacks ≠ [] ∧ batch.budget ≠ 0 then none
  else if q.isExecuting ∧ batch.completed ≤ q.outstanding then
    some { q with
      eligible := batch.callbacks ++ q.eligible
      outstanding := q.outstanding - batch.completed
      isExecuting := false
      batches := q.batches.eraseIdx i
      returned := q.returned + batch.completed }
  else none

end CallbackQueue

/-! ## The driver -/

/-- Where `drive` is. The flag says whether work has been assigned. -/
inductive Drive
  | rest
  | assign (queue : Nat) (target : PeriodId) (has : Bool)
  | complete (has : Bool)
  | finish (period : PeriodId) (has : Bool)
  | promote (queue : Nat) (period : PeriodId) (has : Bool)
  | scan (queue : Nat) (has : Bool)
  | start
  | begin (period : PeriodId)

structure CallbackState where
  readers : Readers
  queues : Nat → CallbackQueue
  driver : Drive
  activePeriod : Option PeriodId

inductive Op
  | reader (op : ReaderOp)
  | submit (cpu node : Nat)
  | enqueueDrainMarker (cpu node : Nat)
  | drive
  | take (cpu budget : Nat)
  | invoke (cpu i : Nat)
  | drop (cpu i : Nat)

namespace CallbackState

def new (cpuCount : Nat) (participants : Nat → Bool) : CallbackState where
  readers := .new cpuCount participants
  queues _ := .new
  driver := .rest
  activePeriod := none

variable (s : CallbackState)

def cpuCount : Nat := s.readers.coordinator.cpuCount

def completed : PeriodId := s.readers.coordinator.completed

def setQueue (cpu : Nat) (q : CallbackQueue) : CallbackState := { s with queues := Function.update s.queues cpu q }

/-- The next section of the driver; `none` where an assertion fails. -/
def drive : Option CallbackState :=
  match s.driver with
  | .rest => some { s with driver := .assign 0 (s.activePeriod.elim (s.completed + 1) (· + 1)) false }
  | .assign queue target has =>
    if queue < s.cpuCount then do
      let (q, assigned) ← (s.queues queue).assignPending target
      some { s.setQueue queue q with driver := .assign (queue + 1) target (has || assigned) }
    else some { s with driver := if s.activePeriod.isSome then .complete has else .scan 0 has }
  | .complete has =>
    match s.readers.startFinalization with
    | none => some { s with driver := .rest }
    | some readers => some { s with readers, driver := .finish (s.completed + 1) has }
  | .finish period has =>
    if s.readers.coordinator.visit < s.cpuCount then do
      let readers ← s.readers.visitNode (·.finishPeriod period)
      some { s with readers }
    else do
      let readers ← s.readers.finishFinalization period
      if s.activePeriod = some period then some { s with readers, driver := .promote 0 period has } else none
  | .promote queue period has =>
    if queue < s.cpuCount then some { s.setQueue queue
      ((s.queues queue).promote period) with driver := .promote (queue + 1) period has }
    else some { s with activePeriod := none, driver := .scan 0 has }
  | .scan queue has =>
    if has then some { s with driver := .start }
    else if queue < s.cpuCount then some { s with driver := .scan (queue + 1) (s.queues queue).needsPeriod }
    else some { s with driver := .rest }
  | .start => do
    let readers ← s.readers.startInitialization
    some { s with readers, driver := .begin (s.completed + 1) }
  | .begin period =>
    if s.readers.coordinator.visit < s.cpuCount then do
      let readers ← s.readers.visitNode (·.beginPeriod period)
      some { s with readers }
    else do
      let readers ← s.readers.finishInitialization period
      some { s with readers, activePeriod := some period, driver := .rest }

def step : Op → Option CallbackState
  | .reader op => (s.readers.step op).map fun readers => { s with readers }
  | .submit cpu node =>
    if cpu < s.cpuCount then some (s.setQueue cpu
      ((s.queues cpu).submit ⟨node, false, s.readers.coordinator.started⟩)) else none
  | .enqueueDrainMarker cpu node =>
    if cpu < s.cpuCount then some (s.setQueue cpu
      ((s.queues cpu).enqueueDrainMarker ⟨node, true, s.readers.coordinator.started⟩)) else none
  | .drive => s.drive
  | .take cpu budget => if cpu < s.cpuCount then some (s.setQueue cpu ((s.queues cpu).take budget)) else none
  | .invoke cpu i => if cpu < s.cpuCount then ((s.queues cpu).invoke i).map (s.setQueue cpu) else none
  | .drop cpu i => if cpu < s.cpuCount then ((s.queues cpu).drop i).map (s.setQueue cpu) else none

end CallbackState

end XKernel.Rcu
