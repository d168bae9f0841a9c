import XKernel.Lib.Runs
import XKernel.Timer.Cpu
/-!
# The timer set

Calls on timers and the dispatch of each CPU as processes. A step is one critical section of the
owner locks, or one access outside of them: a read of the route, or of the clock. The clock may
read anything. A callback runs outside of the locks; it may rearm its timer. One dispatch at a
time serves a CPU. Beside the state of the code, the settings of each timer and what became of
them are recorded, and the clock readings of each dispatching CPU.
-/

namespace XKernel.Timer

open XKernel.Lib

def maxDispatchRounds : Nat := 3
def maxDispatchBackoffNs : UInt64 := 100000000

/-! ## Calls -/

inductive TimerRequest
  | startOn (cpu deadline : Nat)
  | startOnIfFuture (cpu deadline : Nat)
  | tryCancel
  | cancelSync
  deriving DecidableEq, Repr

/-- A request with its arguments checked. -/
inductive Work
  | arm (selectedCpu : Nat) (deadline : UInt64) (ifFuture : Bool)
  | tryCancel
  | cancelSync
  deriving DecidableEq, Repr

inductive CallResult
  | started (result : Except KError (Option (Nat × Bool)))
  | tried (result : CancelResult)
  | stopped (removed : Bool)
  deriving DecidableEq

/-- Where a call is: before it reads the route, before the lock of the CPU it read, before both
locks of a migration. -/
inductive CallPc
  | route (work : Work)
  | lock (work : Work) (owner : Nat)
  | pair (selectedCpu : Nat) (deadline : UInt64) (ifFuture : Bool) (owner : Nat)
  | returned (result : CallResult)
  deriving DecidableEq

structure TimerCall where
  timer : Nat
  request : TimerRequest
  pc : CallPc
  deriving DecidableEq

/-- The checks of `start_on` and `arm_on_checked` before any access to the timer. -/
def startPc (cpuCount cpu deadline : Nat) (ifFuture : Bool) : CallPc :=
  match Deadline.new deadline with
  | .error error => .returned (.started (.error error))
  | .ok deadline =>
    if cpu ≥ cpuCount then .returned (.started (.error .invalidInput)) else .route (.arm cpu deadline ifFuture)

def TimerRequest.first (cpuCount : Nat) : TimerRequest → CallPc
  | .startOn cpu deadline => startPc cpuCount cpu deadline false
  | .startOnIfFuture cpu deadline => startPc cpuCount cpu deadline true
  | .tryCancel => .route .tryCancel
  | .cancelSync => .route .cancelSync

/-! ## Dispatch -/

/-- The variables of a call of `dispatch_due`. -/
structure Service where
  entryNs : UInt64
  roundNs : UInt64
  round : Nat
  anyDue : Bool
  deriving DecidableEq, Repr

/-- Where the dispatch of a CPU is: before the first lock, in a callback, before it reads the
clock after a round, before the lock after that. -/
inductive DispatchPc
  | idle
  | entered (entryNs : UInt64)
  | callback (timer : Nat) (expiration : UInt64) (service : Service)
  | reading (service : Service)
  | relock (service : Service)
  | returned (anyDue : Bool)
  deriving DecidableEq, Repr

/-- The timer in delivery. -/
def DispatchPc.current : DispatchPc → Option Nat
  | .callback timer _ _ => some timer
  | _ => none

/-! ## The system -/

/-- What happens to the settings of a timer. -/
inductive TimerEvent
  | accepted (deadline : UInt64)
  | removed
  | delivered (expiration : UInt64) (cpu : Nat) (observedNs : UInt64)
  deriving DecidableEq, Repr

structure TimerSet where
  cpuCount : Nat
  cpus : Nat → CpuTimers
  nodes : Nodes
  calls : Nat → Option TimerCall
  dispatchers : Nat → DispatchPc
  /-- The events of a timer, the last one first. -/
  history : Nat → List TimerEvent
  observed : Nat → List UInt64

namespace TimerSet

/-- `TimerSet::new`, with the timers prepared for it. -/
def new (cpuCount : Nat) (nodes : Nodes) : TimerSet :=
  ⟨cpuCount, fun _ => .new, nodes, fun _ => none, fun _ => .idle, fun _ => [], fun _ => []⟩

variable (s : TimerSet)

variable (cpu : Nat)

def setCpu (timers : CpuTimers) : TimerSet := { s with cpus := Function.update s.cpus cpu timers }

def setCall (c : Nat) (call : TimerCall) (pc : CallPc) : TimerSet :=
  { s with calls := Function.update s.calls c (some { call with pc }) }

def setDispatch (pc : DispatchPc) : TimerSet := { s with dispatchers := Function.update s.dispatchers cpu pc }

def record (n : Nat) (event : TimerEvent) : TimerSet :=
  { s with history := Function.update s.history n (event :: s.history n) }

def observe (now : UInt64) : TimerSet :=
  { s with observed := Function.update s.observed cpu (now :: s.observed cpu) }

/-! ### Critical sections of calls -/

/-- `arm` under the lock of the owner. -/
def armAt (n : Nat) (deadline : UInt64) : TimerSet × Bool :=
  let (nodes, timers, added) := (s.cpus cpu).arm s.nodes n deadline
  ({ s.setCpu cpu timers with nodes }.record n (.accepted deadline), added)

/-- `try_cancel` under the lock of the owner. -/
def tryCancelAt (n : Nat) : TimerSet × CancelResult :=
  let (result, nodes, timers) := (s.cpus cpu).tryCancel s.nodes n
  let s := { s.setCpu cpu timers with nodes }
  (if result = .removed then s.record n .removed else s, result)

/-- The end of `arm_on_checked` under both locks: the timer moves to the selected CPU. -/
def migrate (owner selectedCpu n : Nat) (deadline : UInt64) : TimerSet × Bool :=
  let (result, nodes, old) := (s.cpus owner).tryCancel s.nodes n
  let (nodes, new, _) := (s.cpus selectedCpu).arm nodes n deadline
  ({ (s.setCpu owner old).setCpu selectedCpu new with nodes := nodes.setOwnerCpu n selectedCpu }.record n
    (.accepted deadline), result ≠ .removed)

/-- `accept`, with the time it reads. -/
def accept (deadline : UInt64) (ifFuture : Bool) (now : UInt64) : Bool := !ifFuture || decide (deadline > now)

/-- The critical section of the owner lock, the route found unchanged. -/
def lockedCall (c : Nat) (call : TimerCall) (work : Work) (owner : Nat) (now : UInt64) : TimerSet :=
  match work with
  | .arm selectedCpu deadline ifFuture =>
    if owner = selectedCpu ∨ (s.cpus owner).isRunning call.timer then
      if ¬ accept deadline ifFuture now then s.setCall c call (.returned (.started (.ok none)))
      else
        let (s, added) := s.armAt owner call.timer deadline
        s.setCall c call (.returned (.started (.ok (some (owner, added)))))
    else s.setCall c call (.pair selectedCpu deadline ifFuture owner)
  | .tryCancel =>
    let (s, result) := s.tryCancelAt owner call.timer
    s.setCall c call (.returned (.tried result))
  | .cancelSync =>
    let (s, result) := s.tryCancelAt owner call.timer
    match result with
    | .inactive => s.setCall c call (.returned (.stopped false))
    | .removed => s.setCall c call (.returned (.stopped true))
    | .running => s.setCall c call (.route .cancelSync)

/-- The critical section of both locks, the route found unchanged. -/
def pairedCall (c : Nat) (call : TimerCall) (selectedCpu : Nat) (deadline : UInt64) (ifFuture : Bool) (owner : Nat)
    (now : UInt64) : TimerSet :=
  if ¬ accept deadline ifFuture now then s.setCall c call (.returned (.started (.ok none)))
  else if (s.cpus owner).isRunning call.timer then
    let (s, added) := s.armAt owner call.timer deadline
    s.setCall c call (.returned (.started (.ok (some (owner, added)))))
  else
    let (s, added) := s.migrate owner selectedCpu call.timer deadline
    s.setCall c call (.returned (.started (.ok (some (selectedCpu, added)))))

/-- The next step of a call. -/
def stepCall (c : Nat) (call : TimerCall) (now : UInt64) : Option TimerSet :=
  match call.pc with
  | .route work => some (s.setCall c call (.lock work (s.nodes call.timer).ownerCpu))
  | .lock work owner =>
    if (s.nodes call.timer).ownerCpu = owner then some (s.lockedCall c call work owner now)
    else some (s.setCall c call (.route work))
  | .pair selectedCpu deadline ifFuture owner =>
    if (s.nodes call.timer).ownerCpu = owner then some (s.pairedCall c call selectedCpu deadline ifFuture owner now)
    else some (s.setCall c call (.route (.arm selectedCpu deadline ifFuture)))
  | .returned _ => none

/-! ### Critical sections of a dispatch -/

/-- `take_expired`; the callback runs next if there is a due timer, otherwise the round is over. -/
def take (service : Service) : TimerSet :=
  match (s.cpus cpu).takeExpired s.nodes service.roundNs with
  | none => s.setDispatch cpu (.reading service)
  | some ((n, expiration), nodes, timers) =>
    (({ s.setCpu cpu timers with nodes }.record n (.delivered expiration cpu service.roundNs)).setDispatch cpu
      (.callback n expiration { service with anyDue := true }))

/-- `u64::saturating_add`. -/
def saturatingAdd (a b : UInt64) : UInt64 := if a + b < a then 0xffffffffffffffff else a + b

/-- `u64::clamp`. -/
def clamp (a low high : UInt64) : UInt64 := if a < low then low else if a > high then high else a

def dispatchDelay (service : Service) : UInt64 := clamp (service.roundNs - service.entryNs) 1 maxDispatchBackoffNs

/-- The next step of a dispatch. A dispatch that is over may be followed by another one. -/
def stepDispatch (now : UInt64) : Option TimerSet :=
  match s.dispatchers cpu with
  | .idle | .returned _ =>
    -- a CPU out of range is an error, and the clock is not read
    if cpu ≥ s.cpuCount then some s else some ((s.observe cpu now).setDispatch cpu (.entered now))
  | .entered entryNs =>
    let (due, timers) := (s.cpus cpu).canDispatch s.nodes entryNs
    let s := s.setCpu cpu timers
    if ¬ due then some (s.setDispatch cpu (.returned false)) else some (s.take cpu ⟨entryNs, entryNs, 0, false⟩)
  | .callback timer _ service => do
    let timers ← (s.cpus cpu).clearRunning timer
    some ((s.setCpu cpu timers).take cpu service)
  | .reading service => some ((s.observe cpu now).setDispatch cpu (.relock { service with roundNs := now }))
  | .relock service =>
    let (due, timers) := (s.cpus cpu).canDispatch s.nodes service.roundNs
    let s := s.setCpu cpu timers
    if ¬ due then some (s.setDispatch cpu (.returned service.anyDue))
    else if service.round + 1 = maxDispatchRounds then
      some ((s.setCpu cpu (timers.deferDispatchUntil
        (saturatingAdd service.roundNs (dispatchDelay service)))).setDispatch cpu (.returned service.anyDue))
    else some (s.take cpu { service with round := service.round + 1 })

/-- `TimerControl::rearm` in the callback that the CPU runs. -/
def rearm (deadline : Nat) : Option TimerSet :=
  match s.dispatchers cpu with
  | .callback timer _ _ =>
    match Deadline.new deadline with
    | .error _ => some s
    | .ok deadline => some (s.armAt cpu timer deadline).1
  | _ => none

end TimerSet

inductive TimerOp
  | call (c timer : Nat) (request : TimerRequest)
  | step (c : Nat) (now : UInt64)
  | dispatch (cpu : Nat) (now : UInt64)
  | rearm (cpu deadline : Nat)

namespace TimerSet

def step (s : TimerSet) : TimerOp → Option TimerSet
  | .call c timer request =>
    if (s.calls c).isSome then none
    else some { s with calls := Function.update s.calls c (some ⟨timer, request, request.first s.cpuCount⟩) }
  | .step c now => do s.stepCall c (← s.calls c) now
  | .dispatch cpu now => s.stepDispatch cpu now
  | .rearm cpu deadline => s.rearm cpu deadline

end TimerSet

end XKernel.Timer
