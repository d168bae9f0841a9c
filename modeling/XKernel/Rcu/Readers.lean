import XKernel.Lib.Runs
/-!
# RCU readers and grace periods

Reader nodes, the tasks that read, and the coordinator, as one state that changes by the sections
of the node locks and of the coordinator's lock. A report leaves the node in one section and reaches
the coordinator in a later one; the CPU that carries it is watched, and takes neither a switch nor
an interrupt in between. Periods are counted beside their wrapping identities, and a scope remembers
how many periods had started when it was entered.
-/

namespace XKernel.Rcu

abbrev PeriodId := UInt64

/-! ## Reader nodes -/

structure NodePeriod where
  id : PeriodId
  firstBlocker : Option Nat
  watchingSnapshot : Option UInt64

/-- The identity, if no reader blocks the period. -/
def NodePeriod.unblocked (period : NodePeriod) : Option PeriodId :=
  if period.firstBlocker.isNone then some period.id else none

/-- The reader behind `t` in the list. -/
def next (t : Nat) : List Nat → Option Nat
  | [] => none
  | r :: readers => if r = t then readers.head? else next t readers

structure ReaderNode where
  readers : List Nat
  period : Option NodePeriod
  cpuPending : Bool

namespace ReaderNode

def new : ReaderNode := ⟨[], none, false⟩

variable (node : ReaderNode)

/-- The period that waits for an observation of the CPU. -/
def unobserved : Option NodePeriod := if node.cpuPending then node.period else none

def enrollLocked (t : Nat) : ReaderNode :=
  match node.unobserved with
  | some period =>
    { node with
      readers := node.readers ++ [t], period := some { period with firstBlocker := period.firstBlocker.or (some t) } }
  | none => { node with readers := t :: node.readers }

/-- Asserts that the reader is in the list. -/
def remove (t : Nat) : Option ReaderNode :=
  if t ∈ node.readers then
    some { node with
      readers := node.readers.erase t
      period := node.period.map fun period =>
        if period.firstBlocker = some t then { period with firstBlocker := next t node.readers } else period }
  else none

def beginPeriod (id : PeriodId) : Option ReaderNode :=
  if node.period.isSome then none
  else some { node with period := some ⟨id, node.readers.head?, none⟩, cpuPending := true }

def observeWatching (observed : UInt64) : ReaderNode × Option PeriodId :=
  match node.unobserved with
  | none => (node, none)
  | some period =>
    if observed &&& 1 ≠ 0 ∧ ¬ period.watchingSnapshot.any (· ≠ observed) then
      ({ node with period := some { period with watchingSnapshot := some observed } }, none)
    else ({ node with cpuPending := false }, period.unblocked)

def noteContextSwitch (t : Nat) (needsEnrollment : Bool) : ReaderNode × Option PeriodId :=
  let node := if needsEnrollment then node.enrollLocked t else node
  match node.unobserved with
  | none => (node, none)
  | some period => ({ node with cpuPending := false }, period.unblocked)

def readyPeriod : Option PeriodId := if node.cpuPending then none else node.period.bind NodePeriod.unblocked

def finishPeriod (id : PeriodId) : Option ReaderNode :=
  if node.readyPeriod = some id then some { node with period := none } else none

end ReaderNode

/-! ## Tasks and CPUs -/

structure ReadGuard where
  canUnlinkOnExit : Bool
  /-- The number of periods that had started. -/
  since : Nat

structure TaskReader where
  /-- The scopes, the innermost first; their number is `nesting`. -/
  guards : List ReadGuard
  owner : Option Nat
  /-- In `remove_enrollment`, after the last scope or after the task's end. -/
  unlinking : Bool
  exited : Bool

inductive Phase
  | idle
  | initializing
  | waiting
  | finalizing
  deriving DecidableEq

structure GracePeriodCoordinator where
  cpuCount : Nat
  participants : Nat → Bool
  completed : PeriodId
  phase : Phase
  pending : Nat → Bool
  /-- The next CPU in the loop of the initializer or finalizer. -/
  visit : Nat
  started : Nat
  finished : Nat

/-- A node's report on the way to the coordinator, with the number of its period. -/
structure Report where
  cpu : Nat
  period : PeriodId
  number : Nat

structure Readers where
  tasks : Nat → TaskReader
  nodes : Nat → ReaderNode
  /-- Odd while the CPU is watched. -/
  sequence : Nat → UInt64
  current : Nat → Option Nat
  /-- Between the note of the outgoing task and the switch. -/
  switching : Nat → Bool
  /-- The report that the CPU carries. -/
  reporting : Nat → Option Report
  coordinator : GracePeriodCoordinator

inductive ReaderOp
  | enter (cpu : Nat) (canUnlinkOnExit : Bool)
  | leave (cpu : Nat)
  | unlink (t : Nat)
  | cleanup (cpu : Nat)
  | exit (t : Nat)
  | noteContextSwitch (cpu : Nat)
  | switchTo (cpu : Nat) (t : Option Nat)
  | crossBoundary (cpu : Nat)
  | observeWatching (reporter cpu : Nat)
  | reportNode (reporter cpu : Nat)
  | acceptReport (reporter : Nat)

def GracePeriodCoordinator.new (cpuCount : Nat) (participants : Nat → Bool) : GracePeriodCoordinator :=
  ⟨cpuCount, participants, 0, .idle, fun _ => false, 0, 0, 0⟩

def GracePeriodCoordinator.isParticipant (k : GracePeriodCoordinator) (cpu : Nat) : Bool :=
  cpu < k.cpuCount && k.participants cpu

def GracePeriodCoordinator.acceptReport (k : GracePeriodCoordinator) (report : Report) : GracePeriodCoordinator :=
  if (k.phase = .initializing ∨ k.phase = .waiting) ∧ k.completed + 1 = report.period ∧ k.pending report.cpu then
    { k with pending := Function.update k.pending report.cpu false }
  else k

namespace Readers

def new (cpuCount : Nat) (participants : Nat → Bool) : Readers where
  tasks _ := ⟨[], none, false, false⟩
  nodes _ := .new
  sequence _ := 1
  current _ := none
  switching _ := false
  reporting _ := none
  coordinator := .new cpuCount participants

variable (s : Readers)

def isParticipant (cpu : Nat) : Bool := s.coordinator.isParticipant cpu

def isWatching (cpu : Nat) : Bool := s.sequence cpu &&& 1 ≠ 0

def setTask (t : Nat) (task : TaskReader) : Readers := { s with tasks := Function.update s.tasks t task }

def setNode (cpu : Nat) (node : ReaderNode) : Readers := { s with nodes := Function.update s.nodes cpu node }

/-- What a node section returned goes on to the coordinator. -/
def send (reporter cpu : Nat) (period : Option PeriodId) : Readers :=
  { s with
    reporting := Function.update s.reporting reporter (period.map fun period => ⟨cpu, period, s.coordinator.started⟩) }

def removeEnrollment (t : Nat) : Option Readers :=
  match (s.tasks t).owner with
  | none => some s
  | some cpu => do
    let node ← (s.nodes cpu).remove t
    some ((s.setNode cpu node).setTask t { s.tasks t with owner := none })

/-- The task that runs its own code on a watched CPU. -/
def running (cpu : Nat) : Option Nat :=
  if s.isParticipant cpu && s.isWatching cpu && !s.switching cpu then s.current cpu else none

/-- A watched CPU that carries no report. -/
def canReport (cpu : Nat) : Bool := s.isParticipant cpu && s.isWatching cpu && (s.reporting cpu).isNone

/-- One step of a task, of a CPU or of a reporter. -/
def step : ReaderOp → Option Readers
  | .enter cpu canUnlinkOnExit => do
    let t ← s.running cpu
    let task := s.tasks t
    -- only an interrupt, whose scopes do not unlink, can come during the unlinking; `nesting` must not overflow
    if task.unlinking && canUnlinkOnExit ∨ task.guards.length + 1 = 2 ^ 64 then none
    else some (s.setTask t { task with guards := ⟨canUnlinkOnExit, s.coordinator.started⟩ :: task.guards })
  | .leave cpu => do
    let t ← s.running cpu
    let task := s.tasks t
    match task.guards with
    | [] => none
    | guard :: guards =>
      some (s.setTask t { task with guards, unlinking := task.unlinking || guards.isEmpty && guard.canUnlinkOnExit })
  | .unlink t =>
    if (s.tasks t).unlinking && (s.tasks t).guards.isEmpty then do
      let s ← s.removeEnrollment t
      some (s.setTask t { s.tasks t with unlinking := false })
    else none
  | .cleanup cpu => do
    let t ← s.running cpu
    if (s.tasks t).guards.isEmpty then s.removeEnrollment t else some s
  | .exit t =>
    if (List.range s.coordinator.cpuCount).any (fun cpu => s.current cpu = some t) then none
    else some (s.setTask t { s.tasks t with guards := [], unlinking := true, exited := true })
  | .noteContextSwitch cpu =>
    if s.canReport cpu && !s.switching cpu then
      let s := { s with switching := Function.update s.switching cpu true }
      match s.current cpu with
      | none => some s
      | some t =>
        let task := s.tasks t
        let needsEnrollment := !task.guards.isEmpty && task.owner.isNone
        let (node, period) := (s.nodes cpu).noteContextSwitch t needsEnrollment
        let s := if needsEnrollment then s.setTask t { task with owner := some cpu } else s
        some ((s.setNode cpu node).send cpu cpu period)
    else none
  | .switchTo cpu t =>
    if s.switching cpu && (s.reporting cpu).isNone && t.all (fun t => !(s.tasks t).exited &&
        (List.range s.coordinator.cpuCount).all fun other => other = cpu || s.current other ≠ some t) then
      some { s with current := Function.update s.current cpu t, switching := Function.update s.switching cpu false }
    else none
  | .crossBoundary cpu =>
    -- no read scope is active outside of watching
    if s.switching cpu || (s.reporting cpu).isSome || (s.current cpu).any (fun t => !(s.tasks t).guards.isEmpty)
    then none
    else some { s with sequence := Function.update s.sequence cpu (s.sequence cpu + 1) }
  | .observeWatching reporter cpu =>
    if s.canReport reporter && s.isParticipant cpu then
      let (node, period) := (s.nodes cpu).observeWatching (s.sequence cpu)
      some ((s.setNode cpu node).send reporter cpu period)
    else none
  | .reportNode reporter cpu =>
    if s.canReport reporter && s.isParticipant cpu then some (s.send reporter cpu (s.nodes cpu).readyPeriod) else none
  | .acceptReport reporter => do
    let report ← s.reporting reporter
    some { s with
      reporting := Function.update s.reporting reporter none, coordinator := s.coordinator.acceptReport report }

/-! ## The coordinator's control of periods -/

def startInitialization : Option Readers :=
  let k := s.coordinator
  if k.phase = .idle then
    some { s with coordinator := { k with
      phase := .initializing, pending := k.isParticipant, visit := 0, started := k.started + 1 } }
  else none

/-- One round of the loop over the participating nodes. -/
def visitNode (node : ReaderNode → Option ReaderNode) : Option Readers := do
  let k := s.coordinator
  let s ← if k.isParticipant k.visit then (node (s.nodes k.visit)).map (s.setNode k.visit) else some s
  some { s with coordinator := { k with visit := k.visit + 1 } }

def finishInitialization (period : PeriodId) : Option Readers :=
  let k := s.coordinator
  if k.phase = .initializing ∧ k.completed + 1 = period then
    some { s with coordinator := { k with phase := .waiting } } else none

def startFinalization : Option Readers :=
  let k := s.coordinator
  if k.phase ≠ .waiting ∨ (List.range k.cpuCount).any k.pending then none
  else some { s with coordinator := { k with phase := .finalizing, visit := 0 } }

def finishFinalization (period : PeriodId) : Option Readers :=
  let k := s.coordinator
  if k.phase = .finalizing ∧ k.completed + 1 = period then
    some { s with coordinator := { k with completed := period, phase := .idle, finished := k.finished + 1 } }
  else none

end Readers

end XKernel.Rcu
