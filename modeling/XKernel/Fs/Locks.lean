import XKernel.Lib.Runs
/-!
# Advisory file locks (`kvfs`, `locks.rs` and `locks/node.rs`)

An installed lock is owned by the list it is in, and its range is read and changed
through that list only, so an entry of a list holds its record. All waiting relations
are in the nodes and stand under one global mutex; a node is known by its address,
which is a fresh number here and never used again. A blocker is held weakly in the
source, and its upgrade never fails: it is an installed lock, or the request of a
task that has not left `apply`.

A step of the system is a critical section: `try_apply`, one turn of
`WakeQueue::wake`, `poll_wait` and `cancel_waiter`. A failed assertion and a loop that
does not end are `none`.
-/

namespace XKernel.Locks

open XKernel.Lib Function List Option

/-! ## Requests -/

inductive FileLockOwner where
  | posix (id : Nat)
  | ofd (id : Nat)
  | flock (id : Nat)
  deriving DecidableEq, Repr

namespace FileLockOwner

def isPosix : FileLockOwner → Bool
  | posix _ => true
  | _ => false

def isFlock : FileLockOwner → Bool
  | flock _ => true
  | _ => false

/-- The derived order: by variant, then by address. -/
def before : FileLockOwner → FileLockOwner → Bool
  | posix a, posix b => a < b
  | posix _, _ => true
  | ofd a, ofd b => a < b
  | ofd _, flock _ => true
  | flock a, flock b => a < b
  | _, _ => false

end FileLockOwner

inductive FileLockType where
  | read
  | write
  | unlock
  deriving DecidableEq, Repr

inductive KError where
  | invalidInput
  | wouldBlock
  | overflow
  | deadlock
  | restartSys
  deriving DecidableEq, Repr

/-- `i64::MAX`. -/
def i64Max : Int := 2 ^ 63 - 1

/-- `start` and `stop` are `bounds`, both inclusive. -/
structure FileLock where
  owner : FileLockOwner
  kind : FileLockType
  start : Int
  stop : Int
  pid : Int
  deriving DecidableEq, Repr

namespace FileLock

def new (owner : FileLockOwner) (pid : Int) (kind : FileLockType) (start length : Int) : Except KError FileLock :=
  if start < 0 then .error .invalidInput
  else if 0 < length then
    if start + (length - 1) ≤ i64Max then .ok ⟨owner, kind, start, start + (length - 1), pid⟩ else .error .overflow
  else if length < 0 then
    if 0 ≤ start + length then .ok ⟨owner, kind, start + length, start - 1, pid⟩ else .error .invalidInput
  else .ok ⟨owner, kind, start, i64Max, pid⟩

def unlock (owner : FileLockOwner) : FileLock := ⟨owner, .unlock, 0, i64Max, 0⟩

def overlaps (a b : FileLock) : Bool := a.start ≤ b.stop && b.start ≤ a.stop

def conflictsWith (a b : FileLock) : Bool :=
  a.owner != b.owner && a.overlaps b && (a.kind == .write || b.kind == .write)

/-- A range of file offsets; a BSD lock is always on the whole file. -/
structure Valid (r : FileLock) : Prop where
  lo : 0 ≤ r.start
  le : r.start ≤ r.stop
  hi : r.stop ≤ i64Max
  flock : r.owner.isFlock = true → r.start = 0 ∧ r.stop = i64Max

instance (r : FileLock) : Decidable r.Valid :=
  decidable_of_iff (0 ≤ r.start ∧ r.start ≤ r.stop ∧ r.stop ≤ i64Max ∧
      (r.owner.isFlock = true → r.start = 0 ∧ r.stop = i64Max))
    ⟨fun ⟨h1, h2, h3, h4⟩ => ⟨h1, h2, h3, h4⟩, fun h => ⟨h.lo, h.le, h.hi, h.flock⟩⟩

/-- Every record-lock request is a range of file offsets. -/
theorem new_valid {owner : FileLockOwner} {pid : Int} {kind : FileLockType} {start length : Int} {r : FileLock}
    (hs : start ≤ i64Max) (ho : owner.isFlock = false) (h : new owner pid kind start length = .ok r) : r.Valid := by
  unfold new at h
  split at h
  · cases h
  split at h
  · split at h
    · cases h
      refine ⟨by simp only; omega, by simp only; omega, by assumption, fun hf => ?_⟩
      rw [ho] at hf
      cases hf
    · cases h
  split at h
  · split at h
    · cases h
      refine ⟨by assumption, by simp only; omega, by simp only; omega, fun hf => ?_⟩
      rw [ho] at hf
      cases hf
    · cases h
  · cases h
    refine ⟨by simp only; omega, hs, le_rfl, fun hf => ?_⟩
    rw [ho] at hf
    cases hf

end FileLock

/-! ## The wait tree -/

abbrev NodeId := Nat

abbrev TaskId := Nat

/-- `record` is what the node was made of; only for a request it is read through the node. -/
structure LockNode where
  record : FileLock
  blocker : Option NodeId
  requests : List NodeId
  /-- The task whose waker is registered. -/
  wait : Option TaskId
  waiterCount : Nat

def LockNode.new (record : FileLock) : LockNode := ⟨record, none, [], none, 0⟩

/-- The nodes and `BLOCKED_OWNERS`, the blocked requests of each owner. -/
structure WaitTree where
  nodes : NodeId → LockNode
  next : NodeId
  blockedOwners : FileLockOwner → List NodeId

/-- The tree together with the `WakeQueue` of the task that changes it. -/
structure Waits where
  tree : WaitTree
  wake : List NodeId

namespace WaitTree

def modify (t : WaitTree) (n : NodeId) (f : LockNode → LockNode) : WaitTree :=
  { t with nodes := Function.update t.nodes n (f (t.nodes n)) }

/-- A new node, at a new address. -/
def alloc (t : WaitTree) (record : FileLock) : NodeId × WaitTree :=
  (t.next, { t with nodes := Function.update t.nodes t.next (.new record), next := t.next + 1 })

def insertBlockedOwner (t : WaitTree) (w : NodeId) : WaitTree :=
  let owner := (t.nodes w).record.owner
  { t with blockedOwners := Function.update t.blockedOwners owner (w :: (t.blockedOwners owner).erase w) }

def removeBlockedOwner (t : WaitTree) (w : NodeId) : WaitTree :=
  let owner := (t.nodes w).record.owner
  { t with blockedOwners := Function.update t.blockedOwners owner ((t.blockedOwners owner).erase w) }

/-- The first request of a list leaves it; `note_pop` counts it out. -/
def popRequest (t : WaitTree) (n : NodeId) (rest : List NodeId) : WaitTree :=
  t.modify n fun node => { node with requests := rest, waiterCount := node.waiterCount - 1 }

def pushRequest (t : WaitTree) (n w : NodeId) : WaitTree :=
  t.modify n fun node => { node with requests := node.requests ++ [w], waiterCount := node.waiterCount + 1 }

def setBlocker (t : WaitTree) (w : NodeId) (b : Option NodeId) : WaitTree :=
  t.modify w fun node => { node with blocker := b }

def setWait (t : WaitTree) (w : NodeId) (task : Option TaskId) : WaitTree :=
  t.modify w fun node => { node with wait := task }

/-- The end of a chain of blockers, within a number of turns. -/
def rootOf (t : WaitTree) : Nat → NodeId → Option NodeId
  | 0, _ => none
  | turns + 1, w =>
    match (t.nodes w).blocker with
    | some next => rootOf t turns next
    | none => some w

end WaitTree

namespace Waits

/-- The loop of `wake_blocked` over the requests of the node. -/
def wakeLoop (n : NodeId) : List NodeId → Waits → Waits
  | [], s => s
  | w :: rest, s =>
    let tree := ((s.tree.popRequest n rest).setBlocker w none).removeBlockedOwner w
    wakeLoop n rest ⟨tree, if (tree.nodes w).wait.isSome then s.wake ++ [w] else s.wake⟩

def wakeBlocked (n : NodeId) (s : Waits) : Waits := wakeLoop n (s.tree.nodes n).requests s

/-- The loop of `move_blocked`. -/
def moveLoop (n target : NodeId) : List NodeId → WaitTree → WaitTree
  | [], t => t
  | w :: rest, t => moveLoop n target rest (((t.popRequest n rest).setBlocker w (some target)).pushRequest target w)

def moveBlocked (n target : NodeId) (s : Waits) : Waits :=
  { s with tree := moveLoop n target (s.tree.nodes n).requests s.tree }

def detachBlocked (n : NodeId) (s : Waits) : Waits :=
  if (s.tree.nodes n).waiterCount = 0 then s else wakeBlocked n s

end Waits

/-- One owner after another, at most `turns` of them; `addr` gives the addresses, by which the requests of an owner
are ordered. -/
def hasDeadlockLoop (addr : NodeId → Nat) (t : WaitTree) (request : FileLock) : Nat → FileLockOwner → Option Bool
  | 0, _ => some false
  | turns + 1, owner =>
    match (t.blockedOwners owner).argmin addr with
    | none => some false
    | some waiter => do
      let root ← t.rootOf (t.next + 1) waiter
      if (t.nodes root).record.owner = request.owner then some true
      else hasDeadlockLoop addr t request turns (t.nodes root).record.owner

variable (addr : NodeId → Nat) (request : FileLock)

def hasDeadlock (t : WaitTree) (request : FileLock) (owner : FileLockOwner) : Option Bool :=
  if !request.owner.isPosix then some false else hasDeadlockLoop addr t request 11 owner

/-- The loop of `block_on`: down to a node none of whose requests conflicts. -/
def descend (t : WaitTree) (request : FileLock) : Nat → NodeId → Option NodeId
  | 0, _ => none
  | turns + 1, blocker =>
    match (t.nodes blocker).requests.find? fun other => request.conflictsWith (t.nodes other).record with
    | some next => descend t request turns next
    | none => some blocker

namespace Waits

def blockOn (addr : NodeId → Nat) (self blocker : NodeId) (s : Waits) : Option (Except KError Unit × Waits) :=
  if (s.tree.nodes self).blocker.isNone && (s.tree.nodes self).wait.isNone then do
    let s := s.wakeBlocked self
    let request := (s.tree.nodes self).record
    let dead ← hasDeadlock addr s.tree request (s.tree.nodes blocker).record.owner
    if dead then some (.error .deadlock, s)
    else do
      let blocker ← descend s.tree request (s.tree.next + 1) blocker
      let tree := (s.tree.setBlocker self (some blocker)).pushRequest blocker self
      -- the index follows the actual blocker
      let tree := if (tree.nodes blocker).record.owner.isPosix then tree.insertBlockedOwner self else tree
      some (.ok (), { s with tree })
  else none

def cancelWaiter (self : NodeId) (s : Waits) : Waits :=
  let tree :=
    match (s.tree.nodes self).blocker with
    | some parent =>
      let tree := s.tree.setBlocker self none
      let tree := tree.modify parent fun node =>
        { node with requests := node.requests.erase self, waiterCount := node.waiterCount - 1 }
      tree.setWait self none
    | none => s.tree
  wakeBlocked self { s with tree := tree.removeBlockedOwner self }

end Waits

/-! ## The lists of an inode -/

structure OwnedLock where
  id : NodeId
  record : FileLock
  deriving DecidableEq, Repr

def OwnedLock.setBounds (l : OwnedLock) (start stop : Int) : OwnedLock :=
  { l with record := { l.record with start, stop } }

structure FileLockLists where
  posix : List OwnedLock
  flock : List OwnedLock

def removeOwner (owner : FileLockOwner) : List OwnedLock → Waits → List OwnedLock × Waits
  | [], s => ([], s)
  | lock :: list, s =>
    if lock.record.owner = owner then removeOwner owner list (s.detachBlocked lock.id)
    else
      let (rest, s) := removeOwner owner list s
      (lock :: rest, s)

theorem removeOwner_list (o : FileLockOwner) (list : List OwnedLock) (w : Waits) :
    (removeOwner o list w).1 = list.filter fun l => l.record.owner ≠ o := by
  induction list generalizing w with
  | nil => rfl
  | cons lock list ih =>
    unfold removeOwner
    by_cases ho : lock.record.owner = o
    · rw [if_pos ho, ih, filter_cons_of_neg (by simpa using ho)]
    · rw [if_neg ho, filter_cons_of_pos (by simpa using ho), ← ih w]

/-- The variables of the loop of `update`. -/
structure Update where
  start : Int
  stop : Int
  remaining : List OwnedLock
  merged : Option OwnedLock
  waits : Waits

def updateLoop (request : FileLock) : List OwnedLock → Update → Update
  | [], u => u
  | lock :: list, u =>
    let record := lock.record
    if record.owner ≠ request.owner then updateLoop request list { u with remaining := u.remaining ++ [lock] }
    else if record.kind = request.kind ∧ record.stop ≥ u.start - 1 ∧ record.start - 1 ≤ u.stop then
      let grown := { u with start := min u.start record.start, stop := max u.stop record.stop }
      match u.merged with
      | none => updateLoop request list { grown with merged := some lock }
      | some _ => updateLoop request list { grown with waits := u.waits.detachBlocked lock.id }
    else if record.start ≤ u.stop ∧ u.start ≤ record.stop then
      let waits := u.waits.detachBlocked lock.id
      if record.start < u.start ∧ u.stop < record.stop then
        let right := { record with start := u.stop + 1 }
        let (id, tree) := waits.tree.alloc right
        -- the rest of the list is taken over as it is
        { u with
          remaining := u.remaining ++ [lock.setBounds record.start (u.start - 1), ⟨id, right⟩] ++ list
          waits := { waits with tree } }
      else if record.start < u.start then
        updateLoop request list
          { u with remaining := u.remaining ++ [lock.setBounds record.start (u.start - 1)], waits }
      else if u.stop < record.stop then
        updateLoop request list
          { u with remaining := u.remaining ++ [lock.setBounds (u.stop + 1) record.stop], waits }
      else updateLoop request list { u with waits }
    else updateLoop request list { u with remaining := u.remaining ++ [lock] }

/-- The order of a list: by owner, then by start. -/
def FileLock.keyBefore (a b : FileLock) : Bool := a.owner.before b.owner || (a.owner == b.owner && a.start < b.start)

def install (list : List OwnedLock) (lock : OwnedLock) : List OwnedLock :=
  list.takeWhile (·.record.keyBefore lock.record) ++ lock :: list.dropWhile (·.record.keyBefore lock.record)

/-- `accept_waiters`, if there is a request that waited. -/
def acceptWaiters (waiter : Option NodeId) (target : NodeId) (s : Waits) : Waits :=
  match waiter with
  | some w => s.moveBlocked w target
  | none => s

def update (waiter : Option NodeId) (list : List OwnedLock) (s : Waits) : List OwnedLock × Waits :=
  let u := updateLoop request list ⟨request.start, request.stop, [], none, s⟩
  if request.kind ≠ .unlock then
    match u.merged with
    | some lock =>
      let lock := lock.setBounds u.start u.stop
      (install u.remaining lock, acceptWaiters waiter lock.id u.waits)
    | none =>
      let record := { request with start := u.start, stop := u.stop }
      let (id, tree) := u.waits.tree.alloc record
      (install u.remaining ⟨id, record⟩, acceptWaiters waiter id { u.waits with tree })
  else (u.remaining, u.waits)

/-! ## Applying a request -/

/-- What `try_apply` returns, and what it leaves behind. -/
structure Tried where
  result : Except KError Bool
  list : List OwnedLock
  waiter : Option NodeId
  waits : Waits

/-- The part of `try_apply` after the conversion of BSD locks. -/
def tryRecord (isBlocking : Bool) (list : List OwnedLock) (waiter : Option NodeId) (s : Waits) : Option Tried :=
  if request.kind = .unlock ∧ request.start = 0 ∧ request.stop = i64Max then
    let (list, s) := removeOwner request.owner list s
    some ⟨.ok false, list, waiter, s⟩
  else
    match if request.kind = .unlock then none else list.find? fun lock => request.conflictsWith lock.record with
    | some lock =>
      if !isBlocking then some ⟨.error .wouldBlock, list, waiter, s⟩
      else do
        let (w, s) := match waiter with
          | some w => (w, s)
          | none => ((s.tree.alloc request).1, { s with tree := (s.tree.alloc request).2 })
        let (res, s) ← s.blockOn addr w lock.id
        match res with
        | .ok () => some ⟨.ok true, list, some w, s⟩
        | .error e => some ⟨.error e, list, some w, s⟩
    | none =>
      match list.find? fun lock => lock.record.owner = request.owner ∧ lock.record.kind = request.kind ∧
          lock.record.start ≤ request.start ∧ request.stop ≤ lock.record.stop with
      | some lock => some ⟨.ok false, list, waiter, acceptWaiters waiter lock.id s⟩
      | none =>
        let (list, s) := update request waiter list s
        some ⟨.ok false, list, waiter, s⟩

/-- `try_apply` on the list of the request's domain. -/
def tryList (isBlocking : Bool) (list : List OwnedLock) (waiter : Option NodeId) (s : Waits) : Option Tried :=
  if request.owner.isFlock then
    match list.find? fun lock => lock.record.owner = request.owner ∧ lock.record.kind = request.kind with
    | some lock => some ⟨.ok false, list, waiter, acceptWaiters waiter lock.id s⟩
    | none =>
      let (list, s) := removeOwner request.owner list s
      tryRecord addr request isBlocking list waiter s
  else tryRecord addr request isBlocking list waiter s

namespace FileLockLists

def domain (l : FileLockLists) (owner : FileLockOwner) : List OwnedLock := if owner.isFlock then l.flock else l.posix

def setDomain (l : FileLockLists) (owner : FileLockOwner) (list : List OwnedLock) : FileLockLists :=
  if owner.isFlock then { l with flock := list } else { l with posix := list }

end FileLockLists

/-! ## Tasks in `apply` -/

inductive Stage where
  /-- About to call `try_apply`. -/
  | attempt
  /-- `wake.wake()` after `try_apply`. -/
  | drain (result : Except KError Bool)
  /-- In `wait_interruptible`; `parked` until a waker is called. -/
  | wait (parked : Bool)
  /-- `wake.wake()` after `cancel_waiter`. -/
  | leave

structure Apply where
  inode : Nat
  request : FileLock
  isBlocking : Bool
  waiter : Option NodeId
  wake : List NodeId
  stage : Stage

structure State where
  inodes : Nat → FileLockLists
  tree : WaitTree
  tasks : TaskId → Option Apply

def State.init : State where
  inodes := fun _ => ⟨[], []⟩
  tree := ⟨fun _ => .new (.unlock (.posix 0)), 0, fun _ => []⟩
  tasks := fun _ => none

inductive Op where
  | apply (task : TaskId) (inode : Nat) (request : FileLock) (isBlocking : Bool)
  | tryApply (task : TaskId)
  | wake (task : TaskId)
  | resume (task : TaskId)
  | pollWait (task : TaskId)
  | interrupt (task : TaskId)

namespace State

def setTask (s : State) (task : TaskId) (a : Option Apply) : State :=
  { s with tasks := Function.update s.tasks task a }

theorem setTask_tasks (s : State) (task u : TaskId) (a : Option Apply) :
    (s.setTask task a).tasks u = if u = task then a else s.tasks u := update_apply ..

/-- `waker.wake()`: a parked task polls again. -/
def unpark (s : State) : Option TaskId → State
  | none => s
  | some task =>
    match s.tasks task with
    | some a =>
      match a.stage with
      | .wait _ => s.setTask task (some { a with stage := .wait false })
      | _ => s
    | none => s

def setWaits (s : State) (task : TaskId) (a : Apply) (w : Waits) (stage : Stage) : State :=
  { s with tree := w.tree }.setTask task (some { a with wake := w.wake, stage })

end State

/-- One step of one task; `none` also where the task is not at that point. -/
def step (s : State) : Op → Option State
  | .apply task inode request isBlocking =>
    match s.tasks task with
    | none => some (s.setTask task (some ⟨inode, request, isBlocking, none, [], .attempt⟩))
    | some _ => none
  | .tryApply task => do
    let a ← s.tasks task
    match a.stage with
    | .attempt => do
      let lists := s.inodes a.inode
      let r ← tryList addr a.request a.isBlocking (lists.domain a.request.owner) a.waiter ⟨s.tree, a.wake⟩
      let s' := { s with inodes := Function.update s.inodes a.inode (lists.setDomain a.request.owner r.list) }
      some (s'.setWaits task { a with waiter := r.waiter } r.waits (.drain r.result))
    | _ => none
  | .wake task => do
    let a ← s.tasks task
    match a.stage, a.wake with
    | .drain _, w :: rest | .leave, w :: rest =>
      let s' := s.setTask task (some { a with wake := rest })
      some ({ s' with tree := s.tree.setWait w none }.unpark (s.tree.nodes w).wait)
    | _, _ => none
  | .resume task => do
    let a ← s.tasks task
    match a.stage, a.wake with
    | .drain (.ok true), [] => some (s.setTask task (some { a with stage := .wait false }))
    | .drain _, [] =>
      match a.waiter with
      | some w => some (s.setWaits task a (Waits.cancelWaiter w ⟨s.tree, []⟩) .leave)
      | none => some (s.setTask task none)
    | .leave, [] => some (s.setTask task none)
    | _, _ => none
  | .pollWait task => do
    let a ← s.tasks task
    match a.stage, a.waiter with
    | .wait _, some w =>
      let node := s.tree.nodes w
      if node.blocker.isNone && node.wait.isNone then some (s.setTask task (some { a with stage := .attempt }))
      else some ({ s with tree := s.tree.setWait w (some task) }.setTask task (some { a with stage := .wait true }))
    | _, _ => none
  | .interrupt task => do
    let a ← s.tasks task
    match a.stage, a.waiter with
    | .wait _, some w => some (s.setWaits task a (Waits.cancelWaiter w ⟨s.tree, a.wake⟩) .leave)
    | _, _ => none

/-- What a step can do. -/
inductive Step (addr : NodeId → Nat) (s : State) : Op → State → Prop
  | call {task inode request isBlocking} (h : s.tasks task = none) :
    Step addr s (.apply task inode request isBlocking)
      (s.setTask task (some ⟨inode, request, isBlocking, none, [], .attempt⟩))
  | tried {task a r} (h : s.tasks task = some a) (hs : a.stage = .attempt)
      (hr : tryList addr a.request a.isBlocking ((s.inodes a.inode).domain a.request.owner) a.waiter ⟨s.tree, a.wake⟩ =
        some r) :
    Step addr s (.tryApply task)
      ({ s with
        inodes := Function.update s.inodes a.inode ((s.inodes a.inode).setDomain a.request.owner r.list) }.setWaits task
        { a with waiter := r.waiter } r.waits (.drain r.result))
  | woke {task a w rest} (h : s.tasks task = some a) (hs : (∃ r, a.stage = .drain r) ∨ a.stage = .leave)
      (hw : a.wake = w :: rest) :
    Step addr s (.wake task)
      ({ s.setTask task (some { a with wake := rest }) with tree := s.tree.setWait w none }.unpark
        (s.tree.nodes w).wait)
  | sleep {task a} (h : s.tasks task = some a) (hs : a.stage = .drain (.ok true)) (hw : a.wake = []) :
    Step addr s (.resume task) (s.setTask task (some { a with stage := .wait false }))
  | cancelled {task a r w} (h : s.tasks task = some a) (hs : a.stage = .drain r) (hr : r ≠ .ok true) (hw : a.wake = [])
      (hn : a.waiter = some w) :
    Step addr s (.resume task) (s.setWaits task a (Waits.cancelWaiter w ⟨s.tree, []⟩) .leave)
  | left {task a} (h : s.tasks task = some a) (hs : (∃ r, a.stage = .drain r ∧ r ≠ .ok true ∧ a.waiter = none) ∨
      a.stage = .leave) (hw : a.wake = []) :
    Step addr s (.resume task) (s.setTask task none)
  | ready {task a p w} (h : s.tasks task = some a) (hs : a.stage = .wait p) (hn : a.waiter = some w)
      (hb : (s.tree.nodes w).blocker = none ∧ (s.tree.nodes w).wait = none) :
    Step addr s (.pollWait task) (s.setTask task (some { a with stage := .attempt }))
  | pending {task a p w} (h : s.tasks task = some a) (hs : a.stage = .wait p) (hn : a.waiter = some w)
      (hb : ¬ ((s.tree.nodes w).blocker = none ∧ (s.tree.nodes w).wait = none)) :
    Step addr s (.pollWait task)
      ({ s with tree := s.tree.setWait w (some task) }.setTask task (some { a with stage := .wait true }))
  | interrupted {task a p w} (h : s.tasks task = some a) (hs : a.stage = .wait p) (hn : a.waiter = some w) :
    Step addr s (.interrupt task) (s.setWaits task a (Waits.cancelWaiter w ⟨s.tree, a.wake⟩) .leave)

theorem step_cases {addr : NodeId → Nat} {s s' : State} {o : Op} (h : step addr s o = some s') : Step addr s o s' := by
  cases o with
  | apply =>
    simp only [step] at h
    split at h
    · rename_i hn
      cases h
      exact .call hn
    · cases h
  | tryApply =>
    obtain ⟨a, ha, h⟩ := bind_eq_some_iff.1 h
    split at h
    · rename_i hs
      obtain ⟨r, hr, h⟩ := bind_eq_some_iff.1 h
      cases h
      exact .tried ha hs hr
    · cases h
  | wake =>
    obtain ⟨a, ha, h⟩ := bind_eq_some_iff.1 h
    split at h
    · rename_i hs hw
      cases h
      exact .woke ha (.inl ⟨_, hs⟩) hw
    · rename_i hs hw
      cases h
      exact .woke ha (.inr hs) hw
    · cases h
  | resume =>
    obtain ⟨a, ha, h⟩ := bind_eq_some_iff.1 h
    split at h
    · rename_i hs hw
      cases h
      exact .sleep ha hs hw
    · rename_i r hr hs hw
      split at h
      · rename_i w hn
        cases h
        exact .cancelled ha hs hr hw hn
      · rename_i hn
        cases h
        exact .left ha (.inl ⟨r, hs, hr, hn⟩) hw
    · rename_i hs hw
      cases h
      exact .left ha (.inr hs) hw
    · cases h
  | pollWait =>
    obtain ⟨a, ha, h⟩ := bind_eq_some_iff.1 h
    split at h
    · rename_i hs hn
      simp only [Bool.and_eq_true, isNone_iff_eq_none] at h
      split at h
      · rename_i hb
        cases h
        exact .ready ha hs hn hb
      · rename_i hb
        cases h
        exact .pending ha hs hn hb
    · cases h
  | interrupt =>
    obtain ⟨a, ha, h⟩ := bind_eq_some_iff.1 h
    split at h
    · rename_i hs hn
      cases h
      exact .interrupted ha hs hn
    · cases h

/-- Requests are made as the callers make them. -/
def Allowed (_ : State) : Op → Prop
  | .apply _ _ request _ => request.Valid
  | _ => True

instance (s : State) : ∀ o : Op, Decidable (Allowed s o)
  | .apply _ _ request _ => inferInstanceAs (Decidable request.Valid)
  | .tryApply _ | .wake _ | .resume _ | .pollWait _ | .interrupt _ => inferInstanceAs (Decidable True)

end XKernel.Locks
