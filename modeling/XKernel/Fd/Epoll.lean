import XKernel.Lib.Runs
/-!
# The ready queue of an epoll instance

Interests with their flag, the queue of entries for them, and any number of running calls of
`poll_events`. A step is one lock section or one operation on a flag. A waker, `add` and `modify`
reach the queue through `queue_interest`, so they are its two steps at any time; what a registration
finds in the meantime (an error, a wake, a newer waker) is an input of the step.
-/

namespace XKernel.Epoll

abbrev IoEvents := UInt32

/-- `ERR` and `HUP`. -/
def alwaysPoll : IoEvents := 0x18

def matchReadyEvents (current interested : IoEvents) : IoEvents := current &&& interested ||| current &&& alwaysPoll

def registerEvents (interested : IoEvents) : IoEvents := interested ||| alwaysPoll

inductive TriggerMode
  | level
  | edge
  | oneShot (fired : Bool)
  deriving DecidableEq

def TriggerMode.shouldNotify : TriggerMode → Bool × TriggerMode
  | .level => (true, .level)
  | .edge => (true, .edge)
  | .oneShot fired => if fired then (false, .oneShot fired) else (true, .oneShot true)

def TriggerMode.isEnabled : TriggerMode → Bool
  | .oneShot fired => !fired
  | _ => true

structure EntryKey where
  fd : Int
  file : Nat
  deriving DecidableEq

structure EpollInterest where
  key : EntryKey
  events : IoEvents
  mode : TriggerMode
  lastReportedEvents : IoEvents
  inReadyQueue : Bool
  /-- A strong reference exists. -/
  isLive : Bool

/-- How an interest is armed again after its entry was consumed. -/
structure Rearm where
  queueCurrentEvents : IoEvents
  queueRegisteredWake : Bool
  postRegisterPoll : Bool

inductive ConsumeResult
  | eventAndKeep
  | eventAndRemove
  | noEvent (rearm : Rearm)

namespace EpollInterest

variable (interest : EpollInterest)

def noEventRearmCurrentReady : EpollInterest × ConsumeResult :=
  ({ interest with lastReportedEvents := 0 }, .noEvent ⟨registerEvents interest.events, false, true⟩)

def noEventWaitForTransition : EpollInterest × ConsumeResult := (interest, .noEvent ⟨0, true, false⟩)

def shouldNotifyEdge (matched : IoEvents) : EpollInterest × Bool :=
  let edge := matched &&& ~~~ alwaysPoll
  ({ interest with lastReportedEvents := edge }, matched &&& alwaysPoll ≠ 0 ∨ interest.lastReportedEvents ≠ edge)

/-- The section of `consume` under the lock of the configuration. -/
def consume (current : IoEvents) : EpollInterest × ConsumeResult :=
  let matched := matchReadyEvents current interest.events
  if matched = 0 then interest.noEventRearmCurrentReady
  else
    let (interest, notifies) := if interest.mode = .edge then interest.shouldNotifyEdge matched else (interest, true)
    if !notifies then interest.noEventWaitForTransition
    else
      let (shouldNotify, mode) := interest.mode.shouldNotify
      let interest := { interest with mode }
      if !shouldNotify then interest.noEventRearmCurrentReady
      else (interest, if mode = .level then .eventAndKeep else .eventAndRemove)

end EpollInterest

/-! ## Running calls -/

/-- Where a call of `poll_events` is; the interest of the round is at hand. -/
inductive Place
  | pop
  | popped (i : Nat)
  | closed (i : Nat)
  | unlisted (i : Nat)
  | full (i : Nat)
  | consume (i : Nat)
  | polled (i : Nat) (current : IoEvents)
  | unmark (i : Nat) (rearm : Rearm)
  | rearm (i : Nat) (rearm : Rearm) (allowRestore : Bool)
  | registered (i : Nat) (rearm : Rearm) (allowRestore : Bool)
  | mark (i : Nat)
  | push (i : Nat)
  | finish (failed : Option Nat)

structure Poller where
  /-- The rounds that are left. -/
  rounds : Nat
  capacity : Nat
  count : Nat
  deferredKeep : List Nat
  emitted : List EntryKey
  place : Place

/-- On to the next round. -/
def Poller.next (p : Poller) : Poller :=
  { p with rounds := p.rounds - 1, place := if p.rounds ≤ 1 then .finish none else .pop }

/-- A strong reference that the call has. -/
def Poller.owned (p : Poller) : Option Nat :=
  match p.place with
  | .closed i | .unlisted i | .full i | .consume i | .polled i _ | .unmark i _ | .rearm i _ _ | .registered i _ _ |
    .mark i | .push i => some i
  | .pop | .popped _ | .finish _ => none

structure EpollInner where
  /-- What `poll` returns for a file. -/
  files : Nat → IoEvents
  isOpen : Nat → Bool
  interests : Nat → EpollInterest
  /-- The number of interests made so far. -/
  made : Nat
  table : EntryKey → Option Nat
  readyQueue : List Nat
  /-- Between the two steps of `queue_interest`. -/
  marked : List Nat
  pollers : List Poller

/-- What a registration finds. -/
structure Found where
  failed : Bool
  hadRegisteredWake : Bool
  isCurrentWakerGeneration : Bool

inductive Op
  | setEvents (file : Nat) (events : IoEvents)
  | close (file : Nat)
  | add (key : EntryKey) (events : IoEvents) (mode : TriggerMode)
  | modifyConfig (i : Nat) (events : IoEvents) (mode : TriggerMode)
  | setReportedEvents (i : Nat) (events : IoEvents)
  | delete (key : EntryKey)
  | release (i : Nat)
  | mark (i : Nat)
  | push (i : Nat)
  | pollEvents (capacity : Nat)
  | poll (k : Nat) (found : Found)

namespace EpollInner

def new : EpollInner where
  files _ := 0
  isOpen _ := true
  interests _ := ⟨⟨0, 0⟩, 0, .level, 0, false, false⟩
  made := 0
  table _ := none
  readyQueue := []
  marked := []
  pollers := []

variable (s : EpollInner)

def setInterest (i : Nat) (interest : EpollInterest) : EpollInner :=
  { s with interests := Function.update s.interests i interest }

def setMark (i : Nat) (inReadyQueue : Bool) : EpollInner := s.setInterest i { s.interests i with inReadyQueue }

/-- The next section of a running call, with the call as it is afterwards; `none` when it returns. -/
def pollStep (p : Poller) (found : Found) : EpollInner × Option Poller :=
  match p.place with
  | .pop =>
    match s.readyQueue with
    | [] => (s, some { p with place := .finish none })
    | i :: readyQueue => ({ s with readyQueue }, some { p with place := .popped i })
  | .popped i =>
    let key := (s.interests i).key
    if !(s.interests i).isLive then (s, some p.next)
    else if !s.isOpen key.file then (s, some { p with place := .closed i })
    else if key ∈ p.emitted then (s, some p.next)
    else (s, some { p with emitted := key :: p.emitted, place := if p.capacity ≤ p.count then .full i else .consume i })
  | .closed i =>
    ({ s with table := Function.update s.table (s.interests i).key none }, some { p with place := .unlisted i })
  | .unlisted i => (s.setMark i false, some p.next)
  | .full i => ({ s with readyQueue := i :: s.readyQueue }, some { p with place := .finish none })
  | .consume i => (s, some { p with place := .polled i (s.files (s.interests i).key.file) })
  | .polled i current =>
    let (interest, result) := (s.interests i).consume current
    (s.setInterest i interest, some <|
      match result with
      | .eventAndKeep => { p with count := p.count + 1, deferredKeep := p.deferredKeep ++ [i] }.next
      | .eventAndRemove => { p with count := p.count + 1, place := .unmark i ⟨0, false, false⟩ }
      | .noEvent rearm => { p with place := .unmark i rearm })
  | .unmark i rearm => (s.setMark i false, some { p with place := .rearm i rearm true })
  | .rearm i rearm allowRestore =>
    (s, some (if (s.interests i).mode.isEnabled then { p with place := .registered i rearm allowRestore } else p.next))
  | .registered i rearm allowRestore =>
    let interest := s.interests i
    let current := if rearm.postRegisterPoll then matchReadyEvents (s.files interest.key.file) interest.events else 0
    (s, some <|
      if found.failed then { p with place := .finish (some i) }
      else if current &&& rearm.queueCurrentEvents ≠ 0 ∨ rearm.queueRegisteredWake && found.hadRegisteredWake then
        if found.isCurrentWakerGeneration then { p with place := .mark i } else p.next
      else if found.hadRegisteredWake && allowRestore then { p with place := .rearm i rearm false }
      else p.next)
  | .mark i =>
    if (s.interests i).inReadyQueue then (s, some p.next) else (s.setMark i true, some { p with place := .push i })
  | .push i => ({ s with readyQueue := s.readyQueue ++ [i] }, some p.next)
  | .finish failed =>
    let s := { s with readyQueue := s.readyQueue ++ p.deferredKeep }
    match failed with
    | none => (s, none)
    | some i =>
      if (s.interests i).isLive && !(s.interests i).inReadyQueue then
        ({ s.setMark i true with readyQueue := s.readyQueue ++ [i] }, none)
      else (s, none)

def step : Op → Option EpollInner
  | .setEvents file events => some { s with files := Function.update s.files file events }
  | .close file => some { s with isOpen := Function.update s.isOpen file false }
  | .add key events mode =>
    if (s.table key).isSome then none
    else some { s.setInterest s.made ⟨key, events, mode, 0, false, true⟩ with
      table := Function.update s.table key (some s.made), made := s.made + 1 }
  | .modifyConfig i events mode => some (s.setInterest i { s.interests i with events, mode })
  | .setReportedEvents i events => some (s.setInterest i { s.interests i with lastReportedEvents := events })
  | .delete key => if (s.table key).isSome then some { s with table := Function.update s.table key none } else none
  | .release i =>
    if s.table (s.interests i).key = some i ∨ i ∈ s.marked ∨ some i ∈ s.pollers.map Poller.owned then none
    else some (s.setInterest i { s.interests i with isLive := false })
  | .mark i =>
    if !(s.interests i).isLive then none
    else some (if (s.interests i).inReadyQueue then s else { s.setMark i true with marked := i :: s.marked })
  | .push i =>
    if i ∈ s.marked then some { s with marked := s.marked.erase i, readyQueue := s.readyQueue ++ [i] } else none
  | .pollEvents capacity =>
    let p : Poller := ⟨s.readyQueue.length, capacity, 0, [], [], .finish none⟩
    match s.readyQueue with
    | [] => some { s with pollers := s.pollers ++ [p] }
    | i :: readyQueue => some { s with readyQueue, pollers := s.pollers ++ [{ p with place := .popped i }] }
  | .poll k found =>
    match s.pollers[k]? with
    | none => none
    | some p =>
      match s.pollStep p found with
      | (s, some p) => some { s with pollers := s.pollers.set k p }
      | (s, none) => some { s with pollers := s.pollers.eraseIdx k }

end EpollInner

end XKernel.Epoll
