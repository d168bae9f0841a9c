import XKernel.Lib.Runs
/-!
# The mask that `rt_sigsuspend` restores

The call saves the mask of its caller for the frame of the handler. The first signal that the return path
dequeues takes the saved mask, with a handler or without one; and where no handler was entered the call is made
again, and saves the mask that it has itself set.
-/

namespace XKernel.Signal

open Lib Function Option

/-- From 1 to 64. -/
abbrev Signo := Nat

abbrev SignalSet := Finset Signo

def sigkill : Signo := 9
def sigchld : Signo := 17
def sigstop : Signo := 19

def stripUnblockable (set : SignalSet) : SignalSet := set \ {sigkill, sigstop}

inductive DefaultSignalAction
  | terminate | ignore | coreDump | stop | continue

def defaultAction : Signo → DefaultSignalAction
  | 3 | 4 | 5 | 6 | 7 | 8 | 11 | 24 | 25 | 31 => .coreDump
  | 17 | 23 | 28 => .ignore
  | 18 => .continue
  | 19 | 20 | 21 | 22 => .stop
  | _ => .terminate

inductive SignalDisposition
  | default | ignore | handler
  deriving DecidableEq

structure SignalAction where
  disposition : SignalDisposition
  mask : SignalSet
  nodefer : Bool
  resethand : Bool

def SignalAction.default : SignalAction := ⟨.default, ∅, false, false⟩

def signalIgnoredBy (action : SignalAction) (signo : Signo) : Bool :=
  match action.disposition, defaultAction signo with
  | .ignore, _ | .default, .ignore | .default, .continue => true
  | _, _ => false

inductive SignalOsAction
  | terminate | coreDump | stop | continue | handler

/-- `written`: the frame could be written to the stack of the user. -/
def handleSignal (signo : Signo) (action : SignalAction) (written : Bool) : Option SignalOsAction :=
  match action.disposition with
  | .default =>
    match defaultAction signo with
    | .terminate => some .terminate
    | .coreDump => some .coreDump
    | .stop => some .stop
    | .ignore => none
    | .continue => some .continue
  | .ignore => none
  | .handler => if written then some .handler else some .coreDump

def maxNonhandlerSignalsPerDrain : Nat := 8

inductive Pc
  | calling | waiting
  /-- Draining, with the count of signals delivered without a handler, and whether a rescan is left. -/
  | scanning (delivered : Nat) (rescan : Bool)
  | handler | returned | exited
  deriving DecidableEq

/-- A thread from its call of `rt_sigsuspend` to the end of the first handler. -/
structure Caller where
  pc : Pc
  blocked : SignalSet
  savedSigmask : Option SignalSet
  /-- The thread's own signals and those of its process. -/
  pending : List Signo
  actions : Signo → SignalAction
  /-- The mask in the handler's frame. -/
  frame : Option SignalSet

inductive Op
  /-- To the thread, or to the process, of which another thread can block the signal. -/
  | sendSignal (signo : Signo) (blockedElsewhere : Bool)
  | commitChildExitSignal
  /-- By another thread, a `signalfd` or a dequeue observer. -/
  | dequeueSignal (signo : Signo)
  | setSignalAction (signo : Signo) (action : SignalAction)
  | rtSigsuspend
  | wake
  | checkSignals (signo : Signo) (written : Bool)
  | endScan (interrupted : Bool)
  | restore

namespace Caller

def call (blocked : SignalSet) (savedSigmask : Option SignalSet) (pending : List Signo)
    (actions : Signo → SignalAction) : Caller :=
  ⟨.calling, blocked, savedSigmask, pending, actions, none⟩

def step (set : SignalSet) (s : Caller) : Op → Option Caller
  | .sendSignal n blockedElsewhere =>
    if signalIgnoredBy (s.actions n) n ∧ n ∉ s.blocked ∧ !blockedElsewhere then some s
    else some { s with pending := n :: s.pending }
  | .commitChildExitSignal =>
    if (s.actions sigchld).disposition = .ignore then some s else some { s with pending := sigchld :: s.pending }
  | .dequeueSignal n => some { s with pending := s.pending.erase n }
  | .setSignalAction n action => some { s with actions := update s.actions n action }
  | .rtSigsuspend =>
    if s.pc = .calling then
      some { s with blocked := stripUnblockable set, savedSigmask := some s.blocked, pc := .waiting }
    else none
  | .wake => if s.pc = .waiting ∧ ∃ n ∈ s.pending, n ∉ s.blocked then some { s with pc := .scanning 0 true } else none
  | .checkSignals n written =>
    match s.pc with
    | .scanning delivered rescan =>
      if delivered < maxNonhandlerSignalsPerDrain ∧ n ∈ s.pending ∧ n ∉ s.blocked then
        let action := s.actions n
        let taken := { s with pending := s.pending.erase n, savedSigmask := none }
        match handleSignal n action written with
        | none => some taken
        | some .continue => some { taken with pc := .scanning (delivered + 1) rescan }
        | some .handler => some { taken with
            pc := .handler
            frame := some (s.savedSigmask.getD s.blocked)
            blocked := s.blocked ∪ stripUnblockable (if action.nodefer then action.mask else insert n action.mask)
            actions := if action.resethand then update s.actions n .default else s.actions }
        | some .terminate | some .coreDump | some .stop => some { taken with pc := .exited }
      else none
    | _ => none
  | .endScan interrupted =>
    match s.pc with
    | .scanning delivered rescan =>
      if delivered = maxNonhandlerSignalsPerDrain ∨ ∀ n ∈ s.pending, n ∈ s.blocked then
        if rescan ∧ interrupted then some { s with pc := .scanning 0 false } else some { s with pc := .calling }
      else none
    | _ => none
  | .restore =>
    match s.pc, s.frame with
    | .handler, some mask => some { s with blocked := stripUnblockable mask, pc := .returned }
    | _, _ => none

/-- The step does not resolve a signal without a handler, and the call is not made again. -/
def keepsMask (s : Caller) : Op → Bool
  | .checkSignals n written =>
    match handleSignal n (s.actions n) written with
    | none | some .continue => false
    | _ => true
  | .endScan interrupted =>
    match s.pc with
    | .scanning _ rescan => rescan ∧ interrupted
    | _ => true
  | _ => true

variable {set blocked mask : SignalSet} {s s' : Caller} {o : Op}

/-- The first frame gets `mask`. -/
def Inv (set mask : SignalSet) (s : Caller) : Prop :=
  match s.pc with
  | .calling => s.frame = none ∧ s.blocked = mask
  | .waiting | .scanning .. => s.frame = none ∧ s.blocked = stripUnblockable set ∧ s.savedSigmask.getD s.blocked = mask
  | .handler => s.frame = some mask
  | .returned => s.frame = some mask ∧ s.blocked = stripUnblockable mask
  | .exited => s.frame = none

theorem Inv.step (hi : Inv set mask s) (h : s.step set o = some s') :
    Inv set (if s.keepsMask o then mask else stripUnblockable set) s' := by
  cases o with simp only [Caller.step] at h
  | dequeueSignal | setSignalAction =>
    cases h
    exact hi
  | sendSignal | commitChildExitSignal =>
    split_ifs at h <;> cases h <;> exact hi
  | rtSigsuspend =>
    obtain ⟨hpc, hs⟩ := ite_none_right_eq_some.1 h
    cases hs
    rw [Inv, hpc] at hi
    exact ⟨hi.1, rfl, hi.2⟩
  | wake =>
    obtain ⟨⟨hpc, -⟩, hs⟩ := ite_none_right_eq_some.1 h
    cases hs
    rw [Inv, hpc] at hi
    exact hi
  | checkSignals =>
    split at h
    case h_2 => cases h
    rename_i delivered rescan hpc
    rw [Inv, hpc] at hi
    obtain ⟨hframe, hblocked, hsaved⟩ := hi
    rw [hblocked] at hsaved
    obtain ⟨-, h⟩ := ite_none_right_eq_some.1 h
    split at h <;> cases h <;> simp [Inv, keepsMask, *]
  | endScan =>
    split at h
    case h_2 => cases h
    rename_i delivered rescan hpc
    rw [Inv, hpc] at hi
    split_ifs at h with _ hrescan <;> cases h
    · simpa [Inv, keepsMask, hpc, hrescan] using hi
    · simpa [Inv, keepsMask, hpc, hrescan] using ⟨hi.1, hi.2.1⟩
  | restore =>
    split at h <;> cases h
    rename_i mask hpc hf
    rw [Inv, hpc] at hi
    exact ⟨hi, congrArg stripUnblockable (some.inj (hf.symm.trans hi))⟩

/-- The first frame that a call of `rt_sigsuspend` gets has the mask of the caller if and only if no signal was
resolved without a handler before it and the call was not made again, or that mask is also the mask of the call;
and the mask of the frame is what is blocked after the handler. -/
theorem run_sigsuspend_restores {savedSigmask : Option SignalSet} {pending : List Signo}
    {actions : Signo → SignalAction}
    (h : Run (step set) (fun _ _ => True) (call blocked savedSigmask pending actions) s) (hf : s.frame = some mask) :
    (mask = blocked ↔ Run (step set) (fun s o => s.keepsMask o = true) (call blocked savedSigmask pending actions) s ∨
        stripUnblockable set = blocked) ∧
      (s.pc = .returned → s.blocked = stripUnblockable mask) := by
  have h0 : Inv set blocked (call blocked savedSigmask pending actions) := ⟨rfl, rfl⟩
  have hkeeps : ∀ {s}, Run (step set) (fun s o => s.keepsMask o = true) (call blocked savedSigmask pending actions) s →
      Inv set blocked s := by
    intro s hr
    refine hr.inv (Inv set blocked) h0 fun s o s' hi hok hst => ?_
    simpa [hok] using hi.step hst
  have hmask : ∀ {m}, Inv set m s → mask = m ∧ (s.pc = .returned → s.blocked = stripUnblockable m) := by
    intro m hi
    unfold Inv at hi
    grind
  -- the steps keep the mask, or at one of them it was lost
  have hcases := h.inv (fun s =>
      Run (step set) (fun s o => s.keepsMask o = true) (call blocked savedSigmask pending actions) s ∨
      Inv set (stripUnblockable set) s) (.inl .nil) fun s o s' hi _ hst => by
    rcases hi with hr | hi
    · have hs := (hkeeps hr).step hst
      by_cases hok : s.keepsMask o = true
      · exact .inl (hr.snoc hok hst)
      · exact .inr (by simpa [hok] using hs)
    · exact .inr (by simpa using hi.step hst)
  rcases hcases with hr | hi
  · obtain ⟨rfl, hb⟩ := hmask (hkeeps hr)
    exact ⟨iff_of_true rfl (.inl hr), hb⟩
  · obtain ⟨rfl, hb⟩ := hmask hi
    exact ⟨⟨.inr, fun hor => hor.elim (fun hr => (hmask (hkeeps hr)).1) id⟩, hb⟩

/-- The signals 10 and 12 have handlers. -/
def sampleActions (n : Signo) : SignalAction := if n = 10 ∨ n = 12 then ⟨.handler, {12}, false, false⟩ else .default

/-- The call leaves nothing blocked. -/
abbrev SampleRun : Caller → Prop := Run (step ∅) (fun _ _ => True) (call {10} none [] sampleActions)

theorem run_sigsuspend_restores_ten : ∃ s, SampleRun s ∧ s.pc = .returned ∧ s.frame = some {10} ∧
    Run (step ∅) (fun s o => s.keepsMask o = true) (call {10} none [] sampleActions) s ∧
      s.blocked = stripUnblockable {10} := by
  obtain ⟨s, hr, hpc, hf⟩ : ∃ s, Run (step ∅) (fun s o => s.keepsMask o = true) (call {10} none [] sampleActions) s ∧
      s.pc = .returned ∧ s.frame = some {10} :=
    Run.exists_of_exec [.rtSigsuspend, .sendSignal 12 false, .wake, .checkSignals 12 true, .restore] (by decide +kernel)
  have h := hr.mono fun _ _ _ => trivial
  exact ⟨s, h, hpc, hf, hr, (run_sigsuspend_restores h hf).2 hpc⟩

/-- A child exits, and `SIGCHLD` has its default action; the call is made again, and the next signal has a handler. -/
theorem run_sigsuspend_forgets : ∃ s, SampleRun s ∧ s.pc = .returned ∧ s.frame = some ∅ ∧ s.blocked = ∅ := by
  exact Run.exists_of_exec [.rtSigsuspend, .commitChildExitSignal, .wake, .checkSignals 17 true, .endScan false,
    .rtSigsuspend, .sendSignal 12 false, .wake, .checkSignals 12 true, .restore] (by decide +kernel)

end Caller

end XKernel.Signal
