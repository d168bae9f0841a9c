import XKernel.Lib.Runs
/-!
# Process groups

A process points to its group object, the object has a slot for each member, and a table finds the
object of a group id. `setpgid` and `setsid` look up their process and their group in sections before
the one that moves the process, and make a new group object for an id without looking for one.
-/

namespace XKernel.Process

open Lib Function List Option

abbrev Pid := Nat

structure ProcessGroup where
  pgid : Pid
  /-- The session object, and its id. -/
  session : Nat
  sid : Pid

inductive Life
  | unborn
  /-- Forked, not yet published. -/
  | prepared
  | running | zombie
  /-- Reaped, autoreaped or discarded. -/
  | gone
  deriving DecidableEq

/-- A call between two of its sections: with the process found, with no group of that id found, and with
the group found or made. -/
inductive Call
  | setpgid (proc pgid : Pid)
  | setsid (proc : Pid)
  | move (proc : Pid) (group : Nat) (allowNewSession : Bool)
  deriving DecidableEq

structure Jobs where
  /-- The group objects made so far. -/
  made : Nat
  groups : Nat → ProcessGroup
  pids : List Pid
  life : Pid → Life
  group : Pid → Nat
  /-- The filled member slots of a process. A slot stays in the group's map when it is empty. -/
  slot : Pid → Nat → Bool
  processGroupTable : Pid → Option Nat
  calls : List Call

namespace Jobs

/-- The init process alone in its group and session. -/
def init : Jobs where
  made := 1
  groups := fun _ => ⟨1, 0, 1⟩
  pids := [1]
  life := update (fun _ => .unborn) 1 .running
  group := fun _ => 0
  slot := fun p g => p = 1 ∧ g = 0
  processGroupTable := update (fun _ => none) 1 (some 0)
  calls := []

inductive Op
  | fork (parent child : Pid)
  | publish (proc : Pid)
  /-- A fork that fails before its publication, or is rolled back after it. -/
  | discard (proc : Pid)
  | exit (proc : Pid) (autoreap : Bool)
  | reap (proc : Pid)
  | setpgid (proc pgid : Pid)
  | setsid (proc : Pid) (alive : Bool)
  /-- A weak reference to a group that no process has can be upgraded or not. -/
  | findGroup (proc pgid : Pid) (alive : Bool)
  | createGroup (proc : Pid)
  | createSession (proc : Pid)
  | moveProcessToGroup (proc : Pid) (group : Nat) (allowNewSession : Bool)

variable (s : Jobs)

def pgid (p : Pid) : Pid := (s.groups (s.group p)).pgid

def retire (p : Pid) : Jobs :=
  { s with life := update s.life p .gone, slot := update s.slot p (update (s.slot p) (s.group p) false) }

def processGroup (pgid : Pid) (alive : Bool) : Option Nat :=
  (s.processGroupTable pgid).filter fun g => alive ∨ ∃ p ∈ s.pids, s.life p ≠ .gone ∧ s.group p = g

def make (c : Call) (g : ProcessGroup) (allowNewSession : Bool) (p : Pid) : Jobs :=
  { s with made := s.made + 1, groups := update s.groups s.made g,
           calls := .move p s.made allowNewSession :: s.calls.erase c }

def moveProcessToGroup (p : Pid) (g : Nat) (allowNewSession : Bool) : Bool × Jobs :=
  let published := update s.processGroupTable (s.groups g).pgid (some g)
  if s.group p = g then (true, { s with processGroupTable := published })
  else if !allowNewSession ∧ (s.groups (s.group p)).session ≠ (s.groups g).session then
    (false, { s with slot := update s.slot p (update (s.slot p) g false) })
  else (true, { s with
    group := update s.group p g
    slot := update s.slot p (update (update (s.slot p) (s.group p) false) g true)
    processGroupTable := published })

def step : Op → Option Jobs
  | .fork parent child =>
    if s.life parent = .running ∧ s.life child = .unborn then
      some { s with
        pids := child :: s.pids, life := update s.life child .prepared, group := update s.group child (s.group parent) }
    else none
  | .publish p =>
    if s.life p = .prepared then
      some { s with
        life := update s.life p .running
        slot := update s.slot p (update (s.slot p) (s.group p) true)
        processGroupTable := update s.processGroupTable (s.pgid p) (some (s.group p)) }
    else none
  | .discard p => if s.life p = .prepared ∨ s.life p = .running then some (s.retire p) else none
  | .exit p autoreap =>
    if s.life p = .running then
      if autoreap then some (s.retire p) else some { s with life := update s.life p .zombie }
    else none
  | .reap p => if s.life p = .zombie then some (s.retire p) else none
  | .setpgid p pgid =>
    if s.life p = .running then some { s with calls := .setpgid p (if pgid = 0 then p else pgid) :: s.calls } else none
  | .setsid p alive =>
    if s.life p = .running then
      if s.processGroup p alive = none then some { s with calls := .setsid p :: s.calls } else some s
    else none
  | .findGroup p pgid alive =>
    if .setpgid p pgid ∈ s.calls ∧ pgid ≠ p then
      match s.processGroup pgid alive with
      | some g => some { s with calls := .move p g false :: s.calls.erase (.setpgid p pgid) }
      | none => some { s with calls := s.calls.erase (.setpgid p pgid) }
    else none
  | .createGroup p =>
    if .setpgid p p ∈ s.calls then
      if s.pgid p = p then some { s with calls := s.calls.erase (.setpgid p p) }
      else some (s.make (.setpgid p p) { s.groups (s.group p) with pgid := p } false p)
    else none
  | .createSession p =>
    if .setsid p ∈ s.calls then
      if (s.groups (s.group p)).sid = p then some { s with calls := s.calls.erase (.setsid p) }
      else some (s.make (.setsid p) ⟨p, s.made, p⟩ true p)
    else none
  | .moveProcessToGroup p g allow =>
    if .move p g allow ∈ s.calls then
      some { (s.moveProcessToGroup p g allow).2 with calls := s.calls.erase (.move p g allow) }
    else none

/-- Published and not reaped. -/
def Member (p : Pid) : Prop := s.life p = .running ∨ s.life p = .zombie

/-- A move ends while its process is published and not reaped, and while no other process, published or
forked, is in another object of the same id. -/
def Settled : Op → Prop
  | .moveProcessToGroup p g _ =>
    (s.life p = .running ∨ s.life p = .zombie) ∧
      ∀ q ∈ s.pids, q ≠ p → s.life q ≠ .gone → s.pgid q = (s.groups g).pgid → s.group q = g
  | _ => True

@[mk_iff]
structure Consistent : Prop where
  born : ∀ p, p ∈ s.pids ↔ s.life p ≠ .unborn
  one : ∀ p q, p ∈ s.pids → q ∈ s.pids → s.life p ≠ .gone → s.life q ≠ .gone → s.pgid p = s.pgid q →
    s.group p = s.group q
  found : ∀ p, s.Member p → s.processGroupTable (s.pgid p) = some (s.group p)
  slots : ∀ p g, s.slot p g = true ↔ s.Member p ∧ s.group p = g
  made : ∀ p, s.life p ≠ .unborn → s.group p < s.made
  moves : ∀ p g a, .move p g a ∈ s.calls → g < s.made
  table : ∀ g o, s.processGroupTable g = some o → o < s.made

variable {s} {s' : Jobs} {o : Op}

theorem Consistent.step (hi : Consistent s) (hok : s.Settled o) (h : s.step o = some s') : Consistent s' := by
  obtain ⟨born, one, found, slots, made, moves, table⟩ := hi
  cases o with
  | moveProcessToGroup =>
    obtain ⟨hm, hs⟩ := ite_none_right_eq_some.1 h
    cases hs
    unfold moveProcessToGroup
    obtain ⟨hp, hq⟩ := hok
    split_ifs <;> rw [consistent_iff] <;> simp only [pgid, Member, update_apply] at * <;> grind
  | findGroup p g a =>
    have hg : ∀ o, s.processGroup g a = some o → s.processGroupTable g = some o := fun o ho =>
      (filter_eq_some_iff.1 ho).1
    simp only [step] at h
    split_ifs at h
    split at h <;> cases h <;> rw [consistent_iff] <;> simp only [pgid, Member] at * <;> grind
  | _ =>
    simp only [step] at h
    split_ifs at h <;> cases h <;> rw [consistent_iff] <;>
      simp only [retire, make, pgid, Member, update_apply] at * <;> grind

theorem consistent_init : Consistent init := by
  rw [consistent_iff]
  simp only [init, pgid, Member]
  grind

theorem step_group (h : s.step o = some s') : s'.group = s.group ∨ (∃ p c, o = .fork p c) ∨
    ∃ p g a, o = .moveProcessToGroup p g a ∧ (s.moveProcessToGroup p g a).1 = true := by
  cases o with
  | fork p c => exact .inr (.inl ⟨p, c, rfl⟩)
  | moveProcessToGroup p g a =>
    obtain ⟨-, hs⟩ := ite_none_right_eq_some.1 h
    cases hs
    by_cases hr : (s.moveProcessToGroup p g a).1 = true
    · exact .inr (.inr ⟨p, g, a, rfl, hr⟩)
    · refine .inl ?_
      revert hr
      unfold moveProcessToGroup
      split_ifs <;> simp
  | findGroup =>
    simp only [step] at h
    split_ifs at h
    split at h <;> cases h <;> exact .inl rfl
  | _ =>
    simp only [step] at h
    split_ifs at h <;> cases h <;> exact .inl rfl

/-- In a run whose moves are settled, the members of one group id are in one object, which a lookup finds
and whose filled slots are these processes; only a fork and a move that succeeds change a group. -/
theorem run_groups_consistent (h : Run step Settled init s) :
    (∀ p q, s.Member p → s.Member q → s.pgid p = s.pgid q → s.group p = s.group q) ∧
      (∀ p, s.Member p → (∀ alive, s.processGroup (s.pgid p) alive = some (s.group p)) ∧
        ∀ q, s.slot q (s.group p) = true ↔ s.Member q ∧ s.pgid q = s.pgid p) ∧
      ∀ o s', s.step o = some s' → s'.group = s.group ∨ (∃ p c, o = .fork p c) ∨
        ∃ p g a, o = .moveProcessToGroup p g a ∧ (s.moveProcessToGroup p g a).1 = true := by
  obtain ⟨born, one, found, slots, -, -, -⟩ := h.inv Consistent consistent_init fun _ _ _ hi hok hst => hi.step hok hst
  have one' : ∀ p q, s.Member p → s.Member q → s.pgid p = s.pgid q → s.group p = s.group q := by
    grind
  refine ⟨one', fun p hp => ⟨fun alive => ?_, fun q => (slots q _).trans (and_congr_right fun hq => ?_)⟩,
    fun o s' => step_group⟩
  · have hlive : s.life p ≠ .unborn ∧ s.life p ≠ .gone := by
      rcases hp with hp | hp <;> simp [hp]
    exact filter_eq_some_iff.2 ⟨found p hp, decide_eq_true (.inr ⟨p, (born p).2 hlive.1, hlive.2, rfl⟩)⟩
  · exact ⟨fun he => by rw [pgid, he, pgid], one' q p hq hp⟩

instance (s : Jobs) (o : Op) : Decidable (s.Settled o) := by
  cases o <;> unfold Settled <;> infer_instance

/-- Process 1 forks process 2, which makes a group of its own. -/
def sampleGroups : List Op :=
  [.fork 1 2, .publish 2, .setpgid 2 0, .createGroup 2, .moveProcessToGroup 2 1 false]

theorem run_groups_consistent_two : ∃ s, Run step Settled init s ∧ s.life 2 = .running ∧
    s.processGroupTable 2 = some 1 ∧ s.pgid 2 = 2 ∧ s.processGroup (s.pgid 2) false = some (s.group 2) := by
  obtain ⟨s, h, hc⟩ : ∃ s, Run step Settled init s ∧ s.life 2 = .running ∧ s.processGroupTable 2 = some 1 ∧
      s.pgid 2 = 2 :=
    Run.exists_of_exec sampleGroups (by decide +kernel)
  exact ⟨s, h, hc.1, hc.2.1, hc.2.2, ((run_groups_consistent h).2.1 2 (.inl hc.1)).1 false⟩

/-- Process 2 leaves its group 2 with its child 3 in it, and makes a group 2 again: processes 2 and 3 are in two
objects of one id, and the table finds the one without process 3. -/
theorem run_groups_split : ∃ s, Run step (fun _ _ => True) init s ∧ s.Member 2 ∧ s.Member 3 ∧ s.pgid 2 = s.pgid 3 ∧
    s.group 2 ≠ s.group 3 ∧ s.processGroupTable (s.pgid 3) ≠ some (s.group 3) := by
  unfold Member
  exact Run.exists_of_exec (sampleGroups ++ [.fork 2 3, .publish 3, .setpgid 2 1, .findGroup 2 1 true,
    .moveProcessToGroup 2 0 false, .setpgid 2 2, .createGroup 2, .moveProcessToGroup 2 2 false]) (by decide +kernel)

end Jobs

end XKernel.Process
