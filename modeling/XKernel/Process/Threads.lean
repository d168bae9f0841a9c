import XKernel.Lib.Runs
/-!
# Threads of a process

Publication, rollback, exit, group exit and leader takeover of the threads of one process, with
one step for each lock section. A publication reserves its member slot in one section and fills
it in a later one; an exit in between prunes the slot from the map.

The number directory is left out (`moveTaskNumber` has its outcome as an input), and so are the
exec sweep and the teardown of resources. A published task that has not exited is kept by the
scheduler, so its weak reference can be upgraded.
-/

namespace XKernel.Process

open Lib Function List Option

/-- The stable identity token of a task. -/
abbrev Task := Nat

inductive ThreadMemberState
  | vacant | published | exitedLeader
  deriving DecidableEq

/-- The tokens with an entry in the map, and the slot object of each task. A task is published once,
so its token names its slot, also when the entry is gone. -/
structure ThreadMembership where
  members : List Task
  slot : Task → ThreadMemberState

namespace ThreadMembership

variable (m : ThreadMembership) (t : Task)

def reserveSlot : ThreadMembership := if t ∈ m.members then m else ⟨t :: m.members, update m.slot t .vacant⟩

def publish : ThreadMembership := { m with slot := update m.slot t .published }

def retire : ThreadMembership := { m with slot := update m.slot t .vacant }

def tasks : List Task := m.members.filter fun u => m.slot u = .published

def hasNoPublishedTasks : Bool := m.members.all fun u => m.slot u ≠ .published

def pruneStale : ThreadMembership := { m with members := m.members.filter fun u => m.slot u ≠ .vacant }

def exitTask (isLeader : Bool) : ThreadMembership :=
  pruneStale <| if t ∈ m.members ∧ m.slot t = .published then
    { m with slot := update m.slot t (if isLeader then .exitedLeader else .vacant) } else m

end ThreadMembership

/-- Where a thread is between two lock sections. -/
inductive Phase
  | unborn
  /-- In `publish_task`, the slots reserved. -/
  | reserved
  /-- Published, not yet runnable. -/
  | inactive
  | running
  | cloning (child : Task)
  /-- In `assume_leader_identity`, after its first and its second check. -/
  | counted
  | found
  /-- In `do_exit_inner`: before `exit_thread`, and after each section from there on. -/
  | exiting (exitCode : Int) (groupExit : Bool)
  | recorded (groupExit : Bool)
  | left (groupExit isLastThread : Bool)
  | marking
  | marked
  | broadcasting (targets : List Task)
  | finished
  | rolledBack
  deriving DecidableEq

/-- What the map knows of a phase. -/
inductive Kind
  | unborn | reserved | inactive | active | gone | rolledBack
  deriving DecidableEq

def Phase.kind : Phase → Kind
  | .unborn => .unborn
  | .reserved => .reserved
  | .inactive => .inactive
  | .running | .cloning _ | .counted | .found | .exiting .. | .recorded _ => .active
  | .left .. | .marking | .marked | .broadcasting _ | .finished => .gone
  | .rolledBack => .rolledBack

/-- Published, not rolled back, and not yet out of the map by `exit_thread`. -/
def Kind.isLive (k : Kind) : Bool := k = .inactive ∨ k = .active

structure Threads where
  pid : Nat
  membership : ThreadMembership
  tid : Task → Nat
  phase : Task → Phase
  exitCode : Int
  groupExited : Bool
  /-- The process can be waited for. -/
  isZombie : Bool
  /-- Threads that were sent `SIGKILL`. -/
  killed : Task → Bool
  /-- The first thread to enter `do_exit` with `group_exit` set, and its code. -/
  first : Option Task
  firstCode : Int
  /-- Threads for which `exit_thread` returned true. -/
  lastExits : List Task

namespace Threads

/-- A process whose first thread, task 0, is being published by its parent. -/
def init (tid : Task → Nat) : Threads where
  pid := tid 0
  membership := ⟨[0], fun _ => .vacant⟩
  tid := tid
  phase := update (fun _ => .unborn) 0 .reserved
  exitCode := 0
  groupExited := false
  isZombie := false
  killed := fun _ => false
  first := none
  firstCode := 0
  lastExits := []

inductive Op
  | reserve (creator task : Task)
  | publish (task : Task)
  /-- The creator is a thread of the process; the first thread is created from outside. -/
  | commit (creator : Option Task) (task : Task)
  | rollback (creator : Option Task) (task : Task)
  | threadCount (task : Task)
  | containsPublishedTid (task : Task)
  | moveTaskNumber (task : Task) (moved : Bool)
  | doExit (task : Task) (exitCode : Int) (groupExit : Bool)
  | recordExitCode (task : Task)
  | exitThread (task : Task)
  | completeProcessExit (task : Task)
  | isGroupExited (task : Task)
  | markGroupExited (task : Task)
  | processTasks (task : Task)
  | sendToThread (task : Task)

variable (s : Threads)

def goto (t : Task) (p : Phase) : Threads := { s with phase := update s.phase t p }

def creates : Option Task → Task → Bool
  | none, t => t = 0
  | some c, t => s.phase c = .cloning t

def release : Option Task → Threads
  | none => s
  | some c => s.goto c .running

def step : Op → Option Threads
  | .reserve c t =>
    if s.phase c = .running ∧ s.phase t = .unborn then
      some { (s.goto c (.cloning t)).goto t .reserved with membership := s.membership.reserveSlot t }
    else none
  | .publish t =>
    if s.phase t = .reserved then some { s.goto t .inactive with membership := s.membership.publish t } else none
  | .commit c t => if s.phase t = .inactive ∧ s.creates c t then some ((s.release c).goto t .running) else none
  | .rollback c t =>
    if s.phase t = .inactive ∧ s.creates c t then
      some { (s.release c).goto t .rolledBack with membership := s.membership.retire t }
    else none
  | .threadCount t =>
    if s.phase t = .running then some (s.goto t
      (if s.membership.tasks.length = 1 then .counted else .running)) else none
  | .containsPublishedTid t =>
    if s.phase t = .counted then
      some (s.goto t (if s.membership.tasks.any (s.tid · = s.tid t) ∧ s.tid t ≠ s.pid then .found else .running))
    else none
  | .moveTaskNumber t moved =>
    if s.phase t = .found then
      some { s.goto t .running with tid := if moved then update s.tid t s.pid else s.tid }
    else none
  | .doExit t exitCode groupExit =>
    if s.phase t = .running then
      some { s.goto t (.exiting exitCode groupExit) with
        first := if s.first = none ∧ groupExit then some t else s.first
        firstCode := if s.first = none then exitCode else s.firstCode }
    else none
  | .recordExitCode t =>
    match s.phase t with
    | .exiting exitCode groupExit =>
      some { s.goto t (.recorded groupExit) with exitCode := if s.groupExited then s.exitCode else exitCode }
    | _ => none
  | .exitThread t =>
    match s.phase t with
    | .recorded groupExit =>
      let membership := s.membership.exitTask t (s.tid t = s.pid)
      let isLast := membership.hasNoPublishedTasks
      some { s.goto t (.left groupExit isLast) with
        membership, lastExits := if isLast then t :: s.lastExits else s.lastExits }
    | _ => none
  | .completeProcessExit t =>
    match s.phase t with
    | .left groupExit true => some { s.goto t (.left groupExit false) with isZombie := true }
    | _ => none
  | .isGroupExited t =>
    match s.phase t with
    | .left groupExit false => some (s.goto t (if groupExit && !s.groupExited then .marking else .finished))
    | _ => none
  | .markGroupExited t =>
    if s.phase t = .marking then some { s.goto t .marked with groupExited := true } else none
  | .processTasks t =>
    if s.phase t = .marked then some (s.goto t (.broadcasting s.membership.tasks)) else none
  | .sendToThread t =>
    match s.phase t with
    -- a thread that has left is not found by its number
    | .broadcasting (u :: us) =>
      some { s.goto t (.broadcasting us) with
        killed := if (s.phase u).kind.isLive then update s.killed u true else s.killed }
    | .broadcasting [] => some (s.goto t .finished)
    | _ => none

def kind (t : Task) : Kind := (s.phase t).kind

/-- The thread is found in the membership map. -/
def Listed (t : Task) : Prop := t ∈ s.membership.members ∧ s.membership.slot t = .published

/-- No exit prunes the map while the slot of a publication is reserved and not yet filled. -/
def Unraced : Op → Prop
  | .exitThread _ => ∀ t ∈ s.membership.members, s.kind t ≠ .reserved
  | _ => True

instance (s : Threads) (o : Op) : Decidable (s.Unraced o) := by
  cases o <;> unfold Unraced <;> infer_instance

end Threads

/-- The map and the kinds of the threads agree, and the last exit is the end. -/
structure Exact (m : ThreadMembership) (k : Task → Kind) (lastExits : List Task) : Prop where
  slot : ∀ t, m.slot t = .published ↔ (k t).isLive = true
  mem : ∀ t, (k t).isLive = true ∨ k t = .reserved → t ∈ m.members
  born : k 0 ≠ .unborn
  leader : k 0 = .reserved ∨ k 0 = .inactive → ∀ t, t ≠ 0 → k t = .unborn
  last : lastExits ≠ [] → ∀ t, (k t).isLive = false ∧ k t ≠ .reserved
  once : lastExits.length ≤ 1
  remains : lastExits = [] → ∀ t, k t = .gone → ∃ u, (k u).isLive = true

namespace Exact

variable {m : ThreadMembership} {k : Task → Kind} {l : List Task} {t c : Task} (h : Exact m k l)
include h

theorem reserve (hc : k c = .active) (ht : k t = .unborn) : Exact (m.reserveSlot t) (update k t .reserved) l := by
  obtain ⟨slot, mem, born, leader, last, once, remains⟩ := h
  have hl : l = [] := by
    by_contra hl
    simpa [Kind.isLive, hc] using (last hl c).1
  unfold ThreadMembership.reserveSlot
  split <;> refine ⟨?_, ?_, ?_, ?_, fun hl' => absurd hl hl', once, fun _ _ _ => ⟨c, ?_⟩⟩ <;>
    simp only [update_apply] <;> grind [Kind.isLive]

theorem publish (ht : k t = .reserved) : Exact (m.publish t) (update k t .inactive) l := by
  obtain ⟨slot, mem, born, leader, last, once, remains⟩ := h
  refine ⟨?_, ?_, ?_, ?_, fun hl => absurd ht (last hl t).2, once, fun _ _ _ => ⟨t, ?_⟩⟩ <;>
    simp only [ThreadMembership.publish, update_apply] <;> grind [Kind.isLive]

theorem commit (ht : k t = .inactive) : Exact m (update k t .active) l := by
  obtain ⟨slot, mem, born, leader, last, once, remains⟩ := h
  refine ⟨?_, ?_, ?_, ?_, ?_, once, fun _ _ _ => ⟨t, ?_⟩⟩ <;> simp only [update_apply] <;> grind [Kind.isLive]

theorem rollback (ht : k t = .inactive) (hc : t = 0 ∨ k c = .active) :
    Exact (m.retire t) (update k t .rolledBack) l := by
  obtain ⟨slot, mem, born, leader, last, once, remains⟩ := h
  refine ⟨?_, ?_, ?_, ?_, ?_, once, fun _ u hu => ⟨c, ?_⟩⟩ <;>
    simp only [ThreadMembership.retire, update_apply] at * <;> grind [Kind.isLive]

theorem exit (ht : k t = .active) (hr : ∀ u ∈ m.members, k u ≠ .reserved) (isLeader : Bool) :
    Exact (m.exitTask t isLeader) (update k t .gone)
      (if (m.exitTask t isLeader).hasNoPublishedTasks then t :: l else l) := by
  obtain ⟨slot, mem, born, leader, last, once, remains⟩ := h
  have hl : l = [] := by
    by_contra hl
    simpa [Kind.isLive, ht] using (last hl t).1
  have hm : t ∈ m.members ∧ m.slot t = .published := by
    grind [Kind.isLive]
  simp only [ThreadMembership.exitTask, if_pos hm, ThreadMembership.pruneStale, ThreadMembership.hasNoPublishedTasks,
    List.all_filter]
  refine ⟨?_, ?_, ?_, ?_, ?_, ?_, ?_⟩ <;> simp only [update_apply] <;> grind [Kind.isLive]

end Exact

namespace Threads

variable {s s' : Threads} {o : Op}

theorem kind_goto (s : Threads) (t : Task) (p : Phase) : (s.goto t p).kind = update s.kind t p.kind := by
  funext u
  rcases eq_or_ne u t with rfl | hne
  · simp [kind, goto]
  · simp [kind, goto, hne]

def Good (s : Threads) : Prop := Exact s.membership s.kind s.lastExits

theorem kind_same {t : Task} {p : Phase} (hk : p.kind = (s.phase t).kind) : (s.goto t p).kind = s.kind := by
  rw [kind_goto, hk]
  exact update_eq_self t s.kind

/-- A thread that moves within its kind. -/
theorem Good.goto (hi : Good s) {t : Task} {p : Phase} (hk : p.kind = (s.phase t).kind) :
    Exact s.membership (s.goto t p).kind s.lastExits := by
  rw [kind_same hk]
  exact hi

/-- The creator returns from its clone. -/
theorem Good.release (hi : Good s) {c : Option Task} {t : Task} (hc : s.creates c t = true) :
    (s.release c).kind = s.kind ∧ Exact s.membership (s.release c).kind s.lastExits ∧
      ∃ c, t = 0 ∨ s.kind c = .active := by
  cases c with
  | none => exact ⟨rfl, hi, 0, .inl (by simpa [creates] using hc)⟩
  | some c =>
    have hp : s.phase c = .cloning t := by simpa [creates] using hc
    have hk : Phase.running.kind = (s.phase c).kind := by rw [hp, Phase.kind, Phase.kind]
    exact ⟨kind_same hk, hi.goto hk, c, .inr hk.symm⟩

theorem Good.step (hi : Good s) (hok : s.Unraced o) (h : s.step o = some s') : Good s' := by
  cases o with
  | reserve c t =>
    obtain ⟨⟨hc, ht⟩, hs⟩ := ite_none_right_eq_some.1 h
    cases hs
    change Exact (s.membership.reserveSlot t) ((s.goto c (.cloning t)).goto t .reserved).kind s.lastExits
    rw [kind_goto, kind_same (by rw [hc, Phase.kind, Phase.kind])]
    exact hi.reserve (by rw [kind, hc, Phase.kind]) (by rw [kind, ht, Phase.kind])
  | publish t =>
    obtain ⟨ht, hs⟩ := ite_none_right_eq_some.1 h
    cases hs
    change Exact (s.membership.publish t) (s.goto t .inactive).kind s.lastExits
    rw [kind_goto]
    exact hi.publish (by rw [kind, ht, Phase.kind])
  | commit c t =>
    obtain ⟨⟨ht, hc⟩, hs⟩ := ite_none_right_eq_some.1 h
    cases hs
    obtain ⟨hk, hr, -⟩ := hi.release hc
    have he := hr.commit (by rw [hk, kind, ht, Phase.kind])
    rw [← show Phase.running.kind = .active from rfl, ← kind_goto] at he
    cases c <;> exact he
  | rollback c t =>
    obtain ⟨⟨ht, hc⟩, hs⟩ := ite_none_right_eq_some.1 h
    cases hs
    obtain ⟨hk, hr, c', hc'⟩ := hi.release hc
    have he := hr.rollback (by rw [hk, kind, ht, Phase.kind]) (hk ▸ hc')
    rw [← show Phase.rolledBack.kind = .rolledBack from rfl, ← kind_goto] at he
    cases c <;> exact he
  | exitThread t =>
    simp only [step] at h
    split at h
    · rename_i g ht
      cases h
      change Exact _ (s.goto t (.left g _)).kind _
      rw [kind_goto]
      exact hi.exit (by rw [kind, ht, Phase.kind]) hok _
    · cases h
  | threadCount t | containsPublishedTid t | moveTaskNumber t moved | doExit t code group | recordExitCode t
  | completeProcessExit | isGroupExited | markGroupExited | processTasks | sendToThread =>
    simp only [step] at h
    split at h <;> cases h <;> exact hi.goto (by grind [Phase.kind])

theorem good_init (tid : Task → Nat) : Good (init tid) := by
  have hk : (init tid).kind = update (fun _ => .unborn) 0 .reserved :=
    kind_goto { init tid with phase := fun _ => .unborn } 0 .reserved
  unfold Good
  rw [hk]
  refine ⟨?_, ?_, ?_, ?_, ?_, ?_, ?_⟩ <;> simp only [init, update_apply] <;> grind [Kind.isLive]

/-- While no exit falls between the two sections of a publication, the map lists exactly the threads
that are published and have neither left nor been rolled back, and `exit_thread` returns true once,
to the last of them. -/
theorem run_membership_exact {tid : Task → Nat} (h : Run step Unraced (init tid) s) :
    (∀ t, s.Listed t ↔ (s.kind t).isLive = true) ∧ s.lastExits.length ≤ 1 ∧
      (s.lastExits ≠ [] → ∀ t, (s.kind t).isLive = false) ∧
      ((∀ t, (s.kind t).isLive = false) → (∃ t, s.kind t = .gone) → s.lastExits ≠ []) := by
  have hi := h.inv Good (good_init tid) fun _ _ _ hi hok hst => hi.step hok hst
  refine ⟨fun t => ⟨fun hl => (hi.slot t).1 hl.2, fun hk => ⟨hi.mem t (.inl hk), (hi.slot t).2 hk⟩⟩, hi.once,
    fun hl t => (hi.last hl t).1, fun hn ⟨t, ht⟩ hl => ?_⟩
  obtain ⟨u, hu⟩ := hi.remains hl t ht
  rw [hn u] at hu
  cases hu

/-- Thread 0 creates thread 1. -/
def sampleStart : List Op := [.publish 0, .commit none 0, .reserve 0 1, .publish 1, .commit (some 0) 1]

/-- Thread 1 exits, then thread 0. -/
theorem run_membership_exact_two : ∃ s, Run step Unraced (init id) s ∧
    ((s.lastExits = [0] ∧ s.kind 1 = .gone) ∧ s.lastExits.length ≤ 1) := by
  exact (Run.exists_of_exec (sampleStart ++
    [.doExit 1 0 false, .recordExitCode 1, .exitThread 1, .doExit 0 0 false, .recordExitCode 0, .exitThread 0])
    (by decide +kernel)).imp fun s h => ⟨h.1, h.2, (run_membership_exact h.1).2.1⟩

/-- Thread 1 exits while thread 0 is between the two sections of publishing thread 2: thread 2 runs and is
not listed, so the exit of thread 0 is a last one, and that of thread 2 a second. -/
theorem run_membership_lost :
    ∃ s, Run step (fun _ _ => True) (init id) s ∧ s.kind 2 = .active ∧ ¬ s.Listed 2 ∧ s.lastExits = [0] ∧
    ∃ s', Run step (fun _ _ => True) s s' ∧ s'.lastExits = [2, 0] := by
  obtain ⟨s, h, hk, hm, hl, hx⟩ : ∃ s, Run step (fun _ _ => True) (init id) s ∧ s.kind 2 = .active ∧
      2 ∉ s.membership.members ∧
      s.lastExits = [0] ∧ ((exec step (fun _ _ => True) s [.doExit 2 0 false, .recordExitCode 2, .exitThread 2]).any
        fun s' => s'.lastExits = [2, 0]) = true :=
    Run.exists_of_exec (sampleStart ++ [.reserve 0 2, .doExit 1 0 false, .recordExitCode 1, .exitThread 1, .publish 2,
      .commit (some 0) 2, .doExit 0 0 false, .recordExitCode 0, .exitThread 0]) (by decide +kernel)
  exact ⟨s, h, hk, fun hn => hm hn.1, hl, Run.exists_of_exec _ hx⟩

/-! ## Group exit -/

/-- Ready to mark the group, or marking it. -/
def marks : Phase → Bool
  | .recorded g | .left g _ => g
  | .marking | .marked | .broadcasting _ => true
  | .unborn | .reserved | .inactive | .running | .cloning _ | .counted | .found | .exiting .. | .finished |
    .rolledBack => false

/-- The threads that a broadcast has still to kill. -/
def targets : Phase → Option (List Task)
  | .broadcasting us => some us
  | .finished => some []
  | .unborn | .reserved | .inactive | .running | .cloning _ | .counted | .found | .exiting .. | .recorded _ | .left ..
  | .marking | .marked | .rolledBack => none

/-- The recorded code and the flag while the first group exit, with code `c`, is in a phase. -/
def Stage (c exitCode : Int) (groupExited : Bool) : Phase → Prop
  | .exiting c' g => g = true ∧ c' = c ∧ groupExited = false
  | .recorded g | .left g _ => g = true ∧ exitCode = c ∧ groupExited = false
  | .marking => exitCode = c ∧ groupExited = false
  | .marked | .broadcasting _ | .finished => exitCode = c ∧ groupExited = true
  | .unborn | .reserved | .inactive | .running | .cloning _ | .counted | .found | .rolledBack => False

/-- Before its code is recorded, whether an exit is one of the group. -/
def unrecorded : Phase → Option Bool
  | .exiting _ groupExit => some groupExit
  | _ => none

theorem Stage.of_unrecorded {c code code' : Int} {b : Bool} {p : Phase} (h : Stage c code b p)
    (hp : unrecorded p = some true) : Stage c code' b p := by
  cases p <;> first | exact h | cases hp

/-- Until the first group exit has marked the group, no other thread records a code, except a plain exit
before the first group exit's own record; no thread is published once it has listed the threads; no exit
prunes a reserved slot. There is no exec. -/
def Orderly (s : Threads) : Op → Prop
  | .recordExitCode t => s.groupExited = true ∨ s.first = none ∨ s.first = some t ∨
    unrecorded (s.phase t) = some false ∧ (s.first.bind fun u => unrecorded (s.phase u)) = some true
  | .publish _ => ∀ t ∈ s.first, targets (s.phase t) = none
  | .threadCount _ | .containsPublishedTid _ | .moveTaskNumber .. => False
  | o => s.Unraced o

@[mk_iff]
structure GroupExit (s : Threads) : Prop where
  done : s.isZombie = true ∨ (∃ t g, s.phase t = .left g true) → s.lastExits ≠ []
  entered : ∀ t c, s.phase t = .exiting c true → s.first ≠ none
  others : s.groupExited = false → ∀ t, marks (s.phase t) = true → s.first = some t
  unmarked : s.first = none → s.groupExited = false
  stage : ∀ t, s.first = some t → Stage s.firstCode s.exitCode s.groupExited (s.phase t)
  sent : ∀ t us, s.first = some t → targets (s.phase t) = some us → ∀ u, (s.phase u).kind.isLive = true →
    s.killed u = true ∨ u ∈ us

theorem GroupExit.step (hi : GroupExit s) (hg : Good s) (hok : s.Orderly o) (h : s.step o = some s') :
    GroupExit s' := by
  have hm : ∀ t, (s.phase t).kind.isLive = true → t ∈ s.membership.tasks := fun t ht =>
    mem_filter.2 ⟨hg.mem t (.inl ht), by simpa using (hg.slot t).2 ht⟩
  have hb : s.groupExited = false ∨ s.groupExited = true := by cases s.groupExited <;> simp
  obtain ⟨done, entered, others, unmarked, stage, sent⟩ := hi
  cases o with
  | threadCount | containsPublishedTid | moveTaskNumber => exact hok.elim
  | commit c | rollback c =>
    obtain ⟨⟨hc, ht⟩, hs⟩ := ite_none_right_eq_some.1 h
    cases hs
    cases c <;> simp only [creates] at ht <;> rw [groupExit_iff] <;> simp only [release, goto, update_apply] <;>
      grind [marks, targets, Phase.kind, Kind.isLive, Stage]
  | _ =>
    simp only [step] at h
    split at h <;> cases h <;> unfold Orderly at hok <;> rw [groupExit_iff] <;> simp only [goto, update_apply] <;>
      grind [marks, targets, Phase.kind, Kind.isLive, Stage, unrecorded, Stage.of_unrecorded]

theorem groupExit_init (tid : Task → Nat) : GroupExit (init tid) := by
  constructor <;> simp only [init] <;> grind [marks]

/-- In an orderly run a wait reports the code of the first group exit, and when that has returned, every thread that is
published and has not left was sent `SIGKILL`. -/
theorem run_groupExit_final {tid : Task → Nat} {t : Task} (h : Run step Orderly (init tid) s) (hf : s.first = some t) :
    (s.isZombie = true → s.exitCode = s.firstCode) ∧
      (s.phase t = .finished → ∀ u, (s.kind u).isLive = true → s.killed u = true) := by
  obtain ⟨hi, hg⟩ := h.inv (fun s => GroupExit s ∧ Good s) ⟨groupExit_init tid, good_init tid⟩
    fun s o s' ⟨hi, hg⟩ hok hst => ⟨hi.step hg hok hst, hg.step (by cases o <;> first | exact hok | exact trivial) hst⟩
  refine ⟨fun hz => ?_, fun ht u hu => by simpa using hi.sent t [] hf (by rw [ht, targets]) u hu⟩
  have hs := hi.stage t hf
  have hl := (hg.last (hi.done (.inl hz)) t).1
  unfold kind at hl
  cases hp : s.phase t <;> simp_all [Stage, Phase.kind, Kind.isLive]

instance (s : Threads) (o : Op) : Decidable (s.Orderly o) := by
  cases o <;> unfold Orderly <;> infer_instance

/-- Thread 0 exits the group with code 7 and thread 1 is killed. -/
theorem run_groupExit_final_seven : ∃ s, Run step Orderly (init id) s ∧
    (s.first = some 0 ∧ s.firstCode = 7 ∧ s.isZombie = true) ∧ s.exitCode = 7 := by
  exact (Run.exists_of_exec (sampleStart ++ [.doExit 0 7 true, .recordExitCode 0, .exitThread 0, .isGroupExited 0,
    .markGroupExited 0, .processTasks 0, .sendToThread 0, .doExit 1 9 true, .recordExitCode 1, .exitThread 1,
    .completeProcessExit 1]) (by decide +kernel)).imp fun s h =>
      ⟨h.1, h.2, ((run_groupExit_final h.1 h.2.1).1 h.2.2.2).trans h.2.2.1⟩

/-- A plain exit with code 5 between the record and the mark of an `exit_group` with code 7 is what a
wait reports; and a thread published after the list of the threads was taken runs on. -/
theorem run_groupExit_lost :
    (∃ s, Run step (fun _ _ => True) (init id) s ∧ s.first = some 0 ∧ s.firstCode = 7 ∧ s.isZombie = true ∧
      s.exitCode = 5) ∧
    ∃ s, Run step (fun _ _ => True) (init id) s ∧ s.first = some 0 ∧ s.phase 0 = .finished ∧ s.phase 2 = .running ∧
      s.killed 2 = false := by
  constructor
  · exact Run.exists_of_exec (sampleStart ++ [.doExit 0 7 true, .recordExitCode 0, .doExit 1 5 false, .recordExitCode 1,
      .exitThread 0, .exitThread 1, .completeProcessExit 1]) (by decide +kernel)
  · exact Run.exists_of_exec (sampleStart ++ [.doExit 0 7 true, .recordExitCode 0, .exitThread 0, .isGroupExited 0,
      .markGroupExited 0, .reserve 1 2, .processTasks 0, .publish 2, .commit (some 1) 2, .sendToThread 0,
      .sendToThread 0])
      (by decide +kernel)

end Threads

end XKernel.Process
