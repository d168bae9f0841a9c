import Mathlib
/-!
# Scheduling policies (`ksched`, `policy.rs`, `config.rs` and `clock.rs`)

Times are nanoseconds in `u64`, kept as natural numbers with the saturation of the
source.
-/

namespace XKernel.Sched

open Option

def u64Max : Nat := 2 ^ 64 - 1

/-- `saturating_add`. -/
def satAdd (a b : Nat) : Nat := min (a + b) u64Max

/-- `saturating_mul`. -/
def satMul (a b : Nat) : Nat := min (a * b) u64Max

/-! ## Configuration -/

/-- The options of `ksched/Kconfig`. -/
structure Kconfig where
  fairRequestUs : Nat
  rrSliceUs : Nat
  rtPeriodUs : Nat
  rtRuntimeUs : Nat
  dlMinRuntimeUs : Nat
  dlBwMarginPct : Nat
  margin_le : dlBwMarginPct ≤ 99

namespace Kconfig

/-- The defaults of the file. -/
def standard : Kconfig := ⟨2000, 100000, 1000000, 950000, 100, 5, by decide⟩

def usToNs (us : Nat) : Nat := us * 1000

def clampRuntimeNs (runtimeUs periodUs : Nat) : Nat :=
  if usToNs periodUs < usToNs runtimeUs then usToNs periodUs else usToNs runtimeUs

variable (k : Kconfig)

def defaultSliceNs : Nat := usToNs k.fairRequestUs

def defaultRrSliceNs : Nat := usToNs k.rrSliceUs

def defaultRtPeriodNs : Nat := usToNs k.rtPeriodUs

def defaultRtRuntimeNs : Nat := clampRuntimeNs k.rtRuntimeUs k.rtPeriodUs

def minDlRuntimeNs : Nat := usToNs k.dlMinRuntimeUs

def dlBwMarginPpm : Nat := k.dlBwMarginPct * 10000

end Kconfig

def minRtPriority : Nat := 1

def maxRtPriority : Nat := 99

def rtPrioLevels : Nat := maxRtPriority - minRtPriority + 1

/-! ## The clock -/

structure RqClock where
  nowNs : Nat
  lastNs : Nat

namespace RqClock

def new (nowNs : Nat) : RqClock := ⟨nowNs, nowNs⟩

/-- The time since the last sample, and the clock after this one. -/
def advance (c : RqClock) (nowNs : Nat) : Nat × RqClock :=
  (nowNs - c.lastNs, ⟨max nowNs c.nowNs, if c.lastNs ≤ nowNs then nowNs else c.lastNs⟩)

end RqClock

/-! ## Classes and policies -/

inductive SchedClass where
  | stop
  | deadline
  | rt
  | fair
  | idle
  deriving DecidableEq, Repr

namespace SchedClass

def rank : SchedClass → Nat
  | stop => 0
  | deadline => 1
  | rt => 2
  | fair => 3
  | idle => 4

def isAbove (a b : SchedClass) : Bool := a.rank < b.rank

def isKernelOnly : SchedClass → Bool
  | stop | idle => true
  | _ => false

end SchedClass

inductive SchedPolicy where
  | normal
  | fifo
  | rr
  | batch
  | idle
  | deadline
  deriving DecidableEq, Repr

namespace SchedPolicy

def schedClass : SchedPolicy → SchedClass
  | fifo | rr => .rt
  | deadline => .deadline
  | normal | batch | idle => .fair

def isRealtime : SchedPolicy → Bool
  | fifo | rr => true
  | _ => false

end SchedPolicy

inductive SchedError where
  | invalidPolicy
  | invalidPriority
  | invalidNice
  | admissionFull
  | kernelClassImmutable
  deriving DecidableEq, Repr

/-- `0` is `RtPrio::NONE`. -/
structure RtPrio where
  get : Nat
  le : get ≤ maxRtPriority
  deriving DecidableEq

namespace RtPrio

def none : RtPrio := ⟨0, by decide⟩

def new (v : Int) : Except SchedError RtPrio :=
  if h : v < minRtPriority ∨ maxRtPriority < v then .error .invalidPriority
  else .ok ⟨v.toNat, by omega⟩

end RtPrio

structure Nice where
  val : Int
  lo : -20 ≤ val
  hi : val ≤ 19
  deriving DecidableEq

def niceToWeight : List Nat :=
  [88761, 71755, 56483, 46273, 36291, 29154, 23254, 18705, 14949, 11916, 9548, 7620, 6100, 4904,
    3906, 3121, 2501, 1991, 1586, 1277, 1024, 820, 655, 526, 423, 335, 272, 215, 172, 137, 110, 87,
    70, 56, 45, 36, 29, 23, 18, 15]

/-- At this weight a nanosecond is a unit of virtual time. -/
def nice0Weight : Int := 1024

namespace Nice

def default : Nice := ⟨0, by decide, by decide⟩

def new (v : Int) : Except SchedError Nice :=
  if h : v < -20 ∨ 19 < v then .error .invalidNice else .ok ⟨v, by omega, by omega⟩

def weight (n : Nice) : Nat := niceToWeight.getD (n.val + 20).toNat 0

end Nice

structure DlParams where
  runtimeNs : Nat
  deadlineNs : Nat
  periodNs : Nat
  deriving DecidableEq, Repr

namespace DlParams

def new (k : Kconfig) (runtimeNs deadlineNs periodNs : Nat) : Except SchedError DlParams :=
  if runtimeNs = 0 ∨ deadlineNs = 0 ∨ periodNs = 0 ∨ deadlineNs < runtimeNs ∨ periodNs < deadlineNs ∨
      runtimeNs < k.minDlRuntimeNs then .error .invalidPolicy
  else .ok ⟨runtimeNs, deadlineNs, periodNs⟩

/-- The share of a CPU the task reserves, in parts per million. -/
def loadPpm (p : DlParams) : Nat := if p.periodNs = 0 then 0 else min (p.runtimeNs * 1000000 / p.periodNs) u64Max

end DlParams

structure SchedAttr where
  policy : SchedPolicy
  nice : Nice
  rtPriority : RtPrio
  dlParams : Option DlParams
  deriving DecidableEq

namespace SchedAttr

def default : SchedAttr := ⟨.normal, .default, .none, none⟩

def schedClass (a : SchedAttr) : SchedClass := a.policy.schedClass

def validate (k : Kconfig) (a : SchedAttr) : Except SchedError Unit :=
  match a.policy with
  | .fifo | .rr =>
    if a.dlParams.isSome then .error .invalidPolicy
    else if a.rtPriority.get < minRtPriority ∨ maxRtPriority < a.rtPriority.get then .error .invalidPriority
    else .ok ()
  | .deadline =>
    match a.dlParams with
    | some p =>
      match DlParams.new k p.runtimeNs p.deadlineNs p.periodNs with
      | .ok _ => .ok ()
      | .error e => .error e
    | none => .error .invalidPolicy
  | .normal | .batch | .idle =>
    if a.dlParams.isSome then .error .invalidPolicy
    else if a.rtPriority.get ≠ RtPrio.none.get then .error .invalidPriority
    else .ok ()

variable {a : SchedAttr} {k : Kconfig}

/-- A Deadline policy comes with a triple that `DlParams::new` accepts. -/
theorem validate_deadline (h : a.validate k = .ok ()) (hc : a.schedClass = .deadline) :
    ∃ p, a.dlParams = some p ∧ 0 < p.runtimeNs := by
  unfold validate at h
  split at h <;> rename_i hp
  all_goals unfold schedClass at hc; rw [hp] at hc
  · cases hc
  · cases hc
  · split at h
    · rename_i p hd
      refine ⟨p, hd, ?_⟩
      unfold DlParams.new at h
      split at h
      · rename_i hn
        split at hn
        · cases hn
        · omega
      · cases h
    · cases h
  · cases hc
  · cases hc
  · cases hc

/-- Only a Deadline policy comes with a triple. -/
theorem validate_other (h : a.validate k = .ok ()) (hc : a.schedClass ≠ .deadline) :
    a.dlParams = none := by
  have hnone : ∀ {e e' : Except SchedError Unit}, (if a.dlParams.isSome then e else e') = .ok () → e ≠ .ok () →
      a.dlParams = none := by
    intro e e' hif he
    split at hif
    · exact absurd hif he
    · rename_i hn
      rw [Bool.not_eq_true, isSome_eq_false_iff] at hn
      exact isNone_iff_eq_none.1 hn
  unfold validate at h
  split at h <;> rename_i hp
  · exact hnone h nofun
  · exact hnone h nofun
  · exact absurd (by rw [schedClass, hp]; rfl) hc
  · exact hnone h nofun
  · exact hnone h nofun
  · exact hnone h nofun

/-- A realtime policy comes with a priority that has a list. -/
theorem validate_rt (h : a.validate k = .ok ()) (hc : a.schedClass = .rt) :
    minRtPriority ≤ a.rtPriority.get ∧ a.rtPriority.get ≤ maxRtPriority := by
  unfold validate at h
  split at h <;> rename_i hp
  all_goals unfold schedClass at hc; rw [hp] at hc
  · split at h
    · cases h
    · split at h
      · cases h
      · omega
  · split at h
    · cases h
    · split at h
      · cases h
      · omega
  · cases hc
  · cases hc
  · cases hc
  · cases hc

end SchedAttr

end XKernel.Sched
