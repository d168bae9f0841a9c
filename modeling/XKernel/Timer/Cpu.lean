import XKernel.Lib.KeyTree
/-!
# The timers of one CPU

The pending index with its cached minimum, and the record of the running timer. Nodes are owned
outside of the index and linked into it, so they are in one heap and the index has their ids.
Each operation has one lemma for its effect on the node and on the index.
-/

namespace XKernel.Timer

open XKernel.Lib Function List Option

inductive KError
  | invalidInput
  deriving DecidableEq, Repr

def u64Max : Nat := 2 ^ 64 - 1

/-- `Deadline::new`, for an instant in nanoseconds since the origin. -/
def Deadline.new (instant : Nat) : Except KError UInt64 :=
  if instant ≤ u64Max then .ok (UInt64.ofNat instant) else .error .invalidInput

/-! ## Nodes -/

structure TimerNode where
  link : Bool
  deadline : UInt64
  ownerCpu : Nat
  deriving DecidableEq, Repr

/-- `Timer::new_on`, for a set of `cpuCount` CPUs. -/
def TimerNode.newOn (cpuCount initialCpu : Nat) : Except KError TimerNode :=
  if initialCpu ≥ cpuCount then .error .invalidInput else .ok ⟨false, 0, initialCpu⟩

abbrev Nodes := Nat → TimerNode

namespace Nodes

variable (nodes : Nodes)

/-- The key of the index. -/
def key (n : Nat) : Nat := (nodes n).deadline.toNat

def setLink (n : Nat) (link : Bool) : Nodes := Function.update nodes n { nodes n with link }

def replaceDeadline (n : Nat) (deadline : UInt64) : Nodes := Function.update nodes n { nodes n with deadline }

def setOwnerCpu (n cpu : Nat) : Nodes := Function.update nodes n { nodes n with ownerCpu := cpu }

end Nodes

/-! ## The index -/

structure TimerIndex where
  tree : List Nat
  earliest : Option Nat
  deriving DecidableEq, Repr

namespace TimerIndex

def new : TimerIndex := ⟨[], none⟩

variable (index : TimerIndex) (nodes : Nodes)

def earliestDeadlineNs : Option UInt64 := index.earliest.map fun n => (nodes n).deadline

def insert (n : Nat) : Nodes × TimerIndex :=
  -- on equality the existing leftmost node remains the cache entry
  let isEarliest := (index.earliestDeadlineNs nodes).all fun first => (nodes n).deadline < first
  (nodes.setLink n true, ⟨insertKeyed nodes.key n index.tree, if isEarliest then some n else index.earliest⟩)

def remove (n : Nat) : Nodes × TimerIndex :=
  (nodes.setLink n false,
    ⟨index.tree.erase n, if index.earliest = some n then successor n index.tree else index.earliest⟩)

def popDue (observedAtNs : UInt64) : Option (Nat × Nodes × TimerIndex) := do
  if (← index.earliestDeadlineNs nodes) > observedAtNs then none
  else
    let n ← index.earliest
    some (n, index.remove nodes n)

/-- The tree is in key order and the cache is its first node. -/
structure Valid (index : TimerIndex) (nodes : Nodes) : Prop where
  nodup : index.tree.Nodup
  sorted : KeySorted nodes.key index.tree
  cached : index.earliest = index.tree.head?

variable {index nodes} {n : Nat}

theorem new_valid : new.Valid nodes := ⟨.nil, .nil, rfl⟩

theorem Valid.congr {nodes' : Nodes} (h : index.Valid nodes) (hkey : ∀ m ∈ index.tree, nodes'.key m = nodes.key m) :
    index.Valid nodes' :=
  ⟨h.nodup, h.sorted.congr hkey, h.cached⟩

theorem key_setLink (nodes : Nodes) (n : Nat) (link : Bool) (m : Nat) : (nodes.setLink n link).key m = nodes.key m := by
  by_cases hm : m = n
  · simp [Nodes.key, Nodes.setLink, hm]
  · simp [Nodes.key, Nodes.setLink, update_of_ne hm]

theorem Valid.insert (h : index.Valid nodes) (hn : n ∉ index.tree) :
    (index.insert nodes n).2.Valid (index.insert nodes n).1 := by
  have hvalid : (index.insert nodes n).2.Valid nodes := by
    refine ⟨nodup_insertKeyed hn h.nodup, sorted_insertKeyed h.sorted, ?_⟩
    simp only [TimerIndex.insert, TimerIndex.earliestDeadlineNs, head?_insertKeyed, h.cached, Option.all_map]
    rfl
  exact hvalid.congr fun m _ => key_setLink nodes n true m

theorem mem_insert {m : Nat} : m ∈ (index.insert nodes n).2.tree ↔ m = n ∨ m ∈ index.tree := mem_insertKeyed

section

variable (h : index.Valid nodes)
include h

theorem Valid.remove (n : Nat) :
    (index.remove nodes n).2.Valid (index.remove nodes n).1 := by
  have hvalid : (index.remove nodes n).2.Valid nodes := by
    refine ⟨h.nodup.erase n, h.sorted.erase, ?_⟩
    simp only [TimerIndex.remove, h.cached]
    exact head?_erase.symm
  exact hvalid.congr fun m _ => key_setLink nodes n false m

theorem Valid.mem_remove {m : Nat} :
    m ∈ (index.remove nodes n).2.tree ↔ m ≠ n ∧ m ∈ index.tree :=
  h.nodup.mem_erase_iff

/-- The cached node is a minimum of the index. -/
theorem Valid.earliest_le {e : Nat} (he : index.earliest = some e) :
    e ∈ index.tree ∧ ∀ m ∈ index.tree, (nodes e).deadline ≤ (nodes m).deadline := by
  rw [h.cached] at he
  exact ⟨mem_of_head? he, fun m hm => UInt64.le_iff_toNat_le.2 (h.sorted.le_of_head? he hm)⟩

theorem Valid.tree_eq_nil (he : index.earliest = none) : index.tree = [] :=
  head?_eq_none_iff.1 (h.cached ▸ he)

end

variable {observed : UInt64}

/-- `pop_due` takes a due node out. -/
theorem Valid.popDue_eq_some (h : index.Valid nodes) {r : Nodes × TimerIndex}
    (hp : index.popDue nodes observed = some (n, r)) :
    n ∈ index.tree ∧ (nodes n).deadline ≤ observed ∧ r = index.remove nodes n := by
  unfold popDue earliestDeadlineNs at hp
  cases he : index.earliest with
  | none => simp [he] at hp
  | some =>
    simp only [he, map_some, bind_eq_bind, bind_some] at hp
    split at hp
    · cases hp
    · rename_i hdue
      cases hp
      exact ⟨(h.earliest_le he).1, UInt64.not_lt.1 hdue, rfl⟩

/-- `pop_due` finds none only if none is due. -/
theorem Valid.popDue_eq_none (h : index.Valid nodes) (hp : index.popDue nodes observed = none) :
    ∀ m ∈ index.tree, observed < (nodes m).deadline := by
  intro m hm
  unfold popDue earliestDeadlineNs at hp
  cases he : index.earliest with
  | none => simp [h.tree_eq_nil he] at hm
  | some =>
    simp only [he, map_some, bind_eq_bind, bind_some] at hp
    split at hp
    · rename_i hlate
      exact UInt64.lt_of_lt_of_le hlate ((h.earliest_le he).2 m hm)
    · cases hp

end TimerIndex

/-! ## The collection of a CPU -/

structure CpuTimers where
  pending : TimerIndex
  running : Option Nat
  dispatchAfterNs : Option UInt64
  deriving DecidableEq, Repr

inductive CancelResult
  | inactive
  | removed
  | running
  deriving DecidableEq, Repr

namespace CpuTimers

def new : CpuTimers := ⟨.new, none, none⟩

variable (timers : CpuTimers) (nodes : Nodes)

def earliestDeadlineNs : Option UInt64 := timers.pending.earliestDeadlineNs nodes

def canDispatch (nowNs : UInt64) : Bool × CpuTimers :=
  if timers.dispatchAfterNs.any fun deadline => nowNs < deadline then (false, timers)
  else
    let timers := { timers with dispatchAfterNs := none }
    ((timers.earliestDeadlineNs nodes).any fun deadline => deadline ≤ nowNs, timers)

def deferDispatchUntil (deadlineNs : UInt64) : CpuTimers := { timers with dispatchAfterNs := some deadlineNs }

def isRunning (n : Nat) : Bool := timers.running = some n

/-- `arm`: the deadline replaces a pending one. The flag says whether the node was not pending. -/
def arm (n : Nat) (deadline : UInt64) : Nodes × CpuTimers × Bool :=
  let wasLinked := (nodes n).link
  let (nodes, pending) := if wasLinked then timers.pending.remove nodes n else (nodes, timers.pending)
  let nodes := nodes.replaceDeadline n deadline
  let (nodes, pending) := pending.insert nodes n
  (nodes, { timers with pending }, !wasLinked)

def tryCancel (n : Nat) : CancelResult × Nodes × CpuTimers :=
  if timers.isRunning n then (.running, nodes, timers)
  else if (nodes n).link then
    let (nodes, pending) := timers.pending.remove nodes n
    (.removed, nodes, { timers with pending })
  else (.inactive, nodes, timers)

/-- `take_expired`, with the deadline of the expiration. -/
def takeExpired (dueAtNs : UInt64) : Option ((Nat × UInt64) × Nodes × CpuTimers) :=
  if timers.running.isSome then none
  else do
    let (n, nodes, pending) ← timers.pending.popDue nodes dueAtNs
    some ((n, (nodes n).deadline), nodes, { timers with pending, running := some n })

/-- `clear_running`, whose assertion fails for another delivery. -/
def clearRunning (n : Nat) : Option CpuTimers :=
  if timers.running = some n then some { timers with running := none } else none

variable {timers nodes} {n : Nat} {deadline : UInt64}

theorem arm_nodes : (timers.arm nodes n deadline).1 = update nodes n { nodes n with link := true, deadline } := by
  unfold arm TimerIndex.insert TimerIndex.remove Nodes.replaceDeadline Nodes.setLink
  by_cases hlink : (nodes n).link <;> simp [hlink]

theorem arm_running : (timers.arm nodes n deadline).2.1.running = timers.running := rfl

theorem key_update_of_ne {x : TimerNode} {m : Nat} (hm : m ≠ n) : Nodes.key (update nodes n x) m = nodes.key m := by
  rw [Nodes.key, update_of_ne hm, Nodes.key]

theorem arm_valid (h : timers.pending.Valid nodes) (hlink : (nodes n).link = true ↔ n ∈ timers.pending.tree) :
    (timers.arm nodes n deadline).2.1.pending.Valid (timers.arm nodes n deadline).1 := by
  unfold arm
  by_cases hn : (nodes n).link
  · simp only [hn]
    have hout : n ∉ (timers.pending.remove nodes n).2.tree := fun hm => (h.mem_remove.1 hm).1 rfl
    refine TimerIndex.Valid.insert ((h.remove n).congr fun m hm => ?_) hout
    exact key_update_of_ne (h.mem_remove.1 hm).1
  · simp only [hn]
    have hout : n ∉ timers.pending.tree := fun hm => hn (hlink.2 hm)
    refine TimerIndex.Valid.insert (h.congr fun m hm => ?_) hout
    exact key_update_of_ne (ne_of_mem_of_not_mem hm hout)

theorem mem_arm (h : timers.pending.Valid nodes) {m : Nat} :
    m ∈ (timers.arm nodes n deadline).2.1.pending.tree ↔ m = n ∨ m ∈ timers.pending.tree := by
  unfold arm
  by_cases hn : (nodes n).link
  · simp only [hn, if_true, TimerIndex.mem_insert, h.mem_remove]
    by_cases hm : m = n <;> simp [hm]
  · simp only [hn, Bool.false_eq_true, if_false, TimerIndex.mem_insert]

theorem tryCancel_nodes (timers : CpuTimers) (nodes : Nodes) (n : Nat) :
    (timers.tryCancel nodes n).2.1 = nodes ∨ (timers.tryCancel nodes n).2.1 = nodes.setLink n false := by
  unfold tryCancel
  split
  · exact .inl rfl
  · split
    · exact .inr rfl
    · exact .inl rfl

theorem tryCancel_running : (timers.tryCancel nodes n).2.2.running = timers.running := by
  unfold tryCancel
  split
  · rfl
  · split <;> rfl

/-- `take_expired` gives a due node with its own deadline and makes it the running one. -/
theorem takeExpired_eq_some (h : timers.pending.Valid nodes) {due expiration : UInt64} {r : Nodes × CpuTimers}
    (ht : timers.takeExpired nodes due = some ((n, expiration), r)) :
    timers.running = none ∧ n ∈ timers.pending.tree ∧ expiration = (nodes n).deadline ∧ expiration ≤ due ∧
      r = ((timers.pending.remove nodes n).1,
        { timers with pending := (timers.pending.remove nodes n).2, running := some n }) := by
  unfold takeExpired at ht
  split at ht
  · cases ht
  rename_i hrunning
  obtain ⟨⟨m, r'⟩, hpop, ht⟩ := bind_eq_some_iff.1 ht
  obtain ⟨hm, hdue, rfl⟩ := h.popDue_eq_some hpop
  have hdeadline : ((timers.pending.remove nodes m).1 m).deadline = (nodes m).deadline := by
    simp [TimerIndex.remove, Nodes.setLink]
  cases ht
  exact ⟨not_isSome_iff_eq_none.1 hrunning, hm, hdeadline, hdeadline ▸ hdue, rfl⟩

theorem takeExpired_eq_none (h : timers.pending.Valid nodes) {due : UInt64} (hrunning : timers.running = none)
    (ht : timers.takeExpired nodes due = none) : ∀ m ∈ timers.pending.tree, due < (nodes m).deadline := by
  refine h.popDue_eq_none ?_
  unfold takeExpired at ht
  simp only [hrunning] at ht
  cases hpop : timers.pending.popDue nodes due with
  | none => rfl
  | some r => cases bind_eq_none_iff.1 ht r hpop

theorem canDispatch_pending (now : UInt64) :
    (timers.canDispatch nodes now).2.pending = timers.pending ∧
      (timers.canDispatch nodes now).2.running = timers.running := by
  unfold canDispatch
  split <;> exact ⟨rfl, rfl⟩

/-- No dispatch means that the CPU is deferred or that nothing is due. -/
theorem canDispatch_eq_false (h : timers.pending.Valid nodes) {now : UInt64}
    (hc : (timers.canDispatch nodes now).1 = false) :
    (∃ d, timers.dispatchAfterNs = some d ∧ (timers.canDispatch nodes now).2.dispatchAfterNs = some d ∧ now < d) ∨
      ∀ m ∈ timers.pending.tree, now < (nodes m).deadline := by
  unfold canDispatch at hc ⊢
  split at hc
  · rename_i hdefer
    rw [if_pos hdefer]
    cases hd : timers.dispatchAfterNs with
    | none => simp [hd] at hdefer
    | some d => exact .inl ⟨d, rfl, rfl, by simpa [hd] using hdefer⟩
  · refine .inr fun m hm => ?_
    cases he : timers.pending.earliest with
    | none => simp [h.tree_eq_nil he] at hm
    | some e =>
      have hlate : ¬ (nodes e).deadline ≤ now := by
        simpa [earliestDeadlineNs, TimerIndex.earliestDeadlineNs, he] using hc
      exact UInt64.lt_of_lt_of_le (UInt64.not_le.1 hlate) ((h.earliest_le he).2 m hm)

end CpuTimers

end XKernel.Timer
