import XKernel.Sched.Scheduler
import XKernel.Lib.Cover
/-!
# Seats and queues

The seat of a task says which class has it in its queue. A class operation changes its
own queue, the seats of its own tasks and its own part of the tasks, so what holds of
the other queues stays true (`Touch`).
-/

namespace XKernel.Sched

open Lib SchedTask

namespace Scheduler

variable (s : Scheduler) (t : TaskId) (f : SchedTask → SchedTask)

attribute [simp] setSeat modifyDeadline modifyRt modifyFair

/-- A field that the change of one task keeps. -/
theorem modify_field {α : Type*} {g : SchedTask → α} (h : ∀ x, g (f x) = g x) (u : TaskId) :
    g ((s.modify t f).tasks u) = g (s.tasks u) := by
  rw [modify_tasks]
  split
  · rename_i hu
    rw [h, hu]
  · rfl

/-- A field that the change of one task sets. -/
theorem modify_set {α : Type*} {g : SchedTask → α} {a : α} (h : ∀ x, g (f x) = a) (u : TaskId) :
    g ((s.modify t f).tasks u) = if u = t then a else g (s.tasks u) := by
  rw [modify_tasks]
  split
  · exact h _
  · rfl

def seats (t : TaskId) : QueueSeat := (s.tasks t).seat

def prio (t : TaskId) : Nat := (s.tasks t).rtPriority

theorem seats_modifyDeadline (f : DeadlineEntity → DeadlineEntity) : (s.modifyDeadline t f).seats = s.seats :=
  funext (s.modify_field t (fun x => { x with deadline := f x.deadline }) fun _ => rfl)

theorem seats_modifyRt (f : RtEntity → RtEntity) : (s.modifyRt t f).seats = s.seats :=
  funext (s.modify_field t (fun x => { x with rt := f x.rt }) fun _ => rfl)

theorem seats_modifyFair (f : FairEntity → FairEntity) : (s.modifyFair t f).seats = s.seats :=
  funext (s.modify_field t (fun x => { x with fair := f x.fair }) fun _ => rfl)

theorem seats_setSeat (x : QueueSeat) : (s.setSeat t x).seats = Function.update s.seats t x := by
  funext u
  rw [Function.update_apply]
  exact s.modify_set t (fun y => { y with seat := x }) (fun _ => rfl) u

theorem modify_eq_self (h : f (s.tasks t) = s.tasks t) : s.modify t f = s := by
  rw [modify, h, Function.update_eq_self]

theorem setSeat_eq_self {x : QueueSeat} (h : s.seats t = x) : s.setSeat t x = s := by
  subst h
  exact s.modify_eq_self t _ rfl

theorem prio_setSeat (x : QueueSeat) : (s.setSeat t x).prio = s.prio :=
  funext (s.modify_field t (fun y => { y with seat := x }) fun _ => rfl)

theorem prio_modifyRt (f : RtEntity → RtEntity) : (s.modifyRt t f).prio = s.prio :=
  funext (s.modify_field t (fun x => { x with rt := f x.rt }) fun _ => rfl)

end Scheduler

/-! ## What a class operation leaves alone -/

/-- A task may change between the queue of the class and no queue; who joins the queue has the
class and does not run. -/
def Reseat (c : SchedClass) (s s' : Scheduler) (t : TaskId) : Prop :=
  ((s.tasks t).seat = .detached ∨ (s.tasks t).seat = .fromSchedClass c) ∧
  ((s'.tasks t).seat = .detached ∨
    (s'.tasks t).seat = .fromSchedClass c ∧ (s.tasks t).schedClass = c ∧ s.curr ≠ some t)

/-- The step from `s` to `s'` is one of the class `c`. -/
structure Touch (c : SchedClass) (s s' : Scheduler) : Prop where
  schedClass : ∀ t, (s'.tasks t).schedClass = (s.tasks t).schedClass
  attr : ∀ t, (s'.tasks t).attr = (s.tasks t).attr
  clock : s'.clock = s.clock
  curr : s'.curr = s.curr
  idle : s'.idle = s.idle
  stop : c ≠ .stop → s'.stop = s.stop
  deadline : c ≠ .deadline → s'.deadline = s.deadline ∧ ∀ t, (s'.tasks t).deadline = (s.tasks t).deadline
  rt : c ≠ .rt → s'.rt = s.rt
  fair : c ≠ .fair → s'.fair = s.fair ∧ ∀ t, (s'.tasks t).fair = (s.tasks t).fair
  seat : ∀ t, (s'.tasks t).seat = (s.tasks t).seat ∨ Reseat c s s' t

namespace Touch

variable {c : SchedClass} {s s' s'' : Scheduler} {t : TaskId}

theorem refl (c : SchedClass) (s : Scheduler) : Touch c s s :=
  ⟨fun _ => rfl, fun _ => rfl, rfl, rfl, rfl, fun _ => rfl, fun _ => ⟨rfl, fun _ => rfl⟩, fun _ => rfl,
    fun _ => ⟨rfl, fun _ => rfl⟩, fun _ => .inl rfl⟩

theorem trans (h : Touch c s s') (h' : Touch c s' s'') : Touch c s s'' where
  schedClass t := (h'.schedClass t).trans (h.schedClass t)
  attr t := (h'.attr t).trans (h.attr t)
  clock := h'.clock.trans h.clock
  curr := h'.curr.trans h.curr
  idle := h'.idle.trans h.idle
  stop hc := (h'.stop hc).trans (h.stop hc)
  deadline hc := ⟨(h'.deadline hc).1.trans (h.deadline hc).1, fun t => ((h'.deadline hc).2 t).trans
    ((h.deadline hc).2 t)⟩
  rt hc := (h'.rt hc).trans (h.rt hc)
  fair hc := ⟨(h'.fair hc).1.trans (h.fair hc).1, fun t => ((h'.fair hc).2 t).trans ((h.fair hc).2 t)⟩
  seat t := by
    rcases h'.seat t with h2 | ⟨h2, h2'⟩
    · rw [Reseat, h2]
      exact h.seat t
    · rw [h.schedClass, h.curr] at h2'
      rcases h.seat t with h1 | ⟨h1, -⟩
      · rw [h1] at h2
        exact .inr ⟨h2, h2'⟩
      · exact .inr ⟨h1, h2'⟩

/-- The change of one task that leaves the entities of the other classes alone. -/
theorem modify (s : Scheduler) (t : TaskId) {f : SchedTask → SchedTask} (hclass : ∀ x, (f x).schedClass = x.schedClass)
    (hattr : ∀ x, (f x).attr = x.attr) (hd : c ≠ .deadline → ∀ x, (f x).deadline = x.deadline)
    (hf : c ≠ .fair → ∀ x, (f x).fair = x.fair)
    (hseat : ∀ u, ((s.modify t f).tasks u).seat = (s.tasks u).seat ∨ Reseat c s (s.modify t f) u) :
    Touch c s (s.modify t f) where
  schedClass := s.modify_field t _ hclass
  attr := s.modify_field t _ hattr
  clock := rfl
  curr := rfl
  idle := rfl
  stop _ := rfl
  deadline hc := ⟨rfl, s.modify_field t _ (hd hc)⟩
  rt _ := rfl
  fair hc := ⟨rfl, s.modify_field t _ (hf hc)⟩
  seat := hseat

theorem modifyDeadline (s : Scheduler) (t : TaskId) (f : DeadlineEntity → DeadlineEntity) :
    Touch .deadline s (s.modifyDeadline t f) :=
  modify s t (fun _ => rfl) (fun _ => rfl) (absurd rfl)
    (fun _ _ => rfl) fun u => .inl (congrFun (s.seats_modifyDeadline t f) u)

theorem modifyRt (s : Scheduler) (t : TaskId) (f : RtEntity → RtEntity) : Touch .rt s (s.modifyRt t f) :=
  modify s t (fun _ => rfl) (fun _ => rfl) (fun _ _ => rfl) (fun _ _ => rfl) fun u =>
    .inl (congrFun (s.seats_modifyRt t f) u)

theorem modifyFair (s : Scheduler) (t : TaskId) (f : FairEntity → FairEntity) : Touch .fair s (s.modifyFair t f) :=
  modify s t (fun _ => rfl) (fun _ => rfl) (fun _ _ => rfl) (absurd rfl) fun u =>
    .inl (congrFun (s.seats_modifyFair t f) u)

theorem setSeat {x : QueueSeat} (hold : (s.tasks t).seat = .detached ∨ (s.tasks t).seat = .fromSchedClass c)
    (hnew : x = .detached ∨ x = .fromSchedClass c ∧ (s.tasks t).schedClass = c ∧ s.curr ≠ some t) :
    Touch c s (s.setSeat t x) := by
  refine modify s t (fun _ => rfl) (fun _ => rfl) (fun _ _ => rfl) (fun _ _ => rfl) fun u => ?_
  have hseat := s.modify_set t (fun y => { y with seat := x }) (g := (·.seat)) (fun _ => rfl) u
  by_cases hu : u = t
  · subst hu
    rw [if_pos rfl] at hseat
    exact .inr ⟨hold, by rw [hseat]; exact hnew⟩
  · rw [if_neg hu] at hseat
    exact .inl hseat

theorem setDeadline (s : Scheduler) (d : DeadlineClass) : Touch .deadline s { s with deadline := d } :=
  { refl .deadline s with deadline := absurd rfl }

theorem setRt (s : Scheduler) (r : RtClass) : Touch .rt s { s with rt := r } := { refl .rt s with rt := absurd rfl }

theorem setFair (s : Scheduler) (f : FairClass) : Touch .fair s { s with fair := f } :=
  { refl .fair s with fair := absurd rfl }

theorem setStop (s : Scheduler) (o : Option TaskId) : Touch .stop s { s with stop := o } :=
  { refl .stop s with stop := absurd rfl }

/-- Another class does not see the change of a seat. -/
theorem seat_iff (h : Touch c s s') {c' : SchedClass} (hne : c' ≠ c) (t : TaskId) :
    (s'.tasks t).seat = .fromSchedClass c' ↔ (s.tasks t).seat = .fromSchedClass c' := by
  have hd : ∀ d, QueueSeat.detached ≠ .fromSchedClass d := fun d => by cases d <;> nofun
  have hinj : ∀ d d', QueueSeat.fromSchedClass d = .fromSchedClass d' → d = d' := fun d d' he => by
    cases d <;> cases d' <;> first | rfl | cases he
  rcases h.seat t with hs | ⟨hold, hnew⟩
  · rw [hs]
  · constructor
    · intro he
      rcases hnew with hn | ⟨hn, -⟩
      · exact absurd (hn.symm.trans he) (hd c')
      · exact absurd (hinj c' c (he.symm.trans hn)) hne
    · intro he
      rcases hold with hn | hn
      · exact absurd (hn.symm.trans he) (hd c')
      · exact absurd (hinj c' c (he.symm.trans hn)) hne

end Touch

/-! ## The queues -/

def StopOk (s : Scheduler) : Prop := ∀ t, s.stop = some t ↔ (s.tasks t).seat = .stop

/-- The task is in one of the Deadline trees. -/
def InTrees (s : Scheduler) (t : TaskId) : Prop := t ∈ s.deadline.ready ∨ t ∈ s.deadline.throttled

/-- The two Deadline trees, whatever the seats say. -/
structure DlTrees (s : Scheduler) : Prop where
  apart : ∀ t ∈ s.deadline.ready, t ∉ s.deadline.throttled
  ready : Index.Sorted (DeadlineClass.readyKey s) s.deadline.ready
  throttled : Index.Sorted (DeadlineClass.throttledKey s) s.deadline.throttled
  fresh : ∀ t, InTrees s t → (s.tasks t).deadline.treeId < s.deadline.nextEnqueueId
  ids : ∀ t u, InTrees s t → InTrees s u → (s.tasks t).deadline.treeId = (s.tasks u).deadline.treeId → t = u

structure DlOk (s : Scheduler) : Prop extends DlTrees s where
  mem : ∀ t, InTrees s t ↔ (s.tasks t).seat = .deadline

/-- The lists when `prio` are the priorities the tasks were queued with. -/
structure RtOk (s : Scheduler) (prio : TaskId → Nat) : Prop where
  mem : ∀ i t, t ∈ s.rt.queues i ↔ (s.tasks t).seat = .rt ∧ RtClass.idx (prio t) = i
  nodup : ∀ i, (s.rt.queues i).Nodup
  occupied : ∀ i, i < rtPrioLevels → (s.rt.occupied.getLsbD i = true ↔ s.rt.queues i ≠ [])
  queued : s.rt.queued = ∑ i ∈ Finset.range rtPrioLevels, (s.rt.queues i).length

structure FairOk (s : Scheduler) : Prop where
  mem : ∀ t, t ∈ s.fair.ready ↔ (s.tasks t).seat = .fair
  vmem : ∀ t, t ∈ s.fair.vruntimeTree ↔ (s.tasks t).seat = .fair
  ready : Index.Sorted (FairClass.deadlineKey s) s.fair.ready
  vruntime : Index.Sorted (FairClass.vruntimeKey s) s.fair.vruntimeTree
  fresh : ∀ t, (s.tasks t).seat = .fair → (s.tasks t).fair.treeId < s.fair.nextEnqueueId

/-- The queue of a class holds the tasks with its seat. -/
def ClassOk (s : Scheduler) : SchedClass → Prop
  | .stop => StopOk s
  | .deadline => DlOk s
  | .rt => RtOk s s.prio
  | .fair => FairOk s
  | .idle => ∀ t, (s.tasks t).seat ≠ .idle

/-- The class of a task is the one of its attributes, which `validate` has accepted. -/
def AttrOk (k : Kconfig) (x : SchedTask) : Prop :=
  x.schedClass.isKernelOnly = true ∨ x.schedClass = x.attr.schedClass ∧ x.attr.validate k = .ok ()

/-- What holds of the seats, whatever the queues hold. -/
structure Placed (k : Kconfig) (s : Scheduler) : Prop where
  seat : ∀ t, (s.tasks t).seat ≠ .detached → (s.tasks t).seat = .fromSchedClass (s.tasks t).schedClass
  attr : ∀ t, AttrOk k (s.tasks t)
  curr : ∀ t, s.curr = some t → (s.tasks t).seat = .detached
  stop : ∀ t, s.curr = some t → (s.tasks t).schedClass = .stop → s.stop = none
  idle : (s.tasks s.idle).schedClass = .idle

/-- Every task is where its seat says. -/
structure Seated (k : Kconfig) (s : Scheduler) : Prop extends Placed k s where
  queue : ∀ c, ClassOk s c

section frame

variable {c : SchedClass} {s s' : Scheduler}

/-- Tasks may leave the trees, and those that stay keep their keys. -/
theorem DlTrees.mono (h : DlTrees s) (hr : s'.deadline.ready.Sublist s.deadline.ready)
    (ht : s'.deadline.throttled.Sublist s.deadline.throttled)
    (hn : s.deadline.nextEnqueueId ≤ s'.deadline.nextEnqueueId)
    (hk : ∀ t, InTrees s t → (s'.tasks t).deadline.deadlineNs = (s.tasks t).deadline.deadlineNs ∧
      (s'.tasks t).deadline.periodStartNs = (s.tasks t).deadline.periodStartNs ∧
      (s'.tasks t).deadline.treeId = (s.tasks t).deadline.treeId) : DlTrees s' := by
  have hin : ∀ t, InTrees s' t → InTrees s t := fun t => .imp (hr.subset ·) (ht.subset ·)
  refine ⟨fun t h1 h2 => h.apart t (hr.subset h1) (ht.subset h2),
    Index.Sorted.congr (h.ready.sublist hr) fun t hm => ?_,
    Index.Sorted.congr (h.throttled.sublist ht) fun t hm => ?_, fun t hm => ?_, fun t u hm hm' hid => ?_⟩
  · simp only [DeadlineClass.readyKey, hk t (.inl (hr.subset hm))]
  · simp only [DeadlineClass.throttledKey, hk t (.inr (ht.subset hm))]
  · rw [(hk t (hin t hm)).2.2]
    exact (h.fresh t (hin t hm)).trans_le hn
  · rw [(hk t (hin t hm)).2.2, (hk u (hin u hm')).2.2] at hid
    exact h.ids t u (hin t hm) (hin u hm') hid

theorem RtOk.congr {prio prio' : TaskId → Nat} (h : RtOk s prio) (hq : s'.rt.queues = s.rt.queues)
    (ho : s'.rt.occupied = s.rt.occupied) (hn : s'.rt.queued = s.rt.queued)
    (hm : ∀ i t, (s.tasks t).seat = .rt ∧ RtClass.idx (prio t) = i ↔ (s'.tasks t).seat = .rt ∧
      RtClass.idx (prio' t) = i) :
    RtOk s' prio' :=
  ⟨by rw [hq]; exact fun i t => (h.mem i t).trans (hm i t), by rw [hq]; exact h.nodup, by rw [ho, hq]; exact h.occupied,
    by rw [hn, hq]; exact h.queued⟩

theorem FairOk.mono (h : FairOk s) (hm : ∀ t, t ∈ s'.fair.ready ↔ (s'.tasks t).seat = .fair)
    (hvm : ∀ t, t ∈ s'.fair.vruntimeTree ↔ (s'.tasks t).seat = .fair) (hr : s'.fair.ready.Sublist s.fair.ready)
    (hv : s'.fair.vruntimeTree.Sublist s.fair.vruntimeTree) (hn : s.fair.nextEnqueueId ≤ s'.fair.nextEnqueueId)
    (hk : ∀ t, (s.tasks t).seat = .fair → (s'.tasks t).fair = (s.tasks t).fair) : FairOk s' := by
  refine ⟨hm, hvm, Index.Sorted.congr (h.ready.sublist hr) fun t ht => ?_,
    Index.Sorted.congr (h.vruntime.sublist hv) fun t ht => ?_, fun t ht => ?_⟩
  · simp only [FairClass.deadlineKey, hk t ((h.mem t).1 (hr.subset ht))]
  · simp only [FairClass.vruntimeKey, hk t ((h.vmem t).1 (hv.subset ht))]
  · have hs := (h.mem t).1 (hr.subset ((hm t).2 ht))
    rw [hk t hs]
    exact (h.fresh t hs).trans_le hn

/-- An operation of one class keeps the queues of the others. -/
theorem ClassOk.frame (h : Touch c s s') {c' : SchedClass} (hne : c' ≠ c) (hok : ClassOk s c') : ClassOk s' c' := by
  have hseat := h.seat_iff hne
  cases c' with
  | stop =>
    intro t
    rw [h.stop (Ne.symm hne), hok t]
    exact (hseat t).symm
  | deadline =>
    obtain ⟨hd, he⟩ := h.deadline (Ne.symm hne)
    have hin : ∀ t, InTrees s' t ↔ InTrees s t := fun t => by rw [InTrees, hd]; rfl
    refine ⟨hok.toDlTrees.mono (by rw [hd]) (by rw [hd]) (by rw [hd]) fun t _ => ?_, fun t => ?_⟩
    · rw [he]
      exact ⟨rfl, rfl, rfl⟩
    · rw [hin, hok.mem t]
      exact (hseat t).symm
  | rt =>
    have hr := h.rt (Ne.symm hne)
    refine RtOk.congr hok (by rw [hr]) (by rw [hr]) (by rw [hr]) fun i t => ?_
    rw [Scheduler.prio, Scheduler.prio, rtPriority, rtPriority, h.attr t]
    exact and_congr_left' (hseat t).symm
  | fair =>
    obtain ⟨hf, he⟩ := h.fair (Ne.symm hne)
    refine FairOk.mono hok (fun t => ?_) (fun t => ?_) (by rw [hf]) (by rw [hf]) (by rw [hf]) fun t _ => he t
    · rw [hf, hok.mem t]
      exact (hseat t).symm
    · rw [hf, hok.vmem t]
      exact (hseat t).symm
  | idle =>
    intro t hs
    exact hok t ((hseat t).1 hs)

/-- An operation of a class that leaves its own queue in order. -/
theorem Placed.touch {k : Kconfig} (h : Placed k s) (hq : ∀ c', c' ≠ c → ClassOk s c') (ht : Touch c s s')
    (hc : ClassOk s' c)
    (hstop : c = .stop → ∀ t, s.curr = some t → (s.tasks t).schedClass = .stop → s'.stop = none) : Seated k s' := by
  refine ⟨⟨fun t hs => ?_, fun t => ?_, fun t hcurr => ?_, fun t hcurr hcls => ?_, ?_⟩, fun c' => ?_⟩
  · rw [ht.schedClass]
    rcases ht.seat t with he | ⟨-, hnew⟩
    · rw [he] at hs ⊢
      exact h.seat t hs
    · rcases hnew with hn | ⟨hn, hcls, -⟩
      · exact absurd hn hs
      · rw [hn, hcls]
  · unfold AttrOk
    rw [ht.schedClass, ht.attr]
    exact h.attr t
  · rw [ht.curr] at hcurr
    rcases ht.seat t with he | ⟨-, hnew⟩
    · rw [he]
      exact h.curr t hcurr
    · rcases hnew with hn | ⟨-, -, hn⟩
      · exact hn
      · exact absurd hcurr hn
  · rw [ht.curr] at hcurr
    rw [ht.schedClass] at hcls
    by_cases hcs : c = .stop
    · exact hstop hcs t hcurr hcls
    · rw [ht.stop hcs]
      exact h.stop t hcurr hcls
  · rw [ht.idle, ht.schedClass]
    exact h.idle
  · by_cases hne : c' = c
    · rw [hne]
      exact hc
    · exact (hq c' hne).frame ht hne

/-- An operation of the class leaves its queue in order and the seats as given. -/
structure Acts (c : SchedClass) (s s' : Scheduler) (seats : TaskId → QueueSeat) : Prop where
  touch : Touch c s s'
  ok : ClassOk s' c
  seats : s'.seats = seats

theorem Acts.refl (h : ClassOk s c) : Acts c s s s.seats := ⟨.refl c s, h, rfl⟩

variable {s'' : Scheduler}

theorem Acts.trans {a b : TaskId → QueueSeat} (h : Acts c s s' a) (h' : Acts c s' s'' b) : Acts c s s'' b :=
  ⟨h.touch.trans h'.touch, h'.ok, h'.seats⟩

/-- Work that moves no task. -/
theorem Acts.andThen {a : TaskId → QueueSeat} (h : Acts c s s' a) (h' : Acts c s' s'' s'.seats) : Acts c s s'' a :=
  ⟨h.touch.trans h'.touch, h'.ok, h'.seats.trans h.seats⟩

/-- What it is to take a task out of the queue of a class, or none. -/
def Taken (c : SchedClass) (s s' : Scheduler) : Option TaskId → Prop
  | none => Acts c s s' s.seats
  | some t => s.seats t = .fromSchedClass c ∧ Acts c s s' (Function.update s.seats t .detached)

variable {r : Option TaskId}

/-- Work that moves no task before a task is taken. -/
theorem Acts.taken (h : Acts c s s' s.seats) (h' : Taken c s' s'' r) :
    Taken c s s'' r := by
  unfold Taken at h' ⊢
  rw [h.seats] at h'
  cases r with
  | none => exact h.trans h'
  | some => exact ⟨h'.1, h.trans h'.2⟩

/-- Work that moves no task after a task was taken. -/
theorem Taken.acts (h : Taken c s s' r) (h' : Acts c s' s'' s'.seats) : Taken c s s'' r := by
  cases r with
  | none => exact h.andThen h'
  | some => exact ⟨h.1, h.2.andThen h'⟩

/-- The task has the class and does not run, and is in no other queue. -/
structure MayJoin (c : SchedClass) (s : Scheduler) (t : TaskId) : Prop where
  seat : (s.tasks t).seat = .detached ∨ (s.tasks t).seat = .fromSchedClass c
  schedClass : (s.tasks t).schedClass = c
  curr : s.curr ≠ some t

theorem MayJoin.touch {t : TaskId} (h : MayJoin c s t) (ht : Touch c s s') (hs : (s'.tasks t).seat = (s.tasks t).seat) :
    MayJoin c s' t :=
  ⟨by rw [hs]; exact h.seat, by rw [ht.schedClass]; exact h.schedClass, by rw [ht.curr]; exact h.curr⟩

end frame

end XKernel.Sched
