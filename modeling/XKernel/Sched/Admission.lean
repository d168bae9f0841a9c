import XKernel.Sched.CbsRuns
/-!
# Deadline admission

`set_attr` admits a Deadline policy against the tasks that are on the run queue. Nothing
is checked when a Deadline task comes to the run queue, so the bound holds along the runs
in which every such task still fits.
-/

namespace XKernel.Sched

open Lib DeadlineClass Function List Option DeadlineClass
open Scheduler (modify_self seats new)

variable {k : Kconfig} {s s' : Scheduler} {t u : TaskId}

/-! ## The tasks on the run queue -/

/-- The Deadline tasks in the trees and on the CPU. -/
def residents (s : Scheduler) : Finset TaskId :=
  s.deadline.ready.toFinset ∪ s.deadline.throttled.toFinset ∪ (s.currFor .deadline).toFinset

def residentLoad (s : Scheduler) : Nat := ∑ t ∈ residents s, reservingPpm s t

def admitBound (k : Kconfig) : Nat := 1000000 - k.dlBwMarginPpm

theorem currFor_eq_some {c : SchedClass} : s.currFor c = some t ↔ s.curr = some t ∧ (s.tasks t).schedClass = c := by
  rw [Scheduler.currFor, filter_eq_some_iff, decide_eq_true_eq]

theorem mem_residents : t ∈ residents s ↔ InTrees s t ∨ s.curr = some t ∧ (s.tasks t).schedClass = .deadline := by
  unfold residents
  rw [Finset.mem_union, Finset.mem_union, List.mem_toFinset, List.mem_toFinset, Option.mem_toFinset, Option.mem_def,
    currFor_eq_some]
  rfl

/-- The residents are known from the seats, the runner and the classes. -/
theorem DlOk.mem_residents (h : ClassOk s .deadline) :
    t ∈ residents s ↔ s.seats t = .deadline ∨ s.curr = some t ∧ (s.tasks t).schedClass = .deadline := by
  rw [Sched.mem_residents, DlOk.mem h]
  rfl

theorem Seated.mem_residents (h : Seated k s) :
    t ∈ residents s ↔ s.seats t = .deadline ∨ s.curr = some t ∧ (s.tasks t).schedClass = .deadline :=
  DlOk.mem_residents (h.queue .deadline)

theorem Seated.resident_schedClass (h : Seated k s) (ht : t ∈ residents s) : (s.tasks t).schedClass = .deadline := by
  rcases h.mem_residents.1 ht with hs | ⟨-, hc⟩
  · exact h.schedClass hs
  · exact hc

theorem reservingPpm_of_attr (h : (s'.tasks t).attr = (s.tasks t).attr) : reservingPpm s' t = reservingPpm s t := by
  unfold reservingPpm params
  rw [h]

theorem residentLoad_congr (hr : ∀ u, u ∈ residents s' ↔ u ∈ residents s)
    (hl : ∀ u ∈ residents s, reservingPpm s' u = reservingPpm s u) : residentLoad s' = residentLoad s := by
  unfold residentLoad
  rw [Finset.ext hr]
  exact Finset.sum_congr rfl hl

theorem DlMove.mem_residents (hm : DlMove t s s') (hu : u ≠ t) : u ∈ residents s' ↔ u ∈ residents s := by
  rw [Sched.mem_residents, Sched.mem_residents, InTrees, InTrees, hm.ready u hu, hm.throttled u hu, hm.curr u hu,
    hm.tasks u hu]

/-- The part of the load that is due to one task. -/
def residentPart (s : Scheduler) (t : TaskId) : Nat := if t ∈ residents s then reservingPpm s t else 0

theorem residentLoad_eq (s : Scheduler) (t : TaskId) :
    residentLoad s = ∑ u ∈ (residents s).erase t, reservingPpm s u + residentPart s t := by
  unfold residentPart residentLoad
  split
  · exact (Finset.sum_erase_add _ _ ‹_›).symm
  · rw [Finset.erase_eq_of_notMem ‹_›, Nat.add_zero]

/-- An operation on one task changes the part of that task. -/
theorem DlMove.residentLoad (hm : DlMove t s s') :
    residentLoad s' + residentPart s t = residentLoad s + residentPart s' t := by
  have hrest : ∑ u ∈ (residents s').erase t, reservingPpm s' u = ∑ u ∈ (residents s).erase t, reservingPpm s u := by
    refine Finset.sum_congr ?_ fun u hu => reservingPpm_of_attr (by rw [hm.tasks u (Finset.ne_of_mem_erase hu)])
    ext u
    rw [Finset.mem_erase, Finset.mem_erase]
    exact and_congr_right hm.mem_residents
  rw [residentLoad_eq s' t, residentLoad_eq s t, hrest, Nat.add_right_comm]

/-! ## The sum of the source -/

theorem satAdd_min (a b : Nat) : satAdd (min a u64Max) (min b u64Max) = min (a + b) u64Max := by
  unfold satAdd
  omega

theorem foldl_satAdd (f : TaskId → Nat) (l : List TaskId) (a : Nat) :
    l.foldl (fun total t => satAdd total (f t)) (min a u64Max) = min (a + (l.map f).sum) u64Max := by
  induction l generalizing a with
  | nil => simp
  | cons t l ih =>
    have : satAdd (min a u64Max) (f t) = min (a + f t) u64Max := by
      unfold satAdd
      omega
    rw [foldl_cons, this, ih, map_cons, sum_cons, Nat.add_assoc]

theorem treeLoadPpm_eq (s : Scheduler) (l : List TaskId) :
    treeLoadPpm s l = min (l.map (reservingPpm s)).sum u64Max := by
  have := foldl_satAdd (reservingPpm s) l 0
  rw [Nat.zero_add] at this
  exact this

/-- The class knows the runner, by its identifier and its share. -/
def RunnerNoted (s : Scheduler) : Prop :=
  s.deadline.running = (s.currFor .deadline).map fun t => ⟨(s.tasks t).deadline.treeId, reservingPpm s t⟩

theorem reservingPpm_le (s : Scheduler) (t : TaskId) : reservingPpm s t ≤ u64Max := by
  unfold reservingPpm
  split
  · unfold DlParams.loadPpm
    split
    · exact Nat.zero_le _
    · exact min_le_right _ _
  · exact Nat.zero_le _

theorem RunnerNoted.ppm (h : RunnerNoted s) : (match s.deadline.running with | some r => r.ppm | none => 0) =
    min ((s.currFor .deadline).toFinset.sum (reservingPpm s)) u64Max := by
  rw [h]
  cases s.currFor .deadline with
  | none => rfl
  | some t =>
    exact (min_eq_left (reservingPpm_le s t)).symm

theorem residentLoadPpm_eq (h : Seated k s) (hr : RunnerNoted s) : residentLoadPpm s = min (residentLoad s) u64Max := by
  have hdl := DlOk.toDlTrees (h.queue .deadline)
  have htrees : Disjoint s.deadline.ready.toFinset s.deadline.throttled.toFinset := by
    rw [Finset.disjoint_left]
    intro t ht
    rw [List.mem_toFinset] at ht ⊢
    exact hdl.apart t ht
  have hcurr : Disjoint (s.deadline.ready.toFinset ∪ s.deadline.throttled.toFinset) (s.currFor .deadline).toFinset := by
    rw [Finset.disjoint_left]
    intro t ht hc
    rw [Finset.mem_union, List.mem_toFinset, List.mem_toFinset] at ht
    rw [Option.mem_toFinset, Option.mem_def, currFor_eq_some] at hc
    exact h.not_inTrees (h.curr t hc.1) ht
  have hsum : residentLoad s = (s.deadline.ready.map (reservingPpm s)).sum +
      (s.deadline.throttled.map (reservingPpm s)).sum +
      (s.currFor .deadline).toFinset.sum (reservingPpm s) := by
    unfold residentLoad residents
    rw [Finset.sum_union hcurr, Finset.sum_union htrees, List.sum_toFinset _ hdl.ready.nodup,
      List.sum_toFinset _ hdl.throttled.nodup]
  rw [hsum, ← satAdd_min, ← hr.ppm, ← satAdd_min, ← treeLoadPpm_eq, ← treeLoadPpm_eq]
  rfl

theorem admitBound_lt (k : Kconfig) : admitBound k < u64Max := by
  unfold admitBound u64Max
  omega

theorem canAdmit_le {attr : SchedAttr} {p : DlParams} (h : Seated k s) (hr : RunnerNoted s)
    (hle : residentLoad s ≤ admitBound k) (hp : attr.dlParams = some p) (ha : canAdmit k s t attr = .ok ()) :
    residentLoad s - (if isCounted s t then reservingPpm s t else 0) + p.loadPpm ≤ admitBound k := by
  have hlt := admitBound_lt k
  have hmin : min (residentLoad s) u64Max = residentLoad s := min_eq_left (hle.trans (le_of_lt hlt))
  unfold canAdmit at ha
  rw [hp] at ha
  simp only [residentLoadPpm_eq h hr, hmin] at ha
  have hload : satAdd (residentLoad s - if isCounted s t then reservingPpm s t else 0) p.loadPpm ≤ admitBound k := by
    by_contra hn
    have hlt : 1000000 - k.dlBwMarginPpm <
        satAdd (if isCounted s t then residentLoad s - reservingPpm s t else residentLoad s) p.loadPpm := by
      refine (Nat.lt_of_not_le hn).trans_eq (congrArg (satAdd · p.loadPpm) ?_)
      split <;> rfl
    rw [if_pos hlt] at ha
    cases ha
  unfold satAdd at hload
  omega

theorem isCounted_of_resident (h : Seated k s) (hr : RunnerNoted s) (ht : t ∈ residents s) : isCounted s t = true := by
  unfold isCounted
  rcases h.mem_residents.1 ht with hs | hc
  · rw [show (s.tasks t).seat = .deadline from hs]
    rfl
  · rw [hr, currFor_eq_some.2 hc, map_some, any_some, beq_self_eq_true, Bool.or_true]

/-! ## The operations of the class -/

theorem Touch.currFor {c d : SchedClass} (h : Touch c s s') : s'.currFor d = s.currFor d := by
  ext u
  rw [currFor_eq_some, currFor_eq_some, h.curr, h.schedClass]

theorem RunnerNoted.of_same (h : RunnerNoted s) (hr : s'.deadline.running = s.deadline.running)
    (hc : s'.currFor .deadline = s.currFor .deadline)
    (hk : ∀ t, s.currFor .deadline = some t → (s'.tasks t).deadline.treeId = (s.tasks t).deadline.treeId ∧
      (s'.tasks t).attr = (s.tasks t).attr) : RunnerNoted s' := by
  unfold RunnerNoted
  rw [hr, h, hc]
  refine map_congr fun t ht => ?_
  obtain ⟨hid, ha⟩ := hk t ht
  rw [hid, reservingPpm_of_attr ha]

theorem RunnerNoted.of_move (h : RunnerNoted s) (hm : DlMove t s s') (hr : s'.deadline.running = s.deadline.running)
    (hn : s.currFor .deadline ≠ some t) (hn' : s'.currFor .deadline ≠ some t) : RunnerNoted s' := by
  refine h.of_same hr ?_ fun u hu => ?_
  · ext u
    by_cases hut : u = t
    · rw [hut]
      exact iff_of_false hn' hn
    · rw [currFor_eq_some, currFor_eq_some, hm.curr u hut, hm.tasks u hut]
  · rw [hm.tasks u fun he => hn (he ▸ hu)]
    exact ⟨rfl, rfl⟩

theorem RunnerNoted.of_other (h : RunnerNoted s) (hm : DlMove t s s') (hr : s'.deadline.running = s.deadline.running)
    (hn : s.curr ≠ some t) (hcu : s'.curr = s.curr) : RunnerNoted s' :=
  h.of_move hm hr (fun he => hn (currFor_eq_some.1 he).1) fun he => hn (hcu.symm.trans (currFor_eq_some.1 he).1)

theorem RunnerNoted.of_none (hr : s.deadline.running = none) (hc : s.currFor .deadline = none) : RunnerNoted s := by
  rw [RunnerNoted, hr, hc, map_none]

theorem RunnerNoted.of_some (hr : s.deadline.running = some ⟨(s.tasks t).deadline.treeId, reservingPpm s t⟩)
    (hc : s.currFor .deadline = some t) : RunnerNoted s := by
  rw [RunnerNoted, hr, hc, map_some]

/-- The class knows the runner, and the residents are within the bound. -/
structure Reserved (k : Kconfig) (s : Scheduler) : Prop where
  runner : RunnerNoted s
  load : residentLoad s ≤ admitBound k

/-- What must be shown of the task that an operation is about. -/
theorem Reserved.of_move (h : Reserved k s) (hm : DlMove t s s') (hrun : RunnerNoted s')
    (hload : t ∈ residents s' → residentLoad s + reservingPpm s' t ≤ admitBound k + residentPart s t) :
    Reserved k s' := by
  refine ⟨hrun, ?_⟩
  have hsum := hm.residentLoad
  have hle := h.load
  rw [residentPart.eq_def s' t] at hsum
  split at hsum
  · have := hload ‹_›
    omega
  · omega

/-- A task that comes to the run queue still fits. -/
def fitSide (k : Kconfig) : Side where
  enqueue s t _ := residentLoad s + reservingPpm s t ≤ admitBound k
  install s t := residentLoad s + reservingPpm s t ≤ admitBound k
  setAttr _ _ _ := True

/-- An operation of the class that moves no task and changes no attributes. -/
theorem Reserved.same (h : Reserved k s) (hs : Seated k s) (ha : Acts .deadline s s' s.seats)
    (hr : s'.deadline.running = s.deadline.running)
    (hk : ∀ t, s.curr = some t → (s'.tasks t).deadline.treeId = (s.tasks t).deadline.treeId) : Reserved k s' := by
  refine ⟨h.runner.of_same hr ha.touch.currFor fun t ht => ⟨hk t (currFor_eq_some.1 ht).1, ha.touch.attr t⟩, ?_⟩
  refine (le_of_eq (residentLoad_congr (fun u => ?_) fun u _ => reservingPpm_of_attr (ha.touch.attr u))).trans h.load
  rw [DlOk.mem_residents ha.ok, hs.mem_residents, ha.seats, ha.touch.curr, ha.touch.schedClass]

theorem Reserved.frame {c : SchedClass} (hc : c ≠ .deadline) (ht : Touch c s s') (h : Reserved k s) :
    Reserved k s' := by
  obtain ⟨hd, hk⟩ := ht.deadline hc
  refine ⟨h.runner.of_same (by rw [hd]) ht.currFor fun t _ => ⟨by rw [hk], ht.attr t⟩, ?_⟩
  refine (le_of_eq (residentLoad_congr (fun u => ?_) fun u _ => reservingPpm_of_attr (ht.attr u))).trans h.load
  rw [mem_residents, mem_residents, ht.curr, ht.schedClass, InTrees, hd]
  rfl

theorem Reserved.setCurr {curr : Option TaskId} (h : Reserved k s) (hn : s.currFor .deadline = none)
    (hn' : ({ s with curr } : Scheduler).currFor .deadline = none) : Reserved k { s with curr } := by
  have hr := h.runner
  unfold RunnerNoted at hr
  rw [hn] at hr
  have hload : residentLoad { s with curr } = residentLoad s := by
    refine residentLoad_congr (fun u => ?_) fun u _ => rfl
    unfold residents
    rw [hn', hn]
  exact ⟨.of_none hr hn', hload ▸ h.load⟩

theorem currFor_eq_none {c : SchedClass} (h : ∀ t, s.curr = some t → (s.tasks t).schedClass ≠ c) : s.currFor c = none :=
  eq_none_iff_forall_ne_some.2 fun t ht => h t (currFor_eq_some.1 ht).1 (currFor_eq_some.1 ht).2

theorem replenish_deadline (s : Scheduler) (t : TaskId) (nowNs : Nat) :
    (replenish s t nowNs).deadline = s.deadline := by
  unfold replenish
  split <;> rfl

theorem enqueue_running (s : Scheduler) (t : TaskId) (kind : EnqueueKind) :
    (enqueue s t kind).deadline.running = s.deadline.running := by
  refine enqueue_cases s t kind ?_ (fun _ => rfl) fun _ => rfl
  show (replenish s t s.clock.nowNs).deadline.running = _
  rw [replenish_deadline]

theorem residentLoad_enqueue (hs : Seated k s) (hj : MayJoin .deadline s t) (hdet : s.seats t = .detached)
    (kind : EnqueueKind) : residentLoad (enqueue s t kind) = residentLoad s + reservingPpm s t := by
  have ha := enqueue_acts (hs.queue .deadline) hj hdet kind
  have hm : t ∈ residents (enqueue s t kind) := by
    rw [DlOk.mem_residents ha.ok, ha.seats, update_self]
    exact .inl rfl
  have hpart : residentPart s t = 0 := by
    refine if_neg fun hm => ?_
    rcases hs.mem_residents.1 hm with h | h
    · cases hdet.symm.trans h
    · exact hj.curr h.1
  have hsum := (DlMove.enqueue s t kind).residentLoad
  rwa [hpart, residentPart, if_pos hm, reservingPpm_of_attr (ha.touch.attr t)] at hsum

theorem setSeat_attr (s : Scheduler) (t u : TaskId) (x : QueueSeat) :
    ((s.setSeat t x).tasks u).attr = (s.tasks u).attr :=
  s.modify_field t (fun y => { y with seat := x }) (fun _ => rfl) u

theorem setCurr_running (s : Scheduler) (t : TaskId) : (setCurr s t).deadline.running =
    some ⟨((setCurr s t).tasks t).deadline.treeId, reservingPpm (setCurr s t) t⟩ := by
  unfold setCurr
  extract_lets s1
  rw [setSeat_dl, reservingPpm_of_attr (setSeat_attr (noteRunner s1 t) t t .detached)]
  rfl

theorem reserved_classInv (k : Kconfig) : ClassInv k .deadline (fitSide k) (Reserved k) where
  clock _ h := ⟨h.runner, h.load⟩
  frame hc ht h := h.frame hc ht
  drop {s t} hcurr hc h := by
    refine h.setCurr (currFor_eq_none fun u hu => ?_) rfl
    rw [hcurr] at hu
    cases hu
    exact hc
  run {s t} hcurr hc h := by
    refine h.setCurr (currFor_eq_none fun u hu => ?_) (currFor_eq_none fun u hu => ?_)
    · rw [hcurr] at hu
      cases hu
    · cases hu
      exact hc
  retag {s t f} hs hk hf hc hc' h := by
    have hcls : ((s.modify t f).tasks t).schedClass ≠ .deadline := by
      rw [modify_self]
      exact hc'
    have hm := DlMove.modify s t f
    refine h.of_move hm (h.runner.of_move hm rfl (fun he => hc (currFor_eq_some.1 he).2) fun he =>
      hcls (currFor_eq_some.1 he).2) fun ht => ?_
    rcases mem_residents.1 ht with ht | ht
    · exact absurd (hs.resident_schedClass (mem_residents.2 (.inl ht))) hc
    · exact absurd ht.2 hcls
  advance {s} _ hs h := by
    have hadv := hs.advanced
    refine h.same hs hadv.acts hadv.running fun t hcurr => congrArg DeadlineEntity.treeId (hadv.kept t fun hd => ?_)
    exact hs.not_inTrees (hs.curr t hcurr) (.inr hd.1)
  account {s t} e hs hcurr hc h := by
    have heq := congrArg Prod.fst (account_eq s t e)
    refine h.same hs (account_acts (hs.queue .deadline) t e) (heq ▸ rfl) fun u hu => ?_
    show ((account s t e).1.tasks u).deadline.treeId = _
    rw [heq]
    exact s.modify_field t (fun x => { x with deadline := spent e x.deadline })
      (g := (·.deadline.treeId)) (fun _ => rfl) u
  enqueue {s t s'} kind hs hj hdet hσ h he := by
    cases he
    have ha := enqueue_acts (hs.queue .deadline) hj hdet kind
    refine ⟨h.runner.of_other (.enqueue s t kind) (enqueue_running s t kind) hj.curr ha.touch.curr, ?_⟩
    rw [residentLoad_enqueue hs hj hdet]
    exact hσ
  dequeue {s t r s'} hs h he := by
    have he' := some.inj he
    rw [DlOk.dequeue (hs.queue .deadline)] at he'
    split at he' <;> cases he'
    · rename_i hseat
      have htouch := touch_drop (.inr hseat)
      refine h.of_move (.drop s t) (h.runner.of_same rfl htouch.currFor fun u _ =>
        ⟨by rw [dropTrees_deadline], htouch.attr u⟩) fun ht => ?_
      -- the task is in no tree now, and it does not run
      rcases (DlOk.mem_residents (DlOk.drop (hs.queue .deadline) t)).1 ht with ht | ht
      · rw [seats, dropTrees_seat, if_pos rfl] at ht
        cases ht
      · cases (hs.curr t ht.1).symm.trans hseat
    · exact h
  pickNone hs h he := DlOk.pickNext_none (hs.queue .deadline) (some.inj he) ▸ h
  pick {s t s'} hs hcurr h he := by
    have ht := pickNext_taken (hs.queue .deadline) (some.inj he)
    obtain ⟨-, rfl⟩ := DlOk.pickNext_some (hs.queue .deadline) (some.inj he)
    refine h.of_move (((DlMove.drop s t).trans (.setRunning _ t _)).trans (.run hcurr))
      (.of_some rfl (currFor_eq_some.2 ⟨rfl, ?_⟩)) fun _ => ?_
    · exact (ht.2.touch.schedClass t).trans (hs.schedClass ht.1)
    · have hppm := reservingPpm_of_attr (ht.2.touch.attr t)
      rw [residentPart, if_pos (hs.mem_residents.2 (.inl ht.1))]
      exact Nat.add_le_add h.load (le_of_eq hppm)
  setCurr {s t s'} hs hcurr hc hdet hσ h he := by
    cases he
    have ha := setCurr_acts (hs.queue .deadline) hdet
    refine h.of_move ((DlMove.install s t).trans (.run (ha.touch.curr.trans hcurr)))
      (.of_some (setCurr_running s t) (currFor_eq_some.2 ⟨rfl, (ha.touch.schedClass t).trans hc⟩)) fun _ => ?_
    refine le_trans (le_of_eq (congrArg (residentLoad s + ·) ?_)) (hσ.trans (Nat.le_add_right _ _))
    exact reservingPpm_of_attr (ha.touch.attr t)
  putPrev {s t s'} reason hs hcurr hc h he := by
    cases he
    have hdet : ({ s with curr := none } : Scheduler).seats t = .detached := hs.curr t hcurr
    have ha := putPrev_acts (hs.clearCurr.queue .deadline) ⟨.inl hdet, hc, by rintro ⟨⟩⟩ hdet reason
    have hcurr' : (putPrev ({ s with curr := none } : Scheduler) t reason).curr = none := ha.touch.curr
    refine h.of_move ((DlMove.leave hcurr).trans (.putPrev _ t reason))
      (.of_none ?_ (currFor_eq_none fun u hu => ?_)) fun _ => ?_
    · exact leave_cases _ t reason (fun _ _ hj => by cases hj <;> rfl) (fun _ => rfl) fun _ => rfl
    · rw [hcurr'] at hu
      cases hu
    · rw [residentPart, if_pos (hs.mem_residents.2 (.inr ⟨hcurr, hc⟩))]
      exact Nat.add_le_add h.load (le_of_eq (reservingPpm_of_attr (ha.touch.attr t)))
  attrChanged {s t s' attr isCurr} hs hc hnew hv hadm hcurr _ h he := by
    obtain ⟨p, hp, -⟩ := SchedAttr.validate_deadline hv hnew
    have hle := canAdmit_le hs h.runner h.load hp hadm
    rw [← hnew] at he
    have ha := classAttrChanged_acts hs (hc.trans hnew.symm) hcurr he
    rw [hnew] at he ha
    cases he
    have hcls := (ha.touch.schedClass t).trans (s.modify_field t (·.setAttr attr) (fun _ => rfl) t)
    have hppm : reservingPpm (attrChanged (s.modify t fun x => x.setAttr attr) t isCurr) t = p.loadPpm := by
      rw [reservingPpm_of_attr (ha.touch.attr t), reservingPpm, params, modify_self,
        show ((s.tasks t).setAttr attr).attr.dlParams = some p from hp]
    have hm := (DlMove.modify s t fun x => x.setAttr attr).trans (.attrChanged _ t isCurr)
    refine h.of_move hm ?_ fun ht => ?_
    · cases isCurr with
      | true => exact .of_some rfl (currFor_eq_some.2 ⟨hcurr.1 rfl, hcls.trans hc⟩)
      | false => exact h.runner.of_other hm rfl (fun he => Bool.false_ne_true (hcurr.2 he)) rfl
    · rw [DlOk.mem_residents ha.ok, ha.seats, ha.touch.curr, hcls] at ht
      have ht := hs.mem_residents.2 ht
      rw [if_pos (isCounted_of_resident hs h.runner ht)] at hle
      rw [residentPart, if_pos ht]
      omega
  switchedFrom {s t attr isCurr} hs hc hne hdet hcurr h := by
    have hcls := reclass_schedClass (switchedFrom s t isCurr) t attr
    have hm : DlMove t s (reclass (switchedFrom s t isCurr) t attr) :=
      (DlMove.switchedFrom s t isCurr).trans (.modify _ t _)
    refine h.of_move hm ?_ fun ht => ?_
    · cases isCurr with
      | true =>
        refine .of_none rfl (currFor_eq_none fun u hu hd => hne (hcls.symm.trans ?_))
        cases (hcurr.1 rfl).symm.trans hu
        exact hd
      | false => exact h.runner.of_other hm rfl (fun he => Bool.false_ne_true (hcurr.2 he)) rfl
    · rcases mem_residents.1 ht with ht | ht
      · refine absurd ?_ (hs.not_inTrees hdet)
        cases isCurr <;> exact ht
      · exact absurd (hcls.symm.trans ht.2) hne
  switchedTo {s t attr isCurr} hs hc hk hnew hv hadm hdet hcurr h := by
    obtain ⟨p, hp, -⟩ := SchedAttr.validate_deadline hv hnew
    have hle : residentLoad s + p.loadPpm ≤ admitBound k := by
      have hle := canAdmit_le hs h.runner h.load hp hadm
      obtain ⟨hcls, hval⟩ := hs.user hk
      have hzero : reservingPpm s t = 0 := by rw [reservingPpm, params, SchedAttr.validate_other hval (hcls ▸ hc)]
      rw [hzero, ite_self] at hle
      exact hle
    have hpart : residentPart s t = 0 := if_neg fun ht => hc (hs.resident_schedClass ht)
    have hcu : (switchedTo (reclass s t attr) t isCurr).curr = s.curr := by
      cases isCurr <;> exact (replenish_touch (reclass s t attr) t s.clock.nowNs).curr
    have hself : ((switchedTo (reclass s t attr) t isCurr).tasks t).attr = attr ∧
        ((switchedTo (reclass s t attr) t isCurr).tasks t).schedClass = .deadline := by
      rw [switchedTo_tasks, (replenish_touch _ t _).attr, (replenish_touch _ t _).schedClass, reclass_schedClass, hnew]
      refine ⟨?_, rfl⟩
      rw [reclass, modify_self]
      rfl
    have hppm : reservingPpm (switchedTo (reclass s t attr) t isCurr) t = p.loadPpm := by
      rw [reservingPpm, params, hself.1, hp]
    have hm : DlMove t s (switchedTo (reclass s t attr) t isCurr) :=
      (DlMove.modify s t _).trans (.switchedTo _ t isCurr)
    refine ⟨h.of_move hm ?_ fun _ => ?_, ?_⟩
    · cases isCurr with
      | true => exact .of_some rfl (currFor_eq_some.2 ⟨hcu.trans (hcurr.1 rfl), hself.2⟩)
      | false =>
        exact h.runner.of_other hm (congrArg running (replenish_deadline (reclass s t attr) t _))
          (fun he => Bool.false_ne_true (hcurr.2 he)) hcu
    · rw [hpart]
      exact (congrArg (residentLoad s + ·) hppm).trans_le hle
    · -- the task is still in no tree, and it does not run
      rintro rfl
      have hpart' : residentPart (switchedTo (reclass s t attr) t false) t = 0 := by
        refine if_neg fun ht => ?_
        rcases mem_residents.1 ht with ht | ht
        · have ht : InTrees (replenish (reclass s t attr) t s.clock.nowNs) t := ht
          rw [InTrees, replenish_deadline] at ht
          exact hs.not_inTrees hdet ht
        · exact Bool.false_ne_true (hcurr.2 (hcu.symm.trans ht.1))
      have hsum := hm.residentLoad
      rw [hpart, hpart'] at hsum
      exact (congrArg₂ (· + ·) hsum hppm).trans_le hle

/-! ## Runs -/

theorem new_reserved (k : Kconfig) (kernel : TaskId → Option KernelClass) (idle : TaskId) (nowNs : Nat) :
    Reserved k (new k kernel idle nowNs) := by
  have hnone : (new k kernel idle nowNs).currFor .deadline = none := rfl
  refine ⟨.of_none rfl hnone, ?_⟩
  unfold residentLoad residents
  exact Nat.zero_le _

/-- The load after an operation by which a Deadline task comes to the run queue. -/
theorem exec_enqueue_load {kind : EnqueueKind} {nowNs : Nat} {out : Output} (h : Seated k s)
    (ha : Allowed s (.enqueue t kind nowNs)) (hc : (s.tasks t).schedClass = .deadline)
    (he : exec k s (.enqueue t kind nowNs) = some (out, s')) : residentLoad s' = residentLoad s + reservingPpm s t := by
  obtain ⟨h1, hst⟩ := arrive_seated h (.enqueue t kind nowNs)
  obtain ⟨hs, hcurr⟩ := arrive_free h ha rfl
  have hload : residentLoad (arrive k s (.enqueue t kind nowNs)) = residentLoad s := by
    refine residentLoad_congr (fun u => ?_) fun u _ => reservingPpm_of_attr (hst.attr u)
    rw [h1.mem_residents, h.mem_residents, hst.seats, hst.curr, hst.schedClass]
  have hc1 := (hst.schedClass t).trans hc
  rw [← hload, ← reservingPpm_of_attr (hst.attr t)]
  cases exec_does h he with
  | enqueue hput =>
    rw [hc1] at hput
    cases hput
    exact residentLoad_enqueue h1 ⟨.inl hs, hc1, hcurr⟩ hs kind
  | leave ho => cases ho

/-- Along every run in which a Deadline task that comes to the run queue still fits, the resident Deadline tasks are
within the bound. An enqueue keeps the bound only if the task fits. -/
theorem run_admission (k : Kconfig) (kernel : TaskId → Option KernelClass) (idle : TaskId) (nowNs : Nat)
    (hidle : kernel idle = some .idle) (s : Scheduler)
    (hr : Run (step k) (fun s o => Allowed s o ∧ (fitSide k).Meets .deadline s o) (new k kernel idle nowNs) s) :
    residentLoad s ≤ admitBound k ∧
    (∀ t kind now s', Allowed s (.enqueue t kind now) → (s.tasks t).schedClass = .deadline →
      step k s (.enqueue t kind now) = some s' →
      (residentLoad s' ≤ admitBound k ↔ residentLoad s + reservingPpm s t ≤ admitBound k)) := by
  obtain ⟨h, hi⟩ := (reserved_classInv k).run_inv (.inl rfl) hidle (new_reserved k kernel idle nowNs) hr
  refine ⟨hi.load, fun t kind now s' ha hc hs => ?_⟩
  obtain ⟨⟨out, s₁⟩, he, rfl⟩ := map_eq_some_iff.1 hs
  rw [exec_enqueue_load h ha hc he]

instance (k : Kconfig) (s : Scheduler) : (o : Op) → Decidable ((fitSide k).Meets .deadline s o)
  | .enqueue t _ nowNs => inferInstanceAs (Decidable ((s.tasks t).schedClass = .deadline →
      residentLoad (s.charge nowNs).1 + reservingPpm (s.charge nowNs).1 t ≤ admitBound k))
  | .installCurrent t nowNs => inferInstanceAs (Decidable ((s.tasks t).schedClass = .deadline →
      residentLoad (s.advanceTo nowNs) + reservingPpm (s.advanceTo nowNs) t ≤ admitBound k))
  | .setAttr t attr _ =>
      inferInstanceAs (Decidable ((s.tasks t).schedClass = .deadline → attr.schedClass = .deadline → True))
  | .update .. | .dequeue .. | .steal .. | .pickNext .. | .yieldCurrent .. | .preemptCurrent .. | .blockCurrent ..
  | .migrateCurrent .. | .exitCurrent .. => .isTrue trivial

/-- One Deadline task runs and another waits; each has a tenth of the CPU. -/
theorem run_admission_sample : ∃ s, (s.curr = some 3 ∧ s.deadline.ready = [4] ∧ residentLoad s = 200000) ∧
    residentLoad s ≤ admitBound .standard ∧
    (∀ t kind now s', Allowed s (.enqueue t kind now) → (s.tasks t).schedClass = .deadline →
      step .standard s (.enqueue t kind now) = some s' →
      (residentLoad s' ≤ admitBound .standard ↔ residentLoad s + reservingPpm s t ≤ admitBound .standard)) := by
  exact (Run.exists_of_exec [.setAttr 3 sampleDl 0, .setAttr 4 sampleDl 0, .installCurrent 3 0, .enqueue 4 .new 10]
    (by decide +kernel)).imp fun s h => ⟨h.2, run_admission .standard sampleKernel 0 0 rfl s h.1⟩

/-- Six tenths of the CPU. -/
def largeDl : SchedAttr := ⟨.deadline, .default, .none, some ⟨6000000, 10000000, 10000000⟩⟩

/-- Two tasks are admitted one after the other while neither is on the run queue; then both are enqueued. -/
theorem admitted_above_bound : ∃ s, Run (step .standard) Allowed (new .standard sampleKernel 0 0) s ∧
    residentLoad s = 1200000 ∧ admitBound .standard < residentLoad s := by
  exact Run.exists_of_exec [.setAttr 3 largeDl 0, .setAttr 4 largeDl 0, .enqueue 3 .new 0, .enqueue 4 .new 0]
    (by decide +kernel)

end XKernel.Sched
