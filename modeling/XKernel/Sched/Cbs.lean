import XKernel.Sched.Budget
/-!
# The budget of a Deadline task

A task in the ready tree has budget left, as long as no change of attributes within the
class hits a runner whose budget is spent. What a task is charged between two
replenishments is bounded by what it was given.
-/

namespace XKernel.Sched

open Lib DeadlineClass Function List Option DeadlineClass Scheduler DeadlineEntity

variable {k : Kconfig} {s s' : Scheduler} {t u : TaskId}

/-! ## One task at a time -/

/-- What an operation of the class on `t` leaves alone. -/
structure DlMove (t : TaskId) (s s' : Scheduler) : Prop where
  tasks : ∀ u, u ≠ t → s'.tasks u = s.tasks u
  ready : ∀ u, u ≠ t → (u ∈ s'.deadline.ready ↔ u ∈ s.deadline.ready)
  throttled : ∀ u, u ≠ t → (u ∈ s'.deadline.throttled ↔ u ∈ s.deadline.throttled)
  curr : ∀ u, u ≠ t → (s'.curr = some u ↔ s.curr = some u)

namespace DlMove

theorem refl (t : TaskId) (s : Scheduler) :
    DlMove t s s := ⟨fun _ _ => rfl, fun _ _ => .rfl, fun _ _ => .rfl, fun _ _ => .rfl⟩

theorem trans {s'' : Scheduler} (h : DlMove t s s') (h' : DlMove t s' s'') : DlMove t s s'' where
  tasks u hu := (h'.tasks u hu).trans (h.tasks u hu)
  ready u hu := (h'.ready u hu).trans (h.ready u hu)
  throttled u hu := (h'.throttled u hu).trans (h.throttled u hu)
  curr u hu := (h'.curr u hu).trans (h.curr u hu)

theorem modify (s : Scheduler) (t : TaskId) (f : SchedTask → SchedTask) : DlMove t s (s.modify t f) :=
  ⟨fun _ => modify_of_ne, fun _ _ => .rfl, fun _ _ => .rfl, fun _ _ => .rfl⟩

theorem setRunning (s : Scheduler) (t : TaskId) (r : Option DeadlineRunner) :
    DlMove t s { s with deadline := { s.deadline with running := r } } :=
  ⟨fun _ _ => rfl, fun _ _ => .rfl, fun _ _ => .rfl, fun _ _ => .rfl⟩

/-- Nobody else starts or stops to run. -/
theorem setCurr {c : Option TaskId} (h : ∀ u, u ≠ t → s.curr ≠ some u) (h' : ∀ u, u ≠ t → c ≠ some u) :
    DlMove t s { s with curr := c } :=
  ⟨fun _ _ => rfl, fun _ _ => .rfl, fun _ _ => .rfl, fun u hu => iff_of_false (h' u hu) (h u hu)⟩

theorem run (h : s.curr = none) : DlMove t s { s with curr := some t } := by
  refine .setCurr (fun u _ => ?_) fun u hu he => hu (some.inj he).symm
  rw [h]
  nofun

theorem leave (h : s.curr = some t) : DlMove t s { s with curr := none } :=
  .setCurr (fun _ hu he => hu (some.inj (he.symm.trans h))) nofun

theorem replenish (s : Scheduler) (t : TaskId) (nowNs : Nat) : DlMove t s (replenish s t nowNs) := by
  unfold DeadlineClass.replenish
  split
  · exact refl t s
  · exact modify s t _

theorem joins (h : Joins t s s') : DlMove t s s' := by
  refine ⟨fun u hu => by rw [h.tasks, alloc_tasks, if_neg hu], fun u hu => ?_, fun u hu => ?_,
    fun _ _ => ?_⟩ <;> cases h
  · exact mem_insertReady.trans (or_iff_right hu)
  · rfl
  · rfl
  · exact mem_insertThrottled.trans (or_iff_right hu)
  all_goals rfl

variable (s t)

theorem drop : DlMove t s (dropTrees s t) :=
  ⟨fun u hu => by rw [dropTrees, setSeat, modify_of_ne hu], fun _ => mem_erase_of_ne,
    fun _ => mem_erase_of_ne, fun _ _ => .rfl⟩

theorem enqueue (kind : EnqueueKind) : DlMove t s (enqueue s t kind) :=
  enqueue_cases s t kind ((replenish s t _).trans (joins .ready)) (fun _ => joins .ready) fun _ =>
    (modify s t _).trans (joins .throttled)

theorem install : DlMove t s (DeadlineClass.setCurr s t) := by
  unfold DeadlineClass.setCurr
  extract_lets s1
  have h1 : DlMove t s s1 := by
    unfold s1
    split
    · exact refl t s
    · exact replenish s t _
  exact (h1.trans (setRunning s1 t _)).trans (modify _ t _)

theorem putPrev (reason : LeaveReason) : DlMove t s (putPrev s t reason) := by
  have h1 : DlMove t s (clearRunner s) := setRunning s t none
  exact leave_cases s t reason (fun _ _ hj => h1.trans (joins hj)) (fun _ => h1.trans (modify _ t _)) fun _ =>
    (h1.trans (modify _ t _)).trans (modify _ t _)

theorem account (e : Nat) : DlMove t s (account s t e).1 := by
  rw [account_eq]
  exact modify s t fun x => { x with deadline := spent e x.deadline }

theorem attrChanged (isCurr : Bool) : DlMove t s (DeadlineClass.attrChanged s t isCurr) := by
  unfold DeadlineClass.attrChanged
  split
  · exact (modify s t _).trans (setRunning _ t _)
  · exact modify s t _

theorem switchedFrom (isCurr : Bool) : DlMove t s (DeadlineClass.switchedFrom s t isCurr) := by
  unfold DeadlineClass.switchedFrom
  split
  · exact (setRunning s t none).trans (modify _ t _)
  · exact modify s t _

theorem switchedTo (isCurr : Bool) : DlMove t s (DeadlineClass.switchedTo s t isCurr) := by
  unfold DeadlineClass.switchedTo
  split
  · exact (replenish s t _).trans (setRunning _ t _)
  · exact replenish s t _

end DlMove

/-- Joining a tree changes the identifier only. -/
theorem Joins.self (h : Joins t s s') : (s'.tasks t).deadline =
    { (s.tasks t).deadline with treeId := s.deadline.nextEnqueueId } := by
  rw [h.tasks, alloc_tasks, if_pos rfl]

theorem replenish_self {p : DlParams} (hp : params s t = some p) (nowNs : Nat) :
    budget (replenish s t nowNs) t = p.runtimeNs := by
  unfold replenish
  rw [hp, budget, modifyDeadline_self]

theorem setSeat_dl (s : Scheduler) (t u : TaskId) (x : QueueSeat) :
    ((s.setSeat t x).tasks u).deadline = (s.tasks u).deadline :=
  s.modify_field t (fun y => { y with seat := x }) (fun _ => rfl) u

theorem putPrev_self (s : Scheduler) (t : TaskId) (reason : LeaveReason) :
    budget (putPrev s t reason) t = budget s t := by
  refine leave_cases s t reason (fun _ s' hj => ?_) (fun _ => congrArg budgetLeftNs (setSeat_dl _ t t _)) fun _ => ?_
  · rw [budget, hj.self]
    rfl
  · refine (congrArg budgetLeftNs (setSeat_dl _ t t _)).trans ?_
    rw [modifyDeadline_self]
    rfl

theorem attrChanged_tasks (s : Scheduler) (t : TaskId) (isCurr : Bool) : (attrChanged s t isCurr).tasks =
    (s.modifyDeadline t fun e => { e with isActive := false, isThrottled := false }).tasks := by
  unfold attrChanged
  split <;> rfl

theorem switchedFrom_tasks (s : Scheduler) (t : TaskId) (isCurr : Bool) : (switchedFrom s t isCurr).tasks =
    (s.modifyDeadline t fun e => { e with isActive := false, isThrottled := false, budgetLeftNs := 0 }).tasks := by
  unfold switchedFrom
  extract_lets s1
  unfold s1
  split <;> rfl

theorem switchedTo_tasks (s : Scheduler) (t : TaskId) (isCurr : Bool) :
    (switchedTo s t isCurr).tasks = (replenish s t s.clock.nowNs).tasks := by
  unfold switchedTo
  split <;> rfl

/-! ## The invariant -/

/-- A task that may run again at once has budget, and an active task without budget is marked as throttled. -/
structure Budgeted (s : Scheduler) : Prop where
  ready : ∀ t ∈ s.deadline.ready, 0 < budget s t
  runner : ∀ t, s.curr = some t → (s.tasks t).schedClass = .deadline → budget s t = 0 →
    (s.tasks t).deadline.isThrottled = true
  active : ∀ t, (s.tasks t).schedClass = .deadline → (s.tasks t).deadline.isActive = true → budget s t = 0 →
    (s.tasks t).deadline.isThrottled = true

/-- A task that runs or is active, and has no budget, is marked. -/
theorem Budgeted.marked (h : Budgeted s) (hc : (s.tasks t).schedClass = .deadline)
    (ho : s.curr = some t ∨ (s.tasks t).deadline.isActive = true) (hz : budget s t = 0) :
    (s.tasks t).deadline.isThrottled = true :=
  ho.elim (h.runner t · hc hz) (h.active t hc · hz)

theorem Budgeted.intro (hready : ∀ t ∈ s.deadline.ready, 0 < budget s t)
    (hmarked : ∀ t, (s.tasks t).schedClass = .deadline → s.curr = some t ∨ (s.tasks t).deadline.isActive = true →
      budget s t = 0 → (s.tasks t).deadline.isThrottled = true) : Budgeted s :=
  ⟨hready, fun t hu hc => hmarked t hc (.inl hu), fun t hc ha => hmarked t hc (.inr ha)⟩

/-- What must be shown of the task that an operation is about. -/
theorem Budgeted.of_move (h : Budgeted s) (hm : DlMove t s s') (hready : t ∈ s'.deadline.ready → 0 < budget s' t)
    (hself : (s'.tasks t).schedClass = .deadline → s'.curr = some t ∨ (s'.tasks t).deadline.isActive = true →
      budget s' t = 0 → (s'.tasks t).deadline.isThrottled = true) : Budgeted s' := by
  refine .intro (fun u hu => ?_) fun u => ?_ <;> by_cases hut : u = t
  · rw [hut] at hu ⊢
    exact hready hu
  · rw [budget, hm.tasks u hut]
    exact h.ready u ((hm.ready u hut).1 hu)
  · rw [hut]
    exact hself
  · rw [budget, hm.tasks u hut, hm.curr u hut]
    exact h.marked

theorem Budgeted.touch {c : SchedClass} (hc : c ≠ .deadline) (ht : Touch c s s') (h : Budgeted s) : Budgeted s' := by
  obtain ⟨hd, he⟩ := ht.deadline hc
  refine .intro (fun u hu => ?_) fun u => ?_
  · rw [hd] at hu
    rw [budget, he]
    exact h.ready u hu
  · rw [budget, ht.curr, ht.schedClass, he]
    exact h.marked

theorem Budgeted.advance (hs : Seated k s) (h : Budgeted s) : Budgeted (DeadlineClass.advance s) := by
  have hadv := hs.advanced
  -- a task whose period starts gets its runtime
  have hdue : ∀ u, Due s u → 0 < budget (DeadlineClass.advance s) u := by
    intro u hu
    obtain ⟨p, hp, hb, -⟩ := hadv.due u hu
    have hseat : s.seats u = .deadline := (DlOk.mem (hs.queue .deadline) u).1 (.inr hu.1)
    obtain ⟨q, hq, hpos⟩ := hs.params (hs.schedClass hseat)
    rw [budget, hb, some.inj (hp.symm.trans hq)]
    exact hpos
  refine .intro (fun u hu => ?_) fun u => ?_ <;> by_cases hd : Due s u
  · exact hdue u hd
  · rw [budget, hadv.kept u hd]
    exact h.ready u (((hadv.ready u).1 hu).resolve_right hd)
  · exact fun _ _ hz => absurd hz (Nat.ne_of_gt (hdue u hd))
  · rw [budget, hadv.touch.curr, hadv.touch.schedClass, hadv.kept u hd]
    exact h.marked

/-- An interval that leaves no budget leaves the task marked, if it was marked or had budget. -/
theorem account_throttled {e : Nat} (hz : budget (account s t e).1 t = 0)
    (h : budget s t = 0 → (s.tasks t).deadline.isThrottled = true) :
    ((account s t e).1.tasks t).deadline.isThrottled = true := by
  rw [(account_self s t e).1, Nat.sub_eq_zero_iff_le] at hz
  rw [account_eq, modifyDeadline_self, spent, Bool.or_eq_true, decide_eq_true_iff]
  by_cases hb : budget s t = 0
  · exact .inl (h hb)
  · exact .inr ⟨Nat.pos_of_ne_zero hb, hz⟩

theorem not_ready_of_detached (h : Seated k s) (hs : s.seats t = .detached) : t ∉ s.deadline.ready :=
  fun hm => h.not_inTrees hs (.inl hm)

section

variable (h : Budgeted s)
include h

theorem Budgeted.account (hs : Seated k s) (hcurr : s.curr = some t) (e : Nat)
    (hc : (s.tasks t).schedClass = .deadline) : Budgeted (account s t e).1 := by
  refine h.of_move (.account s t e) (fun hm => ?_) fun _ _ hz => account_throttled hz (h.runner t hcurr hc)
  rw [account_eq] at hm
  exact (not_ready_of_detached hs (hs.curr t hcurr) hm).elim

/-- A task with budget joins the ready tree. -/
theorem Budgeted.insertReady {s1 : Scheduler} (hm : DlMove t s s1) (hb : 0 < budget s1 t) :
    Budgeted (insertReady s1 t) := by
  have hb' : 0 < budget (DeadlineClass.insertReady s1 t) t := by
    rw [budget, Joins.ready.self]
    exact hb
  exact h.of_move (hm.trans (.joins .ready)) (fun _ => hb') fun _ _ hz => absurd hz (Nat.ne_of_gt hb')

/-- A marked task joins the throttled tree. -/
theorem Budgeted.insertThrottled {s1 : Scheduler} (hm : DlMove t s s1) (hn : t ∉ s1.deadline.ready)
    (ht : (s1.tasks t).deadline.isThrottled = true) : Budgeted (insertThrottled s1 t) := by
  refine h.of_move (hm.trans (.joins .throttled)) (absurd · hn) fun _ _ _ => ?_
  rw [Joins.throttled.self]
  exact ht

/-- A new task is replenished, a woken one waits for its period if it has no budget; who changes the class must have
budget. -/
theorem Budgeted.enqueue (hs : Seated k s) (hj : MayJoin .deadline s t) (kind : EnqueueKind)
    (hk : kind = .classChange → 0 < budget s t) :
    Budgeted (enqueue s t kind) := by
  obtain ⟨p, hp, hpos⟩ := hs.params hj.schedClass
  refine enqueue_cases s t kind ?_ (fun hb => h.insertReady (.refl t s) (hb.elim hk id)) fun hz => ?_
  · exact h.insertReady (.replenish s t _) (hpos.trans_eq (replenish_self hp _).symm)
  · exact h.insertThrottled (.modify s t _) (fun hm => Nat.ne_of_gt (h.ready t hm) hz) (by rw [modifyDeadline_self])

theorem Budgeted.drop (t : TaskId) : Budgeted (dropTrees s t) := by
  refine h.of_move (.drop s t) (fun hm => ?_) fun hc ho hz => ?_
  · rw [budget, dropTrees_deadline]
    exact h.ready t (mem_of_mem_erase hm)
  · rw [dropTrees, setSeat, modify_self] at hc
    rw [budget, dropTrees_deadline] at hz
    rw [dropTrees_deadline] at ho ⊢
    exact h.marked hc ho hz

end

/-- No change within the class hits a runner without budget, and no caller hands in a task without budget as one that
changes its class. -/
def budgetSide : Side where
  enqueue s t kind := kind = .classChange → 0 < budget s t
  install _ _ := True
  setAttr s t _ := s.curr = some t → 0 < budget s t

theorem budgeted_classInv (k : Kconfig) : ClassInv k .deadline budgetSide Budgeted where
  clock _ h := ⟨h.ready, h.runner, h.active⟩
  frame hc ht h := h.touch hc ht
  drop _ _ h := ⟨h.ready, by rintro _ ⟨⟩, h.active⟩
  run {s t} _ hc h := by
    refine ⟨h.ready, fun u hu hcls => ?_, h.active⟩
    cases hu
    exact absurd hcls hc
  retag {s t f} _ _ hf hc hc' h := by
    refine h.of_move (.modify s t f) (fun hm => ?_) fun hcls => ?_
    · rw [budget, s.modify_field t f hf.deadline]
      exact h.ready t hm
    · rw [modify_self] at hcls
      exact absurd hcls hc'
  advance _ hs h := h.advance hs
  account e hs hcurr hc h := h.account hs hcurr e hc
  enqueue kind hs hj _ hσ h he := by
    cases he
    exact h.enqueue hs hj kind hσ
  dequeue {s t r s'} hs h he := by
    have he' := some.inj he
    rw [DlOk.dequeue (hs.queue .deadline)] at he'
    split at he' <;> cases he'
    · exact h.drop t
    · exact h
  pickNone hs h he := DlOk.pickNext_none (hs.queue .deadline) (some.inj he) ▸ h
  pick {s t s'} hs _ h he := by
    obtain ⟨hm, rfl⟩ := DlOk.pickNext_some (hs.queue .deadline) (some.inj he)
    have hpos : 0 < budget s t := h.ready t hm
    have hd := h.drop t
    refine ⟨hd.ready, fun u hu _ hz => ?_, hd.active⟩
    cases hu
    refine absurd ?_ (Nat.ne_of_gt hpos)
    exact (congrArg budgetLeftNs (dropTrees_deadline s t t)).symm.trans hz
  setCurr {s t s'} hs hcurr hc hdet _ h he := by
    cases he
    obtain ⟨p, hp, hpos⟩ := hs.params hc
    have hready : (setCurr s t).deadline.ready = s.deadline.ready := by
      unfold setCurr replenish
      split
      · rfl
      · split <;> rfl
    have hcu := (setCurr_acts (hs.queue .deadline) hdet).touch.curr.trans hcurr
    refine h.of_move ((DlMove.install s t).trans (.run hcu)) (fun hm => ?_) fun _ _ hz => ?_
    · exact absurd (hready ▸ hm) (not_ready_of_detached hs hdet)
    · -- an inactive task is replenished
      show ((setCurr s t).tasks t).deadline.isThrottled = true
      change ((setCurr s t).tasks t).deadline.budgetLeftNs = 0 at hz
      unfold setCurr at hz ⊢
      rw [setSeat_dl] at hz ⊢
      by_cases ha : (s.tasks t).deadline.isActive = true
      · rw [if_pos ha] at hz ⊢
        exact h.active t hc ha hz
      · rw [if_neg ha] at hz
        exact absurd (hz.symm.trans (replenish_self hp _)) (Nat.ne_of_lt hpos)
  putPrev {s t s'} reason hs hcurr hc h he := by
    cases he
    have hnot := not_ready_of_detached hs (hs.curr t hcurr)
    have hrun := h.runner t hcurr hc
    have hm0 : DlMove t s { s with curr := none } := .leave hcurr
    have hm1 := hm0.trans (.setRunning _ t none)
    cases reason with
    | yield | preempt =>
      unfold putPrev
      simp only
      split
      · exact h.insertThrottled hm1 hnot ‹_›
      · exact h.insertReady hm1 (Nat.pos_of_ne_zero fun hz => ‹¬ _› (hrun hz))
    | block | migrate =>
      have hdl := setSeat_dl (clearRunner { s with curr := none }) t t .detached
      refine h.of_move (hm0.trans (.putPrev _ t _)) (absurd · hnot) fun _ _ hz => ?_
      exact (congrArg (·.isThrottled) hdl).trans (hrun ((congrArg (·.budgetLeftNs) hdl).symm.trans hz))
    | exit =>
      refine h.of_move (hm0.trans (.putPrev _ t _)) (absurd · hnot) fun _ ho => ?_
      unfold putPrev at ho
      simp only [setSeat_dl, modifyDeadline_self] at ho
      rcases ho with ho | ho <;> cases ho
  attrChanged {s t s' attr isCurr} hs hc _ _ _ hcurr hσ h he := by
    cases he
    have hself : ((attrChanged (s.modify t fun x => x.setAttr attr) t isCurr).tasks t).deadline =
        { (s.tasks t).deadline with isActive := false, isThrottled := false } := by
      rw [attrChanged_tasks, modifyDeadline_self, s.modify_field t _ (Retags.setAttr attr).deadline]
    refine h.of_move ((DlMove.modify s t _).trans (.attrChanged _ t isCurr)) (fun hm => ?_) fun _ ho hz => ?_
    · rw [budget, hself]
      cases isCurr <;> exact h.ready t hm
    · -- the runner has budget
      rw [budget, hself] at hz
      rw [hself] at ho
      refine absurd hz (Nat.ne_of_gt (hσ ?_))
      cases isCurr <;> exact ho.resolve_right Bool.false_ne_true
  switchedFrom {s t attr isCurr} hs hc hne hdet _ h := by
    refine h.of_move ((DlMove.switchedFrom s t isCurr).trans (.modify _ t _)) (fun hm => ?_) fun hd => ?_
    · refine absurd ?_ (not_ready_of_detached hs hdet)
      cases isCurr <;> exact hm
    · exact absurd ((reclass_schedClass (switchedFrom s t isCurr) t attr).symm.trans hd) hne
  switchedTo {s t attr isCurr} hs hc hk hnew hv _ hdet hcurr h := by
    obtain ⟨p, hp, hpos⟩ := SchedAttr.validate_deadline hv hnew
    have hparams : params (reclass s t attr) t = some p := by
      rw [params, reclass, modify_self]
      exact hp
    have hbudget : 0 < budget ((reclass s t attr).classSwitchedTo t isCurr .deadline) t := by
      show 0 < (((switchedTo (reclass s t attr) t isCurr).tasks t).deadline).budgetLeftNs
      rw [switchedTo_tasks]
      exact lt_of_lt_of_eq hpos (replenish_self hparams _).symm
    exact ⟨h.of_move ((DlMove.modify s t _).trans (.switchedTo _ t isCurr)) (fun _ => hbudget)
      fun _ _ hz => absurd hz (Nat.ne_of_gt hbudget), fun _ _ => hbudget⟩

/-! ## What a runner is charged -/

section

variable (h : Seated k s)
include h

theorem classEnqueue_dl {kind : EnqueueKind} {c : SchedClass} (hj : MayJoin c s t)
    (hs : s.seats t = .detached) (he : s.classEnqueue t kind c = some s') (hu : u ≠ t) :
    (s'.tasks u).deadline = (s.tasks u).deadline := by
  by_cases hc : c = .deadline
  · subst hc
    cases he
    rw [(DlMove.enqueue s t kind).tasks u hu]
  · exact ((classEnqueue_seated h hj hs he).2.touch.deadline hc).2 u

theorem classDequeue_dl {c : SchedClass} {r : Option TaskId} (he : s.classDequeue t c = some (r, s'))
    (u : TaskId) : (s'.tasks u).deadline = (s.tasks u).deadline := by
  by_cases hc : c = .deadline
  · subst hc
    have he' := some.inj he
    rw [DlOk.dequeue (h.queue .deadline)] at he'
    split at he' <;> cases he'
    · exact dropTrees_deadline s t u
    · rfl
  · exact ((ClassInv.Taken.touch (classDequeue_seated h he).2.1).deadline hc).2 u

/-- A change of the class of another task, or of the runner away from Deadline, leaves the runner no more budget. -/
theorem switched_budget {attr : SchedAttr} {isCurr : Bool} (hv : attr.validate k = .ok ())
    (hs : s.seats t = .detached) (hk : (s.tasks t).schedClass.isKernelOnly = false)
    (hne : (s.tasks t).schedClass ≠ attr.schedClass) (hu : u = t → (s.tasks t).schedClass = .deadline) :
    budget (switched s t attr isCurr (s.tasks t).schedClass) u ≤ budget s u := by
  obtain ⟨haf, -, -, -, -, hto⟩ := reclassed_seated h hv hk hs isCurr (s.tasks t).schedClass rfl
  have hre : budget (reclass (s.classSwitchedFrom t isCurr (s.tasks t).schedClass) t attr) u =
      budget (s.classSwitchedFrom t isCurr (s.tasks t).schedClass) u :=
    congrArg budgetLeftNs (modify_field _ t _
      (Retags.switch attr attr.schedClass).deadline u)
  have hfrom : budget (s.classSwitchedFrom t isCurr (s.tasks t).schedClass) u ≤ budget s u := by
    by_cases hc : (s.tasks t).schedClass = .deadline
    · rw [hc]
      show ((switchedFrom s t isCurr).tasks u).deadline.budgetLeftNs ≤ _
      rw [switchedFrom_tasks]
      by_cases hut : u = t
      · rw [hut, modifyDeadline_self]
        exact Nat.zero_le _
      · rw [modifyDeadline_of_ne hut]
        rfl
    · exact le_of_eq (congrArg budgetLeftNs ((haf.touch.deadline hc).2 u))
  refine le_trans (le_of_eq ?_) (hre ▸ hfrom)
  unfold switched
  by_cases hc : attr.schedClass = .deadline
  · have hut : u ≠ t := fun hut => hne ((hu hut).trans hc.symm)
    rw [hc]
    show ((switchedTo _ t isCurr).tasks u).deadline.budgetLeftNs = _
    rw [(DlMove.switchedTo _ t isCurr).tasks u hut]
    rfl
  · exact congrArg budgetLeftNs ((hto.touch.deadline hc).2 u)

theorem attrChanged_budget {attr : SchedAttr} {isCurr : Bool}
    (hcls : (s.tasks t).schedClass = attr.schedClass) (hcurr : isCurr = true ↔ s.curr = some t)
    (he : (s.modify t fun x => x.setAttr attr).classAttrChanged t (s.tasks t).attr isCurr attr.schedClass = some s')
    (u : TaskId) : budget s' u = budget s u := by
  have hmod : budget (s.modify t fun x => x.setAttr attr) u = budget s u :=
    congrArg budgetLeftNs (s.modify_field t _ (Retags.setAttr attr).deadline u)
  rw [← hmod]
  by_cases hc : attr.schedClass = .deadline
  · rw [hc] at he
    cases he
    rw [budget, attrChanged_tasks]
    by_cases hut : u = t
    · rw [hut, modifyDeadline_self]
      rfl
    · rw [modifyDeadline_of_ne hut]
      rfl
  · exact congrArg budgetLeftNs (((classAttrChanged_acts h hcls hcurr he).touch.deadline hc).2 u)

/-- The work of `set_attr` after the checks gives the runner no budget. -/
theorem changed_runner_budget {attr : SchedAttr} (hv : attr.validate k = .ok ())
    (hk : (s.tasks t).schedClass.isKernelOnly = false) (hcurr : s.curr = some u)
    (hc : (s.tasks u).schedClass = .deadline) (he : changeAttr s t attr = some s') : budget s' u ≤ budget s u := by
  have hcu : (s.curr == some t) = true ↔ s.curr = some t := beq_iff_eq
  have hcls := (h.user hk).1
  unfold changeAttr at he
  split at he
  · rename_i hsame
    exact le_of_eq (attrChanged_budget h (hcls.trans hsame) hcu he u)
  · rename_i hne
    rw [← hcls] at hne
    rcases switchClass_cases h hv hk hcu he with ⟨hs, rfl⟩ | ⟨-, hq, s1, _, hd, rfl, hun, hput⟩
    · exact switched_budget h hv hs hk hne fun hut => hut ▸ hc
    · -- the task is queued, so it is not the runner
      have hut : u ≠ t := fun hut => hq (h.curr t (hut ▸ hcurr))
      rw [← hun.touch.schedClass] at hne
      calc budget s' u = budget (switched s1 t attr (s.curr == some t) (s1.tasks t).schedClass) u :=
            congrArg budgetLeftNs (classEnqueue_dl hun.switched hun.joins hun.seat hput hut)
        _ ≤ budget s1 u := switched_budget hun.seated hv hun.detached hun.user hne fun hut' => absurd hut' hut
        _ = budget s u := congrArg budgetLeftNs (classDequeue_dl h hd u)

/-- The time an operation charges to the runner. -/
def elapsedBy (k : Kconfig) (s : Scheduler) : Op → Nat
  | .installCurrent .. | .pickNext .. => 0
  | .setAttr _ attr nowNs => match attr.validate k with
    | .ok () => (s.clock.advance nowNs).1
    | .error _ => 0
  | .update nowNs _ | .enqueue _ _ nowNs | .dequeue _ nowNs | .steal _ nowNs | .yieldCurrent nowNs |
    .preemptCurrent nowNs
  | .blockCurrent nowNs | .migrateCurrent nowNs | .exitCurrent nowNs => (s.clock.advance nowNs).1

theorem arrive_runner (hcurr : s.curr = some u) (hc : (s.tasks u).schedClass = .deadline) (o : Op) :
    budget (arrive k s o) u = budget s u - elapsedBy k s o := by
  cases o with
  | installCurrent _ nowNs | pickNext nowNs => exact congrArg budgetLeftNs (advanceTo_runner h (h.curr u hcurr) nowNs)
  | setAttr t attr nowNs =>
    cases hv : attr.validate k with
    | ok =>
      simp only [arrive, elapsedBy, hv]
      exact (charge_runner h hcurr hc nowNs).1
    | error =>
      simp only [arrive, elapsedBy, hv]
      rfl
  | update nowNs | enqueue _ _ nowNs | dequeue _ nowNs | steal _ nowNs | yieldCurrent nowNs | preemptCurrent nowNs
  | blockCurrent nowNs | migrateCurrent nowNs | exitCurrent nowNs => exact (charge_runner h hcurr hc nowNs).1

/-- The classes give the runner no budget. -/
theorem Does.runner_budget {o : Op} {out : Output}
    (hfree : ∀ t, o.brings = some t → s.seats t = .detached ∧ s.curr ≠ some t) (hcurr : s.curr = some u)
    (hc : (s.tasks u).schedClass = .deadline) (hd : Does k s o out s') : budget s' u ≤ budget s u := by
  cases hd with
  | install hnone | pick hnone => cases hcurr.symm.trans hnone
  | update | absent | refuse => exact le_rfl
  | @enqueue t _ _ _ _ hput =>
    obtain ⟨hs, hne⟩ := hfree t rfl
    have hut : u ≠ t := fun hut => hne (hut ▸ hcurr)
    exact le_of_eq (congrArg budgetLeftNs (classEnqueue_dl h ⟨.inl hs, rfl, hne⟩ hs hput hut))
  | dequeue hget => exact le_of_eq (congrArg budgetLeftNs (classDequeue_dl h hget u))
  | stealRt hrt =>
    have ht := RtClass.steal_taken (h.queue .rt) h.prio_inRange hrt
    exact le_of_eq (congrArg budgetLeftNs (((ClassInv.Taken.touch ht).deadline nofun).2 u))
  | stealFair hrt hfair =>
    have ht := RtClass.steal_taken (h.queue .rt) h.prio_inRange hrt
    have hf := FairClass.steal_taken ((ht.seated h nofun).queue .fair) hfair
    exact le_of_eq (congrArg budgetLeftNs ((((ClassInv.Taken.touch hf).deadline nofun).2 u).trans
      (((ClassInv.Taken.touch ht).deadline nofun).2 u)))
  | @leave _ reason t _ _ _ _ ht hput =>
    obtain rfl : u = t := some.inj (hcurr.symm.trans ht)
    rw [hc] at hput
    cases hput
    exact le_of_eq (putPrev_self _ u reason)
  | change hv hk _ hset => exact changed_runner_budget h hv hk hcurr hc hset

/-- What an operation takes from the budget of the runner stays taken. -/
theorem exec_runner_budget {o : Op} {out : Output} (ha : Allowed s o) (hcurr : s.curr = some u)
    (hc : (s.tasks u).schedClass = .deadline) (he : exec k s o = some (out, s')) :
    budget s' u ≤ budget s u - elapsedBy k s o := by
  obtain ⟨h1, hst⟩ := arrive_seated h o
  rw [← arrive_runner h hcurr hc]
  exact (exec_does h he).runner_budget h1 (fun _ => arrive_free h ha) (hst.curr.trans hcurr)
    ((hst.schedClass u).trans hc)

end

end XKernel.Sched
