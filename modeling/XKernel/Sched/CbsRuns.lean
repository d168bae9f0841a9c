import XKernel.Sched.Cbs
/-!
# Constant bandwidth along runs

Between two replenishments a Deadline task is charged no more than it was given, apart
from the part of the last interval that lies beyond its budget.
-/

namespace XKernel.Sched

open Lib DeadlineClass List Option DeadlineClass Scheduler

variable {k : Kconfig} {s s' : Scheduler} {t u : TaskId} {M : Nat}

/-! ## What a replenishment gives -/

/-- `runtime_ns` of the attributes, zero without any. -/
def runtime (s : Scheduler) (t : TaskId) : Nat :=
  match params s t with
  | some p => p.runtimeNs
  | none => 0

theorem runtime_of_attr (h : (s'.tasks t).attr = (s.tasks t).attr) : runtime s' t = runtime s t := by
  unfold runtime params
  rw [h]

/-- The budget of the task does not exceed `M`, unless it was replenished. -/
def Granted (t : TaskId) (M : Nat) (s : Scheduler) : Prop := budget s t ≤ max M (runtime s t)

theorem Granted.of_eq (h : Granted t M s) (hb : budget s' t ≤ budget s t) (ha : (s'.tasks t).attr = (s.tasks t).attr) :
    Granted t M s' := by
  unfold Granted
  rw [runtime_of_attr ha]
  exact hb.trans h

theorem Granted.of_dl (h : Granted t M s) (hd : (s'.tasks t).deadline = (s.tasks t).deadline)
    (ha : (s'.tasks t).attr = (s.tasks t).attr) : Granted t M s' :=
  h.of_eq (le_of_eq (congrArg DeadlineEntity.budgetLeftNs hd)) ha

/-- Only the task that an operation is about can get budget. -/
theorem Granted.of_move (h : Granted t M s) (hm : DlMove u s s') (hself : t = u → Granted t M s') : Granted t M s' := by
  by_cases hut : t = u
  · exact hself hut
  · exact h.of_dl (by rw [hm.tasks t hut]) (by rw [hm.tasks t hut])

theorem Granted.of_runtime (hb : budget s t = runtime s t) : Granted t M s := (le_of_eq hb).trans (le_max_right _ _)

theorem replenish_touch (s : Scheduler) (t : TaskId) (nowNs : Nat) : Touch .deadline s (replenish s t nowNs) := by
  unfold replenish
  split
  · exact .refl _ s
  · exact .modifyDeadline s t _

/-- A replenished task has its runtime, or is left as it is. -/
theorem Granted.replenish (h : Granted t M s) (u : TaskId) (nowNs : Nat) : Granted t M (replenish s u nowNs) := by
  refine h.of_move (.replenish s u nowNs) ?_
  rintro rfl
  cases hp : params s t with
  | none =>
    have : DeadlineClass.replenish s t nowNs = s := by
      unfold DeadlineClass.replenish
      rw [hp]
    rw [this]
    exact h
  | some =>
    refine .of_runtime ((replenish_self hp nowNs).trans ?_)
    rw [runtime_of_attr ((replenish_touch s t nowNs).attr t), runtime, hp]

theorem Granted.insertReady (h : Granted t M s) (u : TaskId) : Granted t M (insertReady s u) := by
  refine h.of_move (.joins .ready) ?_
  rintro rfl
  refine h.of_eq ?_ ?_
  · rw [budget, Joins.ready.self]
    rfl
  · rw [Joins.ready.tasks, alloc_tasks, if_pos rfl]

theorem Granted.enqueue (h : Granted t M s) (u : TaskId) (kind : EnqueueKind) : Granted t M (enqueue s u kind) := by
  refine enqueue_cases s u kind ((h.replenish u _).insertReady u) (fun _ => h.insertReady u) fun _ => ?_
  refine h.of_move ((DlMove.modify s u _).trans (.joins .throttled)) ?_
  rintro rfl
  refine h.of_eq ?_ ?_
  · rw [budget, Joins.throttled.self, modifyDeadline_self]
    rfl
  · rw [Joins.throttled.tasks, alloc_tasks, if_pos rfl]
    exact (Touch.modifyDeadline s t _).attr t

/-- The attributes of the task are those it had at the start. -/
def grantSide (t : TaskId) (M : Nat) : Side where
  enqueue _ _ _ := True
  install _ _ := True
  setAttr s u _ := u = t → runtime s t ≤ M

theorem granted_classInv (k : Kconfig) (t : TaskId) (M : Nat) : ClassInv k .deadline (grantSide t M) (Granted t M) where
  clock _ h := h
  frame hc ht h := h.of_dl ((ht.deadline hc).2 t) (ht.attr t)
  drop _ _ h := h
  run _ _ h := h
  retag {s u f} hs hk hf hc hc' h := by
    refine h.of_move (.modify s u f) ?_
    rintro rfl
    obtain ⟨hcls, hv⟩ := hs.user hk
    have hzero : runtime s t = 0 := by rw [runtime, params, SchedAttr.validate_other hv (hcls ▸ hc)]
    have hb : budget (s.modify t f) t = budget s t :=
      congrArg DeadlineEntity.budgetLeftNs (s.modify_field t f hf.deadline t)
    unfold Granted at h ⊢
    rw [hzero, max_eq_left (Nat.zero_le M)] at h
    rw [hb]
    exact h.trans (le_max_left _ _)
  advance {s} _ hs h := by
    have hadv := hs.advanced
    by_cases hd : Due s t
    · obtain ⟨p, hp, hb, -⟩ := hadv.due t hd
      refine .of_runtime (hb.trans ?_)
      rw [runtime_of_attr (hadv.touch.attr t), runtime, hp]
    · exact h.of_dl (hadv.kept t hd) (hadv.touch.attr t)
  account {s u} e hs _ _ h := by
    refine h.of_move (.account s u e) ?_
    rintro rfl
    exact h.of_eq ((account_self s t e).1.trans_le (Nat.sub_le _ _))
      ((account_acts (hs.queue .deadline) t e).touch.attr t)
  enqueue {s u s'} kind _ _ _ _ h he := by
    cases he
    exact h.enqueue u kind
  dequeue hs h he := h.of_dl (classDequeue_dl hs he t) ((ClassInv.Taken.touch (classDequeue_seated hs he).2.1).attr t)
  pickNone hs h he := DlOk.pickNext_none (hs.queue .deadline) (some.inj he) ▸ h
  pick {s u s'} hs _ h he := by
    have ht := pickNext_taken (hs.queue .deadline) (some.inj he)
    obtain ⟨-, rfl⟩ := DlOk.pickNext_some (hs.queue .deadline) (some.inj he)
    exact h.of_dl (dropTrees_deadline s u t) (ht.2.touch.attr t)
  setCurr {s u s'} hs _ _ hdet _ h he := by
    cases he
    have ha := (setCurr_acts (hs.queue .deadline) hdet).touch.attr t
    have h1 : Granted t M (if (s.tasks u).deadline.isActive then s else replenish s u s.clock.nowNs) := by
      split
      · exact h
      · exact h.replenish u _
    refine h1.of_dl (setSeat_dl _ u t _) (ha.trans ?_)
    split
    · rfl
    · exact ((replenish_touch s u _).attr t).symm
  putPrev {s u s'} reason hs hcurr hc h he := by
    cases he
    have hdet : ({ s with curr := none } : Scheduler).seats u = .detached := hs.curr u hcurr
    refine h.of_move ((DlMove.leave hcurr).trans (.putPrev _ u reason)) ?_
    rintro rfl
    exact h.of_eq (le_of_eq (putPrev_self _ t reason))
      ((putPrev_acts (hs.clearCurr.queue .deadline) ⟨.inl hdet, hc, by rintro ⟨⟩⟩ hdet reason).touch.attr t)
  attrChanged {s u s' attr isCurr} hs hc hnew _ _ hcurr hσ h he := by
    rw [← hnew] at he hc
    have hb := attrChanged_budget hs hc hcurr he t
    by_cases hut : u = t
    · unfold Granted at h ⊢
      rw [max_eq_left (hσ hut)] at h
      rw [hb]
      exact h.trans (le_max_left _ _)
    · refine h.of_eq (le_of_eq hb) (((classAttrChanged_acts hs hc hcurr he).touch.attr t).trans ?_)
      rw [modify_of_ne (Ne.symm hut)]
  switchedFrom {s u attr isCurr} hs hc hne hdet hcurr h := by
    refine h.of_move ((DlMove.switchedFrom s u isCurr).trans (.modify _ u _)) ?_
    rintro rfl
    have hz : budget (reclass (s.classSwitchedFrom t isCurr .deadline) t attr) t = 0 := by
      have hmod := modify_field (s.classSwitchedFrom t isCurr .deadline) t _
        (Retags.switch attr attr.schedClass).deadline t
      refine (congrArg DeadlineEntity.budgetLeftNs hmod).trans ?_
      show ((switchedFrom s t isCurr).tasks t).deadline.budgetLeftNs = 0
      rw [switchedFrom_tasks, modifyDeadline_self]
    unfold Granted
    rw [hz]
    exact Nat.zero_le _
  switchedTo {s u attr isCurr} hs hc hk hnew hv _ hdet hcurr h := by
    refine ⟨h.of_move ((DlMove.modify s u _).trans (.switchedTo _ u isCurr)) ?_, fun _ => trivial⟩
    rintro rfl
    have htasks : ((reclass s t attr).classSwitchedTo t isCurr .deadline).tasks = _ :=
      switchedTo_tasks (reclass s t attr) t isCurr
    obtain ⟨p, hp, -⟩ := SchedAttr.validate_deadline hv hnew
    have hparams : params (reclass s t attr) t = some p := by
      rw [params, reclass, modify_self]
      exact hp
    refine .of_runtime ?_
    rw [budget, htasks]
    refine (replenish_self hparams _).trans ?_
    rw [runtime_of_attr (s := reclass s t attr) (by rw [htasks]; exact (replenish_touch _ t _).attr t),
      runtime, hparams]

/-- A budget rises to at most the runtime of the task, before or after the operation. -/
theorem exec_budget_le {o : Op} {out : Output} (h : Seated k s) (ha : Allowed s o) (he : exec k s o = some (out, s'))
    (t : TaskId) : budget s' t ≤ max (max (budget s t) (runtime s t)) (runtime s' t) := by
  refine (granted_classInv k t (max (budget s t) (runtime s t))).exec (.inl rfl) h ?_ ha ?_ he
  · exact (le_max_left _ _).trans (le_max_left _ _)
  · cases o with
    | enqueue | installCurrent => exact fun _ => trivial
    | setAttr u attr nowNs =>
      rintro - - rfl
      rw [runtime_of_attr ((charge_seated h nowNs).2.attr u)]
      exact le_max_right _ _
    | update | dequeue | steal | pickNext | yieldCurrent | preemptCurrent | blockCurrent | migrateCurrent |
      exitCurrent =>
      trivial

/-! ## Between two replenishments -/

/-- What an operation charges to the task: the interval, if the task runs with budget left. -/
def charged (k : Kconfig) (s : Scheduler) (o : Op) (t : TaskId) : Nat :=
  if s.curr = some t ∧ (s.tasks t).schedClass = .deadline ∧ 0 < budget s t then elapsedBy k s o else 0

/-- A part of a run in which the task is not replenished, with what it is charged in all and the overshoot of the last
interval that was charged. -/
inductive Spell (k : Kconfig) (t : TaskId) (s₀ : Scheduler) : Scheduler → Nat → Nat → Prop
  | nil : Spell k t s₀ s₀ 0 0
  | snoc {s s' : Scheduler} {o : Op} {total overshoot : Nat} : Spell k t s₀ s total overshoot → Allowed s o →
      step k s o = some s' → budget s' t ≤ budget s t →
      Spell k t s₀ s' (total + charged k s o t)
        (if charged k s o t = 0 then overshoot else charged k s o t - budget s t)

theorem Spell.seated {s0 : Scheduler} {total overshoot : Nat} (h0 : Seated k s0) (h : Spell k t s0 s total overshoot) :
    Seated k s := by
  induction h with
  | nil => exact h0
  | snoc _ ha hs _ ih =>
    obtain ⟨⟨out, s1⟩, he, rfl⟩ := map_eq_some_iff.1 hs
    exact (exec_seated ih ha he).1

theorem Spell.bound {s0 : Scheduler} {total overshoot : Nat} (h0 : Seated k s0) (h : Spell k t s0 s total overshoot) :
    total + budget s t ≤ budget s0 t + overshoot ∧ (0 < budget s t → overshoot = 0) := by
  induction h with
  | nil => exact ⟨by omega, fun _ => rfl⟩
  | @snoc s s' o total overshoot hsp ha hs hle ih =>
    obtain ⟨hbound, hover⟩ := ih
    obtain ⟨⟨out, s1⟩, he, rfl⟩ := map_eq_some_iff.1 hs
    simp only at hle ⊢
    split
    · rename_i hz
      exact ⟨by omega, fun hpos => hover (hpos.trans_le hle)⟩
    · -- the task was charged, so it ran with budget left and nothing had overshot before
      rename_i hz
      unfold charged at hz ⊢
      split at hz
      · rename_i hrun
        rw [if_pos hrun]
        have hb := exec_runner_budget (hsp.seated h0) ha hrun.1 hrun.2.1 he
        constructor <;> omega
      · exact absurd rfl hz

/-- A task of the Deadline class is picked from the ready tree. -/
theorem mem_ready_of_pick {c : SchedClass} (h : Seated k s) (hs : s.seats t = .deadline)
    (he : classPickNext s c = some (some t, s')) : t ∈ s.deadline.ready := by
  obtain ⟨-, ⟨ht, -⟩ | ⟨-, hr, -⟩⟩ := classPickNext_taken h he
  · have hc : c = .deadline := (h.schedClass ht.1).symm.trans (h.schedClass hs)
    rw [hc] at he
    exact (DlOk.pickNext_some (h.queue .deadline) (some.inj he)).1
  · cases hr
    cases (h.idle_detached h.idle).symm.trans hs

/-- A throttled task is picked only when its period has started. -/
theorem pickNext_due {nowNs : Nat} (h : Seated k s) (he : s.pickNext nowNs = some (t, s'))
    (ht : t ∈ s.deadline.throttled) :
    (s.tasks t).deadline.periodStartNs ≤ max nowNs s.clock.nowNs := by
  have hs : s.seats t = .deadline := (DlOk.mem (h.queue .deadline) t).1 (.inr ht)
  have hready : t ∈ (s.advanceTo nowNs).deadline.ready := by
    obtain ⟨h1, hst⟩ := arrive_seated h (.pickNext nowNs)
    have he : exec k s (.pickNext nowNs) = some (.task (some t), s') := map_eq_some_iff.2 ⟨_, he, rfl⟩
    cases exec_does h he with
    | pick hnone hasked hpick =>
      obtain ⟨h2, hst2, hdl⟩ := hasked.seated h1
      rw [← hst.seats, ← hst2.seats] at hs
      exact hdl ▸ mem_ready_of_pick h2 hs hpick
    | leave ho => cases ho
  have h0 := h.setClock (s.clock.advance nowNs).2
  have hadv := h0.advanced
  have h1 := h0.acts hadv.acts nofun
  have hdl := ((RtClass.advance_acts (h1.queue .rt)).touch.deadline nofun).1
  have hready' : t ∈ (advance ({ s with clock := (s.clock.advance nowNs).2 } : Scheduler)).deadline.ready := by
    rw [← hdl]
    exact hready
  rcases (hadv.ready t).1 hready' with hm | hd
  · exact absurd ht ((DlOk.toDlTrees (h.queue .deadline)).apart t hm)
  · exact hd.2

theorem new_budgeted (k : Kconfig) (kernel : TaskId → Option KernelClass) (idle : TaskId) (nowNs : Nat) :
    Budgeted (new k kernel idle nowNs) := by
  refine ⟨nofun, nofun, fun t hc => ?_⟩
  rw [new_tasks] at hc
  generalize kernel t = c at hc
  rcases c with _ | (_ | _) <;> cases hc

/-- Along every run whose operations meet the conditions, a ready task has budget. A throttled task waits for its
period, and between two replenishments no task is charged more than it was given and the overshoot of one interval. -/
theorem run_cbs_budget (k : Kconfig) (kernel : TaskId → Option KernelClass) (idle : TaskId) (nowNs : Nat)
    (hidle : kernel idle = some .idle) (s : Scheduler)
    (hr : Run (step k) (fun s o => Allowed s o ∧ budgetSide.Meets .deadline s o) (new k kernel idle nowNs) s) :
    (∀ t ∈ s.deadline.ready, 0 < budget s t) ∧
    (∀ now t s', s.pickNext now = some (t, s') → t ∈ s.deadline.throttled →
      (s.tasks t).deadline.periodStartNs ≤ max now s.clock.nowNs) ∧
    (∀ t s' total overshoot, Spell k t s s' total overshoot → total + budget s' t ≤ budget s t + overshoot) ∧
    ∀ o s', Allowed s o → step k s o = some s' → ∀ t, budget s t < budget s' t →
      budget s' t ≤ max (runtime s t) (runtime s' t) := by
  obtain ⟨h, hb⟩ := (budgeted_classInv k).run_inv (.inl rfl) hidle (new_budgeted k kernel idle nowNs) hr
  refine ⟨hb.ready, fun now t s' he ht => pickNext_due h he ht, fun t s' total overshoot hs => (hs.bound h).1,
    fun o s' ha hs t hlt => ?_⟩
  obtain ⟨⟨out, s₁⟩, he, rfl⟩ := map_eq_some_iff.1 hs
  have := exec_budget_le h ha he t
  simp only at hlt ⊢
  omega

instance (s : Scheduler) : (o : Op) → Decidable (budgetSide.Meets .deadline s o)
  | .enqueue t kind nowNs => inferInstanceAs (Decidable ((s.tasks t).schedClass = .deadline →
      kind = .classChange → 0 < budget (s.charge nowNs).1 t))
  | .setAttr t attr nowNs =>
      inferInstanceAs (Decidable ((s.tasks t).schedClass = .deadline → attr.schedClass = .deadline →
      (s.charge nowNs).1.curr = some t → 0 < budget (s.charge nowNs).1 t))
  | .installCurrent t _ => inferInstanceAs (Decidable ((s.tasks t).schedClass = .deadline → True))
  | .update .. | .dequeue .. | .steal .. | .pickNext .. | .yieldCurrent .. | .preemptCurrent .. | .blockCurrent ..
  | .migrateCurrent .. | .exitCurrent .. => .isTrue trivial

/-- One Deadline task waits with budget, another has spent its own. -/
def budgetOps : List Op :=
  [.setAttr 3 sampleDl 0, .setAttr 4 sampleDl 0, .installCurrent 3 0, .enqueue 4 .new 10, .preemptCurrent 2000000]

theorem run_cbs_budget_sample : ∃ s, (s.deadline.ready = [4] ∧ s.deadline.throttled = [3]) ∧
    (∀ t ∈ s.deadline.ready, 0 < budget s t) ∧
    (∀ now t s', s.pickNext now = some (t, s') → t ∈ s.deadline.throttled →
      (s.tasks t).deadline.periodStartNs ≤ max now s.clock.nowNs) ∧
    (∀ t s' total overshoot, Spell .standard t s s' total overshoot → total + budget s' t ≤ budget s t + overshoot) ∧
    ∀ o s', Allowed s o → step .standard s o = some s' → ∀ t, budget s t < budget s' t →
      budget s' t ≤ max (runtime s t) (runtime s' t) := by
  exact (Run.exists_of_exec budgetOps (by decide +kernel)).imp fun s h =>
    ⟨h.2, run_cbs_budget .standard sampleKernel 0 0 rfl s h.1⟩

/-- The same attributes are set again at the instant at which the runner has spent its budget;
preempted, it is ready. -/
theorem ready_without_budget : ∃ s, Run (step .standard) Allowed (new .standard sampleKernel 0 0) s ∧
    3 ∈ s.deadline.ready ∧ budget s 3 = 0 := by
  exact Run.exists_of_exec (exhaustOps ++ [.setAttr 3 sampleDl 1000000, .preemptCurrent 1000001]) (by decide +kernel)

end XKernel.Sched
