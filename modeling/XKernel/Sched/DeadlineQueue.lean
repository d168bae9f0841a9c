import XKernel.Sched.Queues
/-!
# The Deadline trees

What each operation of the class does to the trees and to the seats.
-/

namespace XKernel.Sched

open Lib DeadlineClass List Function DeadlineClass

variable {s s' : Scheduler} {t u : TaskId} {f : DeadlineEntity → DeadlineEntity}

/-! ## Changes of one task -/

/-- A task keeps its keys while it is in a tree. -/
def KeepsKeys (f : DeadlineEntity → DeadlineEntity) : Prop :=
  ∀ e, (f e).deadlineNs = e.deadlineNs ∧ (f e).periodStartNs = e.periodStartNs ∧ (f e).treeId = e.treeId

theorem modifyDeadline_of_ne (hu : u ≠ t) : (s.modifyDeadline t f).tasks u = s.tasks u := by
  rw [Scheduler.modifyDeadline, Scheduler.modify_of_ne hu]

theorem modifyDeadline_self : ((s.modifyDeadline t f).tasks t).deadline = f (s.tasks t).deadline := by
  rw [Scheduler.modifyDeadline, Scheduler.modify_self]

theorem DlTrees.modify (h : DlTrees s) (hf : InTrees s t → KeepsKeys f) : DlTrees (s.modifyDeadline t f) := by
  -- a task in a tree keeps its keys, and a task in none does not count
  refine h.mono (.refl _) (.refl _) le_rfl fun u hu => ?_
  by_cases hut : u = t
  · subst hut
    rw [modifyDeadline_self]
    exact hf hu _
  · rw [modifyDeadline_of_ne hut]
    exact ⟨rfl, rfl, rfl⟩

theorem DlOk.modify (h : DlOk s) (hf : (s.tasks t).seat = .deadline → KeepsKeys f) : DlOk (s.modifyDeadline t f) :=
  ⟨h.toDlTrees.modify fun hm => hf ((h.mem t).1 hm), fun u =>
    (h.mem u).trans (iff_of_eq (congrArg (· = _)
      (s.modify_field t (fun x => { x with deadline := f x.deadline }) (fun _ => rfl) u).symm))⟩

theorem DlOk.setRunning (h : DlOk s) (r : Option DeadlineRunner) :
    DlOk { s with deadline := { s.deadline with running := r } } :=
  { h with }

/-! ## Joining a tree -/

theorem alloc_tasks (s : Scheduler) (t u : TaskId) : ((allocEnqueueId s t).setSeat t .deadline).tasks u =
    if u = t then { s.tasks t with
      seat := .deadline
      deadline := { (s.tasks t).deadline with treeId := s.deadline.nextEnqueueId } }
    else s.tasks u := by
  by_cases hu : u = t
  · simp only [Scheduler.setSeat, allocEnqueueId, Scheduler.modifyDeadline, Scheduler.modify_tasks, if_pos hu, if_true]
  · simp only [Scheduler.setSeat, allocEnqueueId, Scheduler.modifyDeadline, Scheduler.modify_of_ne hu, if_neg hu]

/-- The trees before the task joins one of them. -/
theorem DlTrees.alloc (h : DlTrees s) (hn : ¬ InTrees s t) : DlTrees ((allocEnqueueId s t).setSeat t .deadline) ∧
    ∀ u, InTrees s u → (((allocEnqueueId s t).setSeat t .deadline).tasks u).deadline.treeId <
      (((allocEnqueueId s t).setSeat t .deadline).tasks t).deadline.treeId := by
  have hne : ∀ u, InTrees s u → ((allocEnqueueId s t).setSeat t .deadline).tasks u = s.tasks u := by
    intro u hu
    rw [alloc_tasks, if_neg]
    rintro rfl
    exact hn hu
  have hself : (((allocEnqueueId s t).setSeat t .deadline).tasks t).deadline.treeId = s.deadline.nextEnqueueId := by
    rw [alloc_tasks, if_pos rfl]
  refine ⟨h.mono (.refl _) (.refl _) (Nat.le_succ _) fun u hu => ?_, fun u hu => ?_⟩
  · rw [hne u hu]
    exact ⟨rfl, rfl, rfl⟩
  · rw [hself, hne u hu]
    exact h.fresh u hu

/-- The task joins one of the trees. -/
inductive Joins (t : TaskId) (s : Scheduler) : Scheduler → Prop
  | ready : Joins t s (insertReady s t)
  | throttled : Joins t s (insertThrottled s t)

theorem Joins.tasks (h : Joins t s s') (u : TaskId) :
    s'.tasks u = ((allocEnqueueId s t).setSeat t .deadline).tasks u := by
  cases h <;> rfl

theorem mem_insertReady : u ∈ (insertReady s t).deadline.ready ↔ u = t ∨ u ∈ s.deadline.ready := Index.mem_insert

theorem mem_insertThrottled : u ∈ (insertThrottled s t).deadline.throttled ↔ u = t ∨ u ∈ s.deadline.throttled :=
  Index.mem_insert

theorem Joins.inTrees (h : Joins t s s') (u : TaskId) : InTrees s' u ↔ u = t ∨ InTrees s u := by
  unfold InTrees
  cases h with
  | ready =>
    rw [mem_insertReady, or_assoc]
    rfl
  | throttled =>
    rw [mem_insertThrottled, or_left_comm]
    rfl

/-- A task that has joined one of the trees has the highest identifier. -/
theorem Joins.trees (hs : Joins t s s') (h : DlTrees s) (hn : ¬ InTrees s t) : DlTrees s' := by
  obtain ⟨ha, hid⟩ := h.alloc hn
  have hnext : s'.deadline.nextEnqueueId = s.deadline.nextEnqueueId + 1 := by cases hs <;> rfl
  have hfresh : ∀ u, InTrees s' u → (s'.tasks u).deadline.treeId < s'.deadline.nextEnqueueId := by
    intro u hu
    rw [hs.tasks, hnext]
    rcases (hs.inTrees u).1 hu with rfl | hu
    · rw [alloc_tasks, if_pos rfl]
      exact Nat.lt_succ_self _
    · exact ha.fresh u hu
  have hids : ∀ u v, InTrees s' u → InTrees s' v → (s'.tasks u).deadline.treeId = (s'.tasks v).deadline.treeId →
      u = v := by
    intro u v hu hv he
    rw [hs.tasks, hs.tasks] at he
    rcases (hs.inTrees u).1 hu with rfl | hu' <;> rcases (hs.inTrees v).1 hv with rfl | hv'
    · rfl
    · exact absurd he.symm (Nat.ne_of_lt (hid v hv'))
    · exact absurd he (Nat.ne_of_lt (hid u hu'))
    · exact ha.ids u v hu' hv' he
  cases hs with
  | ready =>
    refine ⟨fun u hu => ?_, ha.ready.insert fun u hu hk => ?_, ha.throttled, hfresh, hids⟩
    · rcases mem_insertReady.1 hu with rfl | hu
      · exact fun hc => hn (.inr hc)
      · exact h.apart u hu
    · exact absurd (congrArg (fun x => (ofLex x).2) hk) (Nat.ne_of_lt (hid u (.inl hu)))
  | throttled =>
    refine ⟨fun u hu hc => ?_, ha.ready, ha.throttled.insert fun u hu hk => ?_, hfresh, hids⟩
    · rcases mem_insertThrottled.1 hc with rfl | hc
      · exact hn (.inl hu)
      · exact h.apart u hu hc
    · exact absurd (congrArg (fun x => (ofLex x).2) hk) (Nat.ne_of_lt (hid u (.inr hu)))

theorem alloc_seat (s : Scheduler) (t u : TaskId) : (((allocEnqueueId s t).setSeat t .deadline).tasks u).seat =
    if u = t then .deadline else (s.tasks u).seat := by
  rw [alloc_tasks]
  split <;> rfl

theorem Joins.ok (hs : Joins t s s') (h : DlOk s) (hn : (s.tasks t).seat ≠ .deadline) : DlOk s' := by
  refine ⟨hs.trees h.toDlTrees fun hc => hn ((h.mem t).1 hc), fun u => ?_⟩
  rw [hs.inTrees, hs.tasks, alloc_seat, h.mem]
  split
  · rename_i hu
    exact iff_of_true (.inl hu) rfl
  · rename_i hu
    exact or_iff_right hu

theorem Joins.touch (hs : Joins t s s') (h : MayJoin .deadline s t) : Touch .deadline s s' := by
  have h1 : Touch .deadline s (allocEnqueueId s t) := (Touch.modifyDeadline s t _).trans (.setDeadline _ _)
  have hseat : ((allocEnqueueId s t).tasks t).seat = (s.tasks t).seat :=
    s.modify_field t (fun x => { x with deadline := { x.deadline with treeId := s.deadline.nextEnqueueId } })
      (fun _ => rfl) t
  have hj := h.touch h1 hseat
  have h2 := h1.trans (.setSeat hj.seat (.inr ⟨rfl, hj.schedClass, hj.curr⟩))
  cases hs <;> exact h2.trans (.setDeadline _ _)

/-! ## Leaving a tree -/

/-- The trees without the task. -/
def dropTrees (s : Scheduler) (t : TaskId) : Scheduler :=
  { s with deadline := { s.deadline with
    ready := s.deadline.ready.erase t
    throttled := s.deadline.throttled.erase t } }.setSeat t .detached

theorem dropTrees_seat (s : Scheduler) (t u : TaskId) :
    ((dropTrees s t).tasks u).seat = if u = t then .detached else (s.tasks u).seat :=
  Scheduler.modify_set _ t (fun x => { x with seat := .detached }) (fun _ => rfl) u

theorem dropTrees_deadline (s : Scheduler) (t u : TaskId) : ((dropTrees s t).tasks u).deadline = (s.tasks u).deadline :=
  Scheduler.modify_field _ t (fun x => { x with seat := .detached }) (fun _ => rfl) u

theorem DlOk.drop (h : DlOk s) (t : TaskId) : DlOk (dropTrees s t) := by
  have hr : ∀ u, u ∈ (dropTrees s t).deadline.ready ↔ u ≠ t ∧ u ∈ s.deadline.ready := fun u => h.ready.mem_erase
  have ht : ∀ u, u ∈ (dropTrees s t).deadline.throttled ↔ u ≠ t ∧ u ∈ s.deadline.throttled :=
    fun u => h.throttled.mem_erase
  have hin : ∀ u, InTrees (dropTrees s t) u ↔ u ≠ t ∧ InTrees s u := fun u => by
    unfold InTrees
    rw [hr, ht, and_or_left]
  refine ⟨h.toDlTrees.mono erase_sublist erase_sublist le_rfl fun u _ => ?_, fun u => ?_⟩
  · rw [dropTrees_deadline]
    exact ⟨rfl, rfl, rfl⟩
  · rw [hin, dropTrees_seat, h.mem]
    split
    · rename_i hu
      exact iff_of_false (fun hc => hc.1 hu) nofun
    · rename_i hu
      exact and_iff_right hu

theorem touch_drop (h : (s.tasks t).seat = .detached ∨ (s.tasks t).seat = .deadline) :
    Touch .deadline s (dropTrees s t) :=
  (Touch.setDeadline s _).trans (.setSeat h (.inl rfl))

/-- `dequeue` finds a task by its seat, in whichever tree it is. -/
theorem DlOk.dequeue (h : DlOk s) (t : TaskId) :
    dequeue s t = if (s.tasks t).seat = .deadline then (some t, dropTrees s t) else (none, s) := by
  unfold DeadlineClass.dequeue
  by_cases hs : (s.tasks t).seat = .deadline
  swap
  · rw [if_pos hs, if_neg hs]
  rw [if_neg (not_not.2 hs), if_pos hs]
  rcases (h.mem t).2 hs with hm | hm
  · have hnone : Index.find (throttledKey s) (throttledKey s t) s.deadline.throttled = none := by
      rw [Option.eq_none_iff_forall_ne_some]
      intro r hr
      obtain ⟨hmr, hk⟩ := Index.find_mem hr
      have hid := h.ids r t (.inr hmr) (.inl hm) (congrArg (fun x => (ofLex x).2) hk)
      exact h.apart t hm (hid ▸ hmr)
    rw [hnone, h.ready.find_key hm]
    simp only [dropTrees, erase_of_not_mem (h.apart t hm)]
  · have hnr : t ∉ s.deadline.ready := fun hc => h.apart t hc hm
    rw [h.throttled.find_key hm]
    simp only [dropTrees, erase_of_not_mem hnr]

theorem DlOk.pickNext (h : DlOk s) : pickNext s = match s.deadline.ready with
    | [] => (none, s)
    | t :: _ => (some t, noteRunner (dropTrees s t) t) := by
  unfold DeadlineClass.pickNext
  cases hr : s.deadline.ready with
  | nil => rfl
  | cons t =>
    have hm : t ∈ s.deadline.ready := by
      rw [hr]
      exact mem_cons_self
    have hf := h.ready.find_key hm
    rw [hr] at hf
    simp only [hf, dropTrees, erase_of_not_mem (h.apart t hm), hr]

theorem DlOk.pickNext_none (h : DlOk s) (he : DeadlineClass.pickNext s = (none, s')) : s' = s := by
  rw [h.pickNext] at he
  split at he <;> cases he
  rfl

theorem DlOk.pickNext_some (h : DlOk s) (he : DeadlineClass.pickNext s = (some t, s')) :
    t ∈ s.deadline.ready ∧ s' = noteRunner (dropTrees s t) t := by
  rw [h.pickNext] at he
  split at he <;> cases he
  rename_i hr
  rw [hr]
  exact ⟨mem_cons_self, rfl⟩

/-! ## The start of a period -/

/-- The next period of a throttled task has started. -/
def Due (s : Scheduler) (t : TaskId) : Prop :=
  t ∈ s.deadline.throttled ∧ (s.tasks t).deadline.periodStartNs ≤ s.clock.nowNs

/-- Every throttled task whose period has started gets a new request and is ready; nothing else changes. -/
structure Advanced (s s' : Scheduler) : Prop where
  ok : DlOk s'
  touch : Touch .deadline s s'
  seat : ∀ t, (s'.tasks t).seat = (s.tasks t).seat
  ready : ∀ t, t ∈ s'.deadline.ready ↔ t ∈ s.deadline.ready ∨ Due s t
  throttled : ∀ t, t ∈ s'.deadline.throttled ↔ t ∈ s.deadline.throttled ∧ ¬ Due s t
  due : ∀ t, Due s t → ∃ p, params s t = some p ∧ (s'.tasks t).deadline.budgetLeftNs = p.runtimeNs ∧
    (s'.tasks t).deadline.isThrottled = false
  kept : ∀ t, ¬ Due s t → (s'.tasks t).deadline = (s.tasks t).deadline
  running : s'.deadline.running = s.deadline.running

theorem Advanced.refl (h : DlOk s) (hn : ∀ t, ¬ Due s t) : Advanced s s :=
  ⟨h, .refl _ s, fun _ => rfl, fun t => (or_iff_left (hn t)).symm, fun t => (and_iff_left (hn t)).symm,
    fun t hd => absurd hd (hn t), fun _ _ => rfl, rfl⟩

/-- One turn of the loop: `t` is the first of the throttled tasks. -/
theorem Advanced.cons {rest : List TaskId} (h : DlOk s) (hl : s.deadline.throttled = t :: rest) {p : DlParams}
    (hj : MayJoin .deadline s t)
    (hf : ∀ e, (f e).budgetLeftNs = p.runtimeNs ∧ (f e).isThrottled = false)
    (hs : s' = insertReady
      (({ s with deadline := { s.deadline with throttled := rest } } : Scheduler).modifyDeadline t f) t) :
    DlOk s' ∧ Touch .deadline s s' ∧ s'.deadline.throttled = rest ∧ s'.deadline.running = s.deadline.running ∧
      (∀ u, u ∈ s'.deadline.ready ↔ u = t ∨ u ∈ s.deadline.ready) ∧ (∀ u, u ≠ t → s'.tasks u = s.tasks u) ∧
      (s'.tasks t).seat = .deadline ∧
      (s'.tasks t).deadline.budgetLeftNs = p.runtimeNs ∧ (s'.tasks t).deadline.isThrottled = false := by
  have hmem : t ∈ s.deadline.throttled := by
    rw [hl]
    exact mem_cons_self
  have hother : ∀ u, u ≠ t → s'.tasks u = s.tasks u := by
    intro u hu
    rw [hs, Joins.ready.tasks, alloc_tasks, if_neg hu, modifyDeadline_of_ne hu]
  -- the task leaves one tree and joins the other
  have hdrop : s' = insertReady ((dropTrees s t).modifyDeadline t f) t := by
    have herase : dropTrees s t =
        ({ s with deadline := { s.deadline with throttled := rest } } : Scheduler).setSeat t .detached := by
      rw [dropTrees, erase_of_not_mem fun hc => h.apart t hc hmem, hl, erase_cons_head]
    rw [hs, herase]
    simp only [insertReady, allocEnqueueId, Scheduler.setSeat, Scheduler.modifyDeadline, Scheduler.modify, update_idem,
      update_self]
  have hseat : ((dropTrees s t).modifyDeadline t f).seats t = .detached := by
    rw [Scheduler.seats_modifyDeadline]
    exact (dropTrees_seat s t t).trans (if_pos rfl)
  refine ⟨?_, ?_, by rw [hs]; rfl, by rw [hs]; rfl, fun u => ?_, hother, ?_, ?_, ?_⟩
  · rw [hdrop]
    refine Joins.ready.ok ((h.drop t).modify ?_) ?_
    · rw [dropTrees_seat, if_pos rfl]
      rintro ⟨⟩
    · rw [← Scheduler.seats, hseat]
      rintro ⟨⟩
  · have h2 := (touch_drop (.inr ((h.mem t).1 (.inr hmem)))).trans (.modifyDeadline (dropTrees s t) t f)
    rw [hdrop]
    exact h2.trans (Joins.ready.touch ⟨.inl hseat, (h2.schedClass t).trans hj.schedClass, h2.curr ▸ hj.curr⟩)
  · rw [hs, mem_insertReady]
    rfl
  all_goals rw [hs, Joins.ready.tasks, alloc_tasks, if_pos rfl]
  · simp only [modifyDeadline_self, (hf _).1]
  · simp only [modifyDeadline_self, (hf _).2]

theorem advanceLoop_advanced (l : List TaskId) (h : DlOk s) (hl : s.deadline.throttled = l)
    (hj : ∀ t ∈ l, (∃ p, params s t = some p) ∧ MayJoin .deadline s t) : Advanced s (advanceLoop l s) := by
  induction l generalizing s with
  | nil =>
    refine .refl h fun t hd => ?_
    rw [Due, hl] at hd
    exact not_mem_nil hd.1
  | cons t rest ih =>
    unfold advanceLoop
    split
    swap
    · -- the others start later
      rename_i hnow
      refine .refl h fun u hd => ?_
      rw [Due, hl, mem_cons] at hd
      rcases hd with ⟨rfl | hu, hle⟩
      · exact hnow hle
      · have hs := h.throttled
        rw [hl] at hs
        have hlt := (pairwise_cons.1 hs).1 u hu
        rw [throttledKey, throttledKey, Prod.Lex.toLex_lt_toLex] at hlt
        omega
    · rename_i hnow
      obtain ⟨⟨p, hp⟩, hjt⟩ := hj t mem_cons_self
      simp only
      have hp' : params ({ s with deadline := { s.deadline with throttled := rest } } : Scheduler) t = some p := hp
      rw [hp']
      simp only
      generalize hs3 : insertReady _ t = s3
      obtain ⟨hok, htouch, hthr, hrun, hready, hother, hseat, hbudget, hflag⟩ :=
        Advanced.cons h hl hjt (fun _ => ⟨rfl, rfl⟩) hs3.symm
      have hnodup := h.throttled.nodup
      rw [hl] at hnodup
      obtain ⟨hrest, -⟩ := nodup_cons.1 hnodup
      have hne : ∀ u ∈ rest, u ≠ t := fun u hu he => hrest (he ▸ hu)
      have A := ih hok hthr fun u hu => by
        obtain ⟨⟨q, hq⟩, hju⟩ := hj u (mem_cons_of_mem _ hu)
        refine ⟨⟨q, ?_⟩, hju.touch htouch ?_⟩
        · rw [params, hother u (hne u hu)]
          exact hq
        · rw [hother u (hne u hu)]
      have hdue : ∀ u, Due s3 u ↔ Due s u ∧ u ≠ t := by
        intro u
        unfold Due
        rw [hthr, hl, htouch.clock, mem_cons]
        by_cases hu : u = t
        · rw [hu]
          exact iff_of_false (fun hc => hrest hc.1) fun hc => hc.2 rfl
        · rw [hother u hu]
          simp only [hu, false_or, ne_eq, not_false_eq_true, and_true]
      have hduet : Due s t := ⟨by rw [hl]; exact mem_cons_self, hnow⟩
      have hseats : ∀ u, (s3.tasks u).seat = (s.tasks u).seat := by
        intro u
        by_cases hu : u = t
        · rw [hu, hseat]
          exact ((h.mem t).1 (.inr hduet.1)).symm
        · rw [hother u hu]
      refine ⟨A.ok, htouch.trans A.touch, fun u => (A.seat u).trans (hseats u), fun u => ?_, fun u => ?_,
        fun u hu => ?_, fun u hu => ?_, A.running.trans hrun⟩
      · rw [A.ready, hready, hdue]
        by_cases hu : u = t
        · rw [hu]
          exact iff_of_true (.inl (.inl rfl)) (.inr hduet)
        · simp only [hu, false_or, ne_eq, not_false_eq_true, and_true]
      · rw [A.throttled, hthr, hdue, hl, mem_cons]
        by_cases hu : u = t
        · rw [hu]
          exact iff_of_false (fun hc => hrest hc.1) fun hc => hc.2 hduet
        · simp only [hu, false_or, ne_eq, not_false_eq_true, and_true]
      · by_cases hut : u = t
        · rw [hut]
          refine ⟨p, hp, ?_, ?_⟩
          · rw [A.kept t fun hc => ((hdue t).1 hc).2 rfl]
            exact hbudget
          · rw [A.kept t fun hc => ((hdue t).1 hc).2 rfl]
            exact hflag
        · obtain ⟨q, hq, hb⟩ := A.due u ((hdue u).2 ⟨hu, hut⟩)
          refine ⟨q, ?_, hb⟩
          rw [params, hother u hut] at hq
          exact hq
      · have hut : u ≠ t := fun hc => hu (hc ▸ hduet)
        rw [A.kept u fun hc => hu ((hdue u).1 hc).1, hother u hut]

/-! ## Class operations -/

theorem acts_modifyDeadline (h : ClassOk s .deadline) (hf : s.seats t = .deadline → KeepsKeys f) :
    Acts .deadline s (s.modifyDeadline t f) s.seats :=
  ⟨.modifyDeadline s t f, DlOk.modify h hf, s.seats_modifyDeadline t f⟩

theorem acts_setRunning (h : ClassOk s .deadline) (r : Option DeadlineRunner) :
    Acts .deadline s { s with deadline := { s.deadline with running := r } } s.seats :=
  ⟨.setDeadline s _, DlOk.setRunning h r, rfl⟩

variable {s₁ : Scheduler}

/-- A task that was prepared joins a tree. -/
theorem Acts.joins (h : Acts .deadline s s₁ s.seats) (hj : MayJoin .deadline s t)
    (hs : s.seats t = .detached) (hs' : Joins t s₁ s') : Acts .deadline s s' (update s.seats t .deadline) := by
  have hseat : s₁.seats t = s.seats t := congrFun h.seats t
  refine ⟨h.touch.trans (hs'.touch (hj.touch h.touch hseat)), hs'.ok h.ok ?_, ?_⟩
  · rw [← Scheduler.seats, hseat, hs]
    nofun
  · rw [← h.seats]
    funext u
    rw [update_apply, Scheduler.seats, hs'.tasks]
    exact alloc_seat s₁ t u

/-- The entity after an interval of `elapsedNs`; a budget that ends in the interval marks it. -/
def spent (elapsedNs : Nat) (e : DeadlineEntity) : DeadlineEntity :=
  { e with
    budgetLeftNs := e.budgetLeftNs - elapsedNs
    isThrottled := e.isThrottled || decide (0 < e.budgetLeftNs ∧ e.budgetLeftNs ≤ elapsedNs) }

theorem account_eq (s : Scheduler) (t : TaskId) (elapsedNs : Nat) : account s t elapsedNs =
    (s.modifyDeadline t (spent elapsedNs),
      decide (0 < (s.tasks t).deadline.budgetLeftNs ∧ (s.tasks t).deadline.budgetLeftNs ≤ elapsedNs)) := by
  have hkeep (e : DeadlineEntity) (h : elapsedNs = 0 ∨ e.budgetLeftNs = 0) : spent elapsedNs e = e := by
    rw [spent, show e.budgetLeftNs - elapsedNs = e.budgetLeftNs by omega, decide_eq_false (by omega), Bool.or_false]
  simp only [account, Scheduler.modifyDeadline]
  split_ifs with he hb hl
  · rw [s.modify_eq_self t _ (by rw [hkeep _ (.inl he)])]
    simp [he]
    omega
  · rw [s.modify_eq_self t _ (by rw [hkeep _ (.inr hb)])]
    simp [hb]
  · simp [spent, Scheduler.modify, hl, Nat.pos_of_ne_zero hb, Nat.sub_eq_zero_iff_le.1 hl]
  · simp [spent, Scheduler.modify, mt Nat.sub_eq_zero_of_le hl]

theorem replenish_acts (h : ClassOk s .deadline) (hs : s.seats t ≠ .deadline) (nowNs : Nat) :
    Acts .deadline s (replenish s t nowNs) s.seats := by
  unfold replenish
  split
  · exact .refl h
  · exact acts_modifyDeadline h fun hc => absurd hc hs

/-- A new task is replenished; of the others, only one that changes its class is ready without budget. -/
@[elab_as_elim]
theorem enqueue_cases {motive : Scheduler → Prop} (s : Scheduler) (t : TaskId) (kind : EnqueueKind)
    (new : motive (insertReady (replenish s t s.clock.nowNs) t))
    (ready : kind = .classChange ∨ 0 < (s.tasks t).deadline.budgetLeftNs → motive (insertReady s t))
    (throttled : (s.tasks t).deadline.budgetLeftNs = 0 →
      motive (insertThrottled (s.modifyDeadline t fun e => { e with isThrottled := true }) t)) :
    motive (enqueue s t kind) := by
  unfold enqueue
  extract_lets resume
  have hresume : motive (resume s) := by
    unfold resume
    split
    · exact throttled ‹_›
    · exact ready (.inr (Nat.pos_of_ne_zero ‹_›))
  cases kind with
  | new => exact new
  | classChange => exact ready (.inl rfl)
  | migrateIn | wake => exact hresume

theorem DeadlineClass.enqueue_acts (h : ClassOk s .deadline) (hj : MayJoin .deadline s t) (hs : s.seats t = .detached)
    (kind : EnqueueKind) : Acts .deadline s (enqueue s t kind) (update s.seats t .deadline) := by
  have hnot : s.seats t ≠ .deadline := by
    rw [hs]
    nofun
  refine enqueue_cases s t kind ?_ (fun _ => (Acts.refl h).joins hj hs .ready) fun _ => ?_
  · exact (replenish_acts h hnot _).joins hj hs .ready
  · exact (acts_modifyDeadline h fun hc => absurd hc hnot).joins hj hs .throttled

theorem acts_drop (h : ClassOk s .deadline) (hs : s.seats t = .deadline) :
    Acts .deadline s (dropTrees s t) (update s.seats t .detached) := by
  refine ⟨touch_drop (.inr hs), DlOk.drop h t, ?_⟩
  funext u
  rw [update_apply]
  exact dropTrees_seat s t u

variable {r : Option TaskId}

section

variable (h : ClassOk s .deadline)
include h

theorem DeadlineClass.dequeue_taken (he : dequeue s t = (r, s')) :
    Taken .deadline s s' r ∧ (r = none ∨ r = some t) := by
  rw [DlOk.dequeue h] at he
  split at he <;> cases he
  · exact ⟨⟨‹_›, acts_drop h ‹_›⟩, .inr rfl⟩
  · exact ⟨.refl h, .inl rfl⟩

theorem DeadlineClass.pickNext_taken (he : pickNext s = (r, s')) :
    Taken .deadline s s' r := by
  cases r with
  | none =>
    obtain rfl := DlOk.pickNext_none h he
    exact .refl h
  | some t =>
    obtain ⟨hm, rfl⟩ := DlOk.pickNext_some h he
    have hs := (DlOk.mem h t).1 (.inl hm)
    have hdrop := acts_drop h hs
    exact ⟨hs, hdrop.andThen (acts_setRunning hdrop.ok _)⟩

theorem DeadlineClass.setCurr_acts (hs : s.seats t = .detached) :
    Acts .deadline s (setCurr s t) s.seats := by
  unfold setCurr
  extract_lets s₁
  have h1 : Acts .deadline s s₁ s.seats := by
    unfold s₁
    split
    · exact .refl h
    · exact replenish_acts h (by rw [hs]; nofun) _
  have hdet : (noteRunner s₁ t).seats t = .detached := by
    show s₁.seats t = .detached
    rw [h1.seats, hs]
  rw [Scheduler.setSeat_eq_self _ _ hdet]
  exact h1.andThen (acts_setRunning h1.ok _)

omit h in
/-- A runner that can go on joins a tree, another one stays outside. -/
@[elab_as_elim]
theorem DeadlineClass.leave_cases {motive : Scheduler → Prop} (s : Scheduler) (t : TaskId) (reason : LeaveReason)
    (back : reason = .yield ∨ reason = .preempt → ∀ s', Joins t (clearRunner s) s' → motive s')
    (out : ¬ (reason = .yield ∨ reason = .preempt) → motive ((clearRunner s).setSeat t .detached))
    (exit : ¬ (reason = .yield ∨ reason = .preempt) → motive
      (((clearRunner s).modifyDeadline t fun e =>
        { e with isActive := false, isThrottled := false }).setSeat t .detached)) :
    motive (putPrev s t reason) := by
  cases reason with
  | yield | preempt =>
    unfold putPrev
    simp only
    split
    · exact back (by simp) _ .throttled
    · exact back (by simp) _ .ready
  | block | migrate => exact out (by simp)
  | exit => exact exit (by simp)

theorem DeadlineClass.putPrev_acts (hj : MayJoin .deadline s t) (hs : s.seats t = .detached)
    (reason : LeaveReason) : Acts .deadline s (putPrev s t reason)
      (if reason = .yield ∨ reason = .preempt then update s.seats t .deadline else s.seats) := by
  have h1 : Acts .deadline s (clearRunner s) s.seats := acts_setRunning h none
  refine leave_cases s t reason (fun hr s' hjoin => ?_) (fun hr => ?_) fun hr => ?_
  · rw [if_pos hr]
    exact h1.joins hj hs hjoin
  · rw [if_neg hr, Scheduler.setSeat_eq_self _ _ (show (clearRunner s).seats t = .detached from hs)]
    exact h1
  · rw [if_neg hr, Scheduler.setSeat_eq_self _ _ (by rw [Scheduler.seats_modifyDeadline]; exact hs)]
    exact h1.trans (acts_modifyDeadline h1.ok fun _ _ => ⟨rfl, rfl, rfl⟩)

theorem DeadlineClass.account_acts (t : TaskId) (elapsedNs : Nat) :
    Acts .deadline s (account s t elapsedNs).1 s.seats := by
  rw [account_eq]
  exact acts_modifyDeadline h fun _ _ => ⟨rfl, rfl, rfl⟩

theorem DeadlineClass.attrChanged_acts (t : TaskId) (isCurr : Bool) :
    Acts .deadline s (attrChanged s t isCurr) s.seats := by
  unfold attrChanged
  extract_lets s₁
  have h1 : Acts .deadline s s₁ s.seats := acts_modifyDeadline h fun _ _ => ⟨rfl, rfl, rfl⟩
  split
  · exact h1.andThen (acts_setRunning h1.ok _)
  · exact h1

theorem DeadlineClass.switchedFrom_acts (t : TaskId) (isCurr : Bool) :
    Acts .deadline s (switchedFrom s t isCurr) s.seats := by
  unfold switchedFrom
  extract_lets s₁
  have h1 : Acts .deadline s s₁ s.seats := by
    unfold s₁
    split
    · exact acts_setRunning h none
    · exact .refl h
  exact h1.andThen (acts_modifyDeadline h1.ok fun _ _ => ⟨rfl, rfl, rfl⟩)

theorem DeadlineClass.switchedTo_acts (hs : s.seats t = .detached) (isCurr : Bool) :
    Acts .deadline s (switchedTo s t isCurr) s.seats := by
  unfold switchedTo
  extract_lets s₁
  have h1 : Acts .deadline s s₁ s.seats := replenish_acts h (by rw [hs]; nofun) _
  split
  · exact h1.andThen (acts_setRunning h1.ok _)
  · exact h1

end

end XKernel.Sched
