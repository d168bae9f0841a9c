import XKernel.Sched.SchedulerQueues
/-!
# The next task and new attributes

Taking the next task, and changing the attributes or the class of a task wherever it is,
keep what `Seated` says of the seats and the queues.
-/

namespace XKernel.Sched

open Lib Function List Option

variable {k : Kconfig} {s s' : Scheduler} {t u : TaskId} {nowNs : Nat}

/-! ## The next task -/

/-- The seats after a task was taken, or none. -/
def takeSeat (s : Scheduler) : Option TaskId → TaskId → QueueSeat
  | none => s.seats
  | some t => Function.update s.seats t .detached

theorem Taken.seats_eq {c : SchedClass} {r : Option TaskId} (h : Taken c s s' r) : s'.seats = takeSeat s r := by
  cases r with
  | none => exact Acts.seats h
  | some => exact h.2.seats

theorem takeSeat_congr (h : s'.seats = s.seats) (r : Option TaskId) : takeSeat s' r = takeSeat s r := by
  cases r with
  | none => exact h
  | some t => exact congrArg (update · t .detached) h

def classPickNext (s : Scheduler) : SchedClass → Option (Option TaskId × Scheduler)
  | .stop => some (StopClass.pickNext s)
  | .deadline => some (DeadlineClass.pickNext s)
  | .rt => some (RtClass.pickNext s)
  | .fair => FairClass.pickNext s
  | .idle => some (some s.idle, s)

section

variable (h : Seated k s)
include h

theorem Taken.run {c : SchedClass} (ht : Taken c s s' (some t)) (hstop : c = .stop → s'.stop = none) :
    Seated k { s' with curr := some t } := by
  refine (ht.seated h fun hc => .inr (hstop hc)).setCurr ?_ fun hc => hstop ?_
  · rw [ht.seats_eq, takeSeat, update_self]
  · rw [ht.2.touch.schedClass, h.schedClass ht.1] at hc
    exact hc

/-- A class gives the task that has waited longest in its order; Idle gives a task that is in no queue. -/
theorem classPickNext_taken {c : SchedClass} {r : Option TaskId} (he : classPickNext s c = some (r, s')) :
    Seated k s' ∧ (Taken c s s' r ∧ (r.isSome → c = .stop → s'.stop = none) ∨ c = .idle ∧ r = some s.idle ∧
      s' = s) := by
  cases c with
  | stop =>
    have he := some.inj he
    unfold StopClass.pickNext at he
    split at he <;> cases he
    · have ht : Taken .stop s _ (some _) := popWaiter_acts h ‹_›
      exact ⟨ht.seated h fun _ => .inr rfl, .inl ⟨ht, fun _ _ => rfl⟩⟩
    · exact ⟨h, .inl ⟨.refl (h.queue .stop), nofun⟩⟩
  | deadline =>
    have ht := DeadlineClass.pickNext_taken (h.queue .deadline) (some.inj he)
    exact ⟨ht.seated h nofun, .inl ⟨ht, nofun⟩⟩
  | rt =>
    have ht := RtClass.pickNext_taken (h.queue .rt) h.prio_inRange (some.inj he)
    exact ⟨ht.seated h nofun, .inl ⟨ht, nofun⟩⟩
  | fair =>
    have ht := FairClass.pickNext_taken (h.queue .fair) he
    exact ⟨ht.seated h nofun, .inl ⟨ht, nofun⟩⟩
  | idle =>
    cases he
    exact ⟨h, .inr ⟨rfl, rfl, rfl⟩⟩

/-- The picked task runs, and is in no queue any more. -/
theorem classPickNext_run {c : SchedClass} (he : classPickNext s c = some (some t, s')) :
    Seated k { s' with curr := some t } ∧ s'.seats = takeSeat s (some t) := by
  obtain ⟨h', ⟨ht, hstop⟩ | ⟨rfl, hr, rfl⟩⟩ := classPickNext_taken h he
  · exact ⟨ht.run h (hstop rfl), ht.seats_eq⟩
  · cases hr
    have hdet : s'.seats s'.idle = .detached := h.idle_detached h.idle
    refine ⟨h.setCurr hdet fun hc => ?_, ?_⟩
    · rw [h.idle] at hc
      cases hc
    · rw [takeSeat, ← hdet, update_eq_self]

end

/-! ## Attributes -/

/-- The change of a task keeps what the queues look at, except for the priority. -/
structure Retags (f : SchedTask → SchedTask) : Prop where
  seat : ∀ x, (f x).seat = x.seat
  deadline : ∀ x, (f x).deadline = x.deadline
  vruntime : ∀ x, (f x).fair.vruntime = x.fair.vruntime
  virtualDeadline : ∀ x, (f x).fair.deadline = x.fair.deadline
  treeId : ∀ x, (f x).fair.treeId = x.fair.treeId

namespace Retags

variable {f : SchedTask → SchedTask}

theorem setAttr (attr : SchedAttr) : Retags fun x => x.setAttr attr :=
  ⟨fun _ => rfl, fun _ => rfl, fun _ => rfl, fun _ => rfl, fun _ => rfl⟩

theorem switch (attr : SchedAttr) (c : SchedClass) : Retags fun x => { x.setAttr attr with schedClass := c } :=
  ⟨fun _ => rfl, fun _ => rfl, fun _ => rfl, fun _ => rfl, fun _ => rfl⟩

theorem seats (hf : Retags f) (s : Scheduler) (t : TaskId) : (s.modify t f).seats = s.seats :=
  funext (s.modify_field t f hf.seat)

theorem rtOk (hf : Retags f) {prio : TaskId → Nat} (h : RtOk s prio) (t : TaskId) : RtOk (s.modify t f) prio := by
  refine ⟨fun i u => ?_, h.nodup, h.occupied, h.queued⟩
  rw [s.modify_field t f hf.seat u]
  exact h.mem i u

theorem classOk (hf : Retags f) {c : SchedClass} (h : ClassOk s c) (t : TaskId) (hc : c = .rt → s.seats t ≠ .rt) :
    ClassOk (s.modify t f) c := by
  have hseat := s.modify_field t f hf.seat
  have hdl := s.modify_field t f hf.deadline
  cases c with
  | stop | idle =>
    intro u
    rw [hseat]
    exact h u
  | deadline =>
    refine ⟨⟨h.apart, h.ready.congr fun u _ => ?_, h.throttled.congr fun u _ => ?_, fun u hu => ?_,
      fun u v hu hv hid => ?_⟩, fun u => ?_⟩
    · simp only [DeadlineClass.readyKey, hdl]
    · simp only [DeadlineClass.throttledKey, hdl]
    · rw [hdl]
      exact h.fresh u hu
    · rw [hdl, hdl] at hid
      exact h.ids u v hu hv hid
    · rw [hseat]
      exact h.mem u
  | rt =>
    refine (hf.rtOk h t).reprio fun u hu => ?_
    have hut : u ≠ t := by
      rintro rfl
      rw [hf.seats] at hu
      exact hc rfl hu
    rw [Scheduler.prio, Scheduler.modify_of_ne hut]
    rfl
  | fair =>
    have hvr := s.modify_field t f (g := fun x => x.fair.vruntime) hf.vruntime
    have hvd := s.modify_field t f (g := fun x => x.fair.deadline) hf.virtualDeadline
    have hid := s.modify_field t f (g := fun x => x.fair.treeId) hf.treeId
    refine ⟨fun u => ?_, fun u => ?_, h.ready.congr fun u _ => ?_, h.vruntime.congr fun u _ => ?_, fun u hu => ?_⟩
    · rw [hseat]
      exact h.mem u
    · rw [hseat]
      exact h.vmem u
    · simp only [FairClass.deadlineKey, hvd, hid]
    · simp only [FairClass.vruntimeKey, hvr, hid]
    · rw [hseat] at hu
      rw [hid]
      exact h.fresh u hu

/-- The seats after the attributes of a task have changed. -/
theorem placed (hf : Retags f) (h : Placed k s) (hseat : s.seats t = .detached ∨ ∀ x, (f x).schedClass = x.schedClass)
    (hattr : AttrOk k (f (s.tasks t))) (hstop : (f (s.tasks t)).schedClass ≠ .stop) (hidle : s.idle ≠ t) :
    Placed k (s.modify t f) := by
  have hother : ∀ u, u ≠ t → (s.modify t f).tasks u = s.tasks u := fun u hu => by rw [Scheduler.modify_of_ne hu]
  have hself : (s.modify t f).tasks t = f (s.tasks t) := by rw [Scheduler.modify_self]
  refine ⟨fun u hu => ?_, fun u => ?_, fun u hu => ?_, fun u hu hc => ?_, ?_⟩
  · by_cases hut : u = t
    · subst hut
      rw [hself, hf.seat] at hu ⊢
      rcases hseat with hs | hcls
      · exact absurd hs hu
      · rw [hcls]
        exact h.seat u hu
    · rw [hother u hut] at hu ⊢
      exact h.seat u hu
  · by_cases hut : u = t
    · rw [hut, hself]
      exact hattr
    · rw [hother u hut]
      exact h.attr u
  · exact (congrFun (hf.seats s t) u).trans (h.curr u hu)
  · by_cases hut : u = t
    · subst hut
      rw [hself] at hc
      exact absurd hc hstop
    · rw [hother u hut] at hc
      exact h.stop u hu hc
  · show ((s.modify t f).tasks s.idle).schedClass = .idle
    rw [hother _ hidle]
    exact h.idle

end Retags

theorem schedClass_ne_stop (p : SchedPolicy) : p.schedClass ≠ .stop := by cases p <;> nofun

theorem Seated.idle_ne (h : Seated k s) (hk : (s.tasks t).schedClass.isKernelOnly = false) : s.idle ≠ t := by
  intro he
  have := h.idle
  rw [he] at this
  rw [this] at hk
  cases hk

/-- `set_attr` moves the task unless it runs or waits nowhere. -/
theorem Seated.detached_of_not_queued {isCurr : Bool} (h : Seated k s) (hcurr : isCurr = true ↔ s.curr = some t)
    (hn : ¬ ((!isCurr) = true ∧ (s.tasks t).seat ≠ .detached)) : s.seats t = .detached := by
  by_cases hc : s.curr = some t
  · exact h.curr t hc
  · by_contra hq
    refine hn ⟨?_, hq⟩
    rw [Bool.not_eq_true', ← Bool.not_eq_true]
    exact fun hb => hc (hcurr.1 hb)

section attr

variable {attr : SchedAttr} {isCurr : Bool}

/-- The queues while the task has its new attributes but is still where the old ones put it. -/
theorem Seated.setAttr_queue (h : Seated k s) (hcls : (s.tasks t).schedClass = attr.schedClass) {c : SchedClass}
    (hne : c ≠ .rt ∨ attr.schedClass ≠ .rt) : ClassOk (s.modify t fun x => x.setAttr attr) c := by
  refine (Retags.setAttr attr).classOk (h.queue c) t fun hc hs => ?_
  rcases hne with hne | hne
  · exact hne hc
  · exact hne (hcls.symm.trans (h.schedClass hs))

theorem classAttrChanged_acts (h : Seated k s) (hcls : (s.tasks t).schedClass = attr.schedClass)
    (hcurr : isCurr = true ↔ s.curr = some t)
    (he : (s.modify t fun x => x.setAttr attr).classAttrChanged t (s.tasks t).attr isCurr attr.schedClass = some s') :
    Acts attr.schedClass (s.modify t fun x => x.setAttr attr) s' s.seats := by
  have hf := Retags.setAttr attr
  have hseats := hf.seats s t
  have hcls1 : ((s.modify t fun x => x.setAttr attr).tasks t).schedClass = attr.schedClass := by
    rw [Scheduler.modify_self]
    exact hcls
  have hrun : s.curr = some t → (s.modify t fun x => x.setAttr attr).seats t = .detached := fun hc => by
    rw [hseats]
    exact h.curr t hc
  have hprio : ∀ u, u ≠ t → s.prio u = (s.modify t fun x => x.setAttr attr).prio u := fun u hu => by
    rw [Scheduler.prio, Scheduler.prio, Scheduler.modify_of_ne hu]
  have hq : ∀ c, (c ≠ .rt ∨ attr.schedClass ≠ .rt) → ClassOk (s.modify t fun x => x.setAttr attr) c := fun _ =>
    h.setAttr_queue hcls
  rw [← hseats]
  cases hc : attr.schedClass with
  | stop => exact absurd hc (schedClass_ne_stop _)
  | idle =>
    unfold SchedAttr.schedClass SchedPolicy.schedClass at hc
    split at hc <;> cases hc
  | deadline =>
    rw [hc] at he
    cases he
    exact DeadlineClass.attrChanged_acts (hq .deadline (.inl (by decide))) t isCurr
  | rt =>
    rw [hc] at he hcls1
    refine RtClass.attrChanged_acts (hf.rtOk (h.queue .rt) t) hprio rfl
      (fun hs => h.prio_inRange t ?_) hcls1 hcurr hrun he
    rw [← hseats]
    exact hs
  | fair =>
    rw [hc] at he hcls1
    exact FairClass.attrChanged_acts (hq .fair (.inl (by decide))) hcls1 hcurr hrun he

theorem attrChanged_seated (h : Seated k s) (hv : attr.validate k = .ok ())
    (hk : (s.tasks t).schedClass.isKernelOnly = false) (hcurr : isCurr = true ↔ s.curr = some t)
    (hsame : (s.tasks t).attr.schedClass = attr.schedClass)
    (he : (s.modify t fun x => x.setAttr attr).classAttrChanged t (s.tasks t).attr isCurr attr.schedClass = some s') :
    Seated k s' ∧ s'.curr = s.curr ∧ s'.seats = s.seats := by
  have hcls : (s.tasks t).schedClass = attr.schedClass := (h.user hk).1.trans hsame
  have hp : Placed k (s.modify t fun x => x.setAttr attr) := by
    refine (Retags.setAttr attr).placed h.toPlaced (.inr fun _ => rfl) (.inr ⟨hcls, hv⟩) ?_ (h.idle_ne hk)
    show (s.tasks t).schedClass ≠ .stop
    rw [hcls]
    exact schedClass_ne_stop _
  have ha := classAttrChanged_acts h hcls hcurr he
  refine ⟨hp.touch (fun c' hne => h.setAttr_queue hcls ?_) ha.touch ha.ok fun hc => absurd hc (schedClass_ne_stop _),
    ha.touch.curr, ha.seats⟩
  by_cases hrt : attr.schedClass = .rt
  · exact .inl fun hc => hne (hc.trans hrt.symm)
  · exact .inr hrt

end attr

section switch

variable {attr : SchedAttr} {isCurr : Bool}

/-- The task with the attributes and the class of its new policy. -/
def reclass (s : Scheduler) (t : TaskId) (attr : SchedAttr) : Scheduler :=
  s.modify t fun x => { x.setAttr attr with schedClass := attr.schedClass }

/-- What `set_attr` does to a task that is in no queue when its class changes. -/
def switched (s : Scheduler) (t : TaskId) (attr : SchedAttr) (isCurr : Bool) (old : SchedClass) : Scheduler :=
  (reclass (s.classSwitchedFrom t isCurr old) t attr).classSwitchedTo t isCurr attr.schedClass

theorem reclass_schedClass (s : Scheduler) (t : TaskId) (attr : SchedAttr) :
    ((reclass s t attr).tasks t).schedClass = attr.schedClass := by
  rw [reclass, Scheduler.modify_self]

/-- A queued task has left its queue, and gets another class in `s2` before it joins the queue of that one. -/
structure Unqueued (k : Kconfig) (s s1 s2 : Scheduler) (t : TaskId) (c : SchedClass) : Prop where
  seated : Seated k s1
  touch : Touch (s.tasks t).schedClass s s1
  detached : s1.seats t = .detached
  user : (s1.tasks t).schedClass.isKernelOnly = false
  switched : Seated k s2
  curr : s2.curr = s.curr
  seats : s2.seats = update s.seats t .detached
  seat : s2.seats t = .detached
  joins : MayJoin c s2 t

variable (h : Seated k s) (hv : attr.validate k = .ok ()) (hk : (s.tasks t).schedClass.isKernelOnly = false)
include h hv hk

theorem reclass_seated (hs : s.seats t = .detached) : Seated k (reclass s t attr) := by
  have hret := Retags.switch attr attr.schedClass
  exact ⟨hret.placed h.toPlaced (.inl hs) (.inr ⟨rfl, hv⟩) (schedClass_ne_stop _) (h.idle_ne hk), fun c =>
    hret.classOk (h.queue c) t fun _ => by rw [hs]; nofun⟩

/-- A task in no queue leaves its class and gets the attributes and the class of the new policy. -/
theorem reclassed_seated (hs : s.seats t = .detached) (isCurr : Bool) (old : SchedClass) {s1 : Scheduler}
    (he : s.classSwitchedFrom t isCurr old = s1) :
    Acts old s s1 s.seats ∧ Seated k s1 ∧ s1.seats t = .detached ∧ (s1.tasks t).schedClass.isKernelOnly = false ∧
      Seated k (switched s t attr isCurr old) ∧
      Acts attr.schedClass (reclass s1 t attr) (switched s t attr isCurr old) s.seats := by
  subst he
  obtain ⟨haf, hstopf⟩ := classSwitchedFrom_acts h hs isCurr old
  have hf := h.acts_of_stop haf hstopf
  have hsf := (congrFun haf.seats t).trans hs
  have hkf : ((s.classSwitchedFrom t isCurr old).tasks t).schedClass.isKernelOnly = false := by
    rw [haf.touch.schedClass]
    exact hk
  have h2 := reclass_seated hf hv hkf hsf
  have hseats2 := ((Retags.switch attr attr.schedClass).seats (s.classSwitchedFrom t isCurr old) t).trans haf.seats
  obtain ⟨ha, hstop⟩ := classSwitchedTo_acts h2 ((congrFun hseats2 t).trans hs) isCurr attr.schedClass
  exact ⟨haf, hf, hsf, hkf, h2.acts_of_stop ha hstop, hseats2 ▸ ha⟩

theorem switched_seated (hs : s.seats t = .detached) (isCurr : Bool) (old : SchedClass) :
    Seated k (switched s t attr isCurr old) ∧ (switched s t attr isCurr old).curr = s.curr ∧
      (switched s t attr isCurr old).seats = s.seats ∧
      ((switched s t attr isCurr old).tasks t).schedClass = attr.schedClass := by
  obtain ⟨haf, -, -, -, h', ha⟩ := reclassed_seated h hv hk hs isCurr old rfl
  exact ⟨h', ha.touch.curr.trans haf.touch.curr, ha.seats, (ha.touch.schedClass t).trans (reclass_schedClass _ t attr)⟩

theorem classDequeue_unqueued (hc : s.curr ≠ some t) (hd : s.classDequeue t (s.tasks t).schedClass = some (some t, s'))
    (isCurr : Bool) (old : SchedClass) :
    Unqueued k s s' (switched s' t attr isCurr old) t attr.schedClass := by
  obtain ⟨h1, ⟨-, ha⟩, -⟩ := classDequeue_seated h hd
  have hseat : update s.seats t .detached t = .detached := update_self ..
  have hdet := (congrFun ha.seats t).trans hseat
  have hk1 : (s'.tasks t).schedClass.isKernelOnly = false := by
    rw [ha.touch.schedClass]
    exact hk
  obtain ⟨h2, hc2, hs2, hcls⟩ := switched_seated h1 hv hk1 hdet isCurr old
  rw [ha.touch.curr] at hc2
  rw [ha.seats] at hs2
  have hdet2 := (congrFun hs2 t).trans hseat
  exact ⟨h1, ha.touch, hdet, hk1, h2, hc2, hs2, hdet2, .inl hdet2, hcls, hc2 ▸ hc⟩

/-- A queued task leaves its queue first and joins the one of its new class last. -/
theorem switchClass_cases (hcurr : isCurr = true ↔ s.curr = some t)
    (he : s.switchClass t attr isCurr = some s') :
    (s.seats t = .detached ∧ s' = switched s t attr isCurr (s.tasks t).schedClass) ∨
    (isCurr = false ∧ s.seats t ≠ .detached ∧ ∃ s1 s2, s.classDequeue t (s.tasks t).schedClass = some (some t, s1) ∧
      switched s1 t attr isCurr (s1.tasks t).schedClass = s2 ∧ Unqueued k s s1 s2 t attr.schedClass ∧
      s2.classEnqueue t .classChange attr.schedClass = some s') := by
  unfold Scheduler.switchClass at he
  rw [← (h.user hk).1] at he
  extract_lets old new wasQueued s? at he
  by_cases hq : (!isCurr) = true ∧ wasQueued
  · have hs? : s? = _ := if_pos hq
    have hfalse := (Bool.not_eq_true' isCurr).mp hq.1
    rw [hs?] at he
    split at he
    · cases he
    · rename_i s1 hs1
      split at hs1
      · rename_i u s2 hd
        cases hs1
        obtain ⟨-, -, hr⟩ := classDequeue_seated h hd
        obtain rfl : u = t := some.inj (hr.resolve_left (some_ne_none u))
        have hu := classDequeue_unqueued h hv hk (mt hcurr.2 (Bool.eq_false_iff.1 hfalse)) hd isCurr
          (s1.tasks u).schedClass
        refine .inr ⟨hfalse, hq.2, s1, _, hd, rfl, hu, ?_⟩
        rw [hu.touch.schedClass]
        exact (if_pos hq).symm.trans he
      · cases hs1
  · have hs? : s? = some s := if_neg hq
    rw [hs?] at he
    exact .inl ⟨h.detached_of_not_queued hcurr hq, some.inj (he.symm.trans (if_neg hq))⟩

/-- New attributes in another class: a queued task goes from one queue to the other. -/
theorem switchClass_seated (hcurr : isCurr = true ↔ s.curr = some t)
    (he : s.switchClass t attr isCurr = some s') :
    Seated k s' ∧ s'.curr = s.curr ∧
      s'.seats = if s.seats t = .detached then s.seats else update s.seats t (.fromSchedClass attr.schedClass) := by
  rcases switchClass_cases h hv hk hcurr he with ⟨hs, rfl⟩ | ⟨-, hne, s1, s2, -, -, hu, hput⟩
  · obtain ⟨h1, hc, hseats, -⟩ := switched_seated h hv hk hs isCurr (s.tasks t).schedClass
    exact ⟨h1, hc, hseats.trans (if_pos hs).symm⟩
  · obtain ⟨h3, ha⟩ := classEnqueue_seated hu.switched hu.joins hu.seat hput
    refine ⟨h3, ha.touch.curr.trans hu.curr, ?_⟩
    rw [ha.seats, hu.seats, update_idem, if_neg hne]

end switch

theorem fromSchedClass_ne_detached (c : SchedClass) : QueueSeat.fromSchedClass c ≠ .detached := by cases c <;> nofun

/-- The work of `set_attr` after the checks. -/
def changeAttr (s : Scheduler) (t : TaskId) (attr : SchedAttr) : Option Scheduler :=
  if (s.tasks t).attr.schedClass = attr.schedClass then
    (s.modify t fun x => x.setAttr attr).classAttrChanged t (s.tasks t).attr (s.curr == some t) attr.schedClass
  else s.switchClass t attr (s.curr == some t)

/-- New attributes keep a task in a queue or outside. -/
theorem changed_seated {attr : SchedAttr} (h : Seated k s) (hv : attr.validate k = .ok ())
    (hk : (s.tasks t).schedClass.isKernelOnly = false) (he : changeAttr s t attr = some s') :
    Seated k s' ∧ ∀ u, s'.seats u = .detached ↔ s.seats u = .detached := by
  have hcurr : (s.curr == some t) = true ↔ s.curr = some t := beq_iff_eq
  unfold changeAttr at he
  split at he
  · obtain ⟨h', -, hs⟩ := attrChanged_seated h hv hk hcurr ‹_› he
    exact ⟨h', fun u => by rw [hs]⟩
  · obtain ⟨h', -, hs⟩ := switchClass_seated h hv hk hcurr he
    refine ⟨h', fun u => ?_⟩
    rw [hs]
    split
    · rfl
    · rename_i hne
      by_cases hut : u = t
      · rw [hut, update_self]
        exact iff_of_false (fromSchedClass_ne_detached _) hne
      · rw [update_of_ne hut]

end XKernel.Sched
