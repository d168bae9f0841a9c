import XKernel.Sched.RtQueue
import XKernel.Sched.FairQueue
/-!
# The queues under the operations of the scheduler

Each phase of an operation keeps every task where its seat says, and moves at most the
task it is about.
-/

namespace XKernel.Sched

open Lib Function Option

variable {k : Kconfig} {s s' s'' : Scheduler} {t u : TaskId} {c : SchedClass}

/-! ## What the seats imply -/

/-- The queues do not depend on the clock and the runner. -/
theorem ClassOk.setClockCurr (h : ClassOk s c) (clock : RqClock) (curr : Option TaskId) :
    ClassOk { s with clock, curr } c := by
  cases c with
  | stop => exact h
  | deadline => exact ⟨⟨h.apart, h.ready, h.throttled, h.fresh, h.ids⟩, h.mem⟩
  | rt => exact ⟨h.mem, h.nodup, h.occupied, h.queued⟩
  | fair => exact ⟨h.mem, h.vmem, h.ready, h.vruntime, h.fresh⟩
  | idle => exact h

namespace Seated

section

variable (h : Seated k s)
include h

theorem acts {seats : TaskId → QueueSeat} (ha : Acts c s s' seats)
    (hstop : c = .stop → ∀ t, s.curr = some t → (s.tasks t).schedClass = .stop → s'.stop = none) : Seated k s' :=
  h.toPlaced.touch (fun c' _ => h.queue c') ha.touch ha.ok hstop

theorem acts_of_stop {seats : TaskId → QueueSeat} (ha : Acts c s s' seats) (hstop : s'.stop = s.stop) :
    Seated k s' := by
  refine h.acts ha fun _ t ht hc => ?_
  rw [hstop]
  exact h.stop t ht hc

/-- A task in the queue of a class has the class. -/
theorem schedClass (hs : s.seats t = .fromSchedClass c) : (s.tasks t).schedClass = c := by
  have hne : s.seats t ≠ .detached := by
    rw [hs]
    cases c <;> nofun
  have := (h.seat t hne).symm.trans hs
  cases hc : (s.tasks t).schedClass <;> rw [hc] at this <;> cases c <;> first | rfl | cases this

/-- The attributes of a task that is not of a kernel class. -/
theorem user (hk : (s.tasks t).schedClass.isKernelOnly = false) :
    (s.tasks t).schedClass = (s.tasks t).attr.schedClass ∧ (s.tasks t).attr.validate k = .ok () :=
  (h.attr t).resolve_left (Bool.eq_false_iff.1 hk)

theorem inRange (hc : (s.tasks t).schedClass = .rt) : RtClass.inRange (s.prio t) = true := by
  obtain ⟨hcls, hval⟩ := h.user (by rw [hc]; rfl)
  exact inRange_iff.2 (SchedAttr.validate_rt hval (hcls.symm.trans hc))

theorem prio_inRange (t : TaskId) (hs : s.seats t = .rt) : RtClass.inRange (s.prio t) = true :=
  h.inRange (h.schedClass (c := .rt) hs)

theorem params (hc : (s.tasks t).schedClass = .deadline) :
    ∃ p, DeadlineClass.params s t = some p ∧ 0 < p.runtimeNs := by
  obtain ⟨hcls, hval⟩ := h.user (by rw [hc]; rfl)
  exact SchedAttr.validate_deadline hval (hcls.symm.trans hc)

theorem setClock (clock : RqClock) : Seated k { s with clock } :=
  ⟨⟨h.seat, h.attr, h.curr, h.stop, h.idle⟩, fun c => (h.queue c).setClockCurr clock s.curr⟩

theorem clearCurr : Seated k { s with curr := none } :=
  ⟨⟨h.seat, h.attr, nofun, nofun, h.idle⟩, fun c => (h.queue c).setClockCurr s.clock none⟩

theorem setCurr (hs : s.seats t = .detached) (hstop : (s.tasks t).schedClass = .stop → s.stop = none) :
    Seated k { s with curr := some t } := by
  refine ⟨⟨h.seat, h.attr, fun u hu => ?_, fun u hu hc => ?_, h.idle⟩,
    fun c => (h.queue c).setClockCurr s.clock (some t)⟩
  · cases hu
    exact hs
  · cases hu
    exact hstop hc

/-- No queue holds a task of the Idle class. -/
theorem idle_detached (hc : (s.tasks t).schedClass = .idle) : s.seats t = .detached := by
  by_contra hne
  have := h.seat t hne
  rw [hc] at this
  exact h.queue .idle t this

end

end Seated

/-- Nobody moves and no class changes. -/
structure Still (s s' : Scheduler) : Prop where
  seats : s'.seats = s.seats
  schedClass : ∀ t, (s'.tasks t).schedClass = (s.tasks t).schedClass
  attr : ∀ t, (s'.tasks t).attr = (s.tasks t).attr
  curr : s'.curr = s.curr
  idle : s'.idle = s.idle

theorem Still.refl (s : Scheduler) : Still s s := ⟨rfl, fun _ => rfl, fun _ => rfl, rfl, rfl⟩

theorem Still.trans (h : Still s s') (h' : Still s' s'') : Still s s'' :=
  ⟨h'.seats.trans h.seats, fun t => (h'.schedClass t).trans (h.schedClass t), fun t => (h'.attr t).trans (h.attr t),
    h'.curr.trans h.curr, h'.idle.trans h.idle⟩

theorem Acts.still (h : Acts c s s' s.seats) : Still s s' :=
  ⟨h.seats, h.touch.schedClass, h.touch.attr, h.touch.curr, h.touch.idle⟩

/-! ## Time -/

theorem Seated.advanced (h : Seated k s) : Advanced s (DeadlineClass.advance s) := by
  refine advanceLoop_advanced _ (h.queue .deadline) rfl fun t ht => ?_
  have hs : s.seats t = .deadline := (DlOk.mem (h.queue .deadline) t).1 (.inr ht)
  have hc := h.schedClass (c := .deadline) hs
  obtain ⟨p, hp, -⟩ := h.params hc
  refine ⟨⟨p, hp⟩, .inr hs, hc, fun hcurr => ?_⟩
  rw [Scheduler.seats, h.curr t hcurr] at hs
  cases hs

theorem Advanced.acts (h : Advanced s s') : Acts .deadline s s' s.seats := ⟨h.touch, h.ok, funext h.seat⟩

section

variable (h : Seated k s)
include h

theorem advanceTo_seated (nowNs : Nat) : Seated k (s.advanceTo nowNs) ∧ Still s (s.advanceTo nowNs) := by
  have h0 := h.setClock (s.clock.advance nowNs).2
  have ha1 := h0.advanced.acts
  have h1 := h0.acts ha1 nofun
  have ha2 := RtClass.advance_acts (h1.queue .rt)
  refine ⟨h1.acts ha2 nofun, ?_⟩
  have hclock : Still s { s with clock := (s.clock.advance nowNs).2 } := ⟨rfl, fun _ => rfl, fun _ => rfl, rfl, rfl⟩
  exact hclock.trans (ha1.still.trans ha2.still)

omit h in
theorem Acts.and_stop {c : SchedClass} {a : TaskId → QueueSeat} (ha : Acts c s s' a) (hc : c ≠ .stop) :
    Acts c s s' a ∧ s'.stop = s.stop := ⟨ha, ha.touch.stop hc⟩

theorem accountRuntime_acts (t : TaskId) (elapsedNs : Nat) :
    Acts .idle s (s.accountRuntime t elapsedNs) s.seats := by
  have hseats : (s.accountRuntime t elapsedNs).seats = s.seats := funext (s.modify_field t _ fun _ => rfl)
  refine ⟨⟨s.modify_field t _ fun _ => rfl, s.modify_field t _ fun _ => rfl, rfl, rfl, rfl, fun _ => rfl,
    fun _ => ⟨rfl, s.modify_field t _ fun _ => rfl⟩, fun _ => rfl, fun _ => ⟨rfl, s.modify_field t _ fun _ => rfl⟩,
    fun u => .inl (congrFun hseats u)⟩, fun u hu => ?_, hseats⟩
  exact h.queue .idle u ((congrFun hseats u).symm.trans hu)

theorem classAccount_acts (hs : s.seats t = .detached) (elapsedNs : Nat) (c : SchedClass) :
    Acts c s (s.classAccount t elapsedNs c).1 s.seats ∧ (s.classAccount t elapsedNs c).1.stop = s.stop := by
  cases c with
  | stop => exact ⟨.refl (h.queue .stop), rfl⟩
  | idle => exact ⟨.refl (h.queue .idle), rfl⟩
  | deadline => exact (DeadlineClass.account_acts (h.queue .deadline) t elapsedNs).and_stop nofun
  | rt => exact (RtClass.account_acts (h.queue .rt) t elapsedNs).and_stop nofun
  | fair => exact ((account_offtree s t elapsedNs).acts (h.queue .fair) (by rw [hs]; nofun)).and_stop nofun

theorem charge_seated (nowNs : Nat) : Seated k (s.charge nowNs).1 ∧ Still s (s.charge nowNs).1 := by
  obtain ⟨h1, hst1⟩ := advanceTo_seated h nowNs
  unfold Scheduler.charge
  extract_lets elapsed s1
  split
  · exact ⟨h1, hst1⟩
  · rename_i t hcurr
    extract_lets c s2
    obtain ⟨h2, hst2⟩ : Seated k s2 ∧ Still s1 s2 := by
      unfold s2
      split
      · have ha := accountRuntime_acts h1 t elapsed
        exact ⟨h1.acts ha nofun, ha.still⟩
      · exact ⟨h1, rfl, fun _ => rfl, fun _ => rfl, rfl, rfl⟩
    have hs : s2.seats t = .detached := h2.curr t (hst2.curr.trans hcurr)
    obtain ⟨ha, hstop⟩ := classAccount_acts h2 hs elapsed c
    exact ⟨h2.acts_of_stop ha hstop, hst1.trans (hst2.trans ha.still)⟩

/-! ## Dispatch -/

theorem pushWaiter_acts (hj : MayJoin .stop s t) (hstop : s.stop = none) :
    Acts .stop s (StopClass.pushWaiter s t) (update s.seats t .stop) := by
  have hseats := s.seats_setSeat t .stop
  refine ⟨(Touch.setSeat hj.seat (.inr ⟨rfl, hj.schedClass, hj.curr⟩)).trans (.setStop _ _), fun u => ?_, hseats⟩
  show some t = some u ↔ (s.setSeat t .stop).seats u = .stop
  rw [hseats, update_apply, some.injEq]
  split
  · rename_i hu
    exact iff_of_true hu.symm rfl
  · rename_i hu
    refine iff_of_false (fun hc => hu hc.symm) fun hc => ?_
    have := (h.queue .stop u).2 hc
    rw [hstop] at this
    cases this

theorem popWaiter_acts (hstop : s.stop = some t) :
    s.seats t = .stop ∧ Acts .stop s (({ s with stop := none } : Scheduler).setSeat t .detached)
      (update s.seats t .detached) := by
  have hs : s.seats t = .stop := (h.queue .stop t).1 hstop
  have hseats : (({ s with stop := none } : Scheduler).setSeat t .detached).seats = update s.seats t .detached :=
    Scheduler.seats_setSeat _ t _
  refine ⟨hs, (Touch.setStop s none).trans (.setSeat (.inr hs) (.inl rfl)), fun u => ?_, hseats⟩
  show none = some u ↔ (({ s with stop := none } : Scheduler).setSeat t .detached).seats u = .stop
  rw [hseats, update_apply]
  refine iff_of_false nofun ?_
  split
  · nofun
  · rename_i hu
    intro hc
    have := (h.queue .stop u).2 hc
    rw [hstop] at this
    exact hu (some.inj this).symm

theorem classEnqueue_seated {kind : EnqueueKind} (hj : MayJoin c s t) (hs : s.seats t = .detached)
    (he : s.classEnqueue t kind c = some s') :
    Seated k s' ∧ Acts c s s' (update s.seats t (.fromSchedClass c)) := by
  cases c with
  | stop =>
    simp only [Scheduler.classEnqueue, StopClass.enqueue] at he
    split at he <;> cases he
    rename_i hnone
    rw [Bool.and_eq_true, isNone_iff_eq_none, isNone_iff_eq_none] at hnone
    have ha := pushWaiter_acts h hj hnone.2
    refine ⟨h.acts ha fun _ u hu hc => ?_, ha⟩
    have := hnone.1
    rw [Scheduler.currFor, hu, filter_some, if_pos (decide_eq_true hc)] at this
    cases this
  | deadline =>
    cases he
    have ha := DeadlineClass.enqueue_acts (h.queue .deadline) hj hs kind
    exact ⟨h.acts ha nofun, ha⟩
  | rt =>
    have ha := RtClass.enqueue_acts (h.queue .rt) hj hs he
    exact ⟨h.acts ha nofun, ha⟩
  | fair =>
    cases he
    have ha := FairClass.enqueue_acts (h.queue .fair) hj hs kind (s.currFor .fair)
    exact ⟨h.acts ha nofun, ha⟩
  | idle => cases he

theorem Taken.seated {r : Option TaskId} (ht : Taken c s s' r)
    (hstop : c = .stop → s'.stop = s.stop ∨ s'.stop = none) : Seated k s' := by
  have hst : c = .stop → ∀ t, s.curr = some t → (s.tasks t).schedClass = .stop → s'.stop = none := by
    intro hc u hu hcls
    rcases hstop hc with he | he
    · rw [he]
      exact h.stop u hu hcls
    · exact he
  cases r with
  | none => exact h.acts ht hst
  | some => exact h.acts ht.2 hst

theorem classDequeue_seated {r : Option TaskId} (he : s.classDequeue t c = some (r, s')) :
    Seated k s' ∧ Taken c s s' r ∧ (r = none ∨ r = some t) := by
  cases c with
  | stop =>
    simp only [Scheduler.classDequeue, StopClass.dequeue] at he
    split at he <;> cases he
    · have ht : Taken .stop s _ (some t) := popWaiter_acts h ‹_›
      exact ⟨ht.seated h fun _ => .inr rfl, ht, .inr rfl⟩
    · exact ⟨h, .refl (h.queue .stop), .inl rfl⟩
  | deadline =>
    obtain ⟨ht, hr⟩ := DeadlineClass.dequeue_taken (h.queue .deadline) (some.inj he)
    exact ⟨ht.seated h nofun, ht, hr⟩
  | rt =>
    obtain ⟨ht, hr⟩ := RtClass.dequeue_taken (h.queue .rt) (some.inj he)
    exact ⟨ht.seated h nofun, ht, hr⟩
  | fair =>
    obtain ⟨ht, hr⟩ := FairClass.dequeue_taken (h.queue .fair) he
    exact ⟨ht.seated h nofun, ht, hr⟩
  | idle =>
    cases he
    exact ⟨h, .refl (h.queue .idle), .inl rfl⟩

theorem classSetCurr_acts (hs : s.seats t = .detached) (he : s.classSetCurr t c = some s') :
    Acts c s s' s.seats ∧ s'.stop = s.stop ∧ (c = .stop → s'.stop = none) := by
  cases c with
  | stop =>
    simp only [Scheduler.classSetCurr, StopClass.setCurr] at he
    split at he <;> cases he
    rename_i hnone
    exact ⟨.refl (h.queue .stop), rfl, fun _ => isNone_iff_eq_none.1 hnone⟩
  | deadline =>
    cases he
    have ha := DeadlineClass.setCurr_acts (h.queue .deadline) hs
    exact ⟨ha, ha.touch.stop nofun, nofun⟩
  | rt =>
    cases he
    exact ⟨.refl (h.queue .rt), rfl, nofun⟩
  | fair =>
    cases he
    have ha := (setCurr_offtree s t).acts (h.queue .fair) (by rw [hs]; nofun)
    exact ⟨ha, ha.touch.stop nofun, nofun⟩
  | idle =>
    cases he
    exact ⟨.refl (h.queue .idle), rfl, nofun⟩

end

/-- The seats after the runner has left the CPU. -/
def seatsAfter (s : Scheduler) (t : TaskId) (reason : LeaveReason) (c : SchedClass) : TaskId → QueueSeat :=
  if (reason = .yield ∨ reason = .preempt) ∧ c ≠ .idle then Function.update s.seats t (.fromSchedClass c) else s.seats

theorem seatsAfter_of_ne (reason : LeaveReason) (hc : c ≠ .idle) : seatsAfter s t reason c =
    if reason = .yield ∨ reason = .preempt then update s.seats t (.fromSchedClass c) else s.seats :=
  if_congr (and_iff_left hc) rfl rfl

theorem classPutPrev_seated {reason : LeaveReason} (h : Seated k s) (hj : MayJoin c s t) (hs : s.seats t = .detached)
    (hcurr : s.curr = none) (hstop : c = .stop → s.stop = none) (he : s.classPutPrev t reason c = some s') :
    Seated k s' ∧ Acts c s s' (seatsAfter s t reason c) := by
  have hnone : ∀ t, s.curr = some t → (s.tasks t).schedClass = .stop → s'.stop = none := by
    intro u hu
    rw [hcurr] at hu
    cases hu
  cases c with
  | stop =>
    cases he
    have ha : Acts .stop s (StopClass.putPrev s t reason) (seatsAfter s t reason .stop) := by
      cases reason with
      | yield => exact pushWaiter_acts h hj (hstop rfl)
      | preempt => exact pushWaiter_acts h hj (hstop rfl)
      | block => exact .refl (h.queue .stop)
      | migrate => exact .refl (h.queue .stop)
      | exit => exact .refl (h.queue .stop)
    exact ⟨h.acts ha fun _ => hnone, ha⟩
  | deadline =>
    cases he
    rw [seatsAfter_of_ne (c := .deadline) reason nofun]
    have ha := DeadlineClass.putPrev_acts (h.queue .deadline) hj hs reason
    exact ⟨h.acts ha nofun, ha⟩
  | rt =>
    rw [seatsAfter_of_ne (c := .rt) reason nofun]
    have ha := RtClass.putPrev_acts (h.queue .rt) hj hs he
    exact ⟨h.acts ha nofun, ha⟩
  | fair =>
    cases he
    rw [seatsAfter_of_ne (c := .fair) reason nofun]
    have ha := FairClass.putPrev_acts (h.queue .fair) hj hs reason
    exact ⟨h.acts ha nofun, ha⟩
  | idle =>
    cases he
    refine ⟨h, ?_⟩
    rw [seatsAfter, if_neg fun hc => hc.2 rfl]
    exact .refl (h.queue .idle)

theorem classSwitchedFrom_acts (h : Seated k s) (hs : s.seats t = .detached) (isCurr : Bool) (c : SchedClass) :
    Acts c s (s.classSwitchedFrom t isCurr c) s.seats ∧ (s.classSwitchedFrom t isCurr c).stop = s.stop := by
  cases c with
  | stop => exact ⟨.refl (h.queue .stop), rfl⟩
  | idle => exact ⟨.refl (h.queue .idle), rfl⟩
  | deadline => exact (DeadlineClass.switchedFrom_acts (h.queue .deadline) t isCurr).and_stop nofun
  | rt => exact (RtClass.switchedFrom_acts (h.queue .rt) t).and_stop nofun
  | fair => exact ((switchedFrom_offtree s t isCurr).acts (h.queue .fair) (by rw [hs]; nofun)).and_stop nofun

theorem classSwitchedTo_acts (h : Seated k s) (hs : s.seats t = .detached) (isCurr : Bool) (c : SchedClass) :
    Acts c s (s.classSwitchedTo t isCurr c) s.seats ∧ (s.classSwitchedTo t isCurr c).stop = s.stop := by
  cases c with
  | stop => exact ⟨.refl (h.queue .stop), rfl⟩
  | idle => exact ⟨.refl (h.queue .idle), rfl⟩
  | deadline => exact (DeadlineClass.switchedTo_acts (h.queue .deadline) hs isCurr).and_stop nofun
  | rt => exact (RtClass.switchedTo_acts (h.queue .rt) t).and_stop nofun
  | fair => exact ((switchedTo_offtree s t isCurr).acts (h.queue .fair) (by rw [hs]; nofun)).and_stop nofun

end XKernel.Sched
