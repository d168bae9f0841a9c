import XKernel.Sched.FairIndex
/-!
# Assertions of the run queue

With the books of the Fair class in order none of its assertions fails. An operation of
the scheduler returns unless its caller has misused it.
-/

namespace XKernel.Sched

open Lib FairClass Function List Option RtClass Scheduler

variable {k : Kconfig} {s s' : Scheduler} {t u : TaskId}

/-! ## The Fair class -/

theorem dequeueEntity_ready (hok : ClassOk s .fair) (ht : t ∈ s.fair.ready) :
    ∃ s', dequeueEntity s (deadlineKey s t) = some (some t, s') := by
  obtain ⟨r, s', hd, hr⟩ := dequeueEntity_total hok (deadlineKey s t) none
  obtain rfl := hr t ht rfl
  exact ⟨s', hd⟩

section

variable (h : FairIndex none s)
include h

theorem FairIndex.buddy_mem (ht : s.fair.nextBuddy = some t) : t ∈ s.fair.ready :=
  (h.buddy t ht).resolve_right nofun

section

variable (hok : ClassOk s .fair)
include hok

/-- The key that is looked up is the key of a waiting task. -/
theorem earliestEligible_mem {avg : Int} {key : Int ×ₗ Nat}
    (he : earliestEligible s avg = some key) : ∃ u ∈ s.fair.ready, deadlineKey s u = key := by
  unfold earliestEligible at he
  split at he
  · cases he
  rename_i first hfirst
  split at he
  · cases he
    rw [h.firstDeadline] at hfirst
    exact ⟨first, mem_of_mem_head? hfirst, rfl⟩
  · have hm := min?_mem he
    obtain ⟨u, hu, rfl⟩ := mem_map.1 hm
    have hv : u ∈ s.fair.vruntimeTree := (takeWhile_sublist _).subset hu
    exact ⟨u, (FairOk.mem hok u).2 ((FairOk.vmem hok u).1 hv), rfl⟩

theorem peerPreempts_total (t : TaskId) : ∃ b, peerPreempts s t = some b := by
  unfold peerPreempts
  split
  · exact ⟨_, rfl⟩
  extract_lets avg
  split
  · exact ⟨_, rfl⟩
  split
  · exact ⟨_, rfl⟩
  · rename_i key he
    obtain ⟨u, hu, rfl⟩ := earliestEligible_mem h hok he
    rw [hok.ready.find_key hu]
    exact ⟨_, rfl⟩

theorem pickBuddy_total : ∃ r, pickBuddy s = some r := by
  unfold pickBuddy
  split
  · exact ⟨_, rfl⟩
  rename_i buddy hb
  split
  · exact ⟨_, rfl⟩
  have hok1 := ((clearBuddy_offtree s buddy).acts_of hok fun _ _ => rfl).ok
  obtain ⟨s1, hd⟩ := dequeueEntity_ready hok1 (h.buddy_mem hb)
  rw [show deadlineKey s buddy = deadlineKey (clearBuddy s) buddy from rfl, hd]
  exact ⟨_, rfl⟩

theorem FairClass.pickNext_total : ∃ r, pickNext s = some r := by
  unfold pickNext
  split
  · exact ⟨_, rfl⟩
  rename_i hne
  obtain ⟨⟨r, s1⟩, hb⟩ := pickBuddy_total h hok
  rw [hb]
  cases r with
  | some => exact ⟨_, rfl⟩
  | none =>
    obtain rfl := (h.pickBuddy hok hb).2 rfl
    simp only
    split
    · -- some task is first
      rename_i hkey
      split at hkey
      · cases hkey
      · rw [firstDeadlineKey, h.firstDeadline, map_eq_none_iff, head?_eq_none_iff] at hkey
        rw [hkey] at hne
        exact absurd rfl hne
    · rename_i key hkey
      obtain ⟨u, hu, rfl⟩ : ∃ u ∈ s1.fair.ready, deadlineKey s1 u = key := by
        split at hkey
        · rename_i he
          cases hkey
          exact earliestEligible_mem h hok he
        · rw [firstDeadlineKey, h.firstDeadline] at hkey
          obtain ⟨u, hu, hk⟩ := map_eq_some_iff.1 hkey
          exact ⟨u, mem_of_mem_head? hu, hk⟩
      obtain ⟨s2, hd⟩ := dequeueEntity_ready hok hu
      rw [hd]
      exact ⟨_, rfl⟩

end

end

theorem FairClass.dequeue_total (hok : ClassOk s .fair) (t : TaskId) (curr : Option TaskId) :
    ∃ r s', dequeue s t curr = some (r, s') ∧ (s.seats t = .fair → r = some t) := by
  unfold dequeue dequeueWithLag
  split
  · rename_i hcon
    refine ⟨none, s, rfl, fun hs => ?_⟩
    rw [contains, hok.ready.find_key ((FairOk.mem hok t).2 hs), beq_self_eq_true] at hcon
    cases hcon
  extract_lets s1 lag
  have hok1 : ClassOk s1 .fair := (clearBuddyIf_acts hok t).ok
  obtain ⟨r, s2, hd, hr⟩ := dequeueEntity_total hok1 (deadlineKey s1 t) none
  rw [dequeueEntity, hd]
  have hfound : s.seats t = .fair → r = some t := fun hs =>
    hr t ((FairOk.mem hok1 t).2 ((congrFun (clearBuddyIf_acts hok t).seats t).trans hs)) rfl
  cases r with
  | none => exact ⟨none, s2, rfl, hfound⟩
  | some u => exact ⟨some u, _, rfl, hfound⟩

theorem FairClass.steal_total (hok : ClassOk s .fair) (want : List TaskId → TaskId → Bool) (asked : List TaskId)
    (curr : Option TaskId) : ∃ r, steal want asked s curr = some r := by
  unfold steal
  split
  · exact ⟨_, rfl⟩
  · rename_i t _
    obtain ⟨r, s1, hd, -⟩ := dequeue_total hok t curr
    exact ⟨_, hd⟩

theorem FairClass.attrChanged_total (hok : ClassOk s .fair) (t : TaskId) (old : SchedAttr) (isCurr : Bool) :
    ∃ s', attrChanged s t old isCurr = some s' := by
  unfold attrChanged
  extract_lets oldWeight
  split
  · exact ⟨_, rfl⟩
  split
  · exact ⟨_, rfl⟩
  obtain ⟨r, s1, hd, -⟩ := dequeueEntity_total hok (deadlineKey s t) (some oldWeight)
  rw [hd]
  cases r with
  | none | some => exact ⟨_, rfl⟩

/-! ## The other classes -/

theorem enqueueReady_total (hr : inRange (s.prio t) = true) (front : Bool) :
    ∃ s', enqueueReady s t front = some s' := by
  unfold enqueueReady
  simp only
  rw [show (s.tasks t).rtPriority = s.prio t from rfl, hr]
  simp only [Bool.not_true, Bool.false_eq_true, if_false]
  split
  · exact ⟨_, rfl⟩
  · exact ⟨_, rfl⟩

section

variable (hr : RtClass.inRange (s.prio t) = true)
include hr

theorem RtClass.enqueue_total (kind : EnqueueKind) :
    ∃ s', enqueue s t kind = some s' := by
  refine enqueueReady_total ?_ false
  split
  · rw [s.prio_modifyRt t]
    exact hr
  · exact hr

theorem RtClass.putPrev_total (reason : LeaveReason) :
    ∃ s', putPrev s t reason = some s' := by
  have hready : ∀ front, ∃ s', enqueueReady (s.modifyRt t fun e => { e with rrRotate := false }) t front = some s' :=
    enqueueReady_total (by rw [s.prio_modifyRt t]; exact hr)
  cases reason with
  | yield => exact hready false
  | preempt =>
    unfold putPrev
    simp only
    split
    · exact hready false
    · exact hready true
  | block | migrate | exit => exact ⟨_, rfl⟩

theorem RtClass.attrChanged_total (old : SchedAttr) (isCurr : Bool) :
    ∃ s', attrChanged s t old isCurr = some s' := by
  unfold attrChanged
  extract_lets new s1
  have hprio : s1.prio = s.prio := by
    unfold s1
    split
    · exact s.prio_modifyRt t _
    · split
      · exact s.prio_modifyRt t _
      · rfl
  split
  · exact ⟨_, rfl⟩
  split
  swap
  · exact ⟨_, rfl⟩
  unfold dequeueAddr
  split
  · rename_i hd
    split at hd
    · cases hd
    · split at hd <;> cases hd
      have hr2 : ∀ front, ∃ s', enqueueReady (removed s1 old.rtPriority.get t) t front = some s' :=
        enqueueReady_total (by rw [removed_prio, hprio]; exact hr)
      split
      · exact hr2 true
      · exact hr2 false
  · exact ⟨_, rfl⟩

end

/-! ## Operations -/

theorem decision_total (h : Seated k s) (hi : FairIndex none s) (kind : UpdateKind) (exhausted : Bool) :
    ∃ d, s.decision kind exhausted = some d := by
  have hpeer : ∀ t, ∃ b, peerPreempts s t = some b := peerPreempts_total hi (h.queue .fair)
  obtain ⟨b, hb⟩ : ∃ b, s.reschedNeeded kind exhausted = some b := by
    unfold reschedNeeded
    split
    · exact ⟨_, rfl⟩
    rename_i t _
    extract_lets c
    split
    · exact ⟨_, rfl⟩
    cases kind with
    | account => exact ⟨_, rfl⟩
    | schedTick | wakeProbe =>
      cases c with
      | fair => exact hpeer t
      | stop | deadline | rt | idle => exact ⟨_, rfl⟩
  rw [decision, hb]
  exact ⟨_, rfl⟩

/-- A task that can be queued is queued. -/
theorem classEnqueue_total (h : Seated k s) (kind : EnqueueKind) (hidle : (s.tasks t).schedClass ≠ .idle)
    (hstop : (s.tasks t).schedClass = .stop → s.stop = none ∧ s.currFor .stop = none) :
    ∃ s', s.classEnqueue t kind (s.tasks t).schedClass = some s' := by
  cases hc : (s.tasks t).schedClass with
  | stop =>
    obtain ⟨hs, hcu⟩ := hstop hc
    simp only [classEnqueue, StopClass.enqueue, hs, hcu]
    exact ⟨_, rfl⟩
  | deadline | fair => exact ⟨_, rfl⟩
  | rt => exact enqueue_total (h.inRange hc) kind
  | idle => exact absurd hc hidle

theorem classDequeue_total (h : Seated k s) (t : TaskId) (c : SchedClass) :
    ∃ r s', s.classDequeue t c = some (r, s') ∧
      (s.seats t = .fromSchedClass c → c.isKernelOnly = false → r = some t) := by
  cases c with
  | stop | idle => exact ⟨_, _, rfl, nofun⟩
  | deadline =>
    refine ⟨(DeadlineClass.dequeue s t).1, (DeadlineClass.dequeue s t).2, rfl, fun hs _ => ?_⟩
    rw [DlOk.dequeue (h.queue .deadline), if_pos (show (s.tasks t).seat = .deadline from hs)]
  | rt =>
    refine ⟨(RtClass.dequeue s t).1, (RtClass.dequeue s t).2, rfl, fun hs _ => ?_⟩
    unfold RtClass.dequeue
    rw [if_neg (not_not.2 (show (s.tasks t).seat = .rt from hs)),
      show (s.tasks t).rtPriority = s.prio t from rfl, RtOk.dequeueAddr (h.queue .rt) (h.prio_inRange t hs), if_pos]
    exact (RtOk.mem (h.queue .rt) _ t).2 ⟨hs, rfl⟩
  | fair =>
    obtain ⟨r, s1, hd, hr⟩ := FairClass.dequeue_total (h.queue .fair) t (s.currFor .fair)
    exact ⟨r, s1, hd, fun hs _ => hr hs⟩

theorem schedClass_ne_idle (p : SchedPolicy) : p.schedClass ≠ .idle := by cases p <;> nofun

theorem switchClass_total {attr : SchedAttr} {isCurr : Bool} (h : Seated k s) (hv : attr.validate k = .ok ())
    (hk : (s.tasks t).schedClass.isKernelOnly = false) (hcurr : isCurr = true ↔ s.curr = some t) :
    ∃ s', s.switchClass t attr isCurr = some s' := by
  unfold switchClass
  rw [← (h.user hk).1]
  extract_lets old new wasQueued s?
  by_cases hq : (!isCurr) = true ∧ wasQueued
  · obtain ⟨r, s1, hd, hr⟩ := classDequeue_total h t old
    rw [hr (h.seat t hq.2) hk] at hd
    have hs? : s? = some s1 := by
      unfold s?
      rw [if_pos hq, hd]
    rw [hs?]
    dsimp -zeta only
    rw [if_pos hq]
    have hc : s.curr ≠ some t := fun hc => by simp [hcurr.2 hc] at hq
    have hu := classDequeue_unqueued h hv hk hc hd isCurr old
    have hcls3 := hu.joins.schedClass
    have hput := classEnqueue_total hu.switched .classChange (by rw [hcls3]; exact schedClass_ne_idle _)
      fun hc => absurd (hcls3.symm.trans hc) (schedClass_ne_stop _)
    rw [hcls3] at hput
    exact hput
  · have hs? : s? = some s := if_neg hq
    rw [hs?]
    dsimp -zeta only
    rw [if_neg hq]
    exact ⟨_, rfl⟩

theorem changed_total {attr : SchedAttr} (h : Seated k s) (hv : attr.validate k = .ok ())
    (hk : (s.tasks t).schedClass.isKernelOnly = false) :
    ∃ s', changeAttr s t attr = some s' ∧ Seated k s' := by
  have hcurr : (s.curr == some t) = true ↔ s.curr = some t := beq_iff_eq
  unfold changeAttr
  split
  · rename_i hsame
    obtain ⟨s', he⟩ : ∃ s', (s.modify t fun x => x.setAttr attr).classAttrChanged t (s.tasks t).attr (s.curr == some t)
        attr.schedClass = some s' := by
      cases hc : attr.schedClass with
      | fair => exact attrChanged_total ((Retags.setAttr attr).classOk (h.queue .fair) t nofun) t _ _
      | rt =>
        refine attrChanged_total ?_ _ _
        rw [prio, modify_self]
        exact inRange_iff.2 (SchedAttr.validate_rt hv hc)
      | stop | deadline | idle => exact ⟨_, rfl⟩
    exact ⟨s', he, (attrChanged_seated h hv hk hcurr hsame he).1⟩
  · obtain ⟨s', he⟩ := switchClass_total h hv hk hcurr
    exact ⟨s', he, (switchClass_seated h hv hk hcurr he).1⟩

/-- The operations that the source refuses by an assertion. -/
def Misuse (s : Scheduler) : Op → Prop
  | .installCurrent t _ => s.curr.isSome ∨ (s.tasks t).schedClass = .stop ∧ s.stop.isSome
  | .enqueue t _ _ => (s.tasks t).schedClass = .idle ∨
      (s.tasks t).schedClass = .stop ∧ (s.stop.isSome ∨ (s.currFor .stop).isSome)
  | .pickNext _ => s.curr.isSome
  | .yieldCurrent _ | .preemptCurrent _ | .blockCurrent _ | .migrateCurrent _ | .exitCurrent _ => s.curr = none
  | .update .. | .dequeue .. | .steal .. | .setAttr .. => False

theorem Still.stop (h : Seated k s) (h' : Seated k s') (hst : Still s s') : s'.stop = s.stop := by
  ext t
  rw [h.queue .stop t, h'.queue .stop t]
  exact Eq.congr (congrFun hst.seats t) rfl

theorem Still.currFor (hst : Still s s') (c : SchedClass) : s'.currFor c = s.currFor c := by
  unfold Scheduler.currFor
  rw [hst.curr]
  refine congrArg (Option.filter · s.curr) (funext fun t => ?_)
  rw [hst.schedClass]

theorem leave_total {reason : LeaveReason} (h : Seated k s) (nowNs : Nat) (hcurr : s.curr ≠ none) :
    ∃ r, s.leave nowNs reason = some r := by
  obtain ⟨h1, hst⟩ := charge_seated h nowNs
  unfold leave
  generalize (s.charge nowNs).1 = s1 at h1 hst
  simp only
  split
  · rename_i hc
    exact absurd (hst.curr.symm.trans hc) hcurr
  rename_i t hc
  obtain ⟨s2, hp⟩ : ∃ s2, ({ s1 with curr := none } : Scheduler).classPutPrev t reason (s1.tasks t).schedClass =
    some s2 := by
    cases hcls : (s1.tasks t).schedClass with
    | rt => exact putPrev_total (s := { s1 with curr := none }) (h1.inRange hcls) reason
    | stop | deadline | fair | idle => exact ⟨_, rfl⟩
  rw [hp]
  exact ⟨_, rfl⟩

theorem pickNext_total (h : Seated k s) (hi : FairIndex none s) (nowNs : Nat) (hcurr : s.curr = none) :
    ∃ r, s.pickNext nowNs = some r := by
  have hI := fairIndex_classInv k
  obtain ⟨h1, -⟩ := advanceTo_seated h nowNs
  have hi1 := hI.advanceTo nofun h hi nowNs
  unfold Scheduler.pickNext
  rw [hcurr]
  generalize s.advanceTo nowNs = s1 at h1 hi1
  simp only [isSome_none, Bool.false_eq_true, if_false]
  split
  · exact ⟨_, rfl⟩
  rename_i s2 hp
  obtain rfl : s1 = s2 := by
    unfold StopClass.pickNext at hp
    split at hp <;> cases hp
    rfl
  split
  · exact ⟨_, rfl⟩
  rename_i s2 hp
  have ht2 := DeadlineClass.pickNext_taken (h1.queue .deadline) hp
  have h2 := ht2.seated h1 nofun
  have hi2 := hI.frame (c := .deadline) nofun (ClassInv.Taken.touch ht2) hi1
  split
  · exact ⟨_, rfl⟩
  rename_i s3 hp
  have ht3 := pickNext_taken (h2.queue .rt) h2.prio_inRange hp
  have h3 := ht3.seated h2 nofun
  have hi3 := hI.frame (c := .rt) nofun (ClassInv.Taken.touch ht3) hi2
  obtain ⟨⟨r, s4⟩, hr⟩ := FairClass.pickNext_total hi3 (h3.queue .fair)
  rw [hr]
  cases r with
  | none | some => exact ⟨_, rfl⟩

/-- Every operation returns that is not misused. -/
theorem exec_total {o : Op} (h : Seated k s) (hi : FairIndex none s) (ha : Allowed s o) (hm : ¬ Misuse s o) :
    ∃ r, exec k s o = some r := by
  have hI := fairIndex_classInv k
  have hmap : ∀ {α β : Type} {o : Option α} (f : α → β), (∃ r, o = some r) → ∃ r, o.map f = some r := by
    rintro α β o f ⟨r, rfl⟩
    exact ⟨_, rfl⟩
  cases o with refine hmap _ ?_
  | installCurrent t nowNs =>
    obtain ⟨h1, hst⟩ := advanceTo_seated h nowNs
    have hstop := hst.stop h h1
    unfold Scheduler.installCurrent
    rw [if_neg fun hc => hm (.inl hc)]
    generalize s.advanceTo nowNs = s1 at h1 hst hstop
    simp only
    obtain ⟨s2, hs2⟩ : ∃ s2, s1.classSetCurr t (s1.tasks t).schedClass = some s2 := by
      cases hc : (s1.tasks t).schedClass with
      | stop =>
        refine ⟨s1, if_pos ?_⟩
        rw [hst.schedClass] at hc
        rw [hstop, isNone_iff_eq_none, ← not_isSome_iff_eq_none]
        exact fun hs => hm (.inr ⟨hc, hs⟩)
      | deadline | rt | fair | idle => exact ⟨_, rfl⟩
    rw [hs2]
    exact ⟨_, rfl⟩
  | update nowNs kind =>
    obtain ⟨d, hd⟩ := decision_total (charge_seated h nowNs).1 (hI.charge (.inr rfl) h hi nowNs) kind (s.charge nowNs).2
    unfold Scheduler.update
    simp only [hd]
    exact ⟨_, rfl⟩
  | enqueue t kind nowNs =>
    obtain ⟨h1, hst⟩ := charge_seated h nowNs
    have hi1 := hI.charge (.inr rfl) h hi nowNs
    have hstop := hst.stop h h1
    have hcurr := hst.currFor .stop
    obtain ⟨hdet, hne⟩ := h.detached_of_held ha
    unfold Scheduler.enqueue
    generalize (s.charge nowNs).1 = s1 at h1 hst hi1 hstop hcurr
    simp only
    obtain ⟨s2, hs2⟩ := classEnqueue_total h1 kind
      (fun hc => hm (.inl ((hst.schedClass t).symm.trans hc))) fun hc => by
        have hc' := (hst.schedClass t).symm.trans hc
        rw [hstop, hcurr, ← not_isSome_iff_eq_none, ← not_isSome_iff_eq_none]
        exact ⟨fun hs => hm (.inr ⟨hc', .inl hs⟩), fun hs => hm (.inr ⟨hc', .inr hs⟩)⟩
    have hdet1 : s1.seats t = .detached := by
      rw [hst.seats]
      exact hdet
    have hne1 : s1.curr ≠ some t := by
      rw [hst.curr]
      exact hne
    have h2 := (classEnqueue_seated h1 ⟨.inl hdet1, rfl, hne1⟩ hdet1 hs2).1
    have hi2 := hI.enqueue_of_class h1 hi1 hdet1 hne1 (fun _ => trivial) hs2
    obtain ⟨d, hd⟩ := decision_total h2 hi2 .wakeProbe false
    rw [hs2]
    simp only [hd]
    exact ⟨_, rfl⟩
  | dequeue t nowNs =>
    obtain ⟨h1, -⟩ := charge_seated h nowNs
    unfold Scheduler.dequeue
    generalize (s.charge nowNs).1 = s1 at h1
    simp only
    split
    · exact ⟨_, rfl⟩
    · obtain ⟨r, s2, hd, -⟩ := classDequeue_total h1 t (s1.tasks t).schedClass
      exact ⟨_, hd⟩
  | steal want nowNs =>
    obtain ⟨h1, -⟩ := charge_seated h nowNs
    unfold Scheduler.steal
    simp only
    split
    · exact ⟨_, rfl⟩
    · rename_i asked s2 hst
      have h2 := (steal_taken (h1.queue .rt) h1.prio_inRange hst).seated h1 nofun
      exact FairClass.steal_total (h2.queue .fair) want asked _
  | pickNext nowNs => exact pickNext_total h hi nowNs (not_isSome_iff_eq_none.1 hm)
  | yieldCurrent nowNs | preemptCurrent nowNs | blockCurrent nowNs | migrateCurrent nowNs | exitCurrent nowNs =>
    exact leave_total h nowNs hm
  | setAttr t attr nowNs =>
    obtain ⟨h1, hst⟩ := charge_seated h nowNs
    have hi1 := hI.charge (.inr rfl) h hi nowNs
    unfold Scheduler.setAttr
    split
    · exact ⟨_, rfl⟩
    rename_i hv
    simp only
    split
    · exact ⟨_, rfl⟩
    rename_i hk
    rw [Bool.not_eq_true] at hk
    split
    · exact ⟨_, rfl⟩
    rename_i hadm
    obtain ⟨s2, hs2, h2⟩ := changed_total h1 hv hk
    have hi2 := hI.changed h1 hi1 hv hk hadm (fun _ _ => trivial) hs2
    obtain ⟨d, hd⟩ := decision_total h2 hi2 .wakeProbe false
    unfold changeAttr at hs2
    rw [hs2]
    simp only [hd]
    exact ⟨_, rfl⟩

/-! ## Runs -/

/-- `o` is the first of the tasks by the key. -/
def FirstBy (key : TaskId → Int ×ₗ Nat) (l : List TaskId) : Option TaskId → Prop
  | none => l = []
  | some t => t ∈ l ∧ ∀ u ∈ l, key t ≤ key u

theorem FirstBy.head {key : TaskId → Int ×ₗ Nat} {l : List TaskId} (h : Index.Sorted key l) :
    FirstBy key l l.head? := by
  cases l with
  | nil => rfl
  | cons =>
    refine ⟨mem_cons_self, fun u hu => ?_⟩
    rcases mem_cons.1 hu with rfl | hu
    · exact le_refl _
    · exact le_of_lt ((pairwise_cons.1 h).1 u hu)

/-- What the Fair class keeps about the tasks in its trees. The sum of the weights is an `i64`. -/
structure FairConsistent (s : Scheduler) : Prop where
  nodup : s.fair.ready.Nodup ∧ s.fair.vruntimeTree.Nodup
  trees : ∀ t, t ∈ s.fair.vruntimeTree ↔ t ∈ s.fair.ready
  firstDeadline : FirstBy (deadlineKey s) s.fair.ready s.fair.firstDeadline
  firstVruntime : FirstBy (vruntimeKey s) s.fair.vruntimeTree s.fair.firstVruntime
  queued : s.fair.queued = s.fair.ready.length
  totalWeight : s.fair.totalWeight = i64 (s.fair.ready.map (weight s)).sum
  exact : s.fair.ready.length < 2 ^ 46 → s.fair.totalWeight = (s.fair.ready.map (weight s)).sum
  sumWv : s.fair.sumWv = (s.fair.ready.map fun t => (s.tasks t).fair.vruntime * weight s t).sum
  buddy : ∀ t, s.fair.nextBuddy = some t → t ∈ s.fair.ready

theorem Nice.weight_lt (n : Nice) : n.weight < 2 ^ 17 := by
  have hall : ∀ w ∈ niceToWeight, w < 2 ^ 17 := by decide
  unfold Nice.weight
  rw [getD_eq_getElem?_getD]
  cases hw : niceToWeight[(n.val + 20).toNat]? with
  | none => decide
  | some w => exact hall w (mem_of_getElem? hw)

theorem sum_weight_bound {w : TaskId → Int} {l : List TaskId} (h : ∀ t ∈ l, 0 ≤ w t ∧ w t < 2 ^ 17) :
    0 ≤ (l.map w).sum ∧ (l.map w).sum ≤ 2 ^ 17 * l.length := by
  induction l with
  | nil => simp
  | cons t l ih =>
    have ht := h t mem_cons_self
    have hl := ih fun u hu => h u (mem_cons_of_mem t hu)
    rw [map_cons, sum_cons, length_cons]
    omega

theorem FairIndex.consistent (h : Seated k s) (hi : FairIndex none s) : FairConsistent s := by
  have hok := h.queue .fair
  have hexact : s.fair.ready.length < 2 ^ 46 →
      i64 (s.fair.ready.map (weight s)).sum = (s.fair.ready.map (weight s)).sum := by
    intro hlen
    have hb := sum_weight_bound (w := weight s) fun t ht => by
      have hc := h.schedClass (c := .fair) ((FairOk.mem hok t).1 ht)
      have hlt := Nice.weight_lt (s.tasks t).attr.nice
      rw [weight, hi.weights t hc]
      omega
    exact Int.bmod_eq_of_le_mul_two (by omega) (by omega)
  exact {
    nodup := ⟨hok.ready.nodup, hok.vruntime.nodup⟩
    trees := fun t => (FairOk.vmem hok t).trans (FairOk.mem hok t).symm
    firstDeadline := by
      rw [hi.firstDeadline]
      exact .head hok.ready
    firstVruntime := by
      rw [hi.firstVruntime]
      exact .head hok.vruntime
    queued := hi.queued
    totalWeight := hi.totalWeight
    exact := fun hlen => hi.totalWeight.trans (hexact hlen)
    sumWv := hi.sumWv
    buddy := fun t ht => hi.buddy_mem ht }

theorem run_fairIndex {k : Kconfig} {kernel : TaskId → Option KernelClass} {idle : TaskId} {nowNs : Nat} {s : Scheduler}
    (hidle : kernel idle = some .idle) (hr : Run (step k) Allowed (new k kernel idle nowNs) s) :
    Seated k s ∧ FairIndex none s := by
  have hside : ∀ s o, Side.none.Meets .fair s o := by
    intro s o
    cases o <;> first | exact trivial | exact fun _ => trivial | exact fun _ _ => trivial
  have hnew : FairIndex none (new k kernel idle nowNs) := by
    refine ⟨⟨rfl, rfl, rfl, rfl, rfl⟩, by rintro _ ⟨⟩, fun t _ => ?_⟩
    rw [new_tasks]
    cases kernel t <;> rfl
  exact (fairIndex_classInv k).run_inv (.inr rfl) hidle hnew
    (hr.mono fun s o ha => ⟨ha, hside s o⟩)

/-- Along every run the books of the Fair class agree with its trees, its assertions hold, and every operation returns
that is not misused. -/
theorem run_fair_consistent (k : Kconfig) (kernel : TaskId → Option KernelClass) (idle : TaskId) (nowNs : Nat)
    (hidle : kernel idle = some .idle) (s : Scheduler)
    (hr : Run (step k) Allowed (new k kernel idle nowNs) s) :
    FairConsistent s ∧
    (∀ key w, ∃ r, dequeueEntityWithWeight s key w = some r) ∧ (∃ r, pickBuddy s = some r) ∧
    (∀ t, ∃ b, peerPreempts s t = some b) ∧
    ∀ o, Allowed s o → ¬ Misuse s o → ∃ r, exec k s o = some r := by
  obtain ⟨h, hi⟩ := run_fairIndex hidle hr
  have hok := h.queue .fair
  refine ⟨hi.consistent h, fun key w => ?_, pickBuddy_total hi hok, peerPreempts_total hi hok, fun o => exec_total h hi⟩
  obtain ⟨r, s', hd, -⟩ := dequeueEntity_total hok key w
  exact ⟨_, hd⟩

/-- Two tasks wait, one of them as the buddy. -/
theorem run_fair_consistent_sample :
    ∃ s, (s.fair.ready = [1, 2] ∧ s.fair.nextBuddy = some 2 ∧ s.fair.totalWeight = 2048) ∧ FairConsistent s ∧
    (∀ key w, ∃ r, dequeueEntityWithWeight s key w = some r) ∧ (∃ r, pickBuddy s = some r) ∧
    (∀ t, ∃ b, peerPreempts s t = some b) ∧
    ∀ o, Allowed s o → ¬ Misuse s o → ∃ r, exec .standard s o = some r := by
  exact (Run.exists_of_exec [.enqueue 1 .new 0, .enqueue 2 (.wake true) 5] (by decide +kernel)).imp fun s h =>
    ⟨h.2, run_fair_consistent .standard sampleKernel 0 0 rfl s h.1⟩

/-- The runner is enqueued a second time; the next interval changes its virtual runtime while it is in the trees. -/
theorem enqueued_runner_breaks_sum : ∃ s, Run (step .standard) (fun _ _ => True) (new .standard sampleKernel 0 0) s ∧
    s.fair.ready = [1] ∧ s.fair.sumWv ≠ (s.fair.ready.map fun t => (s.tasks t).fair.vruntime * weight s t).sum := by
  exact Run.exists_of_exec [.installCurrent 1 0, .enqueue 1 .new 0, .update 1000000 .account] (by decide +kernel)

end XKernel.Sched
