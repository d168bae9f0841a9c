import XKernel.Sched.SchedulerRuns
/-!
# Where a task is

Along every run of the scheduler a task is in at most one place, its seat names the
queue that holds it, and it leaves a queue only when an operation returns it.
-/

namespace XKernel.Sched

open Lib Function List Option

variable {k : Kconfig} {s s' : Scheduler} {t : TaskId}

/-! ## Places -/

inductive Place where
  | runner
  | stopSlot
  | dlReady
  | dlThrottled
  | rtList (priority : Nat)
  | fairTrees

/-- The seat of the tasks in a place. -/
def Place.seat : Place → QueueSeat
  | .runner => .detached
  | .stopSlot => .stop
  | .dlReady | .dlThrottled => .deadline
  | .rtList _ => .rt
  | .fairTrees => .fair

def At (s : Scheduler) (t : TaskId) : Place → Prop
  | .runner => s.curr = some t
  | .stopSlot => s.stop = some t
  | .dlReady => t ∈ s.deadline.ready
  | .dlThrottled => t ∈ s.deadline.throttled
  | .rtList p => RtClass.inRange p = true ∧ t ∈ s.rt.queues (RtClass.idx p)
  | .fairTrees => t ∈ s.fair.ready

/-- The task runs or waits in some queue. -/
def held (s : Scheduler) (t : TaskId) : Bool :=
  s.curr == some t || s.stop == some t || s.deadline.ready.contains t || s.deadline.throttled.contains t ||
    s.rt.isLinked t || s.fair.ready.contains t

def Queued (s : Scheduler) (t : TaskId) : Prop := ∃ p, p ≠ .runner ∧ At s t p

/-- The task that the caller brings. -/
def Op.brings : Op → Option TaskId
  | .installCurrent t _ | .enqueue t _ _ => some t
  | _ => none

/-- A caller puts a task on the CPU or in a queue only if it is in no place yet. -/
def Allowed (s : Scheduler) (o : Op) : Prop := o.brings.any (held s) = false

instance (s : Scheduler) (o : Op) : Decidable (Allowed s o) := inferInstanceAs (Decidable (_ = _))

/-- The bookkeeping of the run queue agrees with what its queues hold. -/
structure Located (s : Scheduler) : Prop where
  one : ∀ t p q, At s t p → At s t q → p = q
  nodup : s.deadline.ready.Nodup ∧ s.deadline.throttled.Nodup ∧ s.fair.ready.Nodup ∧ s.fair.vruntimeTree.Nodup ∧
    ∀ p, RtClass.inRange p = true → (s.rt.queues (RtClass.idx p)).Nodup
  seat : ∀ t p, At s t p → (s.tasks t).seat = p.seat
  detached : ∀ t, (∀ p, ¬ At s t p) → (s.tasks t).seat = .detached
  schedClass : ∀ t p, At s t p → p ≠ .runner → p.seat = .fromSchedClass (s.tasks t).schedClass
  priority : ∀ t p, At s t (.rtList p) → p = (s.tasks t).rtPriority
  trees : ∀ t, t ∈ s.fair.vruntimeTree ↔ t ∈ s.fair.ready
  occupied : ∀ p, RtClass.inRange p = true → (s.rt.isOccupied p = true ↔ s.rt.queues (RtClass.idx p) ≠ [])
  queued : s.rt.queued = ∑ i ∈ Finset.range rtPrioLevels, (s.rt.queues i).length

section

variable (h : Seated k s)
include h

/-- The seat says in which queue a task is. -/
theorem Seated.at_seat {p : Place} (ha : At s t p) : s.seats t = p.seat := by
  cases p with
  | runner => exact h.curr t ha
  | stopSlot => exact (h.queue .stop t).1 ha
  | dlReady => exact (DlOk.mem (h.queue .deadline) t).1 (.inl ha)
  | dlThrottled => exact (DlOk.mem (h.queue .deadline) t).1 (.inr ha)
  | rtList => exact ((RtOk.mem (h.queue .rt) _ t).1 ha.2).1
  | fairTrees => exact (FairOk.mem (h.queue .fair) t).1 ha

theorem Seated.at_rt {p : Nat} (ha : At s t (.rtList p)) : p = s.prio t := by
  obtain ⟨hs, hi⟩ := (RtOk.mem (h.queue .rt) _ t).1 ha.2
  have hp := inRange_iff.1 (h.prio_inRange t hs)
  have hp' := inRange_iff.1 ha.1
  unfold RtClass.idx at hi
  omega

theorem Seated.queued_iff (t : TaskId) : Queued s t ↔ s.seats t ≠ .detached := by
  constructor
  · rintro ⟨p, hp, ha⟩
    rw [h.at_seat ha]
    cases p with
    | runner => exact absurd rfl hp
    | stopSlot | dlReady | dlThrottled | rtList | fairTrees => exact fun hc => nomatch hc
  · intro hne
    have hs := h.seat t hne
    cases hc : (s.tasks t).schedClass with rw [hc] at hs
    | stop =>
      exact ⟨.stopSlot, nofun, (h.queue .stop t).2 hs⟩
    | deadline =>
      rcases (DlOk.mem (h.queue .deadline) t).2 hs with hm | hm
      · exact ⟨.dlReady, nofun, hm⟩
      · exact ⟨.dlThrottled, nofun, hm⟩
    | rt =>
      exact ⟨.rtList (s.prio t), nofun, h.prio_inRange t hs, (RtOk.mem (h.queue .rt) _ t).2 ⟨hs, rfl⟩⟩
    | fair =>
      exact ⟨.fairTrees, nofun, (FairOk.mem (h.queue .fair) t).2 hs⟩
    | idle =>
      exact absurd hs (h.queue .idle t)

theorem Seated.located : Located s where
  one t p q hp hq := by
    have hseat : p.seat = q.seat := (h.at_seat hp).symm.trans (h.at_seat hq)
    have hdl := (DlOk.toDlTrees (h.queue .deadline)).apart t
    cases p <;> cases q <;> try first | rfl | (cases hseat; done)
    · exact absurd hq (hdl hp)
    · exact absurd hp (hdl hq)
    · rw [h.at_rt hp, h.at_rt hq]
  nodup := ⟨(DlOk.toDlTrees (h.queue .deadline)).ready.nodup, (DlOk.toDlTrees (h.queue .deadline)).throttled.nodup,
    (FairOk.ready (h.queue .fair)).nodup, (FairOk.vruntime (h.queue .fair)).nodup,
    fun _ _ => RtOk.nodup (h.queue .rt) _⟩
  seat t p ha := h.at_seat ha
  detached t hn := by
    by_contra hne
    obtain ⟨p, -, ha⟩ := (h.queued_iff t).2 hne
    exact hn p ha
  schedClass t p ha hp := by
    have hne : s.seats t ≠ .detached := (h.queued_iff t).1 ⟨p, hp, ha⟩
    rw [← h.at_seat ha]
    exact h.seat t hne
  priority t p ha := h.at_rt ha
  trees t := (FairOk.vmem (h.queue .fair) t).trans (FairOk.mem (h.queue .fair) t).symm
  occupied p hp := by
    rw [isOccupied_eq]
    exact RtOk.occupied (h.queue .rt) _ (idx_lt hp)
  queued := RtOk.queued (h.queue .rt)

/-- A task that is in no place has no seat. -/
theorem Seated.detached_of_held (hh : held s t = false) : s.seats t = .detached ∧ s.curr ≠ some t := by
  simp only [held, Bool.or_eq_false_iff, beq_eq_false_iff_ne, contains_eq_mem, decide_eq_false_iff_not] at hh
  obtain ⟨⟨⟨⟨⟨hcurr, hstop⟩, hready⟩, hthr⟩, hrt⟩, hfair⟩ := hh
  refine ⟨?_, hcurr⟩
  by_contra hne
  obtain ⟨p, hp, ha⟩ := (h.queued_iff t).2 hne
  cases p with
  | runner => exact hp rfl
  | stopSlot => exact hstop ha
  | dlReady => exact hready ha
  | dlThrottled => exact hthr ha
  | rtList q =>
    have : s.rt.isLinked t = true :=
      any_eq_true.2 ⟨RtClass.idx q, mem_range.2 (idx_lt ha.1), decide_eq_true ha.2⟩
    rw [hrt] at this
    cases this
  | fairTrees => exact hfair ha

end

/-! ## Steps -/

/-- The operations that hand a queued task to their caller. -/
def Op.takes : Op → Bool
  | .dequeue .. | .steal .. | .pickNext .. => true
  | _ => false

/-- The operation puts the task in a queue. -/
def Puts (s : Scheduler) (t : TaskId) : Op → Prop
  | .enqueue u _ _ => u = t
  | .yieldCurrent _ | .preemptCurrent _ => s.curr = some t ∧ (s.tasks t).schedClass ≠ .idle
  | _ => False

/-- A queued task stays queued until an operation returns it. -/
structure Kept (s : Scheduler) (o : Op) (out : Output) (s' : Scheduler) : Prop where
  stays : ∀ t, Queued s t → Queued s' t ∨ o.takes = true ∧ out = .task (some t)
  put : ∀ t, Puts s t o → Queued s' t

theorem takeSeat_kept {r : Option TaskId} (h : s'.seats = takeSeat s r) (hne : s.seats t ≠ .detached) :
    s'.seats t ≠ .detached ∨ r = some t := by
  rw [h]
  cases r with
  | none => exact .inl hne
  | some u =>
    by_cases hu : t = u
    · exact .inr (congrArg some hu.symm)
    · left
      rw [takeSeat, update_of_ne hu]
      exact hne

/-! ## What an operation does -/

/-- The state in which an operation reaches the classes. -/
def arrive (k : Kconfig) (s : Scheduler) : Op → Scheduler
  | .installCurrent _ nowNs | .pickNext nowNs => s.advanceTo nowNs
  | .setAttr _ attr nowNs => match attr.validate k with
    | .ok () => (s.charge nowNs).1
    | .error _ => s
  | .update nowNs _ | .enqueue _ _ nowNs | .dequeue _ nowNs | .steal _ nowNs | .yieldCurrent nowNs |
    .preemptCurrent nowNs
  | .blockCurrent nowNs | .migrateCurrent nowNs | .exitCurrent nowNs => (s.charge nowNs).1

theorem arrive_setAttr {attr : SchedAttr} (hv : attr.validate k = .ok ()) (s : Scheduler) (t : TaskId) (nowNs : Nat) :
    arrive k s (.setAttr t attr nowNs) = (s.charge nowNs).1 := by
  simp only [arrive, hv]

def Op.leaves : Op → Option LeaveReason
  | .yieldCurrent _ => some .yield
  | .preemptCurrent _ => some .preempt
  | .blockCurrent _ => some .block
  | .migrateCurrent _ => some .migrate
  | .exitCurrent _ => some .exit
  | _ => none

/-- Some classes were asked and had no task. -/
def Asked : Scheduler → Scheduler → Prop := Relation.ReflTransGen fun s s' => ∃ c, classPickNext s c = some (none, s')

/-- What an operation does with the classes. -/
inductive Does (k : Kconfig) (s : Scheduler) : Op → Output → Scheduler → Prop
  | install {t nowNs s'} (hnone : s.curr = none) (hset : s.classSetCurr t (s.tasks t).schedClass = some s') :
      Does k s (.installCurrent t nowNs) .unit { s' with curr := some t }
  | update {nowNs kind d} : Does k s (.update nowNs kind) (.decision d) s
  | enqueue {t kind nowNs s' d} (hput : s.classEnqueue t kind (s.tasks t).schedClass = some s')
      (hd : s'.decision .wakeProbe false = some d) : Does k s (.enqueue t kind nowNs) (.decision d) s'
  | absent {t nowNs} : Does k s (.dequeue t nowNs) (.task none) s
  | dequeue {t nowNs r s'} (hget : s.classDequeue t (s.tasks t).schedClass = some (r, s')) :
      Does k s (.dequeue t nowNs) (.task r) s'
  | stealRt {want nowNs t asked s'} (hrt : RtClass.steal want s = (some t, asked, s')) :
      Does k s (.steal want nowNs) (.task (some t)) s'
  | stealFair {want nowNs asked s₁ r s'} (hrt : RtClass.steal want s = (none, asked, s₁))
      (hfair : FairClass.steal want asked s₁ (s₁.currFor .fair) = some (r, s')) :
      Does k s (.steal want nowNs) (.task r) s'
  | pick {nowNs s₁ c t s'} (hnone : s.curr = none) (hasked : Asked s s₁)
      (hpick : classPickNext s₁ c = some (some t, s')) :
      Does k s (.pickNext nowNs) (.task (some t)) { s' with curr := some t }
  | leave {o reason t out s'} (ho : o.leaves = some reason) (hout : out = .unit ∨ out = .task (some t))
      (hcurr : s.curr = some t)
      (hput : ({ s with curr := none } : Scheduler).classPutPrev t reason (s.tasks t).schedClass = some s') :
      Does k s o out s'
  | refuse {t attr nowNs e} : Does k s (.setAttr t attr nowNs) (.attr (.error e)) s
  | change {t attr nowNs s' d} (hv : attr.validate k = .ok ()) (hk : (s.tasks t).schedClass.isKernelOnly = false)
      (hadm : s.classCanAdmit k t attr attr.schedClass = .ok ())
      (hset : (if (s.tasks t).attr.schedClass = attr.schedClass then
          (s.modify t fun x => x.setAttr attr).classAttrChanged t (s.tasks t).attr (s.curr == some t) attr.schedClass
        else s.switchClass t attr (s.curr == some t)) = some s') (hd : s'.decision .wakeProbe false = some d) :
      Does k s (.setAttr t attr nowNs) (.attr (.ok d)) s'

theorem leave_does {nowNs : Nat} {reason : LeaveReason} {o : Op} {out : Output}
    (he : s.leave nowNs reason = some (t, s'))
    (ho : o.leaves = some reason) (hout : out = .unit ∨ out = .task (some t)) : Does k (s.charge nowNs).1 o out s' := by
  unfold Scheduler.leave at he
  simp only at he
  split at he
  · cases he
  rename_i t' hcurr
  split at he <;> cases he
  exact .leave ho hout hcurr ‹_›

section

variable (h : Seated k s)
include h

theorem arrive_seated (o : Op) : Seated k (arrive k s o) ∧ Still s (arrive k s o) := by
  cases o with
  | installCurrent _ nowNs | pickNext nowNs => exact advanceTo_seated h nowNs
  | setAttr t attr nowNs =>
    cases hv : attr.validate k with
    | ok => exact arrive_setAttr hv s t nowNs ▸ charge_seated h nowNs
    | error => simpa only [arrive, hv] using ⟨h, Still.refl s⟩
  | update nowNs | enqueue _ _ nowNs | dequeue _ nowNs | steal _ nowNs | yieldCurrent nowNs | preemptCurrent nowNs
  | blockCurrent nowNs | migrateCurrent nowNs | exitCurrent nowNs => exact charge_seated h nowNs

/-- The task that the caller brings is in no place when the operation reaches the classes. -/
theorem arrive_free {o : Op} (ha : Allowed s o) (ht : o.brings = some t) :
    (arrive k s o).seats t = .detached ∧ (arrive k s o).curr ≠ some t := by
  rw [Allowed, ht] at ha
  rw [(arrive_seated h o).2.seats, (arrive_seated h o).2.curr]
  exact h.detached_of_held ha

theorem exec_does {o : Op} {out : Output} (he : exec k s o = some (out, s')) : Does k (arrive k s o) o out s' := by
  have hstill := (arrive_seated h o).2.curr
  cases o with obtain ⟨r, hop, hx⟩ := map_eq_some_iff.1 he
  | installCurrent =>
    cases hx
    unfold Scheduler.installCurrent at hop
    split at hop
    · cases hop
    rename_i hnone
    simp only at hop
    split at hop <;> cases hop
    exact .install (hstill.trans (not_isSome_iff_eq_none.1 hnone)) ‹_›
  | update =>
    obtain ⟨d, s1⟩ := r
    cases hx
    unfold Scheduler.update at hop
    simp only at hop
    split at hop <;> cases hop
    exact .update
  | enqueue =>
    obtain ⟨d, s1⟩ := r
    cases hx
    unfold Scheduler.enqueue at hop
    simp only at hop
    split at hop
    · cases hop
    rename_i hput
    split at hop <;> cases hop
    exact .enqueue hput ‹_›
  | dequeue =>
    obtain ⟨r, s1⟩ := r
    cases hx
    unfold Scheduler.dequeue at hop
    simp only at hop
    split at hop
    · cases hop
      exact .absent
    · exact .dequeue hop
  | steal =>
    obtain ⟨r, s1⟩ := r
    cases hx
    unfold Scheduler.steal at hop
    simp only at hop
    split at hop
    · cases hop
      exact .stealRt ‹_›
    · exact .stealFair ‹_› hop
  | pickNext nowNs =>
    obtain ⟨t, s1⟩ := r
    cases hx
    unfold Scheduler.pickNext at hop
    split at hop
    · cases hop
    rename_i hcurr
    have hnone := hstill.trans (not_isSome_iff_eq_none.1 hcurr)
    have hasked : Asked (s.advanceTo nowNs) (s.advanceTo nowNs) := .refl
    simp only at hop
    -- the classes are asked in the order of their rank
    split at hop
    · cases hop
      exact .pick (c := .stop) hnone hasked (congrArg some ‹_›)
    have hasked := hasked.tail ⟨.stop, congrArg some ‹_›⟩
    split at hop
    · cases hop
      exact .pick (c := .deadline) hnone hasked (congrArg some ‹_›)
    have hasked := hasked.tail ⟨.deadline, congrArg some ‹_›⟩
    split at hop
    · cases hop
      exact .pick (c := .rt) hnone hasked (congrArg some ‹_›)
    have hasked := hasked.tail ⟨.rt, congrArg some ‹_›⟩
    split at hop
    · cases hop
    · cases hop
      exact .pick (c := .fair) hnone hasked ‹_›
    · cases hop
      exact .pick (c := .idle) hnone (hasked.tail ⟨.fair, ‹_›⟩) rfl
  | yieldCurrent | preemptCurrent | blockCurrent | migrateCurrent =>
    obtain ⟨t, s1⟩ := r
    cases hx
    exact leave_does hop rfl (.inl rfl)
  | exitCurrent =>
    obtain ⟨t, s1⟩ := r
    cases hx
    exact leave_does hop rfl (.inr rfl)
  | setAttr =>
    obtain ⟨r, s1⟩ := r
    cases hx
    unfold Scheduler.setAttr at hop
    split at hop
    · rename_i e hv
      cases hop
      simp only [arrive, hv]
      exact .refuse
    rename_i hv
    rw [arrive_setAttr hv]
    simp only at hop
    split at hop
    · cases hop
      exact .refuse
    rename_i hk
    split at hop
    · cases hop
      exact .refuse
    rename_i hadm
    split at hop
    · cases hop
    rename_i hset
    split at hop <;> cases hop
    exact .change hv (Bool.eq_false_iff.2 hk) hadm hset ‹_›

/-- The classes that had no task have changed nothing that shows outside, nor the trees of Deadline. -/
theorem Asked.seated (ha : Asked s s') : Seated k s' ∧ Still s s' ∧ s'.deadline = s.deadline := by
  induction ha with
  | refl => exact ⟨h, .refl s, rfl⟩
  | tail _ hn ih =>
    obtain ⟨c, hn⟩ := hn
    obtain ⟨h1, hst, hdl⟩ := ih
    obtain ⟨h2, ⟨ht, -⟩ | ⟨-, hr, -⟩⟩ := classPickNext_taken h1 hn
    · refine ⟨h2, hst.trans (Acts.still ht), hdl ▸ ?_⟩
      by_cases hc : c = .deadline
      · rw [hc] at hn
        rw [DlOk.pickNext_none (h1.queue .deadline) (some.inj hn)]
      · exact ((Acts.touch ht).deadline hc).1
    · cases hr

/-- What an operation does keeps the tasks where their seats say, and loses none. -/
theorem Does.seated {o : Op} {out : Output} (hfree : ∀ t, o.brings = some t → s.seats t = .detached ∧ s.curr ≠ some t)
    (hd : Does k s o out s') :
    Seated k s' ∧ (∀ t, s.seats t ≠ .detached → s'.seats t ≠ .detached ∨ o.takes = true ∧ out = .task (some t)) ∧
      ∀ t, Puts s t o → s'.seats t ≠ .detached := by
  have htaken : ∀ {s1 : Scheduler} {r}, s1.seats = takeSeat s r → ∀ u, s.seats u ≠ .detached →
      s1.seats u ≠ .detached ∨ true = true ∧ Output.task r = .task (some u) := fun hs u hu =>
    (takeSeat_kept hs hu).imp_right fun hr => ⟨rfl, congrArg Output.task hr⟩
  cases hd with
  | @install t _ s1 hnone hset =>
    obtain ⟨hs, -⟩ := hfree t rfl
    obtain ⟨ha, hstop, hnone⟩ := classSetCurr_acts h hs hset
    refine ⟨(h.acts_of_stop ha hstop).setCurr ?_ fun hc => hnone ?_, fun u hu => .inl ?_, nofun⟩
    · rw [ha.seats]
      exact hs
    · rw [ha.touch.schedClass] at hc
      exact hc
    · show s1.seats u ≠ _
      rw [ha.seats]
      exact hu
  | update | absent | refuse => exact ⟨h, fun _ => .inl, nofun⟩
  | @enqueue t _ _ _ _ hput =>
    obtain ⟨hs, hcurr⟩ := hfree t rfl
    obtain ⟨h', ha⟩ := classEnqueue_seated h ⟨.inl hs, rfl, hcurr⟩ hs hput
    refine ⟨h', fun u hu => .inl ?_, fun u hu => ?_⟩
    · rw [ha.seats, update_apply]
      split
      · exact fromSchedClass_ne_detached _
      · exact hu
    · rw [← show t = u from hu, ha.seats, update_self]
      exact fromSchedClass_ne_detached _
  | dequeue hget =>
    obtain ⟨h', ht, -⟩ := classDequeue_seated h hget
    exact ⟨h', htaken ht.seats_eq, nofun⟩
  | stealRt hrt =>
    have ht := RtClass.steal_taken (h.queue .rt) h.prio_inRange hrt
    exact ⟨ht.seated h nofun, htaken ht.seats_eq, nofun⟩
  | stealFair hrt hfair =>
    have hnone := RtClass.steal_taken (h.queue .rt) h.prio_inRange hrt
    have h1 := hnone.seated h nofun
    have ht := FairClass.steal_taken (h1.queue .fair) hfair
    refine ⟨ht.seated h1 nofun, htaken (ht.seats_eq.trans ?_), nofun⟩
    exact takeSeat_congr (Acts.seats hnone) _
  | pick hnone hasked hpick =>
    obtain ⟨h1, hst, -⟩ := hasked.seated h
    obtain ⟨h', hs⟩ := classPickNext_run h1 hpick
    exact ⟨h', htaken (hs.trans (takeSeat_congr hst.seats _)), nofun⟩
  | @leave o reason t _ _ ho _ hcurr hput =>
    have hs : s.seats t = .detached := h.curr t hcurr
    obtain ⟨h', ha⟩ := classPutPrev_seated h.clearCurr ⟨.inl hs, rfl, nofun⟩ hs rfl (h.stop t hcurr) hput
    rw [ha.seats]
    unfold seatsAfter
    refine ⟨h', fun u hu => .inl ?_, fun u hu => ?_⟩
    · split
      · rw [update_apply]
        split
        · exact fromSchedClass_ne_detached _
        · exact hu
      · exact hu
    · obtain ⟨hr, hu, hc⟩ : (reason = .yield ∨ reason = .preempt) ∧ s.curr = some u ∧
          (s.tasks u).schedClass ≠ .idle := by
        cases o with
        | yieldCurrent => exact ⟨.inl (some.inj ho).symm, hu⟩
        | preemptCurrent => exact ⟨.inr (some.inj ho).symm, hu⟩
        | blockCurrent | migrateCurrent | exitCurrent => exact hu.elim
        | installCurrent | update | enqueue | dequeue | steal | pickNext | setAttr => cases ho
      obtain rfl : t = u := some.inj (hcurr.symm.trans hu)
      rw [if_pos ⟨hr, hc⟩, update_self]
      exact fromSchedClass_ne_detached _
  | change hv hk _ hset =>
    obtain ⟨h', hs⟩ := changed_seated h hv hk hset
    exact ⟨h', fun u hu => .inl fun hc => hu ((hs u).1 hc), nofun⟩

/-- Every allowed operation keeps the tasks where their seats say, and loses none. -/
theorem exec_seated {o : Op} {out : Output} (ha : Allowed s o) (he : exec k s o = some (out, s')) :
    Seated k s' ∧ (∀ t, s.seats t ≠ .detached → s'.seats t ≠ .detached ∨ o.takes = true ∧ out = .task (some t)) ∧
      ∀ t, Puts s t o → s'.seats t ≠ .detached := by
  obtain ⟨h1, hst⟩ := arrive_seated h o
  obtain ⟨h', hkeep, hput⟩ := (exec_does h he).seated h1 fun t ht => arrive_free h ha ht
  refine ⟨h', fun t => hst.seats ▸ hkeep t, fun t ht => hput t ?_⟩
  cases o with
  | enqueue => exact ht
  | yieldCurrent | preemptCurrent =>
    unfold Puts
    rw [hst.curr, hst.schedClass]
    exact ht
  | installCurrent | update | dequeue | steal | pickNext | blockCurrent | migrateCurrent | exitCurrent | setAttr =>
    exact ht

end

theorem new_tasks (k : Kconfig) (kernel : TaskId → Option KernelClass) (idle : TaskId) (nowNs : Nat) (t : TaskId) :
    (Scheduler.new k kernel idle nowNs).tasks t = (kernel t).elim (.new k) (.newKernel k) := by
  unfold Scheduler.new
  cases hk : kernel t <;> simp [hk]

theorem new_seated (k : Kconfig) (kernel : TaskId → Option KernelClass) (idle : TaskId) (nowNs : Nat)
    (hidle : kernel idle = some .idle) : Seated k (Scheduler.new k kernel idle nowNs) := by
  have hseat : ∀ t, ((Scheduler.new k kernel idle nowNs).tasks t).seat = .detached := by
    intro t
    rw [new_tasks]
    cases kernel t <;> rfl
  have hne : ∀ t c, ((Scheduler.new k kernel idle nowNs).tasks t).seat ≠ .fromSchedClass c := by
    intro t c
    rw [hseat]
    exact (fromSchedClass_ne_detached c).symm
  refine ⟨⟨fun t ht => absurd (hseat t) ht, fun t => ?_, by rintro _ ⟨⟩, by rintro _ ⟨⟩, ?_⟩, fun c => ?_⟩
  · rw [new_tasks]
    cases kernel t with
    | none => exact .inr ⟨rfl, rfl⟩
    | some c =>
      left
      cases c <;> rfl
  · show ((Scheduler.new k kernel idle nowNs).tasks idle).schedClass = .idle
    rw [new_tasks, hidle]
    rfl
  · cases c with
    | stop => exact fun t => iff_of_false (by rintro ⟨⟩) (hne t .stop)
    | deadline =>
      have hin : ∀ t, ¬ InTrees (Scheduler.new k kernel idle nowNs) t := fun t hc => hc.elim not_mem_nil not_mem_nil
      exact ⟨⟨by rintro _ ⟨⟩, .nil, .nil, fun t ht => absurd ht (hin t), fun t _ ht => absurd ht (hin t)⟩,
        fun t => iff_of_false (hin t) (hne t .deadline)⟩
    | rt =>
      refine ⟨fun i t => iff_of_false not_mem_nil fun hc => hne t .rt hc.1, fun _ => .nil, fun i _ => ?_, ?_⟩
      · refine iff_of_false ?_ fun hc => hc rfl
        show ¬ (0 : BitVec 128).getLsbD i = true
        simp
      · show 0 = ∑ i ∈ Finset.range rtPrioLevels, ([] : List TaskId).length
        simp
    | fair =>
      exact ⟨fun t => iff_of_false not_mem_nil (hne t .fair), fun t => iff_of_false not_mem_nil (hne t .fair), .nil,
        .nil, fun t ht => absurd ht (hne t .fair)⟩
    | idle => exact fun t => hne t .idle

theorem run_seated {kernel : TaskId → Option KernelClass} {idle : TaskId} {nowNs : Nat}
    (hidle : kernel idle = some .idle)
    (hr : Run (step k) Allowed (Scheduler.new k kernel idle nowNs) s) : Seated k s := by
  refine hr.inv (Seated k) (new_seated k kernel idle nowNs hidle) fun s1 o s2 h ha hs => ?_
  obtain ⟨⟨out, s3⟩, he, rfl⟩ := map_eq_some_iff.1 hs
  exact (exec_seated h ha he).1

/-- No task is lost or duplicated. -/
theorem run_no_task_lost (k : Kconfig) (kernel : TaskId → Option KernelClass) (idle : TaskId) (nowNs : Nat)
    (hidle : kernel idle = some .idle) (s : Scheduler)
    (hr : Run (step k) Allowed (Scheduler.new k kernel idle nowNs) s) :
    Located s ∧ ∀ o out s', Allowed s o → exec k s o = some (out, s') → Kept s o out s' := by
  have h := run_seated hidle hr
  refine ⟨h.located, fun o out s' ha he => ?_⟩
  obtain ⟨h', hstays, hput⟩ := exec_seated h ha he
  refine ⟨fun t ht => ?_, fun t ht => (h'.queued_iff t).2 (hput t ht)⟩
  rw [h'.queued_iff]
  exact hstays t ((h.queued_iff t).1 ht)

/-- A run through all classes: a Fair, a realtime and a Deadline task, with class changes. -/
def sampleKernel (t : TaskId) : Option KernelClass := if t = 0 then some .idle else if t = 9 then some .stop else none

def sampleRt : SchedAttr := ⟨.rr, .default, ⟨50, by decide⟩, none⟩

def sampleDl : SchedAttr := ⟨.deadline, .default, .none, some ⟨1000000, 10000000, 10000000⟩⟩

def sampleOps : List Op :=
  [.enqueue 1 .new 0, .enqueue 2 .new 5, .enqueue 3 .new 7, .setAttr 2 sampleRt 10, .setAttr 3 sampleDl 20,
    .pickNext 30, .enqueue 9 .new 40, .preemptCurrent 2000000, .pickNext 2000001, .yieldCurrent 2000002]

theorem run_no_task_lost_sample : ∃ s, Run (step .standard) Allowed (Scheduler.new .standard sampleKernel 0 0) s ∧
    (s.stop = some 9 ∧ s.deadline.throttled = [3] ∧ s.rt.queues 49 = [2] ∧ s.fair.ready = [1]) ∧ Located s ∧
    ∀ o out s', Allowed s o → exec .standard s o = some (out, s') → Kept s o out s' := by
  exact (Run.exists_of_exec sampleOps (by decide +kernel)).imp fun s h =>
    ⟨h.1, h.2, run_no_task_lost .standard sampleKernel 0 0 rfl s h.1⟩

/-- A runner of the Idle class that yields is in no place afterwards. -/
theorem idle_yield_not_queued : ∃ s s', Run (step .standard) Allowed (Scheduler.new .standard sampleKernel 0 0) s ∧
    s.curr = some 0 ∧ step .standard s (.yieldCurrent 1) = some s' ∧ held s' 0 = false := by
  obtain ⟨s, hs, hcurr, hc⟩ : ∃ s, Run (step .standard) Allowed (Scheduler.new .standard sampleKernel 0 0) s ∧
      s.curr = some 0 ∧ ((step .standard s (.yieldCurrent 1)).any fun s' => held s' 0 = false) = true :=
    Run.exists_of_exec [.pickNext 0] (by decide +kernel)
  obtain ⟨s', hs', hh⟩ := (any_eq_true _ _).1 hc
  exact ⟨s, s', hs, hcurr, hs', of_decide_eq_true hh⟩

end XKernel.Sched
