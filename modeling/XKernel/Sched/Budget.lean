import XKernel.Sched.ClassRule
/-!
# When an exhausted Deadline runner is reported

`charge` says once that the runner has spent its budget. Only `update` looks at it, so
an exhausting interval that another operation charges goes unreported.
-/

namespace XKernel.Sched

open Lib List Option Scheduler DeadlineClass

variable {k : Kconfig} {s s' : Scheduler} {t u : TaskId}

def budget (s : Scheduler) (t : TaskId) : Nat := (s.tasks t).deadline.budgetLeftNs

/-! ## Charging the runner -/

/-- The budget after an interval, and whether the interval has spent it. -/
theorem account_self (s : Scheduler) (t : TaskId) (e : Nat) :
    budget (account s t e).1 t = budget s t - e ∧
      ((account s t e).2 = true ↔ 0 < budget s t ∧ budget s t ≤ e) := by
  rw [account_eq, budget, modifyDeadline_self]
  exact ⟨rfl, decide_eq_true_iff⟩

theorem Seated.not_inTrees (h : Seated k s) (hs : s.seats t = .detached) : ¬ InTrees s t := fun hm => by
  cases hs.symm.trans ((DlOk.mem (h.queue .deadline) t).1 hm)

/-- The start of a period is not for the runner, which is in no tree. -/
theorem advanceTo_runner (h : Seated k s) (hs : s.seats t = .detached) (nowNs : Nat) :
    ((s.advanceTo nowNs).tasks t).deadline = (s.tasks t).deadline := by
  have h0 := h.setClock (s.clock.advance nowNs).2
  have hadv := h0.advanced
  have h1 := h0.acts hadv.acts nofun
  exact (((RtClass.advance_acts (h1.queue .rt)).touch.deadline nofun).2 t).trans
    (hadv.kept t fun hc => h.not_inTrees hs (.inr hc.1))

theorem charge_runner (h : Seated k s) (hcurr : s.curr = some t) (hc : (s.tasks t).schedClass = .deadline)
    (nowNs : Nat) :
    budget (s.charge nowNs).1 t = budget s t - (s.clock.advance nowNs).1 ∧
      ((s.charge nowNs).2 = true ↔ 0 < budget s t ∧ budget s t ≤ (s.clock.advance nowNs).1) := by
  obtain ⟨h1, hst1⟩ := advanceTo_seated h nowNs
  have hkeep := advanceTo_runner h (h.curr t hcurr) nowNs
  have hcurr1 : (s.advanceTo nowNs).curr = some t := hst1.curr.trans hcurr
  have hc1 : ((s.advanceTo nowNs).tasks t).schedClass = .deadline := (hst1.schedClass t).trans hc
  unfold charge
  simp only [hcurr1, hc1]
  generalize hs2 : (if SchedClass.deadline ≠ .idle ∧ (s.clock.advance nowNs).1 ≠ 0 then
    (s.advanceTo nowNs).accountRuntime t (s.clock.advance nowNs).1 else s.advanceTo nowNs) = s2
  have hb : budget s2 t = budget s t := by
    have : (s2.tasks t).deadline = ((s.advanceTo nowNs).tasks t).deadline := by
      rw [← hs2]
      split
      · exact ((accountRuntime_acts h1 t _).touch.deadline nofun).2 t
      · rfl
    rw [budget, this, hkeep]
    rfl
  obtain ⟨hleft, hex⟩ := account_self s2 t (s.clock.advance nowNs).1
  rw [hb] at hleft hex
  exact ⟨hleft, hex⟩

/-! ## The decision -/

theorem decision_deadline {kind : UpdateKind} {exhausted : Bool} {d : Decision} (hcurr : s.curr = some t)
    (hc : (s.tasks t).schedClass = .deadline) (he : s.decision kind exhausted = some d) :
    d.resched = true ↔ exhausted = true ∨ s.stop.isSome = true ∨
      kind = .wakeProbe ∧ wakeupPreempts s t = true := by
  have habove : s.higherClassRunnable .deadline = s.stop.isSome := by
    show [SchedClass.stop].any s.hasRunnable = _
    rw [any_cons, any_nil, Bool.or_false]
    rfl
  unfold decision at he
  split at he <;> cases he
  rename_i resched hr
  unfold reschedNeeded at hr
  rw [hcurr] at hr
  simp only [hc, habove] at hr
  show resched = true ↔ _
  split at hr
  · rename_i hor
    cases hr
    rw [Bool.or_eq_true] at hor
    exact iff_of_true rfl (hor.elim .inl fun hs => .inr (.inl hs))
  · rename_i hor
    rw [Bool.or_eq_true, not_or] at hor
    cases kind with
    | account | schedTick =>
      cases hr
      exact iff_of_false Bool.false_ne_true fun hc => hc.elim hor.1 fun hc => hc.elim hor.2 fun hc => nomatch hc.1
    | wakeProbe =>
      rw [← some.inj hr]
      exact ⟨fun hw => .inr (.inr ⟨rfl, hw⟩),
        fun hc => hc.elim (absurd · hor.1) fun hc => hc.elim (absurd · hor.2) And.right⟩

/-- The decision that an operation returns. -/
def Output.decided : Output → Option Decision
  | .decision d | .attr (.ok d) => some d
  | _ => none

/-- The operation asks whether a waiting task is more urgent than the runner. -/
def Op.probes : Op → Bool
  | .update _ .wakeProbe | .enqueue .. | .setAttr .. => true
  | _ => false

def Op.isUpdate : Op → Bool
  | .update .. => true
  | _ => false

/-- What an operation decides is `decision` of the state it leaves. -/
theorem exec_decided {o : Op} {out : Output} {d : Decision} (h : Seated k s) (he : exec k s o = some (out, s'))
    (hd : out.decided = some d) :
    (∃ nowNs kind, o = .update nowNs kind ∧ s' = (s.charge nowNs).1 ∧ s'.decision kind (s.charge nowNs).2 = some d) ∨
    o.isUpdate = false ∧ o.probes = true ∧ s'.decision .wakeProbe false = some d := by
  cases exec_does h he with
  | @update nowNs kind =>
    obtain ⟨⟨d', s1⟩, hop, hx⟩ := map_eq_some_iff.1 he
    cases hx
    cases hd
    unfold update at hop
    simp only at hop
    split at hop <;> cases hop
    exact .inl ⟨nowNs, kind, rfl, rfl, ‹_›⟩
  | enqueue _ hdec | change _ _ _ _ hdec =>
    cases hd
    exact .inr ⟨rfl, rfl, hdec⟩
  | install | absent | dequeue | stealRt | stealFair | pick | refuse => cases hd
  | leave _ hout => rcases hout with rfl | rfl <;> cases hd

/-- The class whose queue the operation may put a task in. -/
def Op.fills (s : Scheduler) : Op → Option SchedClass
  | .enqueue t _ _ => some (s.tasks t).schedClass
  | .setAttr _ attr _ => some attr.schedClass
  | _ => none

/-- No Stop or Deadline task waits, and the operation brings none. -/
def Alone (s : Scheduler) (o : Op) : Prop :=
  (s.stop = none ∧ s.deadline.ready = [] ∧ s.deadline.throttled = []) ∧ ∀ c ∈ o.fills s, c ≠ .stop ∧ c ≠ .deadline

instance (s : Scheduler) (o : Op) : Decidable (Alone s o) := inferInstanceAs (Decidable (_ ∧ _))

theorem Seated.alone_iff (h : Seated k s) : (s.stop = none ∧ s.deadline.ready = [] ∧ s.deadline.throttled = []) ↔
    ∀ u, s.seats u ≠ .stop ∧ s.seats u ≠ .deadline := by
  have hstop : ∀ u, s.stop = some u ↔ s.seats u = .stop := h.queue .stop
  have hdl : ∀ u, InTrees s u ↔ s.seats u = .deadline := DlOk.mem (h.queue .deadline)
  simp only [ne_eq, ← hstop, ← hdl, InTrees, not_or, forall_and, eq_none_iff_forall_ne_some, eq_nil_iff_forall_not_mem]

/-- Then none waits when the operation decides. -/
theorem exec_alone {o : Op} {out : Output} {d : Decision} (h : Seated k s) (ha : Allowed s o) (hq : Alone s o)
    (he : exec k s o = some (out, s')) (hd : out.decided = some d) : s'.stop = none ∧ s'.deadline.ready = [] := by
  obtain ⟨h1, hst⟩ := arrive_seated h o
  have hq1 := hst.seats ▸ h.alone_iff.1 hq.1
  have hput {t : TaskId} {c : SchedClass} (hc : c ≠ .stop ∧ c ≠ .deadline) (u : TaskId) :
      Function.update (arrive k s o).seats t (.fromSchedClass c) u ≠ .stop ∧
        Function.update (arrive k s o).seats t (.fromSchedClass c) u ≠ .deadline := by
    rw [Function.update_apply]
    split
    · cases c <;> simp_all [QueueSeat.fromSchedClass]
    · exact hq1 u
  refine (and_assoc.2 ((exec_seated h ha he).1.alone_iff.2 fun u => ?_)).1
  cases exec_does h he with
  | update => exact hq1 u
  | @enqueue v _ _ _ _ hjoin =>
    obtain ⟨hs, hfree⟩ := arrive_free h ha rfl
    rw [(classEnqueue_seated h1 ⟨.inl hs, rfl, hfree⟩ hs hjoin).2.seats]
    exact hput (hst.schedClass v ▸ hq.2 _ rfl) u
  | change hv hk _ hset =>
    split at hset
    · rw [(attrChanged_seated h1 hv hk beq_iff_eq ‹_› hset).2.2]
      exact hq1 u
    · rw [(switchClass_seated h1 hv hk beq_iff_eq hset).2.2]
      split
      · exact hq1 u
      · exact hput (hq.2 _ rfl) u
  | install | absent | dequeue | stealRt | stealFair | pick | refuse => cases hd
  | leave _ hout => rcases hout with rfl | rfl <;> cases hd

/-- A Deadline runner without budget is reported if the operation is the `update` whose own interval
spent the budget, and otherwise only for the sake of a Stop task or, by the operations that probe, of an
earlier deadline; like the code, which decides last, both look at the queues the operation leaves. If no
such task waits before an allowed operation or comes with it, the `update` is the only one to report. -/
theorem run_resched_iff_spent_by_update (k : Kconfig) (kernel : TaskId → Option KernelClass) (idle : TaskId)
    (nowNs : Nat) (hidle : kernel idle = some .idle) (s : Scheduler)
    (hr : Run (step k) Allowed (new k kernel idle nowNs) s) (o : Op) (out : Output) (s' : Scheduler)
    (he : exec k s o = some (out, s')) (d : Decision) (hd : out.decided = some d) (t : TaskId)
    (hcurr : s'.curr = some t) (hc : (s'.tasks t).schedClass = .deadline) (hb : budget s' t = 0) :
    (d.resched = true ↔ (o.isUpdate = true ∧ 0 < budget s t) ∨ s'.stop.isSome = true ∨
      o.probes = true ∧ wakeupPreempts s' t = true) ∧
    (Allowed s o → Alone s o → (d.resched = true ↔ o.isUpdate = true ∧ 0 < budget s t)) := by
  have h := run_seated hidle hr
  have hiff : d.resched = true ↔ (o.isUpdate = true ∧ 0 < budget s t) ∨ s'.stop.isSome = true ∨
      o.probes = true ∧ wakeupPreempts s' t = true := by
    rcases exec_decided h he hd with ⟨now, kind, rfl, rfl, hdec⟩ | ⟨hup, hprobes, hdec⟩
    · obtain ⟨-, hst⟩ := charge_seated h now
      rw [hst.curr] at hcurr
      obtain ⟨hleft, hex⟩ := charge_runner h hcurr ((hst.schedClass t).symm.trans hc) now
      have hspent : (s.charge now).2 = true ↔ 0 < budget s t := by
        rw [hex]
        omega
      have hkind : (Op.update now kind).probes = true ↔ kind = .wakeProbe := by
        cases kind
        · exact iff_of_false Bool.false_ne_true nofun
        · exact iff_of_false Bool.false_ne_true nofun
        · exact iff_of_true rfl rfl
      rw [decision_deadline (hst.curr.trans hcurr) hc hdec, hspent, hkind]
      exact or_congr_left (and_iff_right rfl).symm
    · rw [decision_deadline hcurr hc hdec, hup, hprobes]
      simp only [Bool.false_eq_true, false_and]
  refine ⟨hiff, fun ha hq => ?_⟩
  obtain ⟨hstop, hready⟩ := exec_alone h ha hq he hd
  simpa [wakeupPreempts, hstop, hready] using hiff

/-- A Deadline task runs, and a Fair task is enqueued at the instant at which the budget ends. -/
def exhaustOps : List Op := [.setAttr 3 sampleDl 0, .installCurrent 3 0]

theorem run_resched_iff_spent_by_update_sample : ∃ s out s' d,
    Run (step .standard) Allowed (new .standard sampleKernel 0 0) s ∧
    exec .standard s (.update 1000000 .account) = some (out, s') ∧ out.decided = some d ∧ s'.curr = some 3 ∧
    budget s' 3 = 0 ∧ (d.resched = true ↔ ((Op.update 1000000 .account).isUpdate = true ∧ 0 < budget s 3) ∨
      s'.stop.isSome = true ∨ (Op.update 1000000 .account).probes = true ∧ wakeupPreempts s' 3 = true) ∧
    (d.resched = true ↔ (Op.update 1000000 .account).isUpdate = true ∧ 0 < budget s 3) := by
  obtain ⟨s, hs, ⟨ha, hq⟩, hx⟩ : ∃ s, Run (step .standard) Allowed (new .standard sampleKernel 0 0) s ∧
      (Allowed s (.update 1000000 .account) ∧ Alone s (.update 1000000 .account)) ∧
      ((exec .standard s (.update 1000000 .account)).any fun r => r.1.decided.isSome ∧ r.2.curr = some 3 ∧
        (r.2.tasks 3).schedClass = .deadline ∧ budget r.2 3 = 0) =
        true := Run.exists_of_exec exhaustOps (by decide +kernel)
  obtain ⟨⟨out, s'⟩, he, hc⟩ := (any_eq_true _ _).1 hx
  obtain ⟨hsome, hcurr, hcls, hb⟩ := of_decide_eq_true hc
  obtain ⟨d, hd⟩ := isSome_iff_exists.1 hsome
  obtain ⟨hiff, halone⟩ :=
    run_resched_iff_spent_by_update .standard sampleKernel 0 0 rfl s hs _ out s' he d hd 3 hcurr hcls hb
  exact ⟨s, out, s', d, hs, he, hd, hcurr, hb, hiff, halone ha hq⟩

/-- The interval that the enqueue of another task charges spends the budget, and no reschedule is asked for. -/
theorem enqueue_hides_exhaustion : ∃ s out s' d,
    Run (step .standard) Allowed (new .standard sampleKernel 0 0) s ∧
    Allowed s (.enqueue 1 .new 1000000) ∧ exec .standard s (.enqueue 1 .new 1000000) = some (out, s') ∧
    out.decided = some d ∧ s'.curr = some 3 ∧ (s'.tasks 3).schedClass = .deadline ∧ budget s' 3 = 0 ∧
      d.resched = false := by
  obtain ⟨s, hs, hh, hx⟩ : ∃ s, Run (step .standard) Allowed (new .standard sampleKernel 0 0) s ∧ held s 1 = false ∧
      ((exec .standard s (.enqueue 1 .new 1000000)).any fun r => r.2.curr = some 3 ∧
        (r.2.tasks 3).schedClass = .deadline ∧
        budget r.2 3 = 0 ∧ (r.1.decided.any fun d => d.resched = false) = true) = true :=
    Run.exists_of_exec exhaustOps (by decide +kernel)
  obtain ⟨⟨out, s'⟩, he, hc⟩ := (any_eq_true _ _).1 hx
  obtain ⟨hcurr, hcls, hb, hdec⟩ := of_decide_eq_true hc
  obtain ⟨d, hd, hresched⟩ := (any_eq_true _ _).1 hdec
  exact ⟨s, out, s', d, hs, hh, he, hd, hcurr, hcls, hb, of_decide_eq_true hresched⟩

end XKernel.Sched
