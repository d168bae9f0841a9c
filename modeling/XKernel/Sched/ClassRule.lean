import XKernel.Sched.Places
/-!
# A rule for invariants of one class

An operation of the scheduler is a sequence of operations of the classes. What holds of
one class (`ClassInv`) has to be kept by the operations of that class only; the others
do not touch its part (`Touch`).
-/

namespace XKernel.Sched

open Lib Function Option DeadlineClass

variable {k : Kconfig} {s s' : Scheduler} {t : TaskId} {d : SchedClass} {I : Scheduler → Prop}

/-- What a caller owes for a task of the class. -/
structure Side where
  enqueue : Scheduler → TaskId → EnqueueKind → Prop
  install : Scheduler → TaskId → Prop
  setAttr : Scheduler → TaskId → SchedAttr → Prop

/-- Nothing is owed. -/
def Side.none : Side := ⟨fun _ _ _ => True, fun _ _ => True, fun _ _ _ => True⟩

/-- The operation meets the conditions, in the state in which it reaches the class. -/
def Side.Meets (σ : Side) (d : SchedClass) (s : Scheduler) : Op → Prop
  | .enqueue t kind nowNs => (s.tasks t).schedClass = d → σ.enqueue (s.charge nowNs).1 t kind
  | .installCurrent t nowNs => (s.tasks t).schedClass = d → σ.install (s.advanceTo nowNs) t
  | .setAttr t attr nowNs =>
    (s.tasks t).schedClass = d → attr.schedClass = d → σ.setAttr (s.charge nowNs).1 t attr
  | _ => True

/-- The operations of the class `d` keep `I`, and `I` is about the class `d` only. -/
structure ClassInv (k : Kconfig) (d : SchedClass) (σ : Side) (I : Scheduler → Prop) : Prop where
  clock : ∀ {s} (c : RqClock), I s → I { s with clock := c }
  frame : ∀ {c s s'}, c ≠ d → Touch c s s' → I s → I s'
  drop : ∀ {s t}, s.curr = some t → (s.tasks t).schedClass ≠ d → I s → I { s with curr := none }
  run : ∀ {s t}, s.curr = none → (s.tasks t).schedClass ≠ d → I s → I { s with curr := some t }
  retag : ∀ {s t} {f}, Seated k s → (s.tasks t).schedClass.isKernelOnly = false → Retags f →
    (s.tasks t).schedClass ≠ d →
    (f (s.tasks t)).schedClass ≠ d → I s → I (s.modify t f)
  advance : ∀ {s}, d = .deadline → Seated k s → I s → I (DeadlineClass.advance s)
  account : ∀ {s t} (e : Nat), Seated k s → s.curr = some t → (s.tasks t).schedClass = d → I s →
    I (s.classAccount t e d).1
  enqueue : ∀ {s t s'} (kind : EnqueueKind), Seated k s → MayJoin d s t → s.seats t = .detached → σ.enqueue s t kind →
    I s → s.classEnqueue t kind d = some s' → I s'
  dequeue : ∀ {s t r s'}, Seated k s → I s → s.classDequeue t d = some (r, s') → I s'
  pickNone : ∀ {s s'}, Seated k s → I s → classPickNext s d = some (none, s') → I s'
  pick : ∀ {s t s'}, Seated k s → s.curr = none → I s → classPickNext s d = some (some t, s') →
    I { s' with curr := some t }
  setCurr : ∀ {s t s'}, Seated k s → s.curr = none → (s.tasks t).schedClass = d → s.seats t = .detached →
    σ.install s t →
    I s → s.classSetCurr t d = some s' → I { s' with curr := some t }
  putPrev : ∀ {s t s'} (reason : LeaveReason), Seated k s → s.curr = some t → (s.tasks t).schedClass = d → I s →
    ({ s with curr := none } : Scheduler).classPutPrev t reason d = some s' → I s'
  attrChanged : ∀ {s t s'} {attr : SchedAttr} {isCurr : Bool}, Seated k s → (s.tasks t).schedClass = d →
    attr.schedClass = d → attr.validate k = .ok () → s.classCanAdmit k t attr d = .ok () →
    (isCurr = true ↔ s.curr = some t) → σ.setAttr s t attr → I s →
    (s.modify t fun x => x.setAttr attr).classAttrChanged t (s.tasks t).attr isCurr d = some s' → I s'
  switchedFrom : ∀ {s t} {attr : SchedAttr} {isCurr : Bool}, Seated k s → (s.tasks t).schedClass = d →
    attr.schedClass ≠ d → s.seats t = .detached → (isCurr = true ↔ s.curr = some t) → I s →
    I (reclass (s.classSwitchedFrom t isCurr d) t attr)
  switchedTo : ∀ {s t} {attr : SchedAttr} {isCurr : Bool}, Seated k s → (s.tasks t).schedClass ≠ d →
    (s.tasks t).schedClass.isKernelOnly = false → attr.schedClass = d → attr.validate k = .ok () →
    s.classCanAdmit k t attr d = .ok () → s.seats t = .detached → (isCurr = true ↔ s.curr = some t) → I s →
    I ((reclass s t attr).classSwitchedTo t isCurr d) ∧
      (isCurr = false → σ.enqueue ((reclass s t attr).classSwitchedTo t isCurr d) t .classChange)

namespace ClassInv

variable {σ : Side} {nowNs : Nat}

theorem advanceTo (hI : ClassInv k d σ I) (hrt : d ≠ .rt) (h : Seated k s) (hi : I s) (nowNs : Nat) :
    I (s.advanceTo nowNs) := by
  have h0 := h.setClock (s.clock.advance nowNs).2
  have hi0 := hI.clock (s.clock.advance nowNs).2 hi
  have ha1 := h0.advanced.acts
  have hi1 : I (DeadlineClass.advance { s with clock := (s.clock.advance nowNs).2 }) := by
    by_cases hd : d = .deadline
    · exact hI.advance hd h0 hi0
    · exact hI.frame (Ne.symm hd) ha1.touch hi0
  have h1 := h0.acts ha1 nofun
  exact hI.frame (Ne.symm hrt) (RtClass.advance_acts (h1.queue .rt)).touch hi1

theorem charge (hI : ClassInv k d σ I) (hd : d = .deadline ∨ d = .fair) (h : Seated k s) (hi : I s) (nowNs : Nat) :
    I (s.charge nowNs).1 := by
  have hrt : d ≠ .rt := by rcases hd with rfl | rfl <;> nofun
  have hidle : d ≠ .idle := by rcases hd with rfl | rfl <;> nofun
  have hi1 := hI.advanceTo hrt h hi nowNs
  obtain ⟨h1, hst1⟩ := advanceTo_seated h nowNs
  unfold Scheduler.charge
  extract_lets elapsed s1
  split
  · exact hi1
  · rename_i t hcurr
    extract_lets c s2
    obtain ⟨h2, hst2, hi2⟩ : Seated k s2 ∧ Still s1 s2 ∧ I s2 := by
      unfold s2
      split
      · have ha := accountRuntime_acts h1 t elapsed
        exact ⟨h1.acts ha nofun, ha.still, hI.frame (Ne.symm hidle) ha.touch hi1⟩
      · exact ⟨h1, .refl _, hi1⟩
    have hcurr2 : s2.curr = some t := hst2.curr.trans hcurr
    by_cases hc : c = d
    · rw [hc]
      exact hI.account elapsed h2 hcurr2 ((hst2.schedClass t).trans hc) hi2
    · exact hI.frame hc (classAccount_acts h2 (h2.curr t hcurr2) elapsed c).1.touch hi2

theorem enqueue_of_class (hI : ClassInv k d σ I) {kind : EnqueueKind} (h : Seated k s) (hi : I s)
    (hs : s.seats t = .detached) (hcurr : s.curr ≠ some t) (hσ : (s.tasks t).schedClass = d → σ.enqueue s t kind)
    (he : s.classEnqueue t kind (s.tasks t).schedClass = some s') : I s' := by
  have hjoin : MayJoin (s.tasks t).schedClass s t := ⟨.inl hs, rfl, hcurr⟩
  by_cases hc : (s.tasks t).schedClass = d
  · rw [hc] at he hjoin
    exact hI.enqueue kind h hjoin hs (hσ hc) hi he
  · exact hI.frame hc (classEnqueue_seated h hjoin hs he).2.touch hi

variable {c : SchedClass}

theorem Taken.touch {r : Option TaskId} (h : Taken c s s' r) : Touch c s s' := by
  cases r with
  | none => exact Acts.touch h
  | some => exact h.2.touch

section

variable (hI : ClassInv k d σ I)
include hI

theorem dequeue_of_class {r : Option TaskId} (h : Seated k s) (hi : I s)
    (he : s.classDequeue t c = some (r, s')) : I s' := by
  by_cases hc : c = d
  · rw [hc] at he
    exact hI.dequeue h hi he
  · exact hI.frame hc (Taken.touch (classDequeue_seated h he).2.1) hi

/-- A class that is asked and has a task runs it. -/
theorem pick_of_class (h : Seated k s) (hcurr : s.curr = none) (hi : I s)
    (hp : classPickNext s c = some (some t, s')) : I { s' with curr := some t } := by
  by_cases hc : c = d
  · rw [hc] at hp
    exact hI.pick h hcurr hi hp
  · obtain ⟨-, ⟨ht, -⟩ | ⟨rfl, hr, rfl⟩⟩ := classPickNext_taken h hp
    · refine hI.run (ht.2.touch.curr.trans hcurr) ?_ (hI.frame hc ht.2.touch hi)
      rw [ht.2.touch.schedClass, h.schedClass ht.1]
      exact hc
    · cases hr
      refine hI.run hcurr ?_ hi
      rw [h.idle]
      exact hc

theorem asked (h : Seated k s) (hi : I s) (ha : Asked s s') : I s' := by
  induction ha with
  | refl => exact hi
  | @tail s1 s2 ha hn ih =>
    obtain ⟨c, hn⟩ := hn
    obtain ⟨h1, -⟩ := Asked.seated h ha
    by_cases hc : c = d
    · rw [hc] at hn
      exact hI.pickNone h1 ih hn
    · obtain ⟨-, ⟨ht, -⟩ | ⟨-, hr, -⟩⟩ := classPickNext_taken h1 hn
      · exact hI.frame hc (Acts.touch ht) ih
      · cases hr

end

variable {attr : SchedAttr}

theorem canAdmit_touch (hc : c ≠ .deadline) (ht : Touch c s s') :
    canAdmit k s' t attr = canAdmit k s t attr := by
  obtain ⟨hd, he⟩ := ht.deadline hc
  have hres : reservingPpm s' = reservingPpm s := by
    funext u
    simp only [reservingPpm, params, ht.attr]
  have hseat : ((s'.tasks t).seat == .deadline) = ((s.tasks t).seat == .deadline) := by
    rw [Bool.eq_iff_iff, beq_iff_eq, beq_iff_eq]
    exact ht.seat_iff (Ne.symm hc) t
  unfold canAdmit isCounted residentLoadPpm treeLoadPpm
  rw [hd, hseat, he, hres]

theorem classCanAdmit_touch {c c' : SchedClass} (hc : c ≠ c') (ht : Touch c s s') :
    s'.classCanAdmit k t attr c' = s.classCanAdmit k t attr c' := by
  cases c' with
  | deadline => exact canAdmit_touch hc ht
  | stop | rt | fair | idle => rfl

section

variable (hI : ClassInv k d σ I)
include hI

section

variable {isCurr : Bool} (h : Seated k s) (hi : I s) (hv : attr.validate k = .ok ())
  (hk : (s.tasks t).schedClass.isKernelOnly = false) (hadm : s.classCanAdmit k t attr attr.schedClass = .ok ())
include h hi hv hk hadm

/-- The change of the class of a task that is in no queue. -/
theorem switched (hs : s.seats t = .detached) (hcurr : isCurr = true ↔ s.curr = some t)
    (hne : (s.tasks t).schedClass ≠ attr.schedClass) :
    I (switched s t attr isCurr (s.tasks t).schedClass) ∧ (attr.schedClass = d → isCurr = false →
      σ.enqueue (Sched.switched s t attr isCurr (s.tasks t).schedClass) t .classChange) := by
  obtain ⟨haf, hf, hsf, hkf, -, ha⟩ := reclassed_seated h hv hk hs isCurr (s.tasks t).schedClass rfl
  have hclsf := haf.touch.schedClass t
  by_cases hnew : attr.schedClass = d
  · have hold : (s.tasks t).schedClass ≠ d := fun hc => hne (hc.trans hnew.symm)
    have hif := hI.frame hold haf.touch hi
    have hadm' : (s.classSwitchedFrom t isCurr (s.tasks t).schedClass).classCanAdmit k t attr d = .ok () := by
      rw [classCanAdmit_touch hold haf.touch, ← hnew]
      exact hadm
    have hcurrf : isCurr = true ↔ (s.classSwitchedFrom t isCurr (s.tasks t).schedClass).curr = some t := by
      rw [haf.touch.curr]
      exact hcurr
    have := hI.switchedTo hf (by rw [hclsf]; exact hold) hkf hnew hv hadm' hsf hcurrf hif
    unfold Sched.switched
    rw [hnew]
    exact ⟨this.1, fun _ => this.2⟩
  · have hi2 : I (reclass (s.classSwitchedFrom t isCurr (s.tasks t).schedClass) t attr) := by
      by_cases hold : (s.tasks t).schedClass = d
      · rw [hold]
        exact hI.switchedFrom h hold hnew hs hcurr hi
      · refine hI.retag hf hkf (Retags.switch attr attr.schedClass) ?_ hnew (hI.frame hold haf.touch hi)
        rw [hclsf]
        exact hold
    exact ⟨hI.frame hnew ha.touch hi2, fun hc => absurd hc hnew⟩

theorem switchClass (hcurr : isCurr = true ↔ s.curr = some t) (hne : (s.tasks t).attr.schedClass ≠ attr.schedClass)
    (he : s.switchClass t attr isCurr = some s') : I s' := by
  rw [← (h.user hk).1] at hne
  rcases switchClass_cases h hv hk hcurr he with ⟨hs, rfl⟩ | ⟨hfalse, -, s1, _, hd, rfl, hu, hput⟩
  · exact (hI.switched h hi hv hk hadm hs hcurr hne).1
  · have hi1 := hI.dequeue_of_class h hi hd
    have hadm1 : s1.classCanAdmit k t attr attr.schedClass = .ok () := by
      rw [classCanAdmit_touch hne hu.touch]
      exact hadm
    rw [← hu.touch.schedClass] at hne
    rw [← hu.touch.curr] at hcurr
    obtain ⟨hi2, hσ⟩ := hI.switched hu.seated hi1 hv hu.user hadm1 hu.detached hcurr hne
    have hcls2 := hu.joins.schedClass
    rw [← hcls2] at hput
    exact hI.enqueue_of_class hu.switched hi2 hu.seat hu.joins.curr (fun hc => hσ (hcls2.symm.trans hc) hfalse) hput

/-- The work of `set_attr` after the checks. -/
theorem changed (hσ : (s.tasks t).schedClass = d → attr.schedClass = d → σ.setAttr s t attr)
    (he : changeAttr s t attr = some s') : I s' := by
  unfold changeAttr at he
  have hcurr : (s.curr == some t) = true ↔ s.curr = some t := beq_iff_eq
  have hcls := (h.user hk).1
  split at he
  · rename_i hsame
    have hcls' := hcls.trans hsame
    by_cases hc : attr.schedClass = d
    · rw [hc] at he hadm
      exact hI.attrChanged h (hcls'.trans hc) hc hv hadm hcurr (hσ (hcls'.trans hc) hc) hi he
    · refine hI.frame hc (classAttrChanged_acts h hcls' hcurr he).touch
        (hI.retag h hk (Retags.setAttr attr) ?_ ?_ hi)
      · rw [hcls']
        exact hc
      · show (s.tasks t).schedClass ≠ d
        rw [hcls']
        exact hc
  · exact hI.switchClass h hi hv hk hadm hcurr ‹_› he

end

section

variable (hd : d = .deadline ∨ d = .fair)
include hd

theorem arrive (h : Seated k s) (hi : I s) (o : Op) : I (arrive k s o) := by
  have hrt : d ≠ .rt := by rcases hd with rfl | rfl <;> nofun
  cases o with
  | installCurrent _ nowNs | pickNext nowNs => exact hI.advanceTo hrt h hi nowNs
  | setAttr t attr nowNs =>
    cases hv : attr.validate k with
    | ok => exact arrive_setAttr hv s t nowNs ▸ hI.charge hd h hi nowNs
    | error => simpa only [Sched.arrive, hv] using hi
  | update nowNs | enqueue _ _ nowNs | dequeue _ nowNs | steal _ nowNs | yieldCurrent nowNs | preemptCurrent nowNs
  | blockCurrent nowNs | migrateCurrent nowNs | exitCurrent nowNs => exact hI.charge hd h hi nowNs

/-- Every operation that meets the conditions keeps the invariant of the class. -/
theorem exec {o : Op} {out : Output} (h : Seated k s) (hi : I s)
    (ha : Allowed s o) (hσ : σ.Meets d s o) (he : exec k s o = some (out, s')) : I s' := by
  have hrt : SchedClass.rt ≠ d := by rcases hd with rfl | rfl <;> nofun
  obtain ⟨h1, hst⟩ := arrive_seated h o
  have hi1 := hI.arrive hd h hi o
  have hfree := fun t => arrive_free h ha (t := t)
  cases exec_does h he with
  | @install t nowNs s2 hnone hset =>
    obtain ⟨hs, -⟩ := hfree t rfl
    by_cases hc : ((Sched.arrive k s (.installCurrent t nowNs)).tasks t).schedClass = d
    · rw [hc] at hset
      exact hI.setCurr h1 hnone hc hs (hσ ((hst.schedClass t).symm.trans hc)) hi1 hset
    · obtain ⟨ha, -⟩ := classSetCurr_acts h1 hs hset
      refine hI.run (ha.touch.curr.trans hnone) ?_ (hI.frame hc ha.touch hi1)
      rw [ha.touch.schedClass]
      exact hc
  | update | absent | refuse => exact hi1
  | @enqueue t _ _ _ _ hput =>
    obtain ⟨hs, hcurr⟩ := hfree t rfl
    exact hI.enqueue_of_class h1 hi1 hs hcurr (fun hc => hσ ((hst.schedClass t).symm.trans hc)) hput
  | dequeue hget => exact hI.dequeue_of_class h1 hi1 hget
  | stealRt hsteal => exact hI.frame hrt (Taken.touch (RtClass.steal_taken (h1.queue .rt) h1.prio_inRange hsteal)) hi1
  | stealFair hsteal hfair =>
    have ht := RtClass.steal_taken (h1.queue .rt) h1.prio_inRange hsteal
    have hi2 := hI.frame hrt (Taken.touch ht) hi1
    -- Fair takes the task it has found as `dequeue` does
    unfold FairClass.steal at hfair
    split at hfair
    · cases hfair
      exact hi2
    · exact hI.dequeue_of_class (c := .fair) (ht.seated h1 nofun) hi2 hfair
  | pick hnone hasked hpick =>
    obtain ⟨h2, hst2, -⟩ := hasked.seated h1
    exact hI.pick_of_class h2 (hst2.curr.trans hnone) (hI.asked h1 hi1 hasked) hpick
  | @leave _ reason t _ _ _ _ hcurr hput =>
    by_cases hc : ((Sched.arrive k s o).tasks t).schedClass = d
    · rw [hc] at hput
      exact hI.putPrev reason h1 hcurr hc hi1 hput
    · have hs := h1.curr t hcurr
      obtain ⟨-, ha⟩ := classPutPrev_seated h1.clearCurr ⟨.inl hs, rfl, nofun⟩ hs rfl (h1.stop t hcurr) hput
      exact hI.frame hc ha.touch (hI.drop hcurr hc hi1)
  | @change t attr nowNs _ _ hv hk hadm hset =>
    refine hI.changed h1 hi1 hv hk hadm (fun hc hnew => ?_) hset
    rw [arrive_setAttr hv]
    exact hσ ((hst.schedClass t).symm.trans hc) hnew

/-- The invariant holds along every run whose operations meet the conditions. -/
theorem run_inv {kernel : TaskId → Option KernelClass}
    {idle : TaskId} (hidle : kernel idle = some .idle) (h0 : I (Scheduler.new k kernel idle nowNs))
    (hr : Run (step k) (fun s o => Allowed s o ∧ σ.Meets d s o) (Scheduler.new k kernel idle nowNs) s) :
    Seated k s ∧ I s := by
  refine hr.inv (fun s => Seated k s ∧ I s) ⟨new_seated k kernel idle nowNs hidle, h0⟩ fun s1 o s2 h hok hs => ?_
  obtain ⟨⟨out, s3⟩, he, rfl⟩ := map_eq_some_iff.1 hs
  exact ⟨(exec_seated h.1 hok.1 he).1, hI.exec hd h.1 h.2 hok.1 hok.2 he⟩

end

end

end ClassInv

end XKernel.Sched
