import XKernel.Sched.Queues
/-!
# The Fair trees

What each operation of the class does to the trees and the seats. Most of the class
works on a task that is in no tree (`Offtree`); only `enqueue_tree` and
`dequeue_entity` change the trees.
-/

namespace XKernel.Sched

open Lib FairClass Function FairClass

variable {s s' s'' : Scheduler} {t u : TaskId} {f : FairEntity → FairEntity}

/-! ## Work outside the trees -/

/-- Only the Fair part of `t` changes, and not its weight. The class may forget the buddy. -/
structure Offtree (t : TaskId) (s s' : Scheduler) : Prop where
  touch : Touch .fair s s'
  other : ∀ u, u ≠ t → s'.tasks u = s.tasks u
  seats : s'.seats = s.seats
  fair : ∃ m b y, s'.fair = { s.fair with minVruntime := m, nextBuddy := b, hasSyncWake := y } ∧
    ∀ u, b = some u → s.fair.nextBuddy = some u
  weight : ∀ u, (s'.tasks u).fair.weight = (s.tasks u).fair.weight

/-- Neither the trees nor their members change. -/
theorem FairOk.congr (h : FairOk s) (hs : s'.seats = s.seats) (hr : s'.fair.ready = s.fair.ready)
    (hv : s'.fair.vruntimeTree = s.fair.vruntimeTree) (hn : s'.fair.nextEnqueueId = s.fair.nextEnqueueId)
    (hne : ∀ u, s.seats u = .fair → s'.tasks u = s.tasks u) : FairOk s' := by
  have hseat : ∀ u, (s'.tasks u).seat = (s.tasks u).seat := congrFun hs
  refine h.mono (fun u => ?_) (fun u => ?_) (by rw [hr]) (by rw [hv]) hn.ge fun u hu => by rw [hne u hu]
  · rw [hr, hseat]
    exact h.mem u
  · rw [hv, hseat]
    exact h.vmem u

namespace Offtree

theorem refl (t : TaskId) (s : Scheduler) : Offtree t s s :=
  ⟨.refl _ s, fun _ _ => rfl, rfl, ⟨_, _, _, rfl, fun _ => id⟩, fun _ => rfl⟩

theorem trans (h : Offtree t s s') (h' : Offtree t s' s'') : Offtree t s s'' := by
  obtain ⟨m, b, y, hf, hb⟩ := h.fair
  obtain ⟨m', b', y', hf', hb'⟩ := h'.fair
  rw [hf] at hf' hb'
  exact ⟨h.touch.trans h'.touch, fun u hu => (h'.other u hu).trans (h.other u hu), h'.seats.trans h.seats,
    ⟨m', b', y', hf', fun u hu => hb u (hb' u hu)⟩, fun u => (h'.weight u).trans (h.weight u)⟩

theorem modifyFair (s : Scheduler) (t : TaskId) (hf : ∀ e, (f e).weight = e.weight) : Offtree t s (s.modifyFair t f) :=
  ⟨.modifyFair s t f, fun u hu => by rw [Scheduler.modifyFair, Scheduler.modify_of_ne hu], s.seats_modifyFair t f,
    ⟨_, _, _, rfl, fun _ => id⟩,
    s.modify_field t (fun x => { x with fair := f x.fair }) (g := fun x => x.fair.weight) fun _ => hf _⟩

theorem setFair (t : TaskId) {m : Int} {b : Option TaskId} {y : Bool}
    (hb : ∀ u, b = some u → s.fair.nextBuddy = some u) :
    Offtree t s { s with fair := { s.fair with minVruntime := m, nextBuddy := b, hasSyncWake := y } } :=
  ⟨.setFair s _, fun _ _ => rfl, rfl, ⟨m, b, y, rfl, hb⟩, fun _ => rfl⟩

theorem acts_of (h : Offtree t s s') (hok : ClassOk s .fair) (hne : ∀ u, s.seats u = .fair → s'.tasks u = s.tasks u) :
    Acts .fair s s' s.seats := by
  obtain ⟨m, b, y, hf, -⟩ := h.fair
  exact ⟨h.touch, FairOk.congr hok h.seats (by rw [hf]) (by rw [hf]) (by rw [hf]) hne, h.seats⟩

/-- A task outside the trees may change its keys. -/
theorem acts (h : Offtree t s s') (hok : ClassOk s .fair) (hs : s.seats t ≠ .fair) : Acts .fair s s' s.seats := by
  refine h.acts_of hok fun u hu => h.other u ?_
  rintro rfl
  exact hs hu

end Offtree

section offtree

variable (s) (t) (curr : Option TaskId)

theorem setRequest_offtree (vruntime : Int) (requestNs : Nat) : Offtree t s (setRequest s t vruntime requestNs) :=
  .modifyFair s t fun _ => rfl

theorem placeNewEntity_offtree : Offtree t s (placeNewEntity s t curr) :=
  (Offtree.modifyFair s t (f := fun e => { e with requestNs := s.fair.requestNs, vlag := 0 }) fun _ => rfl).trans
    (setRequest_offtree _ t _ _)

theorem applyLag_offtree : Offtree t s (applyLag s t curr) := setRequest_offtree s t _ _

theorem updateMinVruntime_offtree : Offtree t s (updateMinVruntime s curr) := .setFair t fun _ => id

theorem clearBuddy_offtree : Offtree t s (clearBuddy s) := .setFair t nofun

theorem clearBuddyIf_offtree (u : TaskId) : Offtree t s (clearBuddyIf s u) := by
  unfold clearBuddyIf
  split
  · exact clearBuddy_offtree s t
  · exact .refl t s

theorem updateEntityLag_offtree : Offtree t s (updateEntityLag s t) := by
  unfold updateEntityLag
  exact .modifyFair s t fun _ => rfl

theorem rescaleVlag_offtree (oldWeight : Int) : Offtree t s (rescaleVlag s t oldWeight) := by
  unfold rescaleVlag
  split
  · exact .modifyFair s t fun _ => rfl
  · exact .refl t s

theorem rescaleDeadline_offtree (oldWeight : Int) : Offtree t s (rescaleDeadline s t oldWeight) :=
  (rescaleVlag_offtree s t oldWeight).trans (.modifyFair _ t fun _ => rfl)

theorem updateDeadline_offtree : Offtree t s (updateDeadline s t).1 := by
  unfold updateDeadline
  extract_lets e
  split
  · exact setRequest_offtree s t _ _
  · exact .refl t s

theorem setCurr_offtree : Offtree t s (setCurr s t) := by
  unfold setCurr
  split
  · exact (placeNewEntity_offtree s t none).trans (updateMinVruntime_offtree _ t _)
  · exact updateMinVruntime_offtree s t _

theorem account_offtree (elapsedNs : Nat) : Offtree t s (account s t elapsedNs).1 := by
  unfold account
  extract_lets s1
  refine Offtree.trans ?_ (updateDeadline_offtree s1 t)
  unfold s1
  split
  · exact .modifyFair s t fun _ => rfl
  · exact .refl t s

/-- What `dequeue_with_lag` does with a task that has left the trees. -/
theorem setLag_offtree (lag : Int) : Offtree t s
    (updateMinVruntime (s.modifyFair t fun e => { e with vlag := clampVlag lag e.weight e.requestNs }) curr) :=
  (Offtree.modifyFair s t (f := fun e => { e with vlag := clampVlag lag e.weight e.requestNs }) fun _ => rfl).trans
    (updateMinVruntime_offtree _ t curr)

theorem switchedFrom_offtree (isCurr : Bool) : Offtree t s (switchedFrom s t isCurr) := by
  unfold switchedFrom
  split
  · exact (updateEntityLag_offtree s t).trans (updateMinVruntime_offtree _ t _)
  · exact .refl t s

theorem switchedTo_offtree (isCurr : Bool) : Offtree t s (switchedTo s t isCurr) := by
  unfold switchedTo
  split
  · exact setCurr_offtree s t
  · exact .refl t s

end offtree

/-! ## Joining the trees -/

/-- `enqueue_tree` up to the trees: the task has a new identifier and its seat. -/
def allocTree (s : Scheduler) (t : TaskId) : Scheduler :=
  ({ s.modifyFair t fun e => { e with treeId := s.fair.nextEnqueueId } with
    fair := { s.fair with nextEnqueueId := s.fair.nextEnqueueId + 1 } } : Scheduler).setSeat t .fair

theorem allocTree_of_ne (hu : u ≠ t) : (allocTree s t).tasks u = s.tasks u := by
  simp only [allocTree, Scheduler.setSeat, Scheduler.modifyFair, Scheduler.modify_of_ne hu]

theorem allocTree_self : ((allocTree s t).tasks t).fair.treeId = s.fair.nextEnqueueId := by
  simp only [allocTree, Scheduler.setSeat, Scheduler.modifyFair, Scheduler.modify_tasks, if_true]

theorem allocTree_seats (s : Scheduler) (t : TaskId) : (allocTree s t).seats = update s.seats t .fair := by
  unfold allocTree
  rw [Scheduler.seats_setSeat]
  exact congrArg (update · t .fair) (s.seats_modifyFair t fun e => { e with treeId := s.fair.nextEnqueueId })

theorem touch_allocTree (hj : MayJoin .fair s t) : Touch .fair s (allocTree s t) := by
  have h1 := (Touch.modifyFair s t fun e => { e with treeId := s.fair.nextEnqueueId }).trans
    (.setFair _ { s.fair with nextEnqueueId := s.fair.nextEnqueueId + 1 })
  have hj1 := hj.touch h1 (congrFun (s.seats_modifyFair t fun e => { e with treeId := s.fair.nextEnqueueId }) t)
  exact h1.trans (.setSeat hj1.seat (.inr ⟨rfl, hj1.schedClass, hj1.curr⟩))

/-- The trees with the task, in a state with their members unchanged. -/
theorem FairOk.insert (h : FairOk s) (hs : s.seats t ≠ .fair) {c : FairClass}
    (hr : c.ready = Index.insert (deadlineKey (allocTree s t)) t s.fair.ready)
    (hv : c.vruntimeTree = Index.insert (vruntimeKey (allocTree s t)) t s.fair.vruntimeTree)
    (hn : c.nextEnqueueId = s.fair.nextEnqueueId + 1) : FairOk { allocTree s t with fair := c } := by
  have hseat : ∀ u, ((allocTree s t).tasks u).seat = if u = t then .fair else (s.tasks u).seat := by
    intro u
    have := congrFun (allocTree_seats s t) u
    rw [update_apply] at this
    exact this
  have hmem : ∀ u, (u = t ∨ (s.tasks u).seat = .fair) ↔ ((allocTree s t).tasks u).seat = .fair := by
    intro u
    rw [hseat]
    split
    · rename_i hu
      exact iff_of_true (.inl hu) rfl
    · rename_i hu
      exact or_iff_right hu
  have hne : ∀ u, (s.tasks u).seat = .fair → (allocTree s t).tasks u = s.tasks u := by
    intro u hu
    refine allocTree_of_ne ?_
    rintro rfl
    exact hs hu
  have hid : ∀ u, (s.tasks u).seat = .fair →
      ((allocTree s t).tasks u).fair.treeId ≠ ((allocTree s t).tasks t).fair.treeId := by
    intro u hu
    rw [hne u hu, allocTree_self]
    exact Nat.ne_of_lt (h.fresh u hu)
  refine ⟨fun u => ?_, fun u => ?_, ?_, ?_, fun u hu => ?_⟩
  · show u ∈ c.ready ↔ _
    rw [hr, Index.mem_insert, h.mem]
    exact hmem u
  · show u ∈ c.vruntimeTree ↔ _
    rw [hv, Index.mem_insert, h.vmem]
    exact hmem u
  · show Index.Sorted (deadlineKey (allocTree s t)) c.ready
    rw [hr]
    refine Index.Sorted.insert (h.ready.congr fun u hu => ?_) fun u hu hk => ?_
    · rw [deadlineKey, hne u ((h.mem u).1 hu)]
      rfl
    · exact hid u ((h.mem u).1 hu) (congrArg (fun x => (ofLex x).2) hk)
  · show Index.Sorted (vruntimeKey (allocTree s t)) c.vruntimeTree
    rw [hv]
    refine Index.Sorted.insert (h.vruntime.congr fun u hu => ?_) fun u hu hk => ?_
    · rw [vruntimeKey, hne u ((h.vmem u).1 hu)]
      rfl
    · exact hid u ((h.vmem u).1 hu) (congrArg (fun x => (ofLex x).2) hk)
  · show ((allocTree s t).tasks u).fair.treeId < c.nextEnqueueId
    rw [hn]
    rcases (hmem u).2 hu with rfl | hu'
    · rw [allocTree_self]
      exact Nat.lt_succ_self _
    · rw [hne u hu']
      exact (h.fresh u hu').trans (Nat.lt_succ_self _)

theorem enqueueTree_acts (h : ClassOk s .fair) (hj : MayJoin .fair s t) (hs : s.seats t = .detached)
    (curr : Option TaskId) :
    Acts .fair s (enqueueTree s t curr) (update s.seats t .fair) := by
  have hnot : s.seats t ≠ .fair := by
    rw [hs]
    nofun
  have hins : ∀ c : FairClass, c.ready = Index.insert (deadlineKey (allocTree s t)) t s.fair.ready →
      c.vruntimeTree = Index.insert (vruntimeKey (allocTree s t)) t s.fair.vruntimeTree →
      c.nextEnqueueId = s.fair.nextEnqueueId + 1 →
      Acts .fair s { allocTree s t with fair := c } (update s.seats t .fair) := fun c hr hv hn =>
    ⟨(touch_allocTree hj).trans (.setFair _ c), FairOk.insert h hnot hr hv hn, allocTree_seats s t⟩
  unfold enqueueTree
  split
  · exact hins _ rfl rfl rfl
  · exact hins _ rfl rfl rfl

theorem Offtree.enqueueTree (h : Offtree t s s') (hok : ClassOk s .fair) (hj : MayJoin .fair s t)
    (hs : s.seats t = .detached)
    (curr : Option TaskId) : Acts .fair s (enqueueTree s' t curr) (update s.seats t .fair) := by
  have hacts := h.acts hok (by rw [hs]; nofun)
  have hseat : s'.seats t = s.seats t := congrFun h.seats t
  have h1 := enqueueTree_acts hacts.ok (hj.touch h.touch hseat) (hseat.trans hs) curr
  rw [h.seats] at h1
  exact hacts.trans h1

/-! ## Leaving the trees -/

variable {r : Option TaskId}

theorem dequeueEntity_taken {key : Int ×ₗ Nat} {w : Option Int} (h : ClassOk s .fair)
    (he : dequeueEntityWithWeight s key w = some (r, s')) :
    Taken .fair s s' r ∧ ∀ t, r = some t → deadlineKey s t = key := by
  unfold dequeueEntityWithWeight at he
  split at he
  · cases he
    exact ⟨.refl h, nofun⟩
  rename_i t hf
  obtain ⟨hm, hk⟩ := Index.find_mem hf
  split at he
  · cases he
  have hs : s.seats t = .fair := (FairOk.mem h t).1 hm
  have hrem : ∀ c : FairClass, c.ready = s.fair.ready.erase t → c.vruntimeTree = s.fair.vruntimeTree.erase t →
      c.nextEnqueueId = s.fair.nextEnqueueId →
      Acts .fair s (({ s with fair := c } : Scheduler).setSeat t .detached) (update s.seats t .detached) := by
    intro c hr hv hn
    have hseats : (({ s with fair := c } : Scheduler).setSeat t .detached).seats = update s.seats t .detached :=
      Scheduler.seats_setSeat _ t _
    have hfair : ∀ u, ((({ s with fair := c } : Scheduler).setSeat t .detached).tasks u).fair = (s.tasks u).fair :=
      Scheduler.modify_field _ t (fun x => { x with seat := .detached }) fun _ => rfl
    have hmem : ∀ u, (u ≠ t ∧ s.seats u = .fair) ↔
        (({ s with fair := c } : Scheduler).setSeat t .detached).seats u = .fair := by
      intro u
      rw [hseats, update_apply]
      split
      · rename_i hu
        exact iff_of_false (fun hc => hc.1 hu) nofun
      · rename_i hu
        exact and_iff_right hu
    refine ⟨(Touch.setFair s c).trans (.setSeat (.inr hs) (.inl rfl)), FairOk.mono h (fun u => ?_) (fun u => ?_)
      (hr ▸ List.erase_sublist) (hv ▸ List.erase_sublist) hn.ge fun u _ => hfair u, hseats⟩
    · show u ∈ c.ready ↔ _
      rw [hr, h.ready.mem_erase, h.mem]
      exact hmem u
    · show u ∈ c.vruntimeTree ↔ _
      rw [hv, h.vruntime.mem_erase, h.vmem]
      exact hmem u
  cases he
  refine ⟨⟨hs, hrem _ rfl rfl rfl⟩, fun u hu => ?_⟩
  cases hu
  exact hk

/-- The task that was taken out is changed further. -/
theorem Taken.offtree {s1 : Scheduler} (h : Taken .fair s s1 (some t)) (h' : Offtree t s1 s') :
    Taken .fair s s' (some t) := by
  obtain ⟨hs, ha⟩ := h
  have hdet : s1.seats t ≠ .fair := by
    rw [ha.seats, update_self]
    nofun
  exact ⟨hs, ha.andThen (h'.acts ha.ok hdet)⟩

theorem clearBuddyIf_acts (h : ClassOk s .fair) (t : TaskId) : Acts .fair s (clearBuddyIf s t) s.seats := by
  refine (clearBuddyIf_offtree s t t).acts_of h fun u _ => ?_
  unfold clearBuddyIf
  split <;> rfl

/-! ## Class operations -/

section

variable (h : ClassOk s .fair)
include h

theorem FairClass.dequeue_taken {curr : Option TaskId}
    (he : dequeue s t curr = some (r, s')) : Taken .fair s s' r ∧ (r = none ∨ r = some t) := by
  unfold dequeue dequeueWithLag at he
  split at he
  · cases he
    exact ⟨.refl h, .inl rfl⟩
  rename_i hcon
  rw [Bool.not_eq_true', Bool.not_eq_false, contains, beq_iff_eq] at hcon
  extract_lets s1 lag at he
  have h1 : Acts .fair s s1 s.seats := clearBuddyIf_acts h t
  have hkey : deadlineKey s1 = deadlineKey s := by
    unfold s1 clearBuddyIf
    split <;> rfl
  split at he
  · cases he
  · rename_i s2 hd
    cases he
    exact ⟨h1.taken (dequeueEntity_taken h1.ok hd).1, .inl rfl⟩
  · rename_i u s2 hd
    obtain ⟨ht, hk⟩ := dequeueEntity_taken h1.ok hd
    -- the key that was looked up is the key of the task itself
    have hu : u = t := by
      have hku := hk u rfl
      have hmem : u ∈ s.fair.ready := by
        have hs := ht.1
        rw [h1.seats] at hs
        exact (FairOk.mem h u).2 hs
      rw [hkey] at hku
      exact h.ready.eq_of_key hmem (Index.find_mem hcon).1 hku
    subst hu
    cases he
    exact ⟨h1.taken (ht.offtree (setLag_offtree s2 u curr lag)), .inr rfl⟩

theorem FairClass.steal_taken {want : List TaskId → TaskId → Bool} {asked : List TaskId} {curr : Option TaskId}
    (he : steal want asked s curr = some (r, s')) : Taken .fair s s' r := by
  unfold steal at he
  split at he
  · cases he
    exact .refl h
  · exact (dequeue_taken h he).1

theorem pickBuddy_taken (he : pickBuddy s = some (r, s')) : Taken .fair s s' r := by
  unfold pickBuddy at he
  split at he
  · cases he
    exact .refl h
  rename_i buddy _
  split at he
  · cases he
    exact .refl h
  have h1 := (clearBuddy_offtree s buddy).acts_of h fun _ _ => rfl
  split at he
  · rename_i u s2 hd
    cases he
    exact h1.taken (dequeueEntity_taken h1.ok hd).1
  · cases he

theorem FairClass.pickNext_taken (he : pickNext s = some (r, s')) :
    Taken .fair s s' r := by
  unfold pickNext at he
  split at he
  · cases he
    exact (clearBuddy_offtree s s.idle).acts_of h fun _ _ => rfl
  split at he
  · cases he
  · rename_i u s1 hb
    cases he
    exact pickBuddy_taken h hb
  · rename_i s1 hb
    have h1 : Acts .fair s s1 s.seats := pickBuddy_taken h hb
    simp only at he
    split at he
    · cases he
    · split at he
      · rename_i u s2 hd
        cases he
        have ht := (dequeueEntity_taken h1.ok hd).1
        exact h1.taken (ht.acts (clearBuddyIf_acts ht.2.ok u))
      · cases he

omit h in
theorem setNextBuddy_eq (s : Scheduler) (t : TaskId) :
    ∃ b, setNextBuddy s t = { s with fair := { s.fair with nextBuddy := b } } ∧
    ∀ u, b = some u → u = t ∨ s.fair.nextBuddy = some u := by
  have hnew : ∀ u, some t = some u → u = t ∨ s.fair.nextBuddy = some u := fun u hu => .inl (Option.some_inj.1 hu).symm
  unfold setNextBuddy
  split
  · split
    · exact ⟨_, rfl, fun u => .inr⟩
    · exact ⟨_, rfl, hnew⟩
  · exact ⟨_, rfl, hnew⟩

theorem enqueueWake_acts (hj : MayJoin .fair s t) (hs : s.seats t = .detached) (curr : Option TaskId)
    (sync : Bool) : Acts .fair s (enqueueWake s t curr sync) (update s.seats t .fair) := by
  have h1 := (applyLag_offtree s t curr).enqueueTree h hj hs curr
  generalize hs1 : enqueueTree (applyLag s t curr) t curr = s1 at h1
  obtain ⟨b, hb, -⟩ := setNextBuddy_eq s1 t
  unfold enqueueWake
  simp only [hs1, hb]
  split
  · exact h1.andThen ⟨.setFair s1 _, FairOk.congr h1.ok rfl rfl rfl rfl fun _ _ => rfl, rfl⟩
  · exact h1.andThen ⟨.setFair s1 _, FairOk.congr h1.ok rfl rfl rfl rfl fun _ _ => rfl, rfl⟩

theorem FairClass.enqueue_acts (hj : MayJoin .fair s t) (hs : s.seats t = .detached) (kind : EnqueueKind)
    (curr : Option TaskId) : Acts .fair s (enqueue s t kind curr) (update s.seats t .fair) := by
  cases kind with
  | new => exact (placeNewEntity_offtree s t curr).enqueueTree h hj hs curr
  | wake sync => exact enqueueWake_acts h hj hs curr sync
  | migrateIn => exact enqueueWake_acts h hj hs curr false
  | classChange => exact (applyLag_offtree s t curr).enqueueTree h hj hs curr

omit h in
/-- The runner is prepared outside the trees, and joins them if it can go on. -/
theorem putPrev_cases (s : Scheduler) (t : TaskId) (reason : LeaveReason) :
    (reason = .yield ∨ reason = .preempt) ∧ (∃ s1, Offtree t s s1 ∧ putPrev s t reason = enqueueTree s1 t none) ∨
    ¬ (reason = .yield ∨ reason = .preempt) ∧ Offtree t s (putPrev s t reason) := by
  unfold putPrev
  extract_lets s1 vruntime s2 e
  have h1 : Offtree t s s1 := (clearBuddyIf_offtree s t t).trans (updateMinVruntime_offtree _ t _)
  have h2 : Offtree t s s2 := h1.trans (.modifyFair s1 t fun _ => rfl)
  cases reason with
  | yield => exact .inl ⟨.inl rfl, _, h1.trans (setRequest_offtree s1 t _ _), rfl⟩
  | preempt =>
    refine .inl ⟨.inr rfl, _, ?_, rfl⟩
    split
    · exact h2.trans (setRequest_offtree s2 t _ _)
    · split
      · exact h2.trans (.modifyFair s2 t fun _ => rfl)
      · exact h2
  | block | migrate => exact .inr ⟨nofun, h1.trans (updateEntityLag_offtree s1 t)⟩
  | exit => exact .inr ⟨nofun, h1⟩

theorem FairClass.putPrev_acts (hj : MayJoin .fair s t) (hs : s.seats t = .detached)
    (reason : LeaveReason) : Acts .fair s (putPrev s t reason)
      (if reason = .yield ∨ reason = .preempt then update s.seats t .fair else s.seats) := by
  rcases putPrev_cases s t reason with ⟨hr, s1, ho, he⟩ | ⟨hr, ho⟩
  · rw [if_pos hr, he]
    exact ho.enqueueTree h hj hs none
  · rw [if_neg hr]
    exact ho.acts h (by rw [hs]; nofun)

/-- A queued task leaves the trees, gets its new deadline and comes back. -/
theorem FairClass.attrChanged_acts {old : SchedAttr} {isCurr : Bool}
    (hc : (s.tasks t).schedClass = .fair) (hcurr : isCurr = true ↔ s.curr = some t)
    (hrun : s.curr = some t → s.seats t = .detached) (he : attrChanged s t old isCurr = some s') :
    Acts .fair s s' s.seats := by
  unfold attrChanged at he
  extract_lets oldWeight at he
  split at he
  · rename_i hcur
    cases he
    refine (rescaleDeadline_offtree s t oldWeight).acts h ?_
    rw [hrun (hcurr.1 hcur)]
    nofun
  rename_i hcur
  split at he
  · rename_i hs
    cases he
    exact (rescaleVlag_offtree s t oldWeight).acts h hs
  rename_i hs
  have hseat : s.seats t = .fair := not_not.1 hs
  split at he
  · cases he
  · rename_i s1 hd
    cases he
    exact (dequeueEntity_taken h hd).1
  · rename_i u s1 hd
    obtain ⟨ht, hk⟩ := dequeueEntity_taken h hd
    obtain rfl : u = t := h.ready.eq_of_key ((FairOk.mem h u).2 ht.1) ((FairOk.mem h t).2 hseat) (hk u rfl)
    cases he
    have hdet : s1.seats u = .detached := by rw [ht.2.seats, update_self]
    have hjoin : MayJoin .fair s1 u := by
      refine ⟨.inl hdet, (ht.2.touch.schedClass u).trans hc, ?_⟩
      rw [ht.2.touch.curr]
      exact fun hc => hcur (hcurr.2 hc)
    have h2 := (rescaleDeadline_offtree s1 u oldWeight).enqueueTree ht.2.ok hjoin hdet none
    rw [ht.2.seats, update_idem, ← hseat, update_eq_self] at h2
    exact ht.2.trans h2

end

end XKernel.Sched
