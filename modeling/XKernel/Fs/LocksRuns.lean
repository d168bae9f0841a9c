import XKernel.Fs.LocksSteps
/-!
# No wakeup is lost

Every step keeps the invariant, and leaves a blocked request where it is, releases it,
or moves it to an installed lock.
-/

namespace XKernel.Locks

open XKernel.Lib List Option

variable {addr : NodeId → Nat} {s s' : State} {o : Op} {t : TaskId} {a : Apply} {v w n : NodeId} {r : Tried}

/-- What a step does to the requests that were blocked. -/
def Shifts (s s' : State) : Prop :=
  ∀ x n, s.tree.par x = some n →
    s'.tree.par x = some n ∨ s'.tree.par x = none ∨ ∃ l, Installed s' l ∧ s'.tree.par x = some l.id

theorem Shifts.of_sub (h : ∀ x n, s'.tree.par x = some n → s.tree.par x = some n) : Shifts s s' := by
  intro x n hx
  cases hp : s'.tree.par x with
  | none => exact .inr (.inl rfl)
  | some m =>
    rw [← hx, h x m hp]
    exact .inl rfl

/-! ## `try_apply` -/

/-- The state that `try_apply` leaves. -/
def State.afterTry (s : State) (t : TaskId) (a : Apply) (r : Tried) : State :=
  { s with inodes := Function.update s.inodes a.inode ((s.inodes a.inode).setDomain a.request.owner r.list) }.setWaits t
    { a with waiter := r.waiter } r.waits (.drain r.result)

/-- `try_apply` is the change of the list and the change of the tree that follows it. -/
theorem setWaits_eq_relist (s : State) (t : TaskId) (a : Apply) (r : Tried) (mid : Waits)
    (h : r.waits.wake = mid.wake) :
    s.afterTry t a r =
    ({ s.relist t a r.list r.waiter mid with tree := r.waits.tree } : State).setTask t
      (some { a with waiter := r.waiter, wake := mid.wake, stage := .drain r.result }) := by
  unfold State.afterTry State.setWaits State.relist State.setTask
  simp only [Function.update_idem, h]

theorem WaitInv.ready (h : WaitInv s) (hsound : Sound s) (ht : s.tasks t = some a) (hst : a.stage = .attempt) :
    Ready (a.locks s) a.waiter ⟨s.tree, a.wake⟩ := by
  refine ⟨h.tree, fun l hl => ?_, fun w hw => ?_⟩
  · obtain ⟨h1, h2⟩ := h.lock l ⟨_, _, hl⟩
    refine ⟨h1, h2, ?_⟩
    unfold Apply.locks FileLockLists.domain at hl
    split at hl
    · exact (h.whole _ l hl).kind
    · exact ((hsound.lists _).record l.record (mem_map_of_mem hl)).kind
  · have hok := h.task t a w ht hw
    exact ⟨hok.lt, h.par_none ht hw (Apply.not_waiting hst), hok.quiet (.inl hst), fun l hl => hok.apart l ⟨_, _, hl⟩⟩

theorem domain_whole (h : WaitInv s) (i : Nat) (o : FileLockOwner) (ho : o.isFlock = true) :
    ∀ l ∈ (s.inodes i).domain o, Whole l := by
  intro l hl
  rw [FileLockLists.domain, if_pos ho] at hl
  exact h.whole i l hl

/-- No assertion of `try_apply` fails, and its loops end. -/
theorem WaitInv.tryList_isSome (h : WaitInv s) (hsound : Sound s) (addr : NodeId → Nat) (ht : s.tasks t = some a)
    (hst : a.stage = .attempt) : ∃ r,
    tryList addr a.request a.isBlocking (a.locks s) a.waiter ⟨s.tree, a.wake⟩ = some r ∧
      Outcome a.request a.isBlocking (a.locks s) a.waiter ⟨s.tree, a.wake⟩ r :=
  tryList_outcome addr (h.ready hsound ht hst) (hsound.requests t a ht) (domain_whole h _ _)


/-- The requests that a change of a list releases are not blocked afterwards. -/
theorem Shifts.after {m : State} (hsub : ∀ x n, m.tree.par x = some n → s.tree.par x = some n) (h : Shifts m s')
    (hnone : ∀ x, s.tree.par x ≠ none → m.tree.par x = none → s'.tree.par x = none) : Shifts s s' := by
  intro x n hx
  cases hp : m.tree.par x with
  | none =>
    refine .inr (.inl (hnone x ?_ hp))
    rw [hx]
    exact some_ne_none _
  | some k =>
    obtain rfl : k = n := some.inj ((hsub x k hp).symm.trans hx)
    exact h x k hp

theorem WaitInv.tried_none {D : NodeId → Prop} (h : WaitInv s) (ht : s.tasks t = some a) (hst : a.stage = .attempt)
    (hre : Relists D (a.locks s) r.list ⟨s.tree, a.wake⟩ r.waits)
    (hwhole : a.request.owner.isFlock = true → ∀ l ∈ r.list, Whole l) (hw : r.waiter = a.waiter) (hn : a.waiter = none)
    (hs : s' = s.afterTry t a r) :
    WaitInv s' ∧ Shifts s s' := by
  have h1 := h.relist ht hst hre hwhole (.inl hw)
  rw [setWaits_eq_relist s t a r r.waits rfl] at hs
  subst hs
  have hnone : ∀ w, r.waiter ≠ some w := fun w hc => by
    rw [hw, hn] at hc
    cases hc
  refine ⟨?_, .of_sub fun x n hx => ((hre.releases.blocker x n).1 hx).1⟩
  exact h1.restage (tasks_self rfl) (fun w hw => absurd hw (hnone w)) (fun w hw => absurd hw (hnone w))
    (fun w hw => absurd hw (hnone w)) nofun

theorem WaitInv.tried (h : WaitInv s) (hsound : Sound s) (ht : s.tasks t = some a) (hst : a.stage = .attempt)
    (hr : tryList addr a.request a.isBlocking (a.locks s) a.waiter ⟨s.tree, a.wake⟩ = some r)
    (hs : s' = s.afterTry t a r) :
    WaitInv s' ∧ Shifts s s' := by
  have hready := h.ready hsound ht hst
  have hwhole : a.request.owner.isFlock = true → ∀ l ∈ r.list, Whole l := fun ho =>
    tryList_whole ho (hsound.requests t a ht) (domain_whole h _ _ ho) hr
  obtain ⟨r', hr', hout⟩ := h.tryList_isSome hsound addr ht hst
  rw [hr] at hr'
  cases hr'
  -- the request of a call that has to wait lets its own requests go
  have henrol : ∀ {D mid mid' w}, Enrols a.request D (a.locks s) a.waiter ⟨s.tree, a.wake⟩
      r mid w → a.isBlocking = true → a.request.kind ≠ .unlock → Releases (· = w) mid mid' →
      WaitInv (s.relist t a r.list r.waiter mid') ∧ s.tree.par w = none ∧
        ∀ x n, mid'.tree.par x = some n → s.tree.par x = some n ∧ n ≠ w := by
    intro D mid mid' w he hb hk hrel
    have hre := he.relists.trans (.same hrel)
    refine ⟨h.relist ht hst hre hwhole ?_, ?_, fun x n hx => ?_⟩
    · rcases he.node with hw | ⟨hw, hle, hlt, hrec⟩
      · exact .inl (he.waiter_eq.trans hw.symm)
      · exact .inr ⟨hw, w, he.waiter_eq, hle, hlt.trans_le hrel.next, (hrel.record w hlt).trans hrec, hb, hk, he.apart⟩
    · rcases he.node with hw | ⟨-, hle, -⟩
      · exact (hready.waiter w hw).2.1
      · exact (h.tree.fresh w hle).1
    · obtain ⟨hx, hn⟩ := (hre.releases.blocker x n).1 hx
      exact ⟨hx, fun hc => hn (.inr hc)⟩
  cases hout with
  | @granted D mid target hre htar hc hres hw hwaits =>
    cases hn : a.waiter with
    | none =>
      rw [hn] at hwaits
      have hmid : r.waits = mid := hwaits
      rw [← hmid] at hre
      exact h.tried_none ht hst hre hwhole hw hn hs
    | some w =>
      rw [hn] at hwaits
      have h1 := h.relist ht hst hre hwhole (.inl hw)
      have hinst : Installed (s.relist t a r.list r.waiter mid) target := relist_of_mem htar
      have hrw : r.waiter = some w := hw.trans hn
      have hne := (h1.task t _ w relist_self hrw).apart target hinst
      have hm : Moves w target.id mid r.waits := by
        rw [hwaits]
        exact moveBlocked_moves hre.releases.ok hne.symm (h1.lock target hinst).2 (h1.lock target hinst).1
      have h2 := h1.grant relist_self hrw hst hinst hc hm
      rw [setWaits_eq_relist s t a r mid hm.wake, hres] at hs
      subst hs
      refine ⟨h2, .after (m := s.relist t a r.list r.waiter mid) (fun x n hx => ((hre.releases.blocker x n).1 hx).1)
        (fun x n hx => ?_) fun x _ hx => ?_⟩
      · by_cases hxw : mid.tree.par x = some w
        · exact .inr (.inr ⟨target, hinst, hm.redirects.moved x hxw⟩)
        · exact .inl ((hm.redirects.kept x hxw).trans hx)
      · have hx : mid.tree.par x = none := hx
        exact (hm.redirects.kept x (by rw [hx]; exact nofun)).trans hx
  | unlocked hre hk hres hw =>
    refine h.tried_none ht hst hre hwhole hw ?_ hs
    rw [eq_none_iff_forall_ne_some]
    exact fun w hn => (h.task t a w ht hn).kind hk
  | refused hre hb hres hw =>
    refine h.tried_none ht hst hre hwhole hw ?_ hs
    rw [eq_none_iff_forall_ne_some]
    intro w hn
    rw [(h.task t a w ht hn).blocking] at hb
    cases hb
  | @blocked D mid mid' lock w b he hk hb hl hc hbl hres =>
    obtain ⟨h1, hpar, hsub⟩ := henrol he hb hk hbl.releases
    have h2 := h1.attach relist_self he.waiter_eq hst
      (relist_of_mem hl) hc hbl.descends hbl.attaches hbl.ok hbl.next hbl.record
      hbl.wait
    rw [setWaits_eq_relist s t a r mid' hbl.wake, hres] at hs
    subst hs
    refine ⟨h2, .after (m := s.relist t a r.list r.waiter mid') (fun x n hx => (hsub x n hx).1) (fun x n hx => ?_)
      fun x hx hx' => ?_⟩
    · have hxw : x ≠ w := fun he => by
        have := (hsub x n hx).1
        rw [he, hpar] at this
        cases this
      exact .inl ((hbl.attaches.kept x hxw).trans hx)
    · have hxw : x ≠ w := fun he => hx (by rw [he, hpar])
      exact (hbl.attaches.kept x hxw).trans hx'
  | @deadlock D mid w he hk hb hrel hres =>
    obtain ⟨h1, hpar, hsub⟩ := henrol he hb hk hrel
    rw [setWaits_eq_relist s t a r r.waits rfl] at hs
    subst hs
    have hone : ∀ v, r.waiter = some v → v = w := fun v hv => some.inj (hv.symm.trans he.waiter_eq)
    refine ⟨h1.restage relist_self (fun v hv hne => ?_) (fun v hv _ x hx => ?_) (fun v hv => ?_) nofun,
      .of_sub fun x n hx => (hsub x n hx).1⟩
    · obtain ⟨k, hk⟩ := ne_none_iff_exists'.1 hne
      have := (hsub v k hk).1
      rw [hone v hv, hpar] at this
      cases this
    · exact (hsub x v hx).2 (hone v hv)
    · exact (h1.task t _ v relist_self hv).quiet (.inl hst)

/-! ## Every step -/

/-- A task with something to wake is about to do so. -/
def Tidy (s : State) : Prop :=
  ∀ t a, s.tasks t = some a → a.wake ≠ [] → (∃ r, a.stage = .drain r) ∨ a.stage = .leave

theorem WaitInv.step (h : WaitInv s) (hsound : Sound s) (hs : step addr s o = some s') : WaitInv s' ∧ Shifts s s' := by
  have hcancel : ∀ {t a w}, s.tasks t = some a → a.waiter = some w →
      WaitInv (s.setWaits t a (Waits.cancelWaiter w ⟨s.tree, a.wake⟩) .leave) ∧
        Shifts s (s.setWaits t a (Waits.cancelWaiter w ⟨s.tree, a.wake⟩) .leave) := by
    intro t a w ht hw
    have hc := cancelWaiter_cancels (s := ⟨s.tree, a.wake⟩) (w := w) h.tree
    exact ⟨h.cancel ht hw hc, .of_sub fun x n hx => ((hc.blocker x n).1 hx).1⟩
  cases step_cases hs with
  | call hn =>
    refine ⟨h.renew (fun b hb => ?_) (fun a ha => ?_), .of_sub fun x n hx => hx⟩
    · cases hb
      rfl
    · rw [hn] at ha
      cases ha
  | tried ht hst hr => exact h.tried hsound ht hst hr rfl
  | woke ht hst hw =>
    refine ⟨h.wakeOne rfl ht hw, .of_sub fun x n hx => ?_⟩
    rw [(unpark_frame ..).2] at hx
    exact (WaitTree.setWait_par ..).symm.trans hx
  | @sleep t a ht hst hw =>
    refine ⟨h.restage ht (fun _ _ _ => .inr ⟨false, rfl⟩) (fun _ _ hn => absurd (.inr (.inr ⟨false, rfl⟩)) hn)
      (fun w hw => (h.task t a w ht hw).quiet (.inr ⟨_, hst⟩)) nofun, .of_sub fun x n hx => hx⟩
  | cancelled ht hst hr hw hn =>
    have := hcancel ht hn
    rw [hw] at this
    exact this
  | left ht hst hw =>
    refine ⟨h.renew (by rintro b ⟨⟩) fun b hb => ?_, .of_sub fun x n hx => hx⟩
    rw [ht] at hb
    cases hb
    exact ⟨hw, hst.imp_left fun ⟨_, _, _, hn⟩ => hn⟩
  | @ready t a p w ht hst hn hb =>
    have hone : ∀ v, a.waiter = some v → v = w := fun v hv => some.inj (hv.symm.trans hn)
    refine ⟨h.restage ht (fun v hv hne => absurd ?_ hne) (fun _ _ hl => absurd (.inl rfl) hl) (fun v hv => ?_) nofun,
      .of_sub fun x n hx => hx⟩
    · rw [hone v hv]
      exact hb.1
    · rw [hone v hv]
      exact hb.2
  | pending ht hst hn hb =>
    exact ⟨h.park ht hn hst hb, .of_sub fun x n hx => (WaitTree.setWait_par ..).symm.trans hx⟩
  | interrupted ht hst hn => exact hcancel ht hn

theorem setTask_tidy {x : Option Apply} (h : Tidy s) (hs : s'.tasks = Function.update s.tasks t x)
    (hx : ∀ b, x = some b → b.wake ≠ [] → (∃ r, b.stage = .drain r) ∨ b.stage = .leave) : Tidy s' := by
  intro u b hb hw
  by_cases hut : u = t
  · subst hut
    rw [tasks_self hs] at hb
    exact hx b hb hw
  · rw [tasks_of_ne hs hut] at hb
    exact h u b hb hw

theorem Tidy.step (h : Tidy s) (hs : step addr s o = some s') : Tidy s' := by
  have hempty : ∀ {t a}, s.tasks t = some a → a.stage = .attempt ∨ (∃ p, a.stage = .wait p) → a.wake = [] := by
    intro t a ht hst
    by_contra hne
    rcases h t a ht hne with ⟨r, hc⟩ | hc <;> rw [hc] at hst <;> rcases hst with hst | ⟨p, hst⟩ <;> cases hst
  cases step_cases hs with
  | call => exact setTask_tidy h rfl fun b hb hw => by cases hb; exact absurd rfl hw
  | tried => exact setTask_tidy h rfl (fun b hb hw => by cases hb; exact .inl ⟨_, rfl⟩)
  | @woke t a w rest ht hst hw =>
    intro u b hb hne
    obtain ⟨c, hc, rfl⟩ := map_eq_some_iff.1 ((woke_tasks rfl ht u).symm.trans hb)
    have hst : (∃ r, c.stage = .drain r) ∨ c.stage = .leave := by
      by_cases hut : u = t
      · cases (hut ▸ hc).symm.trans ht
        exact hst
      · exact h u c hc (by simpa [State.woke, hut] using hne)
    rcases woke_stage s u c with ⟨⟨⟨q, hq⟩, -⟩, -⟩ | ⟨-, he⟩
    · rcases hst with ⟨r, hst⟩ | hst <;> cases hst.symm.trans hq
    · rwa [he]
  | sleep ht hst hw => exact setTask_tidy h rfl (fun b hb hne => by cases hb; exact absurd hw hne)
  | cancelled | interrupted => exact setTask_tidy h rfl (fun b hb _ => by cases hb; exact .inr rfl)
  | left => exact setTask_tidy h rfl (by rintro b ⟨⟩)
  | ready ht hst hn hb | pending ht hst hn hb =>
    exact setTask_tidy h rfl (fun b hb hne => by cases hb; exact absurd (hempty ht (.inr ⟨_, hst⟩)) hne)

theorem run_waitInv (h : Run (Locks.step addr) Allowed .init s) : Sound s ∧ WaitInv s ∧ Tidy s := by
  refine h.inv (fun s => Sound s ∧ WaitInv s ∧ Tidy s) ⟨?_, .init, fun t a ht => (nomatch ht)⟩
    fun s o s' hs hok hst => ?_
  · exact run_sound (.nil : Run (Locks.step addr) Allowed .init .init)
  exact ⟨hs.1.step hok hst, (hs.2.1.step hs.1 hst).1, hs.2.2.step hst⟩

/-! ## No wakeup is lost -/

/-- `n` is an installed lock, or the request of a task that will try again, with the record `r`. -/
def Stands (s : State) (n : NodeId) (r : FileLock) : Prop :=
  (∃ l, Installed s l ∧ l.id = n ∧ l.record = r) ∨ ∃ t a, s.tasks t = some a ∧ a.waiter = some n ∧ a.Loops ∧
    a.request = r

/-- The task of `w` will try again without being released by anyone: it does not wait for its waker, or its waker is in
a queue that is about to be emptied. -/
def Released (s : State) (w : NodeId) : Prop :=
  (s.tree.nodes w).blocker = none ∧ ∃ t a, s.tasks t = some a ∧ a.waiter = some w ∧ a.Loops ∧
    ((s.tree.nodes w).wait = none ∧ a.stage ≠ .wait true ∨ (s.tree.nodes w).wait = some t ∧
      ∃ u b, s.tasks u = some b ∧ w ∈ b.wake ∧ ((∃ r, b.stage = .drain r) ∨ b.stage = .leave))

/-- The lock `n` is installed and conflicts with the request `w`. -/
def Obstructs (s : State) (n w : NodeId) : Prop :=
  ∃ l, Installed s l ∧ l.id = n ∧ (s.tree.nodes w).record.conflictsWith l.record = true

theorem WaitInv.released (h : WaitInv s) (htidy : Tidy s) (ht : s.tasks t = some a) (hw : a.waiter = some w)
    (hl : a.Loops) (hp : s.tree.par w = none) : Released s w := by
  have hok := h.task t a w ht hw
  refine ⟨hp, t, a, ht, hw, hl, ?_⟩
  by_cases hn : (s.tree.nodes w).wait = none
  · exact .inl ⟨hn, fun hc => hok.parked hc hn⟩
  · have hwait : ∃ p, a.stage = .wait p := by
      rcases hl with hl | hl | hl
      · exact absurd (hok.quiet (.inl hl)) hn
      · exact absurd (hok.quiet (.inr ⟨_, hl⟩)) hn
      · exact hl
    obtain ⟨h1, h2⟩ := hok.notified hwait hn
    obtain ⟨u, b, hu, hb⟩ := h2 hp
    exact .inr ⟨h1, u, b, hu, hb, htidy u b hu (ne_nil_of_mem hb)⟩

theorem WaitInv.stands (h : WaitInv s) (hp : s.tree.par w = some n) :
    ∃ r, Stands s n r ∧ (s.tree.nodes w).record.conflictsWith r = true := by
  rcases h.faces w n (.parent hp) with ⟨l, hl, hid, hc⟩ | ⟨⟨t, a, ht, hn, hlo⟩, hc⟩
  · exact ⟨l.record, .inl ⟨l, hl, hid, rfl⟩, hc⟩
  · exact ⟨a.request, .inr ⟨t, a, ht, hn, hlo, rfl⟩, (h.task t a n ht hn).record ▸ hc⟩

/-- The chain of a blocked request ends at a lock it conflicts with, or at a request that is released. -/
theorem WaitInv.root (h : WaitInv s) (htidy : Tidy s) (hp : s.tree.par w ≠ none) :
    ∃ k r, Ends s.tree.par w k r ∧ (Obstructs s r w ∨ Released s r) := by
  obtain ⟨k, r, he⟩ := h.tree.rooted w
  refine ⟨k, r, he, ?_⟩
  have hr := he.par_eq_none
  have hab : Above s.tree.par w r := he.eq_or_above.resolve_left fun hc => hp (by rw [hc, hr])
  rcases h.faces w r hab with hl | ⟨⟨t, a, ht, hn, hlo⟩, -⟩
  · exact .inl hl
  · exact .inr (h.released htidy ht hn hlo hr)

/-- The task of a blocked request goes on with it, or gives it up and leaves the locks alone. -/
def GoesOn (s s' : State) (w : NodeId) (b : Apply) : Prop :=
  b.waiter = some w ∧ b.request = (s.tree.nodes w).record ∧ (b.Loops ∨ b.stage = .leave ∧ s'.inodes = s.inodes)

theorem WaitInv.blocked_step (h : WaitInv s) (hs : Locks.step addr s o = some s') (hp : s.tree.par w = some n) :
    ∃ t b, s'.tasks t = some b ∧ GoesOn s s' w b := by
  obtain ⟨u, c, hu, hcw, hcs⟩ := h.blocked w n hp
  have hreq := (h.task u c w hu hcw).record.symm
  -- a step of another task leaves the task alone; one of its own is a step of a task that waits
  have hstep : ∀ {t a x}, s'.tasks = Function.update s.tasks t x → s.tasks t = some a →
      (a.waiter = some w → a.request = (s.tree.nodes w).record → a.Waiting →
        ∃ b, x = some b ∧ GoesOn s s' w b) → ∃ t b, s'.tasks t = some b ∧ GoesOn s s' w b := by
    intro t a x hs ht hx
    by_cases hut : u = t
    · subst hut
      rw [ht] at hu
      cases hu
      obtain ⟨b, rfl, hb⟩ := hx hcw hreq hcs
      exact ⟨u, b, tasks_self hs, hb⟩
    · exact ⟨u, c, by rw [tasks_of_ne hs hut, hu], hcw, hreq, .inl (.inr hcs)⟩
  cases step_cases hs with
  | @call t inode request isBlocking hn =>
    have hut : u ≠ t := fun hc => by
      rw [hc, hn] at hu
      cases hu
    exact ⟨u, c, (tasks_of_ne rfl hut).trans hu, hcw, hreq, .inl (.inr hcs)⟩
  | tried ht hst =>
    exact hstep rfl ht fun _ _ hc => absurd hc (Apply.not_waiting hst)
  | @woke t a v rest ht hst hw =>
    exact ⟨u, s.woke t v rest u c, by rw [woke_tasks rfl ht, hu]; rfl, hcw, hreq, .inl (.inr (Apply.Waiting.woke hcs))⟩
  | sleep ht hst hw => exact hstep rfl ht fun hw hr _ => ⟨_, rfl, hw, hr, .inl (.inr (.inr ⟨false, rfl⟩))⟩
  | cancelled ht | interrupted ht => exact hstep rfl ht fun hw hr _ => ⟨_, rfl, hw, hr, .inr ⟨rfl, rfl⟩⟩
  | left ht hst hw =>
    refine hstep rfl ht fun hw _ hc => ?_
    rcases hst with ⟨r, -, -, hn⟩ | hst
    · rw [hn] at hw
      cases hw
    · rw [Apply.Waiting, hst] at hc
      rcases hc with hc | ⟨p, hc⟩ <;> cases hc
  | ready ht => exact hstep rfl ht fun hw hr _ => ⟨_, rfl, hw, hr, .inl (.inl rfl)⟩
  | pending ht => exact hstep rfl ht fun hw hr _ => ⟨_, rfl, hw, hr, .inl (.inr (.inr ⟨true, rfl⟩))⟩

/-- A node that was a lock is not the request of a task. -/
theorem WaitInv.waiter_step (h : WaitInv s) (hsound : Sound s) (hs : Locks.step addr s o = some s') {l : OwnedLock}
    (hl : Installed s l) {b : Apply} (hb : s'.tasks t = some b) : b.waiter ≠ some l.id := by
  -- the request of a task is the one it had, or a new node
  have hold : ∀ {u a}, s.tasks u = some a → a.waiter ≠ some l.id := fun hu hw => (h.task _ _ _ hu hw).apart l hl rfl
  have hset : ∀ {u x}, s'.tasks = Function.update s.tasks u x → (∀ c, x = some c → c.waiter ≠ some l.id) →
      b.waiter ≠ some l.id := by
    intro u x hs hx
    by_cases htu : t = u
    · subst htu
      exact hx b ((tasks_self hs).symm.trans hb)
    · exact hold ((tasks_of_ne hs htu).symm.trans hb)
  have hsame : ∀ {u : TaskId} {a c : Apply}, s.tasks u = some a → c.waiter = a.waiter →
      ∀ d, some c = some d → d.waiter ≠ some l.id := by
    rintro u a c hu hc d ⟨⟩
    rw [hc]
    exact hold hu
  cases step_cases hs with
  | call => exact hset rfl fun c hc => by cases hc; exact nofun
  | @tried u a r hu hst hr =>
    refine hset rfl fun c hc => ?_
    cases hc
    obtain ⟨r', hr', hout⟩ := h.tryList_isSome hsound addr hu hst
    rw [hr] at hr'
    cases hr'
    have henrol : ∀ {D mid w}, Enrols a.request D (a.locks s) a.waiter ⟨s.tree, a.wake⟩
        r mid w → r.waiter ≠ some l.id := by
      intro D mid w he hw
      rcases he.node with hn | ⟨-, hle, -⟩
      · exact hold hu (hn.trans (he.waiter_eq.symm.trans hw))
      · rw [some.inj (he.waiter_eq.symm.trans hw)] at hle
        exact absurd (h.lock l hl).1 (Nat.not_lt.2 hle)
    cases hout with
    | granted _ _ _ _ hw => exact fun hc => hold hu (hw.symm.trans hc)
    | unlocked _ _ _ hw => exact fun hc => hold hu (hw.symm.trans hc)
    | refused _ _ _ hw => exact fun hc => hold hu (hw.symm.trans hc)
    | blocked he => exact henrol he
    | deadlock he => exact henrol he
  | @woke u a v rest hu hst hw =>
    obtain ⟨c, hc, rfl⟩ := map_eq_some_iff.1 ((woke_tasks rfl hu t).symm.trans hb)
    exact hold (a := c) hc
  | sleep hu | cancelled hu | ready hu | pending hu | interrupted hu => exact hset rfl (hsame hu rfl)
  | left => exact hset rfl fun c hc => (nomatch hc)

/-- In every reachable state the waiting requests form trees, each request conflicts with what it is below, and at the
root there is an installed lock that conflicts, or a request whose task will try again. When a lock is removed or
narrowed, the requests below it that no longer conflict with it are released, and in every step a request stays where it
is, is given up by its own task, is released, or moves to an installed lock that conflicts. -/
theorem run_no_lost_wakeup (addr : NodeId → Nat) (s : State) (h : Run (step addr) Allowed .init s) :
    (∀ w n, (s.tree.nodes w).blocker = some n →
      (∀ m, w ∈ (s.tree.nodes m).requests ↔ m = n) ∧
      (∃ t a, s.tasks t = some a ∧ a.waiter = some w ∧ a.request = (s.tree.nodes w).record) ∧
      (∃ p, Stands s n p ∧ (s.tree.nodes w).record.owner ≠ p.owner ∧
        ((s.tree.nodes w).record.start ≤ p.stop ∧ p.start ≤ (s.tree.nodes w).record.stop) ∧
        ((s.tree.nodes w).record.kind = .write ∨ p.kind = .write)) ∧
      ∃ k r, Ends s.tree.par w k r ∧ (Obstructs s r w ∨ Released s r)) ∧
    (∀ n, (s.tree.nodes n).waiterCount = (s.tree.nodes n).requests.length) ∧
    (∀ w, ¬ Above s.tree.par w w) ∧
    (∀ t a, s.tasks t = some a → a.stage = .attempt → (step addr s (.tryApply t)).isSome = true) ∧
    ∀ o s', Allowed s o → step addr s o = some s' →
      (∀ w n, (s.tree.nodes w).blocker = some n →
        (s'.tree.nodes w).blocker = some n ∨
        (∃ t a, s'.tasks t = some a ∧ a.waiter = some w ∧ a.stage = .leave) ∨
        Released s' w ∨ ∃ m, (s'.tree.nodes w).blocker = some m ∧ Obstructs s' m w) ∧
      ∀ l, Installed s l → ∀ w, Above s.tree.par w l.id → ¬ Obstructs s' l.id w →
        ((s.tree.nodes w).blocker = some l.id → Released s' w ∨ ∃ m, (s'.tree.nodes w).blocker = some m ∧
          Obstructs s' m w) ∧
        ∃ k r, Ends s'.tree.par w k r ∧ (Obstructs s' r w ∨ Released s' r) := by
  obtain ⟨hsound, hinv, htidy⟩ := run_waitInv h
  refine ⟨fun w n hp => ⟨fun m => ?_, ?_, ?_, ?_⟩, hinv.tree.count, hinv.tree.rooted.acyclic, fun t a ht hst => ?_,
    fun o s' hok hst => ?_⟩
  · rw [hinv.tree.member]
    exact ⟨fun hm => some.inj (hm.symm.trans hp), fun hm => hm ▸ hp⟩
  · obtain ⟨t, a, ht, hw, -⟩ := hinv.blocked w n hp
    exact ⟨t, a, ht, hw, (hinv.task t a w ht hw).record.symm⟩
  · obtain ⟨r, hr, hc⟩ := hinv.stands hp
    exact ⟨r, hr, conflictsWith_iff.1 hc⟩
  · refine hinv.root htidy ?_
    show (s.tree.nodes w).blocker ≠ none
    rw [hp]
    exact some_ne_none _
  · obtain ⟨r, hr, -⟩ := hinv.tryList_isSome hsound addr ht hst
    simp only [step, ht, hst, hr, bind_eq_bind, bind_some, isSome_some]
  · obtain ⟨hinv', hshift⟩ := hinv.step hsound hst
    have htidy' := htidy.step hst
    -- the request of the task of `w` is still the same
    have hgoes : ∀ w n, s.tree.par w = some n → ∃ t b, s'.tasks t = some b ∧ GoesOn s s' w b ∧
        (s'.tree.nodes w).record = (s.tree.nodes w).record := by
      intro w n hp
      obtain ⟨t, b, hb, hg⟩ := hinv.blocked_step hst hp
      exact ⟨t, b, hb, hg, (hinv'.task t b w hb hg.1).record.trans hg.2.1⟩
    have hmove : ∀ w n, s.tree.par w = some n → s'.tree.par w = some n ∨
        (∃ t a, s'.tasks t = some a ∧ a.waiter = some w ∧ a.stage = .leave ∧ s'.inodes = s.inodes) ∨
        Released s' w ∨ ∃ m, s'.tree.par w = some m ∧ Obstructs s' m w := by
      intro w n hp
      obtain ⟨t, b, hb, ⟨hbw, -, hbs⟩, -⟩ := hgoes w n hp
      rcases hshift w n hp with hp' | hp' | ⟨l, hl, hp'⟩
      · exact .inl hp'
      · rcases hbs with hlo | hle
        · exact .inr (.inr (.inl (hinv'.released htidy' hb hbw hlo hp')))
        · exact .inr (.inl ⟨t, b, hb, hbw, hle⟩)
      · refine .inr (.inr (.inr ⟨l.id, hp', ?_⟩))
        rcases hinv'.faces w l.id (.parent hp') with hf | ⟨⟨u, c, hu, hc, -⟩, -⟩
        · exact hf
        · exact absurd rfl ((hinv'.task u c l.id hu hc).apart l hl)
    refine ⟨fun w n hp => ?_, fun l hl w hab hno => ?_⟩
    · rcases hmove w n hp with hp' | ⟨t, a, ht, hw, hle, -⟩ | hp'
      · exact .inl hp'
      · exact .inr (.inl ⟨t, a, ht, hw, hle⟩)
      · exact .inr (.inr hp')
    · obtain ⟨n, hp⟩ := ne_none_iff_exists'.1 hab.par_ne_none
      obtain ⟨t, b, hb, ⟨hbw, -, hbs⟩, hrec⟩ := hgoes w n hp
      -- the locks have changed, so the request is not given up in this step
      have hinodes : s'.inodes ≠ s.inodes := by
        intro he
        rcases hinv.faces w l.id hab with ⟨l', ⟨i, o, hl'⟩, hid, hc⟩ | ⟨⟨u, c, hu, hc, -⟩, -⟩
        · exact hno ⟨l', ⟨i, o, by rw [he]; exact hl'⟩, hid, by rw [hrec]; exact hc⟩
        · exact (hinv.task u c l.id hu hc).apart l hl rfl
      refine ⟨fun hp => ?_, ?_⟩
      · rcases hmove w l.id hp with hp' | ⟨-, -, -, -, -, he⟩ | hp'
        · rcases hinv'.faces w l.id (.parent hp') with hf | ⟨⟨u, c, hu, hc, -⟩, -⟩
          · exact absurd hf hno
          · exact absurd hc (hinv.waiter_step hsound hst hl hu)
        · exact absurd he hinodes
        · exact hp'
      · by_cases hp' : s'.tree.par w = none
        · exact ⟨0, w, .root hp', .inr (hinv'.released htidy' hb hbw (hbs.resolve_right fun hle => hinodes hle.2) hp')⟩
        · exact hinv'.root htidy' hp'

/-- A second task waits for a byte that the first one has locked. -/
theorem run_no_lost_wakeup_sample : ∃ s, Run (step id) Allowed .init s ∧ (s.tree.nodes 1).blocker = some 0 ∧
    ∃ k r, Ends s.tree.par 1 k r ∧ (Obstructs s r 1 ∨ Released s r) := by
  exact (Run.exists_of_exec [.apply 0 0 ⟨.posix 1, .write, 0, 9, 7⟩ true, .tryApply 0, .resume 0,
    .apply 1 0 ⟨.posix 2, .write, 5, 5, 8⟩ true, .tryApply 1, .resume 1, .pollWait 1] (by decide +kernel)).imp
      fun s h => ⟨h.1, h.2, ((run_no_lost_wakeup id s h.1).1 1 0 h.2).2.2.2⟩

end XKernel.Locks
