import XKernel.Fs.LocksInv
/-!
# The parts of a step

Each part of a step keeps the invariant. `try_apply` is taken apart into the change of
the list, which releases requests, and what follows it: the requests of a granted
request move to its lock, or the request is added to the tree.
-/

namespace XKernel.Locks

open XKernel.Lib Option Function WaitTree

variable {s s' : State} {t u : TaskId} {a : Apply} {x : Option Apply} {v w n : NodeId} {l : OwnedLock}
  {list' : List OwnedLock} {mid : Waits} {D : NodeId → Prop}

section

variable (hs : s'.tasks = Function.update s.tasks t x)
include hs

theorem tasks_of_ne (hu : u ≠ t) : s'.tasks u = s.tasks u := by
  rw [hs, update_of_ne hu]

theorem tasks_self : s'.tasks t = x := by
  rw [hs, update_self]

theorem queued_of_update (h : Queued s v)
    (hq : ∀ a, s.tasks t = some a → v ∈ a.wake → ∃ b, x = some b ∧ v ∈ b.wake) : Queued s' v := by
  obtain ⟨u, b, hu, hv⟩ := h
  by_cases hut : u = t
  · subst hut
    obtain ⟨b', hb', hv'⟩ := hq b hu hv
    exact ⟨u, b', by rw [tasks_self hs, hb'], hv'⟩
  · exact ⟨u, b, by rw [tasks_of_ne hs hut, hu], hv⟩

/-- The tasks that an update of one task leaves alone. -/
theorem hold_of_update (u : TaskId) (b : Apply) (hu : u ≠ t)
    (hb : s'.tasks u = some b) : ∃ a, s.tasks u = some a ∧ SameCall a b :=
  ⟨b, by rw [← tasks_of_ne hs hu, hb], .refl b⟩

end

/-! ## The change of a list -/

/-- A list of an inode, the tree and the wake queue of a task change; the task may get a request. -/
def State.relist (s : State) (t : TaskId) (a : Apply) (list' : List OwnedLock) (waiter' : Option NodeId)
    (w : Waits) : State :=
  { s with
    inodes := Function.update s.inodes a.inode ((s.inodes a.inode).setDomain a.request.owner list')
    tree := w.tree }.setTask t (some { a with waiter := waiter', wake := w.wake })

variable {waiter' : Option NodeId}

theorem relist_domain (i : Nat) (o : FileLockOwner) : ((s.relist t a list' waiter' mid).inodes i).domain o =
    if i = a.inode ∧ o.isFlock = a.request.owner.isFlock then list' else (s.inodes i).domain o := by
  show (Function.update s.inodes a.inode _ i).domain o = _
  by_cases hi : i = a.inode
  · subst hi
    rw [update_self, FileLockLists.setDomain, FileLockLists.domain, FileLockLists.domain]
    cases o.isFlock <;> cases a.request.owner.isFlock <;> simp
  · rw [update_of_ne hi, if_neg fun h => hi h.1]

theorem installed_of_relist (h : Installed (s.relist t a list' waiter' mid) l) :
    l ∈ list' ∨ Installed s l := by
  obtain ⟨i, o, hl⟩ := h
  rw [relist_domain] at hl
  split at hl
  · exact .inl hl
  · exact .inr ⟨i, o, hl⟩

theorem relist_of_mem (h : l ∈ list') : Installed (s.relist t a list' waiter' mid) l := by
  refine ⟨a.inode, a.request.owner, ?_⟩
  rw [relist_domain, if_pos ⟨rfl, rfl⟩]
  exact h

theorem relist_of_installed (h : Installed s l) :
    l ∈ (s.inodes a.inode).domain a.request.owner ∨ Installed (s.relist t a list' waiter' mid) l := by
  obtain ⟨i, o, hl⟩ := h
  by_cases hi : i = a.inode ∧ o.isFlock = a.request.owner.isFlock
  · obtain ⟨rfl, ho⟩ := hi
    refine .inl ?_
    unfold FileLockLists.domain at hl ⊢
    rwa [ho] at hl
  · refine .inr ⟨i, o, ?_⟩
    rw [relist_domain, if_neg hi]
    exact hl

/-- The list that the call is about. -/
abbrev Apply.locks (a : Apply) (s : State) : List OwnedLock := (s.inodes a.inode).domain a.request.owner

theorem relist_tasks : (s.relist t a list' waiter' mid).tasks =
    Function.update s.tasks t (some { a with waiter := waiter', wake := mid.wake }) := rfl

theorem relist_self :
    (s.relist t a list' waiter' mid).tasks t = some { a with waiter := waiter', wake := mid.wake } := update_self ..

/-- The request of the task is the old one, or a new node. -/
def WaiterOk (s : State) (a : Apply) (list' : List OwnedLock) (mid : Waits) (waiter' : Option NodeId) : Prop :=
  waiter' = a.waiter ∨ a.waiter = none ∧ ∃ w, waiter' = some w ∧ s.tree.next ≤ w ∧ w < mid.tree.next ∧
    (mid.tree.nodes w).record = a.request ∧ a.isBlocking = true ∧ a.request.kind ≠ .unlock ∧ ∀ l ∈ list', l.id ≠ w

theorem relist_frame (ht : s.tasks t = some a)
    (hr : Relists D (a.locks s) list' ⟨s.tree, a.wake⟩ mid) :
    Frame s (s.relist t a list' waiter' mid) := by
  have hrel := hr.releases
  refine ⟨hrel.ok, hrel.next, hrel.record, fun l' hl' => ?_, fun x v hx => .inl ((hrel.blocker x v).1 hx).1,
    fun v hp hw hv => ?_⟩
  · rcases installed_of_relist hl' with hl' | hl'
    · exact (hr.source l' hl').imp_left fun ⟨l, hl, hid⟩ => ⟨l, ⟨_, _, hl⟩, hid⟩
    · exact .inl ⟨l', hl', rfl⟩
  · have hwait : (s.tree.nodes v).wait ≠ none := by
      rw [← hrel.wait v]
      exact hw
    rcases hv with hv | hv
    · -- let go by one of the nodes in `D`
      obtain ⟨m, hm⟩ := ne_none_iff_exists'.1 hv
      have hD : D m := by
        by_contra hn
        have hp' : mid.tree.par v = none := hp
        rw [(hrel.blocker v m).2 ⟨hm, hn⟩] at hp'
        cases hp'
      exact ⟨t, _, relist_self, (hrel.wake v).2 (.inr ⟨⟨m, hD, hm⟩, hwait⟩)⟩
    · refine queued_of_update relist_tasks hv fun b hb hv => ?_
      rw [ht] at hb
      cases hb
      exact ⟨_, rfl, (hrel.wake v).2 (.inl hv)⟩

theorem WaitInv.relist (h : WaitInv s) (ht : s.tasks t = some a) (hst : a.stage = .attempt)
    (hr : Relists D (a.locks s) list' ⟨s.tree, a.wake⟩ mid)
    (hwhole : a.request.owner.isFlock = true → ∀ l ∈ list', Whole l) (hw' : WaiterOk s a list' mid waiter') :
    WaitInv (s.relist t a list' waiter' mid) := by
  have F : Frame s (s.relist t a list' waiter' mid) := relist_frame ht hr
  have hrel := hr.releases
  have hwait : ∀ v, ((s.relist t a list' waiter' mid).tree.nodes v).wait = (s.tree.nodes v).wait := hrel.wait
  refine h.of_frame F t (hold_of_update relist_tasks) (fun u b v _ _ _ _ => hwait v)
    (fun i l hl => ?_) (fun b w hb hw => ?_) (fun b w hb hw => ?_) (fun w n hw => ?_) (fun w n hw => ?_)
  · have hl : l ∈ (Function.update s.inodes a.inode ((s.inodes a.inode).setDomain a.request.owner list') i).flock := hl
    by_cases hi : i = a.inode
    · subst hi
      rw [Function.update_self] at hl
      unfold FileLockLists.setDomain at hl
      split at hl
      · exact hwhole ‹_› l hl
      · exact h.whole _ l hl
    · rw [Function.update_of_ne hi] at hl
      exact h.whole i l hl
  · rw [relist_self] at hb
    cases hb
    rcases hw' with rfl | ⟨hnone, w', rfl, hle, hlt, hrec, hblk, hk, hap⟩
    · exact h.task_frame F ht hw ⟨rfl, rfl, rfl, rfl⟩ fun _ => hwait w
    · cases hw
      refine ⟨hlt, hrec, hblk, hk, fun l hl => ?_, fun _ => ?_, fun hn => absurd (.inl hst) hn, fun hc => ?_,
        fun hc => ?_⟩
      · rcases installed_of_relist hl with hl | hl
        · exact hap l hl
        · exact Nat.ne_of_lt ((h.lock l hl).1.trans_le hle)
      · rw [hwait]
        exact (h.tree.fresh w hle).2.1
      · obtain ⟨p, hp⟩ := hc
        rw [hst] at hp
        cases hp
      · rw [hst] at hc
        cases hc
  · rw [relist_self] at hb
    cases hb
    rcases hw' with rfl | ⟨hnone, w', rfl, hle, -⟩
    · exact .inl ⟨a, ht, hw⟩
    · cases hw
      exact .inr hle
  · exact h.blocked_frame ht (Apply.not_waiting hst)
      (fun u b hu hb => ⟨b, by rw [tasks_of_ne relist_tasks hu, hb], .refl b⟩) ((hrel.blocker w n).1 hw).1
  · have hab : Above s.tree.par w n := hw.mono fun x m hx => ((hrel.blocker x m).1 hx).1
    -- something is still below `n`, so `n` did not let its requests go
    obtain ⟨c, hc⟩ := hw.exists_child
    have hD := ((hrel.blocker c n).1 hc).2
    refine h.faces_frame F hab.par_ne_none (h.faces w n hab) (fun l hl hid => ?_) fun u b hu hb hlo => ?_
    · rcases relist_of_installed hl with hl | hl
      · obtain ⟨l', hl', hid', hcov⟩ := hr.kept l hl (by rw [hid]; exact hD)
        exact ⟨l', relist_of_mem hl', hid'.trans hid, hcov⟩
      · exact ⟨l, hl, hid, .refl _⟩
    · by_cases hut : u = t
      · subst hut
        rw [ht] at hu
        cases hu
        refine ⟨_, relist_self, ?_, hlo⟩
        rcases hw' with rfl | ⟨hnone, -⟩
        · exact hb
        · rw [hnone] at hb
          cases hb
      · exact ⟨b, by rw [tasks_of_ne relist_tasks hut, hu], hb, hlo⟩

/-! ## What follows -/

/-- A step that changes neither the tree nor the lists. -/
theorem frame_of_update (h : WaitInv s) (hs : s'.tasks = Function.update s.tasks t x) (hi : s'.inodes = s.inodes)
    (htr : s'.tree = s.tree) (hq : ∀ v a, s.tasks t = some a → v ∈ a.wake → ∃ b, x = some b ∧ v ∈ b.wake) :
    Frame s s' := by
  have hinst : ∀ l, Installed s' l → Installed s l := by
    rintro l ⟨i, o, hl⟩
    rw [hi] at hl
    exact ⟨i, o, hl⟩
  refine ⟨htr ▸ h.tree, by rw [htr], fun m _ => by rw [htr], fun l hl => .inl ⟨l, hinst l hl, rfl⟩,
    fun x v hx => .inl (htr ▸ hx), fun v hp hw hv => ?_⟩
  rcases hv with hv | hv
  · rw [htr] at hp
    exact absurd hp hv
  · exact queued_of_update hs hv (hq v)

/-- A step that changes one task; it keeps its request and what it has to wake. -/
structure Retasks (s s' : State) (t : TaskId) (a b : Apply) : Prop where
  old : s.tasks t = some a
  tasks : s'.tasks = Function.update s.tasks t (some b)
  waiter : b.waiter = a.waiter
  wake : ∀ v ∈ a.wake, v ∈ b.wake
  inodes : s'.inodes = s.inodes

section retasks

variable {b : Apply}

section

variable (hr : Retasks s s' t a b)
include hr

theorem Retasks.queued (h : Queued s v) : Queued s' v := by
  refine queued_of_update hr.tasks h fun c hc hv => ⟨b, rfl, hr.wake v ?_⟩
  cases hr.old.symm.trans hc
  exact hv

theorem Retasks.installed (l : OwnedLock) : Installed s' l ↔ Installed s l := by
  rw [Installed, hr.inodes]
  rfl

theorem Retasks.loops {c : Apply} (hu : s.tasks u = some c) (hc : c.waiter = some n)
    (hlo : c.Loops) (hb : a.waiter = some n → b.Loops) :
    ∃ c', s'.tasks u = some c' ∧ c'.waiter = some n ∧ c'.Loops := by
  by_cases hut : u = t
  · subst hut
    cases hr.old.symm.trans hu
    exact ⟨b, tasks_self hr.tasks, hr.waiter.trans hc, hb hc⟩
  · exact ⟨c, (tasks_of_ne hr.tasks hut).trans hu, hc, hlo⟩

/-- What must be shown of the request of the task, and of the edges that a step adds. -/
theorem WaitInv.retask (h : WaitInv s) (F : Frame s s')
    (hwait : ∀ v, a.waiter ≠ some v → (s'.tree.nodes v).wait = (s.tree.nodes v).wait)
    (htask : ∀ w, a.waiter = some w → TaskOk s' t b w)
    (hblocked : ∀ x k, s'.tree.par x = some k → (a.waiter = some x → b.Waiting) ∧
      (a.waiter ≠ some x → s.tree.par x ≠ none))
    (hfaces : ∀ x k, Above s'.tree.par x k → Faces s' x k ∨ Above s.tree.par x k ∧ (a.waiter = some k → b.Loops)) :
    WaitInv s' := by
  refine h.of_frame F t (hold_of_update hr.tasks)
    (fun u c v hut hu hv _ => hwait v fun hav => hut (h.distinct u c t a v hu hr.old hv hav))
      (by rw [hr.inodes]; exact h.whole)
    (fun c w hc hw => ?_) (fun c w hc hw => ?_) (fun x k hx => ?_) fun x k hx => ?_
  · cases (tasks_self hr.tasks).symm.trans hc
    exact htask w (hr.waiter.symm.trans hw)
  · cases (tasks_self hr.tasks).symm.trans hc
    exact .inl ⟨a, hr.old, hr.waiter.symm.trans hw⟩
  · obtain ⟨hself, hother⟩ := hblocked x k hx
    by_cases hax : a.waiter = some x
    · exact ⟨t, b, tasks_self hr.tasks, hr.waiter.trans hax, hself hax⟩
    · obtain ⟨k', hk'⟩ := ne_none_iff_exists'.1 (hother hax)
      obtain ⟨u, c, hu, hcw, hcs⟩ := h.blocked x k' hk'
      have hut : u ≠ t := by
        rintro rfl
        cases hr.old.symm.trans hu
        exact hax hcw
      exact ⟨u, c, (tasks_of_ne hr.tasks hut).trans hu, hcw, hcs⟩
  · rcases hfaces x k hx with hf | ⟨hab, hb⟩
    · exact hf
    · exact h.faces_frame F hab.par_ne_none (h.faces x k hab) (fun l hl hid => ⟨l, (hr.installed l).2 hl, hid, .refl _⟩)
        fun u c hu hc hlo => hr.loops hu hc hlo hb

end

end retasks

section

variable (h : WaitInv s)
include h

theorem WaitInv.restage {stage : Stage} (ht : s.tasks t = some a)
    (hwaits : ∀ w, a.waiter = some w → s.tree.par w ≠ none → Apply.Waiting { a with stage })
    (hloops : ∀ w, a.waiter = some w → ¬ Apply.Loops { a with stage := stage } → ∀ x, s.tree.par x ≠ some w)
    (hquiet : ∀ w, a.waiter = some w → (s.tree.nodes w).wait = none) (hparked : stage ≠ .wait true) :
    WaitInv (s.setTask t (some { a with stage })) := by
  have hr : Retasks s (s.setTask t (some { a with stage })) t a { a with stage } := ⟨ht, rfl, rfl, fun _ => id, rfl⟩
  have F : Frame s (s.setTask t (some { a with stage })) := frame_of_update h hr.tasks rfl rfl fun v b hb hv => by
    cases ht.symm.trans hb
    exact ⟨_, rfl, hv⟩
  refine h.retask hr F (fun _ _ => rfl) (fun w hw => ?_) (fun x k hx => ?_) fun x k hx => .inr ⟨hx, fun hk => ?_⟩
  · have hok := h.task t a w ht hw
    exact ⟨hok.lt, hok.record, hok.blocking, hok.kind, hok.apart, fun _ => hquiet w hw, hloops w hw,
      fun _ hne => absurd (hquiet w hw) hne, fun hp => absurd hp hparked⟩
  · have hne : s.tree.par x ≠ none := fun hn => nomatch hn.symm.trans hx
    exact ⟨fun hax => hwaits x hax hne, fun _ => hne⟩
  · by_contra hn
    obtain ⟨c, hc⟩ := hx.exists_child
    exact hloops k hk hn c hc

/-- A task without a request, or with one it has given up, begins or ends its call. -/
theorem WaitInv.renew (hx : ∀ b, x = some b → b.waiter = none)
    (ht : ∀ a, s.tasks t = some a → a.wake = [] ∧ (a.waiter = none ∨ a.stage = .leave)) : WaitInv (s.setTask t x) := by
  have hs : (s.setTask t x).tasks = Function.update s.tasks t x := rfl
  have F : Frame s (s.setTask t x) := frame_of_update h hs rfl rfl fun v a ha hv => by
    rw [(ht a ha).1] at hv
    exact absurd hv List.not_mem_nil
  have hnone : ∀ b w, (s.setTask t x).tasks t = some b → b.waiter ≠ some w := fun b w hb hw => by
    rw [tasks_self hs] at hb
    rw [hx b hb] at hw
    cases hw
  have hother : ∀ u c w, s.tasks u = some c → c.waiter = some w → c.Loops → u ≠ t := by
    rintro u c w hu hw hlo rfl
    rcases (ht c hu).2 with hn | hl
    · rw [hn] at hw
      cases hw
    · rw [Apply.Loops, hl] at hlo
      rcases hlo with hlo | hlo | ⟨p, hlo⟩ <;> cases hlo
  refine h.of_frame F t (hold_of_update hs) (fun _ _ _ _ _ _ _ => rfl) h.whole
    (fun b w hb hw => absurd hw (hnone b w hb)) (fun b w hb hw => absurd hw (hnone b w hb)) (fun w n hw => ?_)
    (fun w n hw => ?_)
  · obtain ⟨u, c, hu, hcw, hcs⟩ := h.blocked w n hw
    have hut := hother u c w hu hcw (.inr hcs)
    exact ⟨u, c, by rw [tasks_of_ne hs hut, hu], hcw, hcs⟩
  · refine h.faces_frame F hw.par_ne_none (h.faces w n hw)
      (fun l hl hid => ⟨l, hl, hid, .refl _⟩) fun u c hu hc hlo => ?_
    exact ⟨c, by rw [tasks_of_ne hs (hother u c n hu hc hlo), hu], hc, hlo⟩

section

variable (ht : s.tasks t = some a)
include ht

section

variable (hw : a.waiter = some w)
include hw

/-- The requests of a granted request go to its lock. -/
theorem WaitInv.grant {target : OwnedLock} (hst : a.stage = .attempt)
    (htar : Installed s target) (hc : Covers target.record a.request) {m : Waits}
    (hm : Moves w target.id ⟨s.tree, a.wake⟩ m) :
    WaitInv ({ s with tree := m.tree }.setTask t (some { a with stage := .drain (.ok false) })) := by
  have hr : Retasks s ({ s with tree := m.tree }.setTask t (some { a with stage := .drain (.ok false) })) t a
      { a with stage := .drain (.ok false) } := ⟨ht, rfl, rfl, fun _ => id, rfl⟩
  have hok := h.task t a w ht hw
  have hred := hm.redirects
  have hpar : ∀ x, m.tree.par x = none ↔ s.tree.par x = none := fun x => by
    by_cases hxw : s.tree.par x = some w
    · rw [hred.moved x hxw, hxw]
      exact iff_of_false nofun nofun
    · rw [hred.kept x hxw]
  have F : Frame s ({ s with tree := m.tree }.setTask t (some { a with stage := .drain (.ok false) })) := by
    refine ⟨hm.ok, hm.next.ge, fun k _ => hm.record k, fun l hl => .inl ⟨l, hl, rfl⟩, fun x v hx => ?_,
      fun v hp hv hq => hr.queued (hq.resolve_left (absurd ((hpar v).1 hp)))⟩
    by_cases hxw : s.tree.par x = some w
    · cases (hred.moved x hxw).symm.trans hx
      exact .inr (.inl ⟨target, htar, rfl⟩)
    · exact .inl ((hred.kept x hxw).symm.trans hx)
  refine h.retask hr F (fun v _ => hm.wait v) (fun v hv => ?_) (fun x k hx => ?_) fun x k hx => ?_
  · obtain rfl : w = v := some.inj (hw.symm.trans hv)
    refine ⟨hm.next.symm ▸ hok.lt, (hm.record w).trans hok.record, hok.blocking, hok.kind, hok.apart,
      fun _ => (hm.wait w).trans (hok.quiet (.inl hst)), fun _ x hx => ?_, nofun, nofun⟩
    by_cases hxw : s.tree.par x = some w
    · exact hred.ne (some.inj ((hred.moved x hxw).symm.trans hx)).symm
    · exact hxw ((hred.kept x hxw).symm.trans hx)
  · have hne : s.tree.par x ≠ none := fun hn => nomatch ((hpar x).2 hn).symm.trans hx
    exact ⟨fun hax => absurd (h.par_none ht hax (Apply.not_waiting hst)) hne, fun _ => hne⟩
  · rcases hred.above hx with ⟨hab, hkw⟩ | ⟨hab, rfl⟩
    · exact .inr ⟨hab, fun hk => absurd (some.inj (hk.symm.trans hw)) hkw⟩
    · -- what conflicts with the request conflicts with the lock
      rcases h.faces x w hab with ⟨l, hl, hid, -⟩ | ⟨-, hconf⟩
      · exact absurd hid (hok.apart l hl)
      · refine .inl (.inl ⟨target, htar, rfl, ?_⟩)
        rw [hok.record] at hconf
        show (m.tree.nodes x).record.conflictsWith target.record = true
        rw [show (m.tree.nodes x).record = (s.tree.nodes x).record from hm.record x]
        exact hc.conflict hconf

theorem WaitInv.attach {lock : OwnedLock} {b : NodeId} {m : WaitTree}
    (hst : a.stage = .attempt) (hl : Installed s lock)
    (hc : a.request.conflictsWith lock.record = true) (hd : Descends s.tree (s.tree.nodes w).record lock.id b)
    (hat : Attaches s.tree.par m.par w b) (hok' : m.Ok) (hnext : m.next = s.tree.next)
    (hrec : ∀ k, (m.nodes k).record = (s.tree.nodes k).record) (hwait : ∀ k, (m.nodes k).wait = (s.tree.nodes k).wait) :
    WaitInv ({ s with tree := m }.setTask t (some { a with stage := .drain (.ok true) })) := by
  have hr : Retasks s ({ s with tree := m }.setTask t (some { a with stage := .drain (.ok true) })) t a
      { a with stage := .drain (.ok true) } := ⟨ht, rfl, rfl, fun _ => id, rfl⟩
  have hok := h.task t a w ht hw
  have hroot := (h.lock lock hl).2
  have F : Frame s ({ s with tree := m }.setTask t (some { a with stage := .drain (.ok true) })) := by
    refine ⟨hok', hnext.ge, fun k _ => hrec k, fun l hl => .inl ⟨l, hl, rfl⟩, fun x v hx => ?_, fun v hp hv hq => ?_⟩
    · by_cases hxw : x = w
      · subst hxw
        cases hat.set.symm.trans hx
        rcases hd.reach with rfl | hr
        · exact .inr (.inl ⟨lock, hl, rfl⟩)
        · exact .inr (.inr hr.par_ne_none)
      · exact .inl ((hat.kept x hxw).symm.trans hx)
    · have hvw : v ≠ w := by
        rintro rfl
        cases hat.set.symm.trans hp
      exact hr.queued (hq.resolve_left (absurd ((hat.kept v hvw).symm.trans hp)))
  refine h.retask hr F (fun v _ => hwait v) (fun v hv => ?_) (fun x k hx => ⟨fun _ => .inl rfl, fun hax => ?_⟩)
    fun x k hx => ?_
  · obtain rfl : w = v := some.inj (hw.symm.trans hv)
    exact ⟨hnext.symm ▸ hok.lt, (hrec w).trans hok.record, hok.blocking, hok.kind, hok.apart,
      fun _ => (hwait w).trans (hok.quiet (.inl hst)), fun hl => absurd (.inr (.inl rfl)) hl, nofun, nofun⟩
  · have hxw : x ≠ w := fun he => hax (he ▸ hw)
    exact fun hn => nomatch (hn.symm.trans (hat.kept x hxw).symm).trans hx
  · rcases hat.above hx with ⟨-, hab⟩ | ⟨rfl, hbk⟩
    · exact .inr ⟨hab, fun _ => .inr (.inl rfl)⟩
    · left
      have hrecx : (m.nodes x).record = a.request := (hrec x).trans hok.record
      by_cases hkl : k = lock.id
      · refine .inl ⟨lock, hl, hkl.symm, ?_⟩
        show (m.nodes x).record.conflictsWith lock.record = true
        rw [hrecx]
        exact hc
      · -- on the way down to the lock there are only blocked requests
        have hconf : (s.tree.nodes x).record.conflictsWith (s.tree.nodes k).record = true := by
          rcases hd.conflict k hbk with hk | hk | hk
          · exact absurd hk hkl
          · exact absurd hroot hk.par_ne_none
          · exact hk
        have hbl : s.tree.par k ≠ none := by
          rcases hbk with rfl | hbk
          · exact (hd.reach.resolve_left hkl).par_ne_none
          · rcases hd.reach with rfl | hr
            · exact absurd hroot hbk.par_ne_none
            · rcases hbk.linear hr with hk | hk | hk
              · exact absurd hk hkl
              · exact hk.par_ne_none
              · exact absurd hroot hk.par_ne_none
        obtain ⟨p, hp⟩ := ne_none_iff_exists'.1 hbl
        obtain ⟨u, c, hu, hk, hcs⟩ := h.blocked k p hp
        obtain ⟨c', hc', hk', hlo'⟩ := hr.loops hu hk (.inr hcs) fun _ => .inr (.inl rfl)
        refine .inr ⟨⟨u, c', hc', hk', hlo'⟩, ?_⟩
        show (m.nodes x).record.conflictsWith (m.nodes k).record = true
        rw [hrec, hrec]
        exact hconf

theorem WaitInv.cancel {m : Waits}
    (hm : Cancels w ⟨s.tree, a.wake⟩ m) : WaitInv (s.setWaits t a m .leave) := by
  have hr : Retasks s (s.setWaits t a m .leave) t a { a with wake := m.wake, stage := .leave } :=
    ⟨ht, rfl, rfl, fun v hv => (hm.wake v).2 (.inl hv), rfl⟩
  have hok := h.task t a w ht hw
  have F : Frame s (s.setWaits t a m .leave) := by
    refine ⟨hm.ok, hm.next, hm.record, fun l hl => .inl ⟨l, hl, rfl⟩, fun x v hx => .inl ((hm.blocker x v).1 hx).1,
      fun v hp hv hq => ?_⟩
    have hv : (m.tree.nodes v).wait ≠ none := hv
    rcases hq with hq | hq
    · by_cases hvw : v = w
      · subst hvw
        exact absurd (hm.wait_self hq) hv
      · -- let go by the request of the task
        obtain ⟨k, hk⟩ := ne_none_iff_exists'.1 hq
        have hkw : k = w := by
          by_contra hne
          cases ((hm.blocker v k).2 ⟨hk, hvw, hne⟩).symm.trans hp
        refine ⟨t, _, tasks_self hr.tasks, (hm.wake v).2 (.inr ⟨by rw [← hkw]; exact hk, ?_⟩)⟩
        rw [hm.wait_of_ne v hvw] at hv
        exact hv
    · exact hr.queued hq
  refine h.retask hr F (fun v hv => hm.wait_of_ne v fun he => hv (he ▸ hw)) (fun v hv => ?_) (fun x k hx => ?_)
    fun x k hx => .inr ⟨hx.mono fun y z hy => ((hm.blocker y z).1 hy).1, fun hk => ?_⟩
  · obtain rfl : w = v := some.inj (hw.symm.trans hv)
    exact ⟨hok.lt.trans_le hm.next, (hm.record w hok.lt).trans hok.record, hok.blocking, hok.kind, hok.apart, nofun,
      fun _ x hx => ((hm.blocker x w).1 hx).2.2 rfl, nofun, nofun⟩
  · obtain ⟨hx, hxw, -⟩ := (hm.blocker x k).1 hx
    exact ⟨fun hax => absurd (some.inj (hax.symm.trans hw)) hxw, fun _ hn => nomatch hn.symm.trans hx⟩
  · obtain ⟨c, hc⟩ := hx.exists_child
    exact absurd (some.inj (hk.symm.trans hw)) ((hm.blocker c k).1 hc).2.2

/-- A task registers its waker and parks. -/
theorem WaitInv.park {p : Bool} (hst : a.stage = .wait p)
    (hb : ¬ ((s.tree.nodes w).blocker = none ∧ (s.tree.nodes w).wait = none)) :
    WaitInv ({ s with tree := s.tree.setWait w (some t) }.setTask t (some { a with stage := .wait true })) := by
  have hr : Retasks s ({ s with tree := s.tree.setWait w (some t) }.setTask t (some { a with stage := .wait true })) t a
      { a with stage := .wait true } := ⟨ht, rfl, rfl, fun _ => id, rfl⟩
  have hok := h.task t a w ht hw
  have hpar : ∀ x, (s.tree.setWait w (some t)).par x = s.tree.par x := fun x => setWait_par ..
  have F : Frame s ({ s with tree := s.tree.setWait w (some t) }.setTask t (some { a with stage := .wait true })) :=
    ⟨h.tree.setWait (.inl hok.lt), le_rfl, fun k _ => setWait_record .., fun l hl => .inl ⟨l, hl, rfl⟩,
      fun x v hx => .inl ((hpar x).symm.trans hx),
      fun v hp _ hq => hr.queued (hq.resolve_left (absurd ((hpar v).symm.trans hp)))⟩
  have hself : ((s.tree.setWait w (some t)).nodes w).wait = some t := by simp
  refine h.retask hr F (fun v hv => ?_) (fun v hv => ?_)
    (fun x k hx => ⟨fun _ => .inr ⟨true, rfl⟩, fun _ hn => nomatch (hn.symm.trans (hpar x).symm).trans hx⟩)
    fun x k hx => .inr ⟨hx.mono fun y z hy => (hpar y).symm.trans hy, fun _ => .inr (.inr ⟨true, rfl⟩)⟩
  · show ((s.tree.setWait w (some t)).nodes v).wait = _
    rw [setWait_wait, if_neg]
    rintro rfl
    exact hv hw
  · obtain rfl : w = v := some.inj (hw.symm.trans hv)
    refine ⟨hok.lt, (setWait_record ..).trans hok.record, hok.blocking, hok.kind, hok.apart, nofun,
      fun hn => absurd (.inr (.inr ⟨true, rfl⟩)) hn, fun _ _ => ⟨hself, fun hp => ?_⟩, fun _ => ?_⟩
    · -- released with a registration: the request is in a queue
      have hp : s.tree.par w = none := (hpar w).symm.trans hp
      exact hr.queued ((hok.notified ⟨p, hst⟩ fun hn => hb ⟨hp, hn⟩).2 hp)
    · show ((s.tree.setWait w (some t)).nodes w).wait ≠ none
      rw [hself]
      exact some_ne_none _

end

end

end

/-- What a turn of `WakeQueue::wake` makes of a call. -/
def State.woke (s : State) (t : TaskId) (w : NodeId) (rest : List NodeId) (u : TaskId) (c : Apply) : Apply :=
  { c with
    wake := if u = t then rest else c.wake
    stage := if (s.tree.nodes w).wait = some u then c.stage.woken else c.stage }

variable {rest : List NodeId} {c : Apply}

/-- A waker wakes a task that waits, and nothing else. -/
theorem woke_stage (s : State) (u : TaskId) (c : Apply) :
    ((∃ q, c.stage = .wait q) ∧ (s.tree.nodes w).wait = some u) ∧ (s.woke t w rest u c).stage = .wait false ∨
      ¬ ((∃ q, c.stage = .wait q) ∧ (s.tree.nodes w).wait = some u) ∧ (s.woke t w rest u c).stage = c.stage := by
  simp only [State.woke]
  split
  · rename_i hu
    cases hst : c.stage with
    | wait q => exact .inl ⟨⟨⟨q, rfl⟩, hu⟩, rfl⟩
    | _ => exact .inr ⟨by simp, rfl⟩
  · exact .inr ⟨fun h => absurd h.2 ‹_›, rfl⟩

theorem Apply.Waiting.woke (h : c.Waiting) : (s.woke t w rest u c).Waiting := by
  rcases woke_stage s u c with ⟨-, hst⟩ | ⟨-, hst⟩
  · exact .inr ⟨false, hst⟩
  · rwa [Apply.Waiting, hst]

theorem Apply.Loops.woke (h : c.Loops) : (s.woke t w rest u c).Loops := by
  rcases h with h | h
  · rcases woke_stage s u c with ⟨⟨⟨q, hq⟩, -⟩, -⟩ | ⟨-, hst⟩
    · cases h.symm.trans hq
    · exact .inl (hst.trans h)
  · exact .inr (Apply.Waiting.woke h)

section

variable (hs : s' = ({ s.setTask t (some { a with wake := rest }) with tree := s.tree.setWait w none } : State).unpark
  (s.tree.nodes w).wait) (ht : s.tasks t = some a)
include hs ht

theorem woke_tasks (u : TaskId) : s'.tasks u = (s.tasks u).map (s.woke t w rest u) := by
  rw [hs, unpark_tasks]
  show (if _ then (Function.update s.tasks t _ u).map _ else Function.update s.tasks t _ u) = _
  by_cases hut : u = t
  · subst hut
    rw [update_self, ht]
    split <;> simp [State.woke, *]
  · rw [update_of_ne hut]
    cases s.tasks u <;> split <;> simp [State.woke, *]

/-- One turn of `WakeQueue::wake`. -/
theorem WaitInv.wakeOne (h : WaitInv s) (hwk : a.wake = w :: rest) : WaitInv s' := by
  have hback : ∀ u c, s.tasks u = some c → s'.tasks u = some (s.woke t w rest u c) := fun u c hu => by
    rw [woke_tasks hs ht, hu]
    rfl
  have hold : ∀ u b, s'.tasks u = some b → ∃ c, s.tasks u = some c ∧ s.woke t w rest u c = b := fun u b hb =>
    map_eq_some_iff.1 ((woke_tasks hs ht u).symm.trans hb)
  -- a task that waits on `w` with a registration is the one that is woken
  have hreg : ∀ u c, s.tasks u = some c → c.waiter = some w → c.stage ≠ .leave → (s.tree.nodes w).wait ≠ none →
      (∃ q, c.stage = .wait q) ∧ (s.tree.nodes w).wait = some u := by
    intro u b hu hb hl hne
    have hok := h.task u b w hu hb
    cases hs : b.stage with
    | attempt => exact absurd (hok.quiet (.inl hs)) hne
    | drain r => exact absurd (hok.quiet (.inr ⟨r, hs⟩)) hne
    | wait q => exact ⟨⟨q, rfl⟩, (hok.notified ⟨q, hs⟩ hne).1⟩
    | leave => exact absurd hs hl
  have hi : s'.inodes = s.inodes := hs ▸ (unpark_frame ..).1
  have htr : s'.tree = s.tree.setWait w none := hs ▸ (unpark_frame ..).2
  have hpar : ∀ x, s'.tree.par x = s.tree.par x := fun x => by
    rw [htr]
    exact setWait_par ..
  have hrec : ∀ x, (s'.tree.nodes x).record = (s.tree.nodes x).record := fun x => by
    rw [htr]
    exact setWait_record ..
  have hne : ∀ x, x ≠ w → (s'.tree.nodes x).wait = (s.tree.nodes x).wait := fun x hx => by
    rw [htr, setWait_wait, if_neg hx]
  have hself : (s'.tree.nodes w).wait = none := by
    rw [htr, setWait_wait, if_pos rfl]
  have hnext : s'.tree.next = s.tree.next := by rw [htr]; rfl
  have hinst : ∀ l, Installed s' l ↔ Installed s l := fun l => by
    unfold Installed
    rw [hi]
  have hq : ∀ v, v ≠ w → Queued s v → Queued s' v := by
    rintro v hv ⟨u, c, hu, hc⟩
    refine ⟨u, _, hback u c hu, ?_⟩
    by_cases hut : u = t
    · cases (hut ▸ hu).symm.trans ht
      rw [hwk, List.mem_cons] at hc
      simpa [State.woke, hut] using hc.resolve_left hv
    · simpa [State.woke, hut] using hc
  have F : Frame s s' := by
    refine ⟨htr ▸ h.tree.setWait (.inr rfl), hnext.ge, fun k _ => hrec k, fun l hl => .inl ⟨l, (hinst l).1 hl, rfl⟩,
      fun x v hx => .inl ((hpar x).symm.trans hx), fun v hpn hv hvq => ?_⟩
    have hvw : v ≠ w := fun he => hv (by rw [he, hself])
    exact hq v hvw (hvq.resolve_left fun hn => hn ((hpar v).symm.trans hpn))
  -- the registration of a task that is not woken stays
  have hsame : ∀ u c v, s.tasks u = some c → c.waiter = some v →
      ¬ ((∃ q, c.stage = .wait q) ∧ (s.tree.nodes w).wait = some u) →
      c.stage ≠ .leave → (s'.tree.nodes v).wait = (s.tree.nodes v).wait := by
    intro u c v hu hv hno hl
    by_cases hvw : v = w
    · subst hvw
      rw [hself]
      by_contra hn
      exact hno (hreg u c hu hv hl (Ne.symm hn))
    · exact hne v hvw
  refine h.of_frame F ((s.tree.nodes w).wait.getD t) (fun u b hup hb => ?_)
    (fun u c v hup hu hv => hsame u c v hu hv fun ⟨_, ho⟩ => hup (by rw [ho]; rfl)) (by rw [hi]; exact h.whole)
    (fun b v hb hv => ?_) (fun b v hb hv => ?_) (fun x k hx => ?_) (fun x k hx => ?_)
  · obtain ⟨c, hc, rfl⟩ := hold u b hb
    refine ⟨c, hc, ?_, rfl, rfl, rfl⟩
    rcases woke_stage s u c with ⟨⟨-, ho⟩, -⟩ | ⟨-, hst⟩
    · exact absurd (by rw [ho]; rfl) hup
    · exact hst
  · obtain ⟨c, hc, rfl⟩ := hold _ b hb
    rcases woke_stage s _ c with ⟨⟨⟨q, hcq⟩, ho⟩, hst⟩ | ⟨hno, hst⟩
    · -- the task that is woken
      have hok := h.task _ c v hc hv
      refine ⟨hok.lt.trans_le hnext.ge, (hrec v).trans hok.record, hok.blocking, hok.kind, h.apart_frame F hc hv,
        fun hcs => ?_, fun hl => absurd (.inr (.inr ⟨false, hst⟩)) hl, fun _ hnn => ?_, fun hcs => ?_⟩
      · rcases hcs with hcs | ⟨r, hcs⟩ <;> cases hst.symm.trans hcs
      · have hvw : v ≠ w := fun he => hnn (by rw [he, hself])
        rw [hne v hvw] at hnn ⊢
        obtain ⟨h1, h2⟩ := hok.notified ⟨q, hcq⟩ hnn
        exact ⟨h1, fun hpn => hq v hvw (h2 ((hpar v).symm.trans hpn))⟩
      · cases hst.symm.trans hcs
    · exact h.task_frame F hc hv ⟨hst, rfl, rfl, rfl⟩ (hsame _ c v hc hv hno)
  · obtain ⟨c, hc, rfl⟩ := hold _ b hb
    exact .inl ⟨c, hc, hv⟩
  · obtain ⟨u, c, hu, hcw, hcs⟩ := h.blocked x k ((hpar x).symm.trans hx)
    exact ⟨u, _, hback u c hu, hcw, Apply.Waiting.woke hcs⟩
  · have hab : Above s.tree.par x k := hx.mono fun y z hy => (hpar y).symm.trans hy
    exact h.faces_frame F hab.par_ne_none (h.faces x k hab) (fun l hl hid => ⟨l, (hinst l).2 hl, hid, .refl _⟩)
      fun u c hu hcw hlo => ⟨_, hback u c hu, hcw, hlo.woke⟩

end

end XKernel.Locks
