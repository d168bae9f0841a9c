import XKernel.Fs.LocksTree
/-!
# What `try_apply` does to the waiting requests

A lock that leaves its list, or keeps less than it had, releases its requests first.
All other locks stay, possibly with a larger range. After that `try_apply` hands the
requests of a granted request over to the lock that now covers it, or adds the request
to the tree.
-/

namespace XKernel.Locks

open XKernel.Lib List Option Releases

/-! ## Records that cover others -/

/-- Same owner and kind, and at least the range. -/
structure Covers (r' r : FileLock) : Prop where
  owner : r'.owner = r.owner
  kind : r'.kind = r.kind
  lo : r'.start ≤ r.start
  hi : r.stop ≤ r'.stop

theorem Covers.refl (r : FileLock) : Covers r r := ⟨rfl, rfl, le_rfl, le_rfl⟩

theorem Covers.trans {a b c : FileLock} (h : Covers a b) (h' : Covers b c) : Covers a c :=
  ⟨h.owner.trans h'.owner, h.kind.trans h'.kind, h.lo.trans h'.lo, h'.hi.trans h.hi⟩

theorem conflictsWith_iff {a b : FileLock} : a.conflictsWith b = true ↔
    a.owner ≠ b.owner ∧ (a.start ≤ b.stop ∧ b.start ≤ a.stop) ∧ (a.kind = .write ∨ b.kind = .write) := by
  simp only [FileLock.conflictsWith, FileLock.overlaps, Bool.and_eq_true, bne_iff_ne, decide_eq_true_eq,
    Bool.or_eq_true, beq_iff_eq, and_assoc]

/-- What conflicts with a record conflicts with one that covers it. -/
theorem Covers.conflict {x r' r : FileLock} (h : Covers r' r) (hc : x.conflictsWith r = true) :
    x.conflictsWith r' = true := by
  rw [conflictsWith_iff] at hc ⊢
  have hlo := h.lo
  have hhi := h.hi
  refine ⟨by rw [h.owner]; exact hc.1, by omega, by rw [h.kind]; exact hc.2.2⟩

/-! ## Changes of a list -/

/-- Locks outside `D` stay and keep their range; `D` are those whose requests were released. -/
structure Relists (D : NodeId → Prop) (list list' : List OwnedLock) (s s' : Waits) : Prop where
  releases : Releases D s s'
  source : ∀ l' ∈ list', (∃ l ∈ list, l.id = l'.id) ∨ s.tree.next ≤ l'.id ∧ l'.id < s'.tree.next
  kept : ∀ l ∈ list, ¬ D l.id → ∃ l' ∈ list', l'.id = l.id ∧ Covers l'.record l.record

namespace Relists

variable {D D' : NodeId → Prop} {list list' list'' : List OwnedLock} {s s' s'' : Waits}

theorem same (h : Releases D s s') : Relists D list list s s' :=
  ⟨h, fun l hl => .inl ⟨l, hl, rfl⟩, fun l hl _ => ⟨l, hl, rfl, .refl _⟩⟩

theorem trans (h : Relists D list list' s s') (h' : Relists D' list' list'' s' s'') :
    Relists (fun n => D n ∨ D' n) list list'' s s'' where
  releases := h.releases.trans h'.releases
  source l'' hl'' := by
    rcases h'.source l'' hl'' with ⟨l', hl', hid⟩ | ⟨h1, h2⟩
    · rcases h.source l' hl' with ⟨l, hl, hid'⟩ | ⟨h1, h2⟩
      · exact .inl ⟨l, hl, hid'.trans hid⟩
      · rw [hid] at h1 h2
        exact .inr ⟨h1, h2.trans_le h'.releases.next⟩
    · exact .inr ⟨h.releases.next.trans h1, h2⟩
  kept l hl hn := by
    rw [not_or] at hn
    obtain ⟨l', hl', hid, hc⟩ := h.kept l hl hn.1
    obtain ⟨l'', hl'', hid', hc'⟩ := h'.kept l' hl' (by rw [hid]; exact hn.2)
    exact ⟨l'', hl'', hid'.trans hid, hc'.trans hc⟩

end Relists

theorem removeOwner_relists (owner : FileLockOwner) (list : List OwnedLock) (s : Waits) (h : s.tree.Ok) :
    ∃ D, Relists D list (removeOwner owner list s).1 s (removeOwner owner list s).2 := by
  induction list generalizing s with
  | nil => exact ⟨_, .same (.refl h)⟩
  | cons lock list ih =>
    unfold removeOwner
    split
    · have hd := detachBlocked h lock.id
      obtain ⟨D, hD⟩ := ih _ hd.ok
      have hdrop : Relists (· = lock.id) (lock :: list) list s (s.detachBlocked lock.id) :=
        ⟨hd, fun l hl => .inl ⟨l, mem_cons_of_mem _ hl, rfl⟩,
          forall_mem_cons.2 ⟨fun hn => absurd rfl hn, fun l hl _ => ⟨l, hl, rfl, .refl _⟩⟩⟩
      exact ⟨_, hdrop.trans hD⟩
    · obtain ⟨D, hD⟩ := ih s h
      refine ⟨D, hD.releases, forall_mem_cons.2 ⟨.inl ⟨lock, mem_cons_self, rfl⟩, fun l' hl' => ?_⟩,
        forall_mem_cons.2 ⟨fun _ => ⟨lock, mem_cons_self, rfl, .refl _⟩, fun l hl hn => ?_⟩⟩
      · refine (hD.source l' hl').imp_left ?_
        rintro ⟨l, hl, hid⟩
        exact ⟨l, mem_cons_of_mem _ hl, hid⟩
      · obtain ⟨l', hl', hp⟩ := hD.kept l hl hn
        exact ⟨l', mem_cons_of_mem _ hl', hp⟩

/-- The lock that is merged into so far. -/
def MergedOk (req : FileLock) (u : Update) : Prop := ∀ m, u.merged = some m →
  m.record.owner = req.owner ∧ m.record.kind = req.kind ∧ u.start ≤ m.record.start ∧ m.record.stop ≤ u.stop

/-- What the loop of `update` does with the rest of a list. -/
structure Sweeps (req : FileLock) (D : NodeId → Prop) (list : List OwnedLock) (u v : Update) : Prop where
  releases : Releases D u.waits v.waits
  source : ∀ l' ∈ v.remaining, l' ∈ u.remaining ∨ (∃ l ∈ list, l.id = l'.id) ∨
    u.waits.tree.next ≤ l'.id ∧ l'.id < v.waits.tree.next
  remaining : ∀ l ∈ u.remaining, l ∈ v.remaining
  kept : ∀ l ∈ list, ¬ D l.id → (∃ l' ∈ v.remaining, l'.id = l.id ∧ Covers l'.record l.record) ∨ v.merged = some l
  merged : ∀ m, v.merged = some m → u.merged = some m ∨ m ∈ list
  merged_kept : ∀ m, u.merged = some m → v.merged = some m
  bounds : v.start ≤ u.start ∧ u.stop ≤ v.stop
  ok : MergedOk req v

variable {D : NodeId → Prop} {list : List OwnedLock} {lock : OwnedLock} {req : FileLock}

/-- A turn of the loop: what is left of the lock, if anything, has its identity, and its requests are released unless it
stays or is merged into. -/
theorem Sweeps.cons {D₀ : NodeId → Prop} {u u' v : Update} (h : Sweeps req D list u' v) (left : List OwnedLock)
    (hr : Releases D₀ u.waits u'.waits) (hrem : u'.remaining = u.remaining ++ left) (hleft : ∀ l ∈ left, l.id = lock.id)
    (hkept : D₀ lock.id ∨ lock ∈ left ∨ u'.merged = some lock)
    (hm : u'.merged = u.merged ∨ u.merged = none ∧ u'.merged = some lock) (hb : u'.start ≤ u.start ∧ u.stop ≤ u'.stop) :
    Sweeps req (fun n => D₀ n ∨ D n) (lock :: list) u v where
  releases := hr.trans h.releases
  source l' hl' := by
    rcases h.source l' hl' with hl | ⟨l, hl, hid⟩ | hl
    · rw [hrem] at hl
      rcases mem_append.1 hl with hl | hl
      · exact .inl hl
      · exact .inr (.inl ⟨lock, mem_cons_self, (hleft l' hl).symm⟩)
    · exact .inr (.inl ⟨l, mem_cons_of_mem _ hl, hid⟩)
    · exact .inr (.inr ⟨hr.next.trans hl.1, hl.2⟩)
  remaining l hl := h.remaining l (by rw [hrem]; exact mem_append_left _ hl)
  kept := by
    refine forall_mem_cons.2 ⟨fun hn => ?_, fun l hl hn => h.kept l hl fun hD => hn (.inr hD)⟩
    rcases hkept with hD | hl | hm
    · exact absurd (.inl hD) hn
    · exact .inl ⟨lock, h.remaining lock (by rw [hrem]; exact mem_append_right _ hl), rfl, .refl _⟩
    · exact .inr (h.merged_kept lock hm)
  merged m hv := by
    rcases h.merged m hv with hv | hv
    · rcases hm with hm | ⟨-, hm⟩
      · exact .inl (hm.symm.trans hv)
      · cases hm.symm.trans hv
        exact .inr mem_cons_self
    · exact .inr (mem_cons_of_mem _ hv)
  merged_kept m hv := by
    rcases hm with hm | ⟨hn, -⟩
    · exact h.merged_kept m (hm.trans hv)
    · cases hn.symm.trans hv
  bounds := ⟨h.bounds.1.trans hb.1, hb.2.trans h.bounds.2⟩
  ok := h.ok

theorem updateLoop_sweeps (req : FileLock) (list : List OwnedLock) (u : Update) (h : u.waits.tree.Ok)
    (hm : MergedOk req u) : ∃ D, Sweeps req D list u (updateLoop req list u) := by
  induction list generalizing u with
  | nil =>
    exact ⟨_, .refl h, fun l hl => .inl hl, fun l hl => hl, fun l hl => absurd hl not_mem_nil, fun m hv => .inl hv,
      fun m hv => hv, ⟨le_rfl, le_rfl⟩, hm⟩
  | cons lock list ih =>
    unfold updateLoop
    simp only
    have hd := detachBlocked h lock.id
    have hkeep : ∃ D, Sweeps req D (lock :: list) u
        (updateLoop req list { u with remaining := u.remaining ++ [lock] }) := by
      obtain ⟨D, hD⟩ := ih { u with remaining := u.remaining ++ [lock] } h hm
      exact ⟨_, hD.cons [lock] (.refl h) rfl (by simp) (.inr (.inl mem_cons_self)) (.inl rfl) ⟨le_rfl, le_rfl⟩⟩
    split
    · exact hkeep
    rename_i ho
    rw [not_not] at ho
    split
    · rename_i hk
      have hgrow : ∀ m, u.merged = some m → m.record.owner = req.owner ∧ m.record.kind = req.kind ∧
          min u.start lock.record.start ≤ m.record.start ∧ m.record.stop ≤ max u.stop lock.record.stop := by
        intro m hv
        obtain ⟨h1, h2, h3, h4⟩ := hm m hv
        exact ⟨h1, h2, (min_le_left _ _).trans h3, h4.trans (le_max_left _ _)⟩
      split
      · rename_i hnone
        -- the first one merged keeps its requests
        have hm' : MergedOk req { u with
            start := min u.start lock.record.start
            stop := max u.stop lock.record.stop
            merged := some lock } := by
          rintro m ⟨⟩
          exact ⟨ho, hk.1, min_le_right _ _, le_max_right _ _⟩
        obtain ⟨D, hD⟩ := ih _ (by exact h) hm'
        have hmerge := hD.cons (u := u) [] (.refl h) (append_nil _).symm (forall_mem_nil _) (.inr (.inr rfl))
          (.inr ⟨hnone, rfl⟩)
          ⟨min_le_left _ _, le_max_left _ _⟩
        exact ⟨_, hmerge⟩
      · have hm' : MergedOk req { u with
            start := min u.start lock.record.start
            stop := max u.stop lock.record.stop
            waits := u.waits.detachBlocked lock.id } := hgrow
        obtain ⟨D, hD⟩ := ih _ (by exact hd.ok) hm'
        have hrel := hD.cons (u := u) [] hd (append_nil _).symm (forall_mem_nil _) (.inl rfl) (.inl rfl)
          ⟨min_le_left _ _, le_max_left _ _⟩
        exact ⟨_, hrel⟩
    -- a record of another kind under the range: its requests are released, and what is left keeps its identity
    have hcut : ∀ left, (∀ l ∈ left, l.id = lock.id) → ∃ D, Sweeps req D (lock :: list) u
        (updateLoop req list { u with remaining := u.remaining ++ left, waits := u.waits.detachBlocked lock.id }) := by
      intro left hleft
      obtain ⟨D, hD⟩ := ih { u with remaining := u.remaining ++ left, waits := u.waits.detachBlocked lock.id } hd.ok hm
      exact ⟨_, hD.cons left hd rfl hleft (.inl rfl) (.inl rfl) ⟨le_rfl, le_rfl⟩⟩
    split
    · split
      · have ha := alloc hd.ok { lock.record with start := u.stop + 1 }
        refine ⟨_, hd.trans ha, fun l' hl' => ?_, fun l hl => ?_, fun l hl hn => ?_, fun m hv => .inl hv,
          fun m hv => hv, ⟨le_rfl, le_rfl⟩, hm⟩
        · simp only [mem_append, mem_cons, not_mem_nil, or_false] at hl'
          rcases hl' with (hl' | rfl | rfl) | hl'
          · exact .inl hl'
          · exact .inr (.inl ⟨lock, mem_cons_self, rfl⟩)
          · exact .inr (.inr ⟨hd.next, Nat.lt_succ_self _⟩)
          · exact .inr (.inl ⟨l', mem_cons_of_mem _ hl', rfl⟩)
        · exact mem_append_left _ (mem_append_left _ hl)
        · rcases mem_cons.1 hl with rfl | hl
          · exact absurd (.inl rfl) hn
          · exact .inl ⟨l, mem_append_right _ hl, rfl, .refl _⟩
      split
      · exact hcut _ fun l hl => by rw [mem_singleton.1 hl]; rfl
      split
      · exact hcut _ fun l hl => by rw [mem_singleton.1 hl]; rfl
      · have := hcut [] (forall_mem_nil _)
        rwa [append_nil] at this
    · exact hkeep

theorem mem_install {l : OwnedLock} : l ∈ install list lock ↔ l = lock ∨ l ∈ list := by
  unfold install
  conv_rhs => rw [← takeWhile_append_dropWhile (p := (·.record.keyBefore lock.record)) (l := list)]
  simp only [mem_append, mem_cons]
  tauto

/-- `update` leaves a lock that covers the request, and hands the waiting requests over to it. -/
theorem update_relists (req : FileLock) (waiter : Option NodeId) (list : List OwnedLock) (s : Waits) (h : s.tree.Ok)
    (hkind : ∀ l ∈ list, l.record.kind ≠ .unlock) :
    ∃ D mid, Relists D list (update req waiter list s).1 s mid ∧
      if req.kind = .unlock then (update req waiter list s).2 = mid
      else ∃ target ∈ (update req waiter list s).1, Covers target.record req ∧
        (update req waiter list s).2 = acceptWaiters waiter target.id mid := by
  obtain ⟨D, hD⟩ := updateLoop_sweeps req list ⟨req.start, req.stop, [], none, s⟩ h fun m hm => by cases hm
  unfold update
  generalize updateLoop req list _ = u at hD
  have hsource : ∀ l' ∈ u.remaining, (∃ l ∈ list, l.id = l'.id) ∨ s.tree.next ≤ l'.id ∧ l'.id < u.waits.tree.next :=
    fun l' hl' => (hD.source l' hl').resolve_left not_mem_nil
  by_cases hk : req.kind = .unlock
  · rw [if_neg (not_not.2 hk)]
    refine ⟨D, u.waits, ⟨hD.releases, hsource, fun l hl hn => ?_⟩, by rw [if_pos hk]⟩
    refine (hD.kept l hl hn).resolve_right fun hm => hkind l hl ?_
    rw [(hD.ok l hm).2.1, hk]
  · rw [if_pos hk]
    have hbounds := hD.bounds
    cases hm : u.merged with
    | some lock =>
      obtain ⟨ho, hkl, h1, h2⟩ := hD.ok lock hm
      have hlist : lock ∈ list := (hD.merged lock hm).resolve_left fun hc => by cases hc
      refine ⟨D, u.waits, ⟨hD.releases, fun l' hl' => ?_, fun l hl hn => ?_⟩, ?_⟩
      · rcases mem_install.1 hl' with rfl | hl'
        · exact .inl ⟨lock, hlist, rfl⟩
        · exact hsource l' hl'
      · rcases hD.kept l hl hn with ⟨l', hl', hp⟩ | hv
        · exact ⟨l', mem_install.2 (.inr hl'), hp⟩
        · rw [hm] at hv
          cases hv
          exact ⟨_, mem_install.2 (.inl rfl), rfl, rfl, rfl, h1, h2⟩
      · rw [if_neg hk]
        exact ⟨_, mem_install.2 (.inl rfl), ⟨ho, hkl, hbounds.1, hbounds.2⟩, rfl⟩
    | none =>
      have ha := alloc hD.releases.ok { req with start := u.start, stop := u.stop }
      have hrel := (hD.releases.trans ha).congr fun n => iff_of_eq (or_false (D n))
      refine ⟨D, _, ⟨hrel, fun l' hl' => ?_, fun l hl hn => ?_⟩, ?_⟩
      · rcases mem_install.1 hl' with rfl | hl'
        · exact .inr ⟨hD.releases.next, Nat.lt_succ_self _⟩
        · exact (hsource l' hl').imp_right fun hl => ⟨hl.1, Nat.lt_succ_of_lt hl.2⟩
      · rcases hD.kept l hl hn with ⟨l', hl', hp⟩ | hv
        · exact ⟨l', mem_install.2 (.inr hl'), hp⟩
        · rw [hm] at hv
          cases hv
      · rw [if_neg hk]
        exact ⟨_, mem_install.2 (.inl rfl), ⟨rfl, rfl, hbounds.1, hbounds.2⟩, rfl⟩

/-! ## Blocking -/

/-- A request lets its own requests go and is added below a lock, at the node `b`. -/
structure Blocks (w lock : NodeId) (s mid s' : Waits) (b : NodeId) : Prop where
  releases : Releases (· = w) s mid
  descends : Descends mid.tree (mid.tree.nodes w).record lock b
  attaches : Attaches mid.tree.par s'.tree.par w b
  ok : s'.tree.Ok
  next : s'.tree.next = mid.tree.next
  record : ∀ m, (s'.tree.nodes m).record = (mid.tree.nodes m).record
  wait : ∀ m, (s'.tree.nodes m).wait = (mid.tree.nodes m).wait
  wake : s'.wake = mid.wake

theorem Releases.par_none {s s' : Waits} (h : Releases D s s') {n : NodeId} (hn : s.tree.par n = none) :
    s'.tree.par n = none := by
  rw [eq_none_iff_forall_ne_some]
  intro m hm
  rw [((h.blocker n m).1 hm).1] at hn
  cases hn

/-- The assertion holds and both loops end. -/
theorem blockOn_spec {s : Waits} {w lock : NodeId} (addr : NodeId → Nat) (h : s.tree.Ok) (hw : s.tree.par w = none)
    (hwait : (s.tree.nodes w).wait = none) (hwn : w < s.tree.next) (hl : s.tree.par lock = none)
    (hln : lock < s.tree.next) (hne : w ≠ lock) :
    ∃ res s', s.blockOn addr w lock = some (res, s') ∧
      (res = .error .deadlock ∧ Releases (· = w) s s' ∨ res = .ok () ∧ ∃ mid b, Blocks w lock s mid s' b) := by
  have hrel := wakeBlocked h w
  have hassert : ((s.tree.nodes w).blocker.isNone && (s.tree.nodes w).wait.isNone) = true := by
    unfold WaitTree.par at hw
    rw [hw, hwait]
    rfl
  unfold Waits.blockOn
  rw [if_pos hassert]
  generalize s.wakeBlocked w = mid at hrel
  -- neither the request nor the lock is below anything, and the request has nothing below it
  have hleaf : ∀ x, mid.tree.par x ≠ some w := fun x hx => ((hrel.blocker x w).1 hx).2 rfl
  obtain ⟨dead, hdead⟩ := hasDeadlock_isSome hrel.ok addr (mid.tree.nodes w).record (mid.tree.nodes lock).record.owner
  simp only [hdead]
  cases dead with
  | true => exact ⟨_, _, rfl, .inl ⟨rfl, hrel⟩⟩
  | false =>
    have hk : mid.tree.next < mid.tree.next + 1 + 0 := Nat.lt_succ_self _
    obtain ⟨b, hb, hd⟩ := descend_spec hrel.ok (mid.tree.nodes w).record (.root (hrel.par_none hl)) hk
    have hwb : w ≠ b := by
      rintro rfl
      rcases hd.reach with he | he
      · exact hne he
      · exact he.par_ne_none (hrel.par_none hw)
    have hbn : b < mid.tree.next := by
      rcases hd.reach with rfl | hr
      · exact hln.trans_le hrel.next
      · obtain ⟨p, hp⟩ := ne_none_iff_exists'.1 hr.par_ne_none
        exact (hrel.ok.lt_of_par hp).1
    have hat : Attaches mid.tree.par ((mid.tree.setBlocker w (some b)).pushRequest b w).par w b :=
      ⟨hwb, hleaf, by simp, fun a ha => by simp [ha]⟩
    have hok := hrel.ok.push (hrel.par_none hw) (hwn.trans_le hrel.next) hbn (hat.rooted hrel.ok.rooted)
    simp only [hb]
    refine ⟨_, _, rfl, .inr ⟨rfl, mid, b, hrel, hd, ?_, ?_, ?_, fun m => ?_, fun m => ?_, rfl⟩⟩
    · split
      · exact hat
      · exact hat
    · split
      · exact hok.congr rfl rfl
      · exact hok
    · split <;> rfl
    · split <;> simp
    · split <;> simp

/-! ## `try_apply` -/

/-- The request of a call that has to wait: the one of an earlier attempt, or a new node. -/
structure Enrols (req : FileLock) (D : NodeId → Prop) (list : List OwnedLock) (waiter : Option NodeId) (s : Waits)
    (r : Tried) (mid : Waits) (w : NodeId) : Prop where
  relists : Relists D list r.list s mid
  waiter_eq : r.waiter = some w
  node : waiter = some w ∨ waiter = none ∧ s.tree.next ≤ w ∧ w < mid.tree.next ∧ (mid.tree.nodes w).record = req
  apart : ∀ l ∈ r.list, l.id ≠ w

/-- The answers of `try_apply`. -/
inductive Outcome (req : FileLock) (isBlocking : Bool) (list : List OwnedLock) (waiter : Option NodeId) (s : Waits)
    (r : Tried) : Prop
  | granted {D : NodeId → Prop} {mid : Waits} {target : OwnedLock} (h : Relists D list r.list s mid)
    (ht : target ∈ r.list) (hc : Covers target.record req) (hres : r.result = .ok false) (hw : r.waiter = waiter)
    (hs : r.waits = acceptWaiters waiter target.id mid)
  | unlocked {D : NodeId → Prop} (h : Relists D list r.list s r.waits) (hk : req.kind = .unlock)
    (hres : r.result = .ok false) (hw : r.waiter = waiter)
  | refused {D : NodeId → Prop} (h : Relists D list r.list s r.waits) (hb : isBlocking = false)
    (hres : r.result = .error .wouldBlock) (hw : r.waiter = waiter)
  | blocked {D : NodeId → Prop} {mid mid' : Waits} {lock : OwnedLock} {w b : NodeId}
    (h : Enrols req D list waiter s r mid w) (hk : req.kind ≠ .unlock) (hb : isBlocking = true) (hl : lock ∈ r.list)
    (hc : req.conflictsWith lock.record = true) (hbl : Blocks w lock.id mid mid' r.waits b) (hres : r.result = .ok true)
  | deadlock {D : NodeId → Prop} {mid : Waits} {w : NodeId} (h : Enrols req D list waiter s r mid w)
    (hk : req.kind ≠ .unlock) (hb : isBlocking = true) (hr : Releases (· = w) mid r.waits)
    (hres : r.result = .error .deadlock)

variable {req : FileLock} {isBlocking : Bool} {list list' : List OwnedLock} {waiter : Option NodeId} {s s' : Waits}
  {r : Tried}

/-- A change of the list before the answer. -/
theorem Outcome.after (h : Relists D list list' s s') (ho : Outcome req isBlocking list' waiter s' r) :
    Outcome req isBlocking list waiter s r := by
  have henrol : ∀ {D' mid w}, Enrols req D' list' waiter s' r mid w →
      Enrols req (fun n => D n ∨ D' n) list waiter s r mid w := fun he =>
    ⟨h.trans he.relists, he.waiter_eq, he.node.imp_right fun hn =>
      ⟨hn.1, h.releases.next.trans hn.2.1, hn.2.2⟩, he.apart⟩
  cases ho with
  | granted h' ht hc hres hw hs => exact .granted (h.trans h') ht hc hres hw hs
  | unlocked h' hk hres hw => exact .unlocked (h.trans h') hk hres hw
  | refused h' hb hres hw => exact .refused (h.trans h') hb hres hw
  | blocked h' hk hb hl hc hbl hres => exact .blocked (henrol h') hk hb hl hc hbl hres
  | deadlock h' hk hb hr hres => exact .deadlock (henrol h') hk hb hr hres

/-- What holds of a list and a waiting request when `try_apply` is called. -/
structure Ready (list : List OwnedLock) (waiter : Option NodeId) (s : Waits) : Prop where
  tree : s.tree.Ok
  lock : ∀ l ∈ list, l.id < s.tree.next ∧ s.tree.par l.id = none ∧ l.record.kind ≠ .unlock
  waiter : ∀ w, waiter = some w → w < s.tree.next ∧ s.tree.par w = none ∧ (s.tree.nodes w).wait = none ∧
    ∀ l ∈ list, l.id ≠ w

theorem tryRecord_outcome (addr : NodeId → Nat) (h : Ready list waiter s) :
    ∃ r, tryRecord addr req isBlocking list waiter s = some r ∧ Outcome req isBlocking list waiter s r := by
  have hsame : Relists (fun _ => False) list list s s := .same (.refl h.tree)
  unfold tryRecord
  split
  · rename_i hall
    obtain ⟨D, hD⟩ := removeOwner_relists req.owner list s h.tree
    exact ⟨_, rfl, .unlocked hD hall.1 rfl rfl⟩
  split
  · rename_i lock hf
    have hk : req.kind ≠ .unlock := fun hk => by
      rw [if_pos hk] at hf
      cases hf
    rw [if_neg hk] at hf
    have hl := mem_of_find?_eq_some hf
    have hc := find?_some hf
    obtain ⟨hln, hlp, -⟩ := h.lock lock hl
    by_cases hb : isBlocking = true
    swap
    · rw [Bool.not_eq_true] at hb
      rw [hb]
      exact ⟨_, rfl, .refused hsame rfl rfl rfl⟩
    rw [hb]
    -- whether the node is old or new, `block_on` is called with a request outside the tree
    have hblock : ∀ (w : NodeId) (mid : Waits), Relists (fun _ => False) list list s mid →
        (waiter = some w ∨ waiter = none ∧ s.tree.next ≤ w ∧ w < mid.tree.next ∧ (mid.tree.nodes w).record = req) →
        w < mid.tree.next → mid.tree.par w = none → (mid.tree.nodes w).wait = none → (∀ l ∈ list, l.id ≠ w) →
        ∃ res s', mid.blockOn addr w lock.id = some (res, s') ∧
          Outcome req true list waiter s ⟨res.map fun _ => true, list, some w, s'⟩ := by
      intro w mid hre hnode hwn hwp hwait hap
      obtain ⟨res, s', hbl, hcase⟩ := blockOn_spec addr hre.releases.ok hwp hwait hwn (hre.releases.par_none hlp)
        (hln.trans_le hre.releases.next) (fun hc => hap lock hl hc.symm)
      rw [hbl]
      rcases hcase with ⟨rfl, hrel⟩ | ⟨rfl, mid', b, hbk⟩
      · exact ⟨_, _, rfl, .deadlock ⟨hre, rfl, hnode, hap⟩ hk rfl hrel rfl⟩
      · exact ⟨_, _, rfl, .blocked ⟨hre, rfl, hnode, hap⟩ hk rfl hl hc hbk rfl⟩
    cases hw : waiter with
    | some w =>
      obtain ⟨h1, h2, h3, h4⟩ := h.waiter w hw
      obtain ⟨res, s', hbl, ho⟩ := hblock w s hsame (.inl hw) h1 h2 h3 h4
      rw [hw] at ho
      refine ⟨_, bind_eq_some_iff.2 ⟨_, hbl, ?_⟩, ho⟩
      cases res <;> rfl
    | none =>
      have ha := alloc h.tree req
      have hnew := h.tree.fresh s.tree.next le_rfl
      obtain ⟨res, s', hbl, ho⟩ := hblock s.tree.next { s with tree := (s.tree.alloc req).2 } (.same ha)
        (.inr ⟨hw, le_rfl, Nat.lt_succ_self _, by
          show ((s.tree.alloc req).2.nodes s.tree.next).record = req
          rw [WaitTree.alloc_nodes, if_pos rfl]
          rfl⟩)
        (Nat.lt_succ_self _) (ha.par_none hnew.1) (by rw [ha.wait]; exact hnew.2.1)
        fun l hl => Nat.ne_of_lt (h.lock l hl).1
      rw [hw] at ho
      refine ⟨_, bind_eq_some_iff.2 ⟨_, hbl, ?_⟩, ho⟩
      cases res <;> rfl
  split
  · rename_i lock hc
    have hp := find?_some hc
    simp only [decide_eq_true_eq] at hp
    exact ⟨_, rfl, .granted hsame (mem_of_find?_eq_some hc) ⟨hp.1, hp.2.1, hp.2.2.1, hp.2.2.2⟩ rfl rfl rfl⟩
  · obtain ⟨D, mid, hD, hrest⟩ := update_relists req waiter list s h.tree fun l hl => (h.lock l hl).2.2
    by_cases hk : req.kind = .unlock
    · rw [if_pos hk] at hrest
      exact ⟨_, rfl, .unlocked (hrest ▸ hD) hk rfl rfl⟩
    · rw [if_neg hk] at hrest
      obtain ⟨target, ht, hcov, hs⟩ := hrest
      exact ⟨_, rfl, .granted hD ht hcov rfl rfl hs⟩

/-- A BSD lock is on the whole file. -/
structure Whole (l : OwnedLock) : Prop where
  lo : l.record.start ≤ 0
  hi : i64Max ≤ l.record.stop
  kind : l.record.kind ≠ .unlock

/-- `try_apply` returns, with one of its answers. -/
theorem tryList_outcome (addr : NodeId → Nat) (h : Ready list waiter s) (hreq : req.Valid)
    (hwhole : req.owner.isFlock = true → ∀ l ∈ list, Whole l) :
    ∃ r, tryList addr req isBlocking list waiter s = some r ∧ Outcome req isBlocking list waiter s r := by
  unfold tryList
  by_cases hf : req.owner.isFlock = true
  · rw [if_pos hf]
    split
    · rename_i lock hc
      have hl := mem_of_find?_eq_some hc
      have hp := find?_some hc
      simp only [decide_eq_true_eq] at hp
      have hw := hwhole hf lock hl
      have hlo := hreq.lo
      have hhi := hreq.hi
      refine ⟨_, rfl, .granted (.same (.refl h.tree)) hl ⟨hp.1, hp.2, hw.lo.trans hlo, hhi.trans hw.hi⟩ rfl rfl rfl⟩
    · obtain ⟨D, hD⟩ := removeOwner_relists req.owner list s h.tree
      have hsub : ∀ l ∈ (removeOwner req.owner list s).1, l ∈ list := fun l hl => by
        rw [removeOwner_list] at hl
        exact (mem_filter.1 hl).1
      have hready : Ready (removeOwner req.owner list s).1 waiter (removeOwner req.owner list s).2 := by
        refine ⟨hD.releases.ok, fun l hl => ?_, fun w hw => ?_⟩
        · obtain ⟨h1, h2, h3⟩ := h.lock l (hsub l hl)
          exact ⟨h1.trans_le hD.releases.next, hD.releases.par_none h2, h3⟩
        · obtain ⟨h1, h2, h3, h4⟩ := h.waiter w hw
          exact ⟨h1.trans_le hD.releases.next, hD.releases.par_none h2, by rw [hD.releases.wait]; exact h3,
            fun l hl => h4 l (hsub l hl)⟩
      obtain ⟨r, hr, ho⟩ : ∃ r, tryRecord addr req isBlocking _ waiter _ = some r ∧
          Outcome req isBlocking _ waiter _ r :=
        tryRecord_outcome addr hready
      exact ⟨r, hr, ho.after hD⟩
  · rw [if_neg hf]
    exact tryRecord_outcome addr h

end XKernel.Locks
