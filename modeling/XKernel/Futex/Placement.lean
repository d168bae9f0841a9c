import XKernel.Futex.Calls
/-!
# Waiters and the queues they are in

Every queued waiter is in one queue, the one its route names and its key hashes to, and every
woken waiter was selected once. Each critical section keeps this: enqueueing, cancelling,
marking, requeueing and draining.
-/

namespace XKernel.Futex

open XKernel.Lib Function List Option FutexWaiter Waiters

/-! ## Waiters and queues -/

/-- What holds of the table alone. -/
structure Table (s : Futexes) : Prop where
  nodup : ∀ b, (s.queues b).Nodup
  known : ∀ b, ∀ w ∈ s.queues b, (s.waiters w).isSome
  placed : ∀ w x, s.waiters w = some x → x.state = .queued → ∀ b, w ∈ s.queues b ↔ b = x.route.bucket
  hashed : ∀ w x, s.waiters w = some x → x.route.bucket = s.bucketId x.route.key
  counted : ∀ w, (s.selected.map Prod.snd).count w = if s.waiters.holds FutexWaiter.isWoken w then 1 else 0

namespace Waiters

variable {waiters : Waiters} {p : FutexWaiter → Bool} {w : Nat}

theorem holds_eq_true : waiters.holds p w = true ↔ ∃ x, waiters w = some x ∧ p x = true := by
  simp [holds, Option.any_eq_true]

theorem isSome_changeAll (f : FutexWaiter → FutexWaiter) (l : List Nat) (w : Nat) :
    (waiters.changeAll f l w).isSome = (waiters w).isSome := by
  unfold changeAll
  split <;> simp

variable {f : FutexWaiter → FutexWaiter} {l : List Nat}

theorem changeAll_eq_none (h : waiters w = none) :
    waiters.changeAll f l w = none := by
  simp [changeAll, h]

/-- A waiter after a change of a list of waiters. -/
theorem changeAll_eq_some {x' : FutexWaiter}
    (h : waiters.changeAll f l w = some x') :
    ∃ x, waiters w = some x ∧ (w ∈ l ∧ x' = f x ∨ w ∉ l ∧ x' = x) := by
  by_cases hw : w ∈ l
  · rw [changeAll_of_mem hw, map_eq_some_iff] at h
    obtain ⟨x, hx, rfl⟩ := h
    exact ⟨x, hx, .inl ⟨hw, rfl⟩⟩
  · rw [changeAll_of_not_mem hw] at h
    exact ⟨x', h, .inr ⟨hw, rfl⟩⟩

end Waiters

variable {x : FutexWaiter}

theorem FutexWaiter.isQueued_iff : x.isQueued = true ↔ x.state = .queued := by
  simp [isQueued]

theorem FutexWaiter.isWoken_iff : x.isWoken = true ↔ x.state = .woken := by
  simp [isWoken]

namespace Table

variable {s : Futexes}

theorem congr {s' : Futexes} (h : Table s) (hseed : s'.hashSeed = s.hashSeed) (hq : s'.queues = s.queues)
    (hw : s'.waiters = s.waiters) (hs : s'.selected = s.selected) : Table s' := by
  refine ⟨by rw [hq]; exact h.nodup, by rw [hq, hw]; exact h.known, by rw [hq, hw]; exact h.placed, ?_,
    by rw [hs, hw]; exact h.counted⟩
  intro w x hx
  rw [hw] at hx
  simpa [Futexes.bucketId, hseed] using h.hashed w x hx

variable {l : List Nat}

theorem wake (h : Table s) (hn : l.Nodup) (hl : ∀ w ∈ l, s.waiters.holds isQueued w = true)
    (c : Nat) : Table { s with waiters := s.waiters.wakeAll l, selected := s.selected ++ l.map (c, ·) } := by
  have hold : ∀ w x, s.waiters.wakeAll l w = some x → x.state = .queued → s.waiters w = some x ∧ w ∉ l := by
    intro w x hx hq
    obtain ⟨x0, hx0, ⟨-, rfl⟩ | ⟨hw, rfl⟩⟩ := changeAll_eq_some hx
    · cases hq
    · exact ⟨hx0, hw⟩
  refine ⟨h.nodup, fun b w hw => ?_, fun w x hx hq => ?_, fun w x hx => ?_, fun w => ?_⟩
  · exact (isSome_changeAll _ l w).trans (h.known b w hw)
  · exact h.placed w x (hold w x hx hq).1 hq
  · obtain ⟨x0, hx0, ⟨-, rfl⟩ | ⟨-, rfl⟩⟩ := changeAll_eq_some hx
    · exact h.hashed w x0 hx0
    · exact h.hashed w x hx0
  · have hmap : (l.map fun w => (c, w)).map Prod.snd = l := by simp
    have hcount := h.counted w
    rw [map_append, count_append, hmap, hcount]
    by_cases hw : w ∈ l
    · obtain ⟨x, hx, hq⟩ := holds_eq_true.1 (hl w hw)
      have hbefore : s.waiters.holds isWoken w = false := by
        simp [holds, hx, isWoken, isQueued_iff.1 hq]
      have hafter : (s.waiters.wakeAll l).holds isWoken w = true := by
        simp [holds, wakeAll, changeAll_of_mem hw, hx, isWoken]
      simp [hbefore, hafter, count_eq_one_of_mem hn hw]
    · have hsame : (s.waiters.wakeAll l).holds isWoken w = s.waiters.holds isWoken w :=
        holds_changeAll_of_not_mem _ hw
      simp [hsame, count_eq_zero_of_not_mem hw]

/-- A change of routes, with queues that follow it. -/
theorem move (h : Table s) {target : FutexKey} {queues : BucketId → List Nat}
    (hn : ∀ b, (queues b).Nodup) (hknown : ∀ b, ∀ w ∈ queues b, (s.waiters w).isSome)
    (hin : ∀ w ∈ l, ∀ b, w ∈ queues b ↔ b = s.bucketId target)
    (hout : ∀ w ∉ l, ∀ b, w ∈ queues b ↔ w ∈ s.queues b) :
    Table { s with waiters := s.waiters.requeueAll target (s.bucketId target) l, queues } := by
  refine ⟨hn, fun b w hw => ?_, fun w x hx hq b => ?_, fun w x hx => ?_, fun w => ?_⟩
  · exact (isSome_changeAll _ l w).trans (hknown b w hw)
  · obtain ⟨x0, hx0, ⟨hw, rfl⟩ | ⟨hw, rfl⟩⟩ := changeAll_eq_some hx
    · exact hin w hw b
    · exact (hout w hw b).trans (h.placed w x hx0 hq b)
  · obtain ⟨x0, hx0, ⟨-, rfl⟩ | ⟨-, rfl⟩⟩ := changeAll_eq_some hx
    · rfl
    · exact h.hashed w x hx0
  · have hsame : (s.waiters.requeueAll target (s.bucketId target) l).holds isWoken w =
        s.waiters.holds isWoken w := by
      by_cases hw : w ∈ l
      · cases hx : s.waiters w <;>
          simp [holds, requeueAll, changeAll_of_mem hw, hx, requeueTo, isWoken]
      · exact holds_changeAll_of_not_mem _ hw
    rw [hsame]
    exact h.counted w

variable {w : Nat}

/-- The waiter `w` changes, and with it one queue, where the others stay. -/
theorem setWaiter (h : Table s) {x : FutexWaiter} {bucket : BucketId} {queue : List Nat} (hn : queue.Nodup)
    (hothers : ∀ v, v ≠ w → (v ∈ queue ↔ v ∈ s.queues bucket))
    (hplaced : x.state = .queued → ∀ b, w ∈ update s.queues bucket queue b ↔ b = x.route.bucket)
    (hhashed : x.route.bucket = s.bucketId x.route.key) (hwoken : x.isWoken = s.waiters.holds isWoken w) :
    Table { s with waiters := update s.waiters w (some x), queues := update s.queues bucket queue } := by
  have hmem : ∀ b v, v ≠ w → (v ∈ update s.queues bucket queue b ↔ v ∈ s.queues b) :=
    fun b v hvw => (forall_update_iff s.queues fun b q => v ∈ q ↔ v ∈ s.queues b).2 ⟨hothers v hvw, fun _ _ => .rfl⟩ b
  refine ⟨(forall_update_iff s.queues fun _ q => q.Nodup).2 ⟨hn, fun b _ => h.nodup b⟩, fun b v hv => ?_,
    fun v y hy hq b => ?_, fun v y hy => ?_, fun v => ?_⟩
  · by_cases hvw : v = w
    · simp [hvw]
    · simpa [update_of_ne hvw] using h.known b v ((hmem b v hvw).1 hv)
  · obtain ⟨rfl, ⟨⟩⟩ | ⟨hvw, hy⟩ := update_apply_eq_iff.1 hy
    · exact hplaced hq b
    · exact (hmem b v hvw).trans (h.placed v y hy hq b)
  · obtain ⟨rfl, ⟨⟩⟩ | ⟨-, hy⟩ := update_apply_eq_iff.1 hy
    · exact hhashed
    · exact h.hashed v y hy
  · have hsame : holds (update s.waiters w (some x)) isWoken v = s.waiters.holds isWoken v := by
      by_cases hvw : v = w
      · rw [hvw, ← hwoken]
        simp [holds]
      · simp [holds, update_of_ne hvw]
    rw [hsame]
    exact h.counted v

theorem enqueue (h : Table s) (hw : s.waiters w = none) (key : FutexKey) (matchMask : UInt32) :
    Table { s with
      waiters := update s.waiters w
        (some { new key (s.bucketId key) matchMask with state := .queued })
      queues := update s.queues (s.bucketId key) (s.queues (s.bucketId key) ++ [w]) } := by
  have hfresh : ∀ b, w ∉ s.queues b := fun b hm => by
    have hsome := h.known b w hm
    rw [hw] at hsome
    cases hsome
  refine h.setWaiter ?_ (fun v hvw => by simp [hvw]) (fun _ b => ?_) rfl (by simp [holds, hw, isWoken])
  · refine nodup_append.2 ⟨h.nodup _, nodup_singleton w, ?_⟩
    rintro v hv u hu rfl
    exact hfresh _ (mem_singleton.1 hu ▸ hv)
  · by_cases hb : b = s.bucketId key
    · subst hb
      simp [new]
    · simp [hb, hfresh b, new]

/-- A queued waiter is cancelled and leaves its queue. -/
theorem cancel (h : Table s) {x : FutexWaiter} (hx : s.waiters w = some x) (hq : x.state = .queued) :
    Table { s with
      waiters := update s.waiters w (some { x with state := .cancelled })
      queues := update s.queues x.route.bucket ((s.queues x.route.bucket).filter (· ≠ w)) } :=
  h.setWaiter ((h.nodup _).filter _) (fun v hvw => by simp [hvw]) nofun (h.hashed w x hx)
    (by simp [holds, hx, isWoken, hq])

/-- Waiters that are not queued leave a queue. -/
theorem drain (h : Table s) (bucket : BucketId) :
    Table { s with queues := update s.queues bucket (drained s.waiters (s.queues bucket)) } := by
  have hsub : ∀ b, ∀ v ∈ update s.queues bucket (drained s.waiters (s.queues bucket)) b, v ∈ s.queues b :=
    (forall_update_iff s.queues fun b q => ∀ v ∈ q, v ∈ s.queues b).2
      ⟨fun _ hv => mem_of_mem_filter hv, fun _ _ _ hv => hv⟩
  refine ⟨(forall_update_iff s.queues fun _ q => q.Nodup).2 ⟨(h.nodup _).filter _, fun b _ => h.nodup b⟩,
    fun b v hv => h.known b v (hsub b v hv), fun w x hx hq b => ?_, h.hashed, h.counted⟩
  · refine Iff.trans ⟨hsub b w, fun hm => ?_⟩ (h.placed w x hx hq b)
    by_cases hb : b = bucket
    · subst hb
      have hqueued : s.waiters.holds isQueued w = true :=
        holds_eq_true.2 ⟨x, hx, isQueued_iff.2 hq⟩
      simpa [drained] using ⟨hm, hqueued⟩
    · simpa [update_of_ne hb] using hm

/-! ## The critical sections of wakes -/

end Table

namespace Futexes

variable {s s' : Futexes} {c : Nat}

/-- The waiters that a wake selects in a state. -/
def chosen (s : Futexes) (key : FutexKey) (count : Nat) (mask : UInt32) : List Nat :=
  (matching s.waiters (s.queues (s.bucketId key)) key mask).take count

/-- The waiters that a requeue wakes and those that it moves. -/
def chosenToWake (s : Futexes) (source : FutexKey) (wakeCount : Nat) : List Nat :=
  toWake s.waiters (s.queues (s.bucketId source)) source wakeCount

def chosenToMove (s : Futexes) (source : FutexKey) (wakeCount requeueCount : Nat) : List Nat :=
  toMove s.waiters (s.queues (s.bucketId source)) source wakeCount requeueCount

theorem mark_eq (h : Table s) (key : FutexKey) (count : Nat) (mask : UInt32) :
    s.mark c key count mask =
      ({ s with
          waiters := s.waiters.wakeAll (s.chosen key count mask)
          selected := s.selected ++ (s.chosen key count mask).map (c, ·) }, (s.chosen key count mask).length) := by
  simp [mark, markWakeLocked, markLoop_eq (h.nodup _), chosen]

variable {key : FutexKey}

theorem chosen_queued {count : Nat} {mask : UInt32} :
    ∀ w ∈ s.chosen key count mask, s.waiters.holds isQueued w = true := by
  intro w hw
  have hm := (mem_filter.1 (mem_of_mem_take hw)).2
  obtain ⟨x, hx, hp⟩ := holds_eq_true.1 hm
  simp only [matchesWake, waitsOn, decide_eq_true_eq] at hp
  exact holds_eq_true.2 ⟨x, hx, hp.1.1⟩

variable {w : Nat}

/-- All waiters that wait on the key are in the queue of its bucket. -/
theorem mem_queue_of_waitsOn (h : Table s)
    (hw : s.waiters.holds (fun x => x.waitsOn key) w = true) : w ∈ s.queues (s.bucketId key) := by
  obtain ⟨x, hx, hp⟩ := holds_eq_true.1 hw
  simp only [waitsOn, decide_eq_true_eq, isQueued_iff] at hp
  obtain ⟨hq, rfl⟩ := hp
  exact (h.placed w x hx hq _).2 (h.hashed w x hx).symm

theorem waiting_nodup (h : Table s) (source : FutexKey) :
    (waiting s.waiters (s.queues (s.bucketId source)) source).Nodup := (h.nodup _).filter _

variable {source : FutexKey}

theorem waitsOn_of_mem_toWake {wakeCount : Nat} (hw : w ∈ s.chosenToWake source wakeCount) :
    s.waiters.holds (fun x => x.waitsOn source) w = true := (mem_filter.1 (mem_of_mem_take hw)).2

variable {wakeCount requeueCount : Nat}

theorem isQueued_of_waitsOn (hw : s.waiters.holds (fun x => x.waitsOn key) w = true) :
    s.waiters.holds isQueued w = true := by
  obtain ⟨x, hx, hp⟩ := holds_eq_true.1 hw
  simp only [waitsOn, decide_eq_true_eq] at hp
  exact holds_eq_true.2 ⟨x, hx, hp.1⟩

/-- The queues after a requeue. -/
def requeuedQueues (s : Futexes) (source target : FutexKey) (wakeCount requeueCount : Nat) : BucketId → List Nat :=
  if s.bucketId source = s.bucketId target then s.queues
  else
    Function.update
      (Function.update s.queues (s.bucketId source)
        ((s.queues (s.bucketId source)).filter (· ∉ s.chosenToMove source wakeCount requeueCount)))
      (s.bucketId target) (s.queues (s.bucketId target) ++ s.chosenToMove source wakeCount requeueCount)

theorem requeueQueues_eq (h : Table s) (source target : FutexKey) (wakeCount requeueCount : Nat) :
    s.requeueQueues c source target wakeCount requeueCount =
      ({ s with
          waiters := (s.waiters.wakeAll (s.chosenToWake source wakeCount)).requeueAll target (s.bucketId target)
            (s.chosenToMove source wakeCount requeueCount)
          queues := s.requeuedQueues source target wakeCount requeueCount
          selected := s.selected ++ (s.chosenToWake source wakeCount).map (c, ·)
          moved := s.moved ++ (s.chosenToMove source wakeCount requeueCount).map (c, ·) },
        (s.chosenToWake source wakeCount).length + (s.chosenToMove source wakeCount requeueCount).length) := by
  unfold requeueQueues requeuedQueues
  by_cases hb : s.bucketId source = s.bucketId target
  · rw [if_pos hb, if_pos hb, show requeueSameBucket .. = _ from requeueLoop_eq true (h.nodup _)]
    simp only [if_true, nil_append, update_eq_self]
    rfl
  · rw [if_neg hb, if_neg hb, show requeueDistinctBuckets .. = _ from requeueLoop_eq false (h.nodup _)]
    rfl

/-- A waiter that moves is in the queue of the source and in no other. -/
theorem mem_queue_of_toMove (h : Table s)
    (hw : w ∈ s.chosenToMove source wakeCount requeueCount) (b : BucketId) :
    w ∈ s.queues b ↔ b = s.bucketId source := by
  obtain ⟨x, hx, hp⟩ := holds_eq_true.1 (mem_filter.1 (mem_of_mem_drop (mem_of_mem_take hw))).2
  simp only [waitsOn, decide_eq_true_eq, isQueued_iff] at hp
  rw [h.placed w x hx hp.1 b, h.hashed w x hx, hp.2]

theorem mem_requeuedQueues_of_moved (h : Table s) {source target : FutexKey}
    (hw : w ∈ s.chosenToMove source wakeCount requeueCount) (b : BucketId) :
    w ∈ s.requeuedQueues source target wakeCount requeueCount b ↔ b = s.bucketId target := by
  have hin := mem_queue_of_toMove h hw
  unfold requeuedQueues
  by_cases hb : s.bucketId source = s.bucketId target
  · rw [if_pos hb, hin b, hb]
  rw [if_neg hb]
  by_cases ht : b = s.bucketId target
  · subst ht
    simp [hw]
  rw [update_of_ne ht]
  by_cases hs : b = s.bucketId source
  · subst hs
    simp [hw, hb]
  · rw [update_of_ne hs, hin b]
    exact iff_of_false hs ht

theorem mem_requeuedQueues_of_not_moved {source target : FutexKey}
    (hw : w ∉ s.chosenToMove source wakeCount requeueCount) (b : BucketId) :
    w ∈ s.requeuedQueues source target wakeCount requeueCount b ↔ w ∈ s.queues b := by
  unfold requeuedQueues
  split
  · rfl
  by_cases ht : b = s.bucketId target
  · subst ht
    simp [hw]
  rw [update_of_ne ht]
  by_cases hs : b = s.bucketId source
  · subst hs
    simp [hw]
  · rw [update_of_ne hs]

theorem requeuedQueues_nodup (h : Table s) (source target : FutexKey) (wakeCount requeueCount : Nat) (b : BucketId) :
    (s.requeuedQueues source target wakeCount requeueCount b).Nodup := by
  unfold requeuedQueues
  split
  · exact h.nodup b
  rename_i hb
  refine (forall_update_iff (update s.queues _ _) fun _ q => q.Nodup).2 ⟨nodup_append.2 ⟨h.nodup _,
    (waiting_nodup h source).sublist ((take_sublist _ _).trans (drop_sublist _ _)), ?_⟩, fun b _ =>
    (forall_update_iff s.queues fun _ q => q.Nodup).2 ⟨(h.nodup _).filter _, fun b _ => h.nodup b⟩ b⟩ b
  rintro w hw v hv rfl
  exact hb ((mem_queue_of_toMove h hv _).1 hw).symm

theorem requeueQueues_table (h : Table s) (source target : FutexKey) (wakeCount requeueCount : Nat) :
    Table (s.requeueQueues c source target wakeCount requeueCount).1 := by
  rw [requeueQueues_eq h]
  have hwoken := h.wake ((waiting_nodup h source).sublist (take_sublist wakeCount _))
    (fun w hw => isQueued_of_waitsOn (waitsOn_of_mem_toWake hw)) c
  refine (hwoken.move (requeuedQueues_nodup h source target wakeCount requeueCount) (fun b w hw => ?_)
    (fun w hw b => mem_requeuedQueues_of_moved h hw b) fun w hw b => mem_requeuedQueues_of_not_moved hw b).congr
      rfl rfl rfl rfl
  refine (isSome_changeAll _ _ w).trans ?_
  by_cases hm : w ∈ s.chosenToMove source wakeCount requeueCount
  · exact h.known _ w ((mem_queue_of_toMove h hm _).2 rfl)
  · exact h.known b w ((mem_requeuedQueues_of_not_moved hm b).1 hw)

end Futexes

end XKernel.Futex
