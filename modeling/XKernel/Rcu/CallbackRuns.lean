import XKernel.Rcu.Callbacks
/-!
# Callbacks over whole runs

A queue holds what it accepted and has not invoked, in the order of acceptance: the batch of its
executor, the eligible work, the segments of two adjacent periods, and what has no period yet. Work
in the segment of a period was submitted before that period started.
-/

namespace XKernel.Rcu

open Function List Option WaitingSegment CallbackQueue Readers
open UInt64 (ofNat ofNat_add)

/-! ## One queue -/

def WaitingSegment.of (segment : WaitingSegment) (p : PeriodId) : List Callback :=
  if segment.period = some p then segment.callbacks else []

namespace CallbackQueue

def segment (q : CallbackQueue) (p : PeriodId) : List Callback := q.first.of p ++ q.second.of p

/-- The waiting work, the segment of the earlier period first. -/
def waiting (q : CallbackQueue) : List Callback :=
  if q.first.period.any (fun p => q.second.period = some (p + 1)) then q.first.callbacks ++ q.second.callbacks
  else q.second.callbacks ++ q.first.callbacks

def batched (q : CallbackQueue) : List Callback := q.batches.flatMap CallbackBatch.callbacks

/-- What the queue has accepted and not invoked. -/
def held (q : CallbackQueue) : List Callback := q.batched ++ q.eligible ++ q.waiting ++ q.unassigned

/-- The slots are for the period `p` and its successor. -/
structure Slots (a c : WaitingSegment) (p : PeriodId) : Prop where
  first : ∀ x, a.period = some x → x = p ∨ x = p + 1
  second : ∀ x, c.period = some x → x = p ∨ x = p + 1
  apart : ∀ x, a.period = some x → c.period ≠ some x
  free : (a.period = none → a.callbacks = []) ∧ (c.period = none → c.callbacks = [])

/-- The callbacks, markers apart, were submitted before the `n`th period started. -/
def Before (callbacks : List Callback) (n : Nat) : Prop :=
  ∀ callback ∈ callbacks, callback.isMarker = false → callback.since < n

/-- A queue whose older segment is that of the `b`th period. -/
structure Inv (q : CallbackQueue) (b : Nat) (narrow : Prop) (k : GracePeriodCoordinator) : Prop where
  slots : Slots q.first q.second (ofNat b)
  narrow : narrow → q.first.period ≠ some (ofNat b + 1) ∧ q.second.period ≠ some (ofNat b + 1)
  order : q.accepted = q.invoked ++ q.batched ++ q.eligible ++ (q.segment (ofNat b) ++ q.segment (ofNat b + 1)) ++
    q.unassigned
  unassigned : Before q.unassigned (k.started + 1)
  older : Before (q.segment (ofNat b)) b
  newer : Before (q.segment (ofNat b + 1)) (b + 1)
  eligible : Before (q.invoked ++ q.batched ++ q.eligible) k.finished
  count : q.outstanding + q.returned = q.accepted.length
  executed : q.returned + (q.batches.map CallbackBatch.completed).sum = q.invoked.length
  claim : q.batches.length = q.isExecuting.toNat

variable {q q' : CallbackQueue} {b n : Nat} {narrow : Prop} {k : GracePeriodCoordinator} {p : PeriodId}
    {callback : Callback}

theorem succ_ne (p : PeriodId) : p + 1 ≠ p := by
  intro h
  have hzero : (1 : UInt64) = 0 := by simp at h
  exact absurd hzero (by decide)

theorem Before.append {xs ys : List Callback} (hx : Before xs n) (hy : Before ys n) : Before (xs ++ ys) n :=
  forall_mem_append.2 ⟨hx, hy⟩

theorem before_nil (n : Nat) : Before [] n := fun _ hc => absurd hc not_mem_nil

theorem Before.mono {xs : List Callback} {m : Nat} (hx : Before xs n) (h : n ≤ m) : Before xs m :=
  fun callback hc hm => Nat.lt_of_lt_of_le (hx callback hc hm) h

theorem segment_eq_nil (h : q.first.period ≠ some p ∧ q.second.period ≠ some p) : q.segment p = [] := by
  simp [segment, of, h.1, h.2]

theorem waiting_eq (h : Slots q.first q.second p) : q.waiting = q.segment p ++ q.segment (p + 1) := by
  have hne := succ_ne p
  have htwo : p + 1 + 1 ≠ p := by grind
  unfold waiting segment of
  generalize q.first = a at h
  generalize q.second = c at h
  obtain ⟨_ | x, xs⟩ := a <;> obtain ⟨_ | y, ys⟩ := c
  · obtain rfl : xs = [] := h.free.1 rfl
    obtain rfl : ys = [] := h.free.2 rfl
    rfl
  · obtain rfl : xs = [] := h.free.1 rfl
    rcases h.second y rfl with rfl | rfl <;> simp [hne.symm]
  · obtain rfl : ys = [] := h.free.2 rfl
    rcases h.first x rfl with rfl | rfl <;> simp [hne.symm]
  · have hxy : x ≠ y := fun he => h.apart x rfl (by rw [he])
    rcases h.first x rfl with rfl | rfl <;> rcases h.second y rfl with rfl | rfl
    · exact absurd rfl hxy
    · simp [hne.symm]
    · simp [hne.symm, htwo.symm]
    · exact absurd rfl hxy

/-- With the slots `a` and `c`, work has joined the segment of `x`. -/
structure Joined (q : CallbackQueue) (a c : WaitingSegment) (p x : PeriodId) (callbacks : List Callback) : Prop where
  slots : Slots a c p
  segment : a.of x ++ c.of x = q.segment x ++ callbacks
  other : ∀ y, y ≠ x → a.of y ++ c.of y = q.segment y
  periods : ∀ y, y ≠ x → q.first.period ≠ some y ∧ q.second.period ≠ some y → a.period ≠ some y ∧ c.period ≠ some y

variable {x : PeriodId} {callbacks : List Callback}

theorem Slots.swap {a c : WaitingSegment} (h : Slots a c p) : Slots c a p :=
  ⟨h.second, h.first, fun x hc ha => h.apart x ha hc, h.free.symm⟩

/-- A slot that is free, or has the period, takes the work; the other one has another period. -/
theorem Slots.join {a c : WaitingSegment} (h : Slots a c p) (hx : x = p ∨ x = p + 1)
    (ha : a.period = some x ∨ a.period = none) (hc : c.period ≠ some x) (callbacks : List Callback) :
    Slots ⟨some x, a.callbacks ++ callbacks⟩ c p ∧ c.of x = [] ∧
      of ⟨some x, a.callbacks ++ callbacks⟩ x = a.of x ++ callbacks ∧
      ∀ y, y ≠ x → of ⟨some x, a.callbacks ++ callbacks⟩ y = a.of y := by
  refine ⟨⟨fun y hy => some.inj hy ▸ hx, h.second, fun y hy => some.inj hy ▸ hc, nofun, h.free.2⟩, if_neg hc, ?_, ?_⟩
  · rcases ha with ha | ha
    · simp [of, ha]
    · simp [of, h.free.1 ha]
  · intro y hy
    have hne : a.period ≠ some y := by rcases ha with ha | ha <;> simp [ha, hy.symm]
    simp [of, hne, hy.symm]

section

variable (h : Slots q.first q.second p)
include h

theorem joined_first (hx : x = p ∨ x = p + 1) (hf : q.first.period = some x ∨ q.first.period = none)
    (hs : q.second.period ≠ some x) : Joined q ⟨some x, q.first.callbacks ++ callbacks⟩ q.second p x callbacks := by
  obtain ⟨hslots, hnil, hself, hother⟩ := h.join hx hf hs callbacks
  refine ⟨hslots, by rw [segment, hnil, hself, append_nil, append_nil], fun y hy => by rw [segment, hother y hy],
    fun y hy hne => ⟨fun he => hy (some.inj he).symm, hne.2⟩⟩

theorem joined_second (hx : x = p ∨ x = p + 1) (hs : q.second.period = some x ∨ q.second.period = none)
    (hf : q.first.period ≠ some x) : Joined q q.first ⟨some x, q.second.callbacks ++ callbacks⟩ p x callbacks := by
  obtain ⟨hslots, hnil, hself, hother⟩ := h.swap.join hx hs hf callbacks
  refine ⟨hslots.swap, by rw [segment, hnil, hself, nil_append, nil_append], fun y hy => by rw [segment, hother y hy],
    fun y hy hne => ⟨hne.1, fun he => hy (some.inj he).symm⟩⟩

/-- The assertion holds for a target in the window. -/
theorem assignPending_spec (hx : x = p ∨ x = p + 1) :
    ∃ a c assigned, q.assignPending x = some ({ q with unassigned := [], first := a, second := c }, assigned) ∧
      Joined q a c p x q.unassigned := by
  unfold assignPending
  split
  case isTrue hnil =>
    rw [List.isEmpty_iff] at hnil
    refine ⟨q.first, q.second, false, by rw [← hnil], ⟨h, ?_, fun _ _ => rfl, fun _ _ hne => hne⟩⟩
    rw [hnil, append_nil]
    rfl
  case isFalse =>
    split
    case isTrue hf => exact ⟨_, _, true, rfl, joined_first h hx (.inl hf) (h.apart x hf)⟩
    case isFalse hf =>
      split
      case isTrue hs => exact ⟨_, _, true, rfl, joined_second h hx (.inl hs) hf⟩
      case isFalse hs =>
        split
        case isTrue hnone => exact ⟨_, _, true, rfl, joined_first h hx (.inr hnone) hs⟩
        case isFalse hnone =>
          split
          case isTrue hnone => exact ⟨_, _, true, rfl, joined_second h hx (.inr hnone) hf⟩
          case isFalse hnone' =>
            -- both slots would have the other period of the window
            obtain ⟨y, hy⟩ := ne_none_iff_exists'.1 hnone
            obtain ⟨z, hz⟩ := ne_none_iff_exists'.1 hnone'
            have hyz : y ≠ z := fun he => h.apart y hy (he ▸ hz)
            have hy := h.first y hy
            have hz := h.second z hz
            grind

/-- A marker goes behind everything that the queue holds. -/
theorem pushLast_spec :
    q.unassigned ≠ [] ∧ q.pushLast callback = { q with unassigned := q.unassigned ++ [callback] } ∨
    q.unassigned = [] ∧ ((∃ a c, q.pushLast callback = { q with first := a, second := c } ∧
      (Joined q a c p (p + 1) [callback] ∧ ¬ (q.first.period ≠ some (p + 1) ∧ q.second.period ≠ some (p + 1)) ∨
        Joined q a c p p [callback] ∧ (q.first.period ≠ some (p + 1) ∧ q.second.period ≠ some (p + 1)))) ∨
      q.pushLast callback = { q with eligible := q.eligible ++ [callback] } ∧ q.segment p = [] ∧
      q.segment (p + 1) = []) := by
  have hne := succ_ne p
  have hfirst : ∀ x, q.first.period = some x → (x = p ∨ x = p + 1) → ∃ a c,
      q.pushFirst callback = { q with first := a, second := c } ∧ Joined q a c p x [callback] := by
    intro x hf hx
    exact ⟨⟨some x, q.first.callbacks ++ [callback]⟩, q.second, by rw [← hf]; rfl, joined_first h hx (.inl hf)
      (h.apart x hf)⟩
  have hsecond : ∀ x, q.second.period = some x → (x = p ∨ x = p + 1) → ∃ a c,
      q.pushSecond callback = { q with first := a, second := c } ∧ Joined q a c p x [callback] := by
    intro x hs hx
    exact ⟨q.first, ⟨some x, q.second.callbacks ++ [callback]⟩, by rw [← hs]; rfl, joined_second h hx
      (.inl hs) fun hf => h.apart x hf hs⟩
  unfold pushLast
  by_cases hu : q.unassigned = []
  case neg => exact .inl ⟨hu, if_pos (by simp [hu])⟩
  case pos =>
    refine .inr ⟨hu, ?_⟩
    rw [if_neg (by simp [hu])]
    cases hf : q.first.period with
    | none =>
      cases hs : q.second.period with
      | none =>
        have hnil : ∀ y, q.segment y = [] := fun y => segment_eq_nil (by simp [hf, hs])
        exact .inr ⟨rfl, hnil p, hnil (p + 1)⟩
      | some y =>
        obtain ⟨a, c, hq, hj⟩ := hsecond y hs (h.second y hs)
        refine .inl ⟨a, c, hq, ?_⟩
        rcases h.second y hs with rfl | rfl
        · exact .inr ⟨hj, by simp⟩
        · exact .inl ⟨hj, by simp⟩
    | some x =>
      have hx := h.first x hf
      cases hs : q.second.period with
      | none =>
        obtain ⟨a, c, hq, hj⟩ := hfirst x hf hx
        refine .inl ⟨a, c, hq, ?_⟩
        rcases hx with rfl | rfl
        · exact .inr ⟨hj, by simp⟩
        · exact .inl ⟨hj, by simp⟩
      | some y =>
        have hxy : x ≠ y := fun he => h.apart x hf (he ▸ hs)
        dsimp only
        rcases hx with rfl | rfl
        · obtain rfl := (h.second y hs).resolve_left hxy.symm
          obtain ⟨a, c, hq, hj⟩ := hsecond _ hs (.inr rfl)
          exact .inl ⟨a, c, by rw [if_pos rfl, hq], .inl ⟨hj, by simp⟩⟩
        · obtain rfl := (h.second y hs).resolve_right hxy.symm
          have htwo : y + 1 + 1 ≠ y := by grind
          obtain ⟨a, c, hq, hj⟩ := hfirst _ hf (.inr rfl)
          exact .inl ⟨a, c, by rw [if_neg htwo, hq], .inl ⟨hj, by simp⟩⟩

theorem promote_spec : Slots (q.promote p).first (q.promote p).second (p + 1) ∧
    ((q.promote p).first.period ≠ some (p + 1 + 1) ∧ (q.promote p).second.period ≠ some (p + 1 + 1)) ∧
    (q.promote p).segment (p + 1) = q.segment (p + 1) ∧
    q.promote p = { q with
      eligible := q.eligible ++ q.segment p, first := (q.promote p).first, second := (q.promote p).second } := by
  have hne := succ_ne p
  have htwo : p + 1 + 1 ≠ p := by grind
  have hthree := succ_ne (p + 1)
  have hpast : ∀ x, x = p ∨ x = p + 1 → x ≠ p + 1 + 1 := by
    rintro x (rfl | rfl)
    · exact htwo.symm
    · exact hthree.symm
  have hfirst : q.first.period ≠ some (p + 1 + 1) := fun hf => hpast _ (h.first _ hf) rfl
  have hsecond : q.second.period ≠ some (p + 1 + 1) := fun hs => hpast _ (h.second _ hs) rfl
  by_cases hf : q.first.period = some p
  · have hs := h.apart p hf
    have hq : q.promote p = { q with eligible := q.eligible ++ q.first.callbacks, first := ⟨none, []⟩ } := by
      simp [promote, hf, hs]
    rw [hq]
    refine ⟨⟨nofun, fun x hx => .inl ((h.second x hx).resolve_left fun he => hs (he ▸ hx)), nofun, fun _ => rfl,
      h.free.2⟩, ⟨nofun, hsecond⟩, ?_, ?_⟩
    · simp [segment, of, hf]
    · simp [segment, of, hf, hs]
  · by_cases hs : q.second.period = some p
    · have hq : q.promote p = { q with eligible := q.eligible ++ q.second.callbacks, second := ⟨none, []⟩ } := by
        simp [promote, hf, hs]
      rw [hq]
      refine ⟨⟨fun x hx => .inl ((h.first x hx).resolve_left fun he => hf (he ▸ hx)), nofun, fun _ _ => nofun, h.free.1,
        fun _ => rfl⟩, ⟨hfirst, nofun⟩, ?_, ?_⟩
      · simp [segment, of, hs]
      · simp [segment, of, hf, hs]
    · have hq : q.promote p = q := by simp [promote, hf, hs]
      rw [hq, segment_eq_nil ⟨hf, hs⟩, append_nil]
      exact ⟨⟨fun x hx => .inl ((h.first x hx).resolve_left fun he => hf (he ▸ hx)),
        fun x hx => .inl ((h.second x hx).resolve_left fun he => hs (he ▸ hx)), h.apart, h.free⟩,
        ⟨hfirst, hsecond⟩, rfl, rfl⟩

end

theorem inv_new : Inv new b narrow k := by
  refine ⟨⟨nofun, nofun, nofun, fun _ => rfl, fun _ => rfl⟩, fun _ => ⟨nofun, nofun⟩, rfl, ?_, ?_, ?_, ?_, rfl,
    rfl, rfl⟩ <;>
    exact fun callback hc => absurd hc not_mem_nil

theorem Inv.mono (h : Inv q b narrow k) {k' : GracePeriodCoordinator} {narrow' : Prop} (hs : k.started ≤ k'.started)
    (hf : k.finished ≤ k'.finished) (hn : narrow' → narrow) : Inv q b narrow' k' :=
  { h with
    narrow := fun h' => h.narrow (hn h')
    unassigned := h.unassigned.mono (Nat.succ_le_succ hs)
    eligible := h.eligible.mono hf }

theorem Inv.submit (h : Inv q b narrow k) (hc : callback.since = k.started) : Inv (q.submit callback) b narrow k := by
  have hlt : Before [callback] (k.started + 1) := by
    intro c hmem _
    rw [mem_singleton.1 hmem, hc]
    exact Nat.lt_succ_self _
  refine { h with order := ?_, unassigned := h.unassigned.append hlt, count := ?_ }
  · show q.accepted ++ [callback] = _
    rw [h.order]
    simp [CallbackQueue.submit, batched, CallbackQueue.segment]
  · have := h.count
    simp only [CallbackQueue.submit, length_append, length_singleton]
    omega

/-- Work joins the last segment of the window, and was submitted before its period. -/
theorem Inv.joined (h : Inv q b narrow k) {a c : WaitingSegment} {outstanding : Nat} {accepted : List Callback}
    (hj : Joined q a c (ofNat b) x callbacks)
    (hx : x = ofNat b ∧ (q.first.period ≠ some (ofNat b + 1) ∧ q.second.period ≠ some (ofNat b + 1)) ∧
      Before callbacks b ∨ x = ofNat b + 1 ∧ ¬ narrow ∧ Before callbacks (b + 1))
    (ha : accepted = q.invoked ++ q.batched ++ q.eligible ++ (q.segment (ofNat b) ++ q.segment (ofNat b + 1)) ++
      callbacks)
    (hcount : outstanding + q.returned = accepted.length) :
    Inv { q with unassigned := [], first := a, second := c, accepted, outstanding } b narrow k := by
  have hne := succ_ne (ofNat b)
  have hsegments : a.of (ofNat b) ++ c.of (ofNat b) ++ (a.of (ofNat b + 1) ++ c.of (ofNat b + 1)) =
      q.segment (ofNat b) ++ q.segment (ofNat b + 1) ++ callbacks := by
    rcases hx with ⟨rfl, hslot, hb⟩ | ⟨rfl, hn, hb⟩
    · rw [hj.segment, hj.other _ hne, segment_eq_nil hslot, append_nil, append_nil]
    · rw [hj.segment, hj.other _ hne.symm, append_assoc]
  refine { h with
    slots := hj.slots, narrow := fun hn => ?_, order := ?_, unassigned := before_nil _, older := ?_, newer := ?_
    count := hcount }
  · rcases hx with ⟨rfl, hslot, hb⟩ | ⟨-, hn', -⟩
    · exact hj.periods _ hne hslot
    · exact absurd hn hn'
  · show accepted = q.invoked ++ q.batched ++ q.eligible ++
      (a.of (ofNat b) ++ c.of (ofNat b) ++ (a.of (ofNat b + 1) ++ c.of (ofNat b + 1))) ++ []
    rw [hsegments, ha, append_nil, append_assoc _ _ callbacks]
  · show Before (a.of (ofNat b) ++ c.of (ofNat b)) b
    rcases hx with ⟨rfl, -, hb⟩ | ⟨rfl, -, -⟩
    · exact hj.segment ▸ h.older.append hb
    · exact hj.other _ hne.symm ▸ h.older
  · show Before (a.of (ofNat b + 1) ++ c.of (ofNat b + 1)) (b + 1)
    rcases hx with ⟨rfl, -, -⟩ | ⟨rfl, -, hb⟩
    · exact hj.other _ hne ▸ h.newer
    · exact hj.segment ▸ h.newer.append hb

theorem before_marker (hm : callback.isMarker = true) (n : Nat) : Before [callback] n := by
  intro c hc hf
  rw [mem_singleton.1 hc, hm] at hf
  cases hf

theorem Inv.enqueueDrainMarker (h : Inv q b narrow k) (hm : callback.isMarker = true) :
    Inv (q.enqueueDrainMarker callback) b narrow k := by
  unfold CallbackQueue.enqueueDrainMarker
  split
  case isTrue => exact h
  case isFalse =>
    have hcount : q.outstanding + 1 + q.returned = (q.accepted ++ [callback]).length := by
      have := h.count
      simp only [length_append, length_singleton]
      omega
    have horder := h.order
    rcases pushLast_spec h.slots with ⟨-, hq⟩ | ⟨hu, ⟨a, c, hq, hj⟩ | ⟨hq, hnil, hnil'⟩⟩
    · rw [hq]
      exact { h with
        order := by simp [horder, batched, segment]
        unassigned := h.unassigned.append (before_marker hm _), count := hcount }
    · rw [hu, append_nil] at horder
      rw [hq, hu]
      rcases hj with ⟨hj, hslot⟩ | ⟨hj, hslot⟩
      · exact h.joined hj (.inr ⟨rfl, fun hn => hslot (h.narrow hn), before_marker hm _⟩) (by rw [horder]) hcount
      · exact h.joined hj (.inl ⟨rfl, hslot, before_marker hm _⟩) (by rw [horder]) hcount
    · rw [hq]
      refine { h with order := ?_, eligible := ?_, count := hcount }
      · show q.accepted ++ [callback] = q.invoked ++ q.batched ++ (q.eligible ++ [callback]) ++
          (q.segment _ ++ q.segment _) ++ q.unassigned
        simp [horder, hu, hnil, hnil']
      · rw [← append_assoc]
        exact h.eligible.append (before_marker hm _)

/-- The work without a period gets the last one of the window. -/
theorem Inv.assignPending (h : Inv q b narrow k)
    (hx : x = ofNat b ∧ narrow ∧ k.started < b ∨ x = ofNat b + 1 ∧ ¬ narrow ∧ k.started ≤ b) :
    ∃ q' assigned, q.assignPending x = some (q', assigned) ∧ Inv q' b narrow k := by
  have hwindow : x = ofNat b ∨ x = ofNat b + 1 := hx.imp And.left And.left
  obtain ⟨a, c, assigned, hq, hj⟩ := assignPending_spec h.slots hwindow
  refine ⟨_, assigned, hq, h.joined hj ?_ h.order h.count⟩
  rcases hx with ⟨rfl, hn, hlt⟩ | ⟨rfl, hn, hle⟩
  · exact .inl ⟨rfl, h.narrow hn, h.unassigned.mono hlt⟩
  · exact .inr ⟨rfl, hn, h.unassigned.mono (Nat.succ_le_succ hle)⟩

/-- The period of the older segment is over. -/
theorem Inv.promote (h : Inv q b narrow k) (hb : b ≤ k.finished) : Inv (q.promote (ofNat b)) (b + 1) True k := by
  obtain ⟨hslots, hnarrow, hsegment, hq⟩ := promote_spec h.slots
  have hsucc : ofNat (b + 1) = ofNat b + 1 := by
    rw [ofNat_add]
    rfl
  rw [hq]
  have horder := h.order
  refine { h with slots := ?_, narrow := ?_, order := ?_, older := ?_, newer := ?_, eligible := ?_ }
  · rw [hsucc]
    exact hslots
  · rw [hsucc]
    exact fun _ => hnarrow
  · show q.accepted = q.invoked ++ q.batched ++ (q.eligible ++ q.segment _) ++
      ((q.promote _).segment (ofNat (b + 1)) ++ (q.promote _).segment (ofNat (b + 1) + 1)) ++ q.unassigned
    rw [hsucc, hsegment, segment_eq_nil hnarrow, horder]
    simp
  · show Before ((q.promote _).segment (ofNat (b + 1))) (b + 1)
    rw [hsucc, hsegment]
    exact h.newer
  · show Before ((q.promote _).segment (ofNat (b + 1) + 1)) (b + 1 + 1)
    rw [hsucc, segment_eq_nil hnarrow]
    exact before_nil _
  · rw [← append_assoc]
    exact h.eligible.append (h.older.mono hb)

theorem Inv.take (h : Inv q b narrow k) (budget : Nat) : Inv (q.take budget) b narrow k := by
  unfold CallbackQueue.take
  split
  case isTrue => exact h
  case isFalse hcan =>
    rw [not_or, not_or, Bool.not_eq_true] at hcan
    obtain ⟨-, hexec, -⟩ := hcan
    have hbatches : q.batches = [] := length_eq_zero_iff.1 (by rw [h.claim, hexec]; rfl)
    have hnil : q.batched = [] := by rw [batched, hbatches]; rfl
    have horder := h.order
    have heligible := h.eligible
    rw [hnil, append_nil] at horder heligible
    refine { h with order := ?_, eligible := ?_, executed := ?_, claim := ?_ }
    · show _ = q.invoked ++ (q.eligible ++ q.batched) ++ [] ++ (q.segment _ ++ q.segment _) ++ q.unassigned
      rw [hnil, append_nil, append_nil, horder]
    · show Before (q.invoked ++ (q.eligible ++ q.batched) ++ []) k.finished
      rwa [hnil, append_nil, append_nil]
    · simpa using h.executed
    · simp [hbatches]

variable {i : Nat}

section

variable (h : Inv q b narrow k)
include h

/-- The one batch of a queue that is executing. -/
theorem Inv.batch {batch : CallbackBatch} (hi : q.batches[i]? = some batch) :
    i = 0 ∧ q.batches = [batch] ∧ q.isExecuting = true := by
  obtain ⟨hlt, hget⟩ := List.getElem?_eq_some_iff.1 hi
  have hclaim := h.claim
  cases hexec : q.isExecuting with
  | false =>
    rw [hexec, Bool.toNat_false] at hclaim
    omega
  | true =>
    rw [hexec, Bool.toNat_true] at hclaim
    obtain ⟨other, hother⟩ := length_eq_one_iff.1 hclaim
    obtain rfl : i = 0 := by omega
    rw [hother] at hi
    exact ⟨rfl, by rw [hother]; simpa using hi, rfl⟩

theorem Inv.invoke (hq : q.invoke i = some q') : Inv q' b narrow k := by
  obtain ⟨batch, hi, hq⟩ := bind_eq_some_iff.1 hq
  obtain ⟨rfl, hbatches, hexec⟩ := h.batch hi
  split at hq
  case h_2 => cases hq
  case h_1 callback callbacks budget hcallbacks hbudget =>
    obtain rfl := some.inj hq
    have hold : q.batched = callback :: callbacks := by simp [batched, hbatches, hcallbacks]
    have horder := h.order
    have heligible := h.eligible
    have hexecuted := h.executed
    rw [hold] at horder heligible
    refine { h with order := ?_, eligible := ?_, executed := ?_, claim := ?_ }
    · simp [horder, batched, hbatches, segment]
    · simpa [batched, hbatches] using heligible
    · simp only [hbatches, set_cons_zero, map_cons, sum_cons, length_append,
        length_singleton] at hexecuted ⊢
      omega
    · simpa using h.claim

/-- What is left of a batch goes back ahead of later work. -/
theorem Inv.drop (hq : q.drop i = some q') : Inv q' b narrow k := by
  obtain ⟨batch, hi, hq⟩ := bind_eq_some_iff.1 hq
  obtain ⟨rfl, hbatches, hexec⟩ := h.batch hi
  obtain ⟨-, hq⟩ := ite_none_left_eq_some.1 hq
  split at hq
  case isFalse => cases hq
  case isTrue hle =>
    obtain rfl := some.inj hq
    have horder := h.order
    have heligible := h.eligible
    have hexecuted := h.executed
    rw [hbatches] at hexecuted
    refine { h with order := ?_, eligible := ?_, count := ?_, executed := ?_, claim := ?_ }
    · simp [horder, batched, hbatches, segment]
    · simpa [batched, hbatches] using heligible
    · have := h.count
      show q.outstanding - batch.completed + (q.returned + batch.completed) = q.accepted.length
      omega
    · simp only [map_cons, map_nil, sum_cons, sum_nil] at hexecuted
      simp [hbatches]
      omega
    · simp [hbatches]

theorem Inv.drop_isSome {batch : CallbackBatch} (hi : q.batches[i]? = some batch)
    (hend : batch.callbacks = [] ∨ batch.budget = 0) : (q.drop i).isSome := by
  obtain ⟨rfl, hbatches, hexec⟩ := h.batch hi
  have hle : batch.completed ≤ q.outstanding := by
    have hcount := h.count
    have hexecuted := h.executed
    have horder := congrArg length h.order
    simp only [hbatches, map_cons, sum_cons] at hexecuted
    simp only [length_append] at horder
    omega
  unfold CallbackQueue.drop
  rw [hi, bind_eq_bind, bind_some, if_neg, if_pos ⟨hexec, hle⟩]
  · rfl
  · rcases hend with hend | hend <;> simp [hend]

end

end CallbackQueue

/-! ## The driver and the periods -/

/-- What the control of periods changes. -/
structure SamePeriods (k k' : GracePeriodCoordinator) : Prop where
  cpuCount : k'.cpuCount = k.cpuCount
  completed : k'.completed = k.completed
  phase : k'.phase = k.phase
  started : k'.started = k.started
  finished : k'.finished = k.finished

variable (k : GracePeriodCoordinator) (active : Option PeriodId)

theorem SamePeriods.refl : SamePeriods k k := ⟨rfl, rfl, rfl, rfl, rfl⟩

theorem removeEnrollment_coordinator {s s' : Readers} {t : Nat} (hs : s.removeEnrollment t = some s') :
    s'.coordinator = s.coordinator := by
  unfold removeEnrollment at hs
  split at hs
  · exact some.inj hs ▸ rfl
  · obtain ⟨node, -, hs⟩ := bind_eq_some_iff.1 hs
    exact some.inj hs ▸ rfl

theorem step_samePeriods {s s' : Readers} {op : ReaderOp} (hs : s.step op = some s') :
    SamePeriods s.coordinator s'.coordinator := by
  suffices hk : s'.coordinator = s.coordinator ∨ ∃ report, s'.coordinator = s.coordinator.acceptReport report by
    rcases hk with hk | ⟨report, hk⟩
    · exact hk ▸ .refl _
    · rw [hk, GracePeriodCoordinator.acceptReport]
      split <;> exact ⟨rfl, rfl, rfl, rfl, rfl⟩
  cases op with
  | unlink =>
    simp only [step] at hs
    split at hs
    · obtain ⟨s1, hs1, hs⟩ := bind_eq_some_iff.1 hs
      obtain rfl := some.inj hs
      have hk := removeEnrollment_coordinator hs1
      exact .inl hk
    · cases hs
  | _ =>
    simp only [step, bind_eq_bind, bind_eq_some_iff] at hs
    grind [setTask, setNode, send, removeEnrollment_coordinator]

/-- Between two passes of the driver. -/
def AtRest : Prop :=
  active = none ∧ k.phase = .idle ∨ active = some (k.completed + 1) ∧ k.phase = .waiting

/-- Where the driver is, the coordinator is. -/
def Drives : Drive → Prop
  | .rest => AtRest k active
  | .assign _ target _ => AtRest k active ∧ target = active.elim (k.completed + 1) (· + 1)
  | .complete _ => active = some (k.completed + 1) ∧ k.phase = .waiting
  | .finish period _ => active = some period ∧ period = k.completed + 1 ∧ k.phase = .finalizing
  | .promote _ period _ => active = some period ∧ period = k.completed ∧ k.phase = .idle
  | .scan _ _ | .start => active = none ∧ k.phase = .idle
  | .begin period => active = none ∧ period = k.completed + 1 ∧ k.phase = .initializing

/-- The number of the period of a queue's older segment. -/
def Drive.base (finished : Nat) (driver : Drive) (cpu : Nat) : Nat :=
  match driver with
  | .promote queue _ _ => if queue ≤ cpu then finished else finished + 1
  | _ => finished + 1

/-- No work can be in the newer segment of a queue. -/
def Drive.Narrow (driver : Drive) (cpu : Nat) : Prop :=
  match driver with
  | .promote queue _ _ => cpu < queue
  | _ => active = none

/-- In the pass that gives up the segments of a period. -/
def Drive.isPromoting : Drive → Bool
  | .promote _ _ _ => true
  | _ => false

namespace CallbackState

variable {s s' : CallbackState}

structure Inv (s : CallbackState) : Prop where
  readers : s.readers.Inv
  drives : Drives s.readers.coordinator s.activePeriod s.driver
  queue : ∀ cpu < s.cpuCount, (s.queues cpu).Inv (s.driver.base s.readers.coordinator.finished cpu)
    (s.driver.Narrow s.activePeriod cpu) s.readers.coordinator

theorem Inv.setReaders (h : s.Inv) {readers : Readers} (hr : readers.Inv)
    (hk : SamePeriods s.readers.coordinator readers.coordinator) :
    Inv { s with readers } := by
  refine ⟨hr, ?_, fun cpu hcpu => ?_⟩
  · have hd := h.drives
    show Drives readers.coordinator s.activePeriod s.driver
    cases hdriver : s.driver <;> rw [hdriver] at hd <;> simpa only [Drives, AtRest, hk.completed, hk.phase] using hd
  · have hq := h.queue cpu (by simpa only [cpuCount, hk.cpuCount] using hcpu)
    show (s.queues cpu).Inv (s.driver.base readers.coordinator.finished cpu) _ _
    rw [hk.finished]
    exact hq.mono (Nat.le_of_eq hk.started.symm) (Nat.le_of_eq hk.finished.symm) fun hn => hn

theorem Inv.setQueue (h : s.Inv) {cpu : Nat} {q : CallbackQueue}
    (hq : cpu < s.cpuCount → q.Inv (s.driver.base s.readers.coordinator.finished cpu)
      (s.driver.Narrow s.activePeriod cpu)
      s.readers.coordinator) : Inv (s.setQueue cpu q) := by
  refine ⟨h.readers, h.drives, fun c hc => ?_⟩
  rcases eq_or_ne c cpu with rfl | hne
  · show (update s.queues c q c).Inv _ _ _
    rw [update_self]
    exact hq hc
  · show (update s.queues cpu q c).Inv _ _ _
    rw [update_of_ne hne]
    exact h.queue c hc

theorem inv_new (cpuCount : Nat) (participants : Nat → Bool) : (new cpuCount participants).Inv := by
  refine ⟨⟨⟨rfl, rfl⟩, ?_, fun _ => ⟨nodup_nil, nofun, nofun⟩, fun cpu _ => ?_, ?_, ?_, nofun⟩, .inl ⟨rfl, rfl⟩,
    fun _ _ => CallbackQueue.inv_new⟩
  · exact ⟨fun t cpu => ⟨nofun, fun hm => absurd hm not_mem_nil⟩, nofun, nofun, nofun, nofun,
      fun _ _ hm => absurd hm not_mem_nil⟩
  · exact ⟨rfl, fun ht => (by rcases ht with ht | ht <;> cases ht), nofun⟩
  · rintro cpu n (⟨report, hr, -⟩ | ⟨t, guard, hc, -⟩)
    · cases hr
    · cases hc
  · exact fun t cpu guard hg => absurd hg not_mem_nil

/-- The driver goes on with the same periods and the same queues. -/
theorem Inv.setDriver (h : s.Inv) {driver : Drive} (hd : Drives s.readers.coordinator s.activePeriod driver)
    (hold : s.driver.isPromoting = false) (hnew : driver.isPromoting = false) : Inv { s with driver } := by
  have hkeep : ∀ d : Drive, d.isPromoting = false → ∀ cpu,
      d.base s.readers.coordinator.finished cpu = s.readers.coordinator.finished + 1 ∧
        (d.Narrow s.activePeriod cpu ↔ s.activePeriod = none) := by
    intro d hd cpu
    cases d <;> first | exact ⟨rfl, Iff.rfl⟩ | cases hd
  refine ⟨h.readers, hd, fun cpu hcpu => ?_⟩
  have hq := h.queue cpu hcpu
  rw [(hkeep _ hold cpu).1] at hq
  show (s.queues cpu).Inv (driver.base s.readers.coordinator.finished cpu) _ _
  rw [(hkeep _ hnew cpu).1]
  exact hq.mono (Nat.le_refl _) (Nat.le_refl _) ((hkeep _ hold cpu).2.2 ∘ (hkeep _ hnew cpu).2.1)

/-- The target of the assignment is the last period of every queue's window. -/
theorem Inv.assign (h : s.Inv) {queue : Nat} {target : PeriodId} {has : Bool}
    (hd : s.driver = .assign queue target has) :
    ∃ s', s.drive = some s' ∧ s'.Inv := by
  have hdrives := h.drives
  rw [hd] at hdrives
  obtain ⟨hrest, htarget⟩ := hdrives
  simp only [drive, hd]
  split
  case isTrue hlt =>
    have hstarted := h.readers.counted.started
    have hsucc : ofNat (s.readers.coordinator.finished + 1) = s.readers.coordinator.completed + 1 := by
      rw [h.readers.counted.completed, ofNat_add]
      rfl
    have hq : (s.queues queue).Inv (s.readers.coordinator.finished + 1)
        (s.activePeriod = none) s.readers.coordinator := by
      have := h.queue queue hlt
      rwa [hd] at this
    have hlast : target = ofNat (s.readers.coordinator.finished + 1) ∧ s.activePeriod = none ∧
          s.readers.coordinator.started < s.readers.coordinator.finished + 1 ∨
        target = ofNat (s.readers.coordinator.finished + 1) + 1 ∧ ¬ s.activePeriod = none ∧
          s.readers.coordinator.started ≤ s.readers.coordinator.finished + 1 := by
      rw [htarget, hsucc]
      rcases hrest with ⟨hactive, hphase⟩ | ⟨hactive, hphase⟩
      · rw [hphase, if_pos rfl] at hstarted
        exact .inl ⟨by rw [hactive]; rfl, hactive, by omega⟩
      · rw [hphase, if_neg (by decide)] at hstarted
        exact .inr ⟨by rw [hactive]; rfl, by rw [hactive]; exact nofun, by omega⟩
    obtain ⟨q, assigned, hassign, hinv⟩ := hq.assignPending hlast
    rw [hassign]
    refine ⟨_, rfl, (h.setQueue fun _ => ?_).setDriver ⟨hrest, htarget⟩ (congrArg Drive.isPromoting hd) rfl⟩
    rw [hd]
    exact hinv
  case isFalse =>
    refine ⟨_, rfl, h.setDriver ?_ (congrArg Drive.isPromoting hd) (by split <;> rfl)⟩
    rcases hrest with ⟨hactive, hphase⟩ | ⟨hactive, hphase⟩ <;> rw [hactive] <;> exact ⟨rfl, hphase⟩

/-- All queues give up the period that is over before the next one starts. -/
theorem Inv.promote (h : s.Inv) {queue : Nat} {period : PeriodId} {has : Bool}
    (hd : s.driver = .promote queue period has) :
    ∃ s', s.drive = some s' ∧ s'.Inv := by
  have hdrives := h.drives
  have hqueue := h.queue
  rw [hd] at hdrives hqueue
  obtain ⟨hactive, hperiod, hphase⟩ := hdrives
  simp only [drive, hd]
  split
  case isTrue hlt =>
    refine ⟨_, rfl, h.readers, ⟨hactive, hperiod, hphase⟩, fun cpu hcpu => ?_⟩
    have hq := hqueue cpu hcpu
    show (update s.queues queue ((s.queues queue).promote period) cpu).Inv
      (if queue + 1 ≤ cpu then s.readers.coordinator.finished else s.readers.coordinator.finished + 1)
        (cpu < queue + 1) _
    simp only [Drive.base, Drive.Narrow] at hq
    rcases eq_or_ne cpu queue with rfl | hne
    · rw [if_pos (Nat.le_refl _)] at hq
      rw [update_self, if_neg (Nat.not_succ_le_self _), hperiod, h.readers.counted.completed]
      exact (hq.promote (Nat.le_refl _)).mono (Nat.le_refl _) (Nat.le_refl _) fun _ => trivial
    · have hle : queue + 1 ≤ cpu ↔ queue ≤ cpu := by omega
      simp only [update_of_ne hne, hle]
      exact hq.mono (Nat.le_refl _) (Nat.le_refl _) fun hn => by omega
  case isFalse hend =>
    refine ⟨_, rfl, h.readers, ⟨rfl, hphase⟩, fun cpu hcpu => ?_⟩
    have hq := hqueue cpu hcpu
    have hlt : cpu < queue := Nat.lt_of_lt_of_le hcpu (Nat.le_of_not_lt hend)
    simp only [Drive.base, if_neg (Nat.not_le_of_lt hlt)] at hq
    exact hq.mono (Nat.le_refl _) (Nat.le_refl _) fun _ => hlt

/-- No assertion of the driver fails, and the invariant is kept. -/
theorem Inv.drive (h : s.Inv) : ∃ s', s.drive = some s' ∧ s'.Inv := by
  have hdrives := h.drives
  have hqueue := h.queue
  cases hd : s.driver with rw [hd] at hdrives hqueue
  | assign => exact h.assign hd
  | promote => exact h.promote hd
  | rest =>
    simp only [CallbackState.drive, hd]
    exact ⟨_, rfl, h.setDriver ⟨hdrives, rfl⟩ (congrArg Drive.isPromoting hd) rfl⟩
  | complete =>
    simp only [CallbackState.drive, hd, startFinalization]
    cases hpending : (range s.readers.coordinator.cpuCount).any s.readers.coordinator.pending with
    | true =>
      rw [if_pos (.inr rfl)]
      exact ⟨_, rfl, h.setDriver (.inr hdrives) (congrArg Drive.isPromoting hd) rfl⟩
    | false =>
      rw [if_neg (by simp [hdrives.2])]
      exact ⟨_, rfl, startFinalization_spec h.readers hdrives.2 hpending, ⟨hdrives.1, rfl, rfl⟩,
        fun cpu hcpu => (hqueue cpu hcpu).mono (Nat.le_refl _) (Nat.le_refl _) fun hn => hn⟩
  | finish =>
    obtain ⟨hactive, rfl, hphase⟩ := hdrives
    simp only [CallbackState.drive, hd]
    split
    case isTrue hlt =>
      obtain ⟨nodes, hvisit, hinv⟩ := finishPeriod_spec h.readers hphase
      have hs := h.setReaders hinv ⟨rfl, rfl, rfl, rfl, rfl⟩
      rw [hd] at hs
      rw [hvisit]
      exact ⟨_, rfl, hs⟩
    case isFalse hend =>
      have hinv := finishFinalization_spec h.readers hphase (Nat.le_of_not_lt hend)
      simp only [finishFinalization, hphase, hactive]
      refine ⟨_, rfl, hinv, ⟨rfl, rfl, rfl⟩, fun cpu hcpu => ?_⟩
      exact (hqueue cpu hcpu).mono (Nat.le_refl _) (Nat.le_succ _) fun hn => absurd hn (Nat.not_lt_zero _)
  | scan =>
    simp only [CallbackState.drive, hd]
    split
    · exact ⟨_, rfl, h.setDriver hdrives (congrArg Drive.isPromoting hd) rfl⟩
    · split
      · exact ⟨_, rfl, h.setDriver hdrives (congrArg Drive.isPromoting hd) rfl⟩
      · exact ⟨_, rfl, h.setDriver (.inl hdrives) (congrArg Drive.isPromoting hd) rfl⟩
  | start =>
    have hinv := startInitialization_spec h.readers hdrives.2
    simp only [CallbackState.drive, hd, startInitialization, hdrives.2]
    exact ⟨_, rfl, hinv, ⟨hdrives.1, rfl, rfl⟩, fun cpu hcpu => (hqueue cpu hcpu).mono (Nat.le_succ _)
      (Nat.le_refl _) fun hn => hn⟩
  | begin =>
    obtain ⟨hactive, rfl, hphase⟩ := hdrives
    simp only [CallbackState.drive, hd]
    split
    case isTrue hlt =>
      obtain ⟨nodes, hvisit, hinv⟩ := beginPeriod_spec h.readers hphase
      have hs := h.setReaders hinv ⟨rfl, rfl, rfl, rfl, rfl⟩
      rw [hd] at hs
      rw [hvisit]
      exact ⟨_, rfl, hs⟩
    case isFalse hend =>
      have hinv := finishInitialization_spec h.readers hphase (Nat.le_of_not_lt hend)
      simp only [finishInitialization, hphase]
      exact ⟨_, rfl, hinv, .inr ⟨rfl, rfl⟩, fun cpu hcpu => (hqueue cpu hcpu).mono (Nat.le_refl _)
        (Nat.le_refl _) fun hn => nomatch hn⟩

theorem Inv.queueStep (h : s.Inv) {cpu : Nat} {result : Option CallbackQueue}
    (hq : ∀ {b narrow}, (s.queues cpu).Inv b narrow s.readers.coordinator → ∀ q, result = some q →
      q.Inv b narrow s.readers.coordinator)
    (hs : (if cpu < s.cpuCount then result.map (s.setQueue cpu) else none) = some s') : s'.Inv := by
  obtain ⟨-, hs⟩ := ite_none_right_eq_some.1 hs
  obtain ⟨q, hresult, rfl⟩ := map_eq_some_iff.1 hs
  exact h.setQueue fun hcpu => hq (h.queue cpu hcpu) q hresult

theorem Inv.step {op : Op} (h : s.Inv) (hs : s.step op = some s') : s'.Inv := by
  cases op with
  | reader =>
    obtain ⟨readers, hr, rfl⟩ := map_eq_some_iff.1 hs
    exact h.setReaders (h.readers.step hr) (step_samePeriods hr)
  | drive =>
    obtain ⟨s1, hs1, h1⟩ := h.drive
    exact some.inj (hs1.symm.trans hs) ▸ h1
  | submit => exact h.queueStep (fun hq _ he => some.inj he ▸ hq.submit rfl) hs
  | enqueueDrainMarker => exact h.queueStep (fun hq _ he => some.inj he ▸ hq.enqueueDrainMarker rfl) hs
  | take cpu budget => exact h.queueStep (fun hq _ he => some.inj he ▸ hq.take budget) hs
  | invoke => exact h.queueStep (fun hq _ he => hq.invoke he) hs
  | drop => exact h.queueStep (fun hq _ he => hq.drop he) hs

theorem run_inv {cpuCount : Nat} {participants : Nat → Bool}
    (hrun : Lib.Run step (fun _ _ => True) (new cpuCount participants) s) : s.Inv :=
  hrun.inv Inv (inv_new cpuCount participants) fun _ _ _ h _ hs => h.step hs

/-- No period completes while a scope from before its start is active, no callback is invoked while
a scope from before its submission is active, and no assertion of the driver fails. -/
theorem run_safe {cpuCount : Nat} {participants : Nat → Bool}
    (hrun : Lib.Run step (fun _ _ => True) (new cpuCount participants) s) :
    (∀ t, ∀ guard ∈ (s.readers.tasks t).guards,
      s.readers.coordinator.finished ≤ guard.since ∧ guard.since ≤ s.readers.coordinator.started) ∧
    (∀ cpu < s.cpuCount, ∀ callback ∈ (s.queues cpu).invoked, callback.isMarker = false →
      ∀ t, ∀ guard ∈ (s.readers.tasks t).guards, callback.since < guard.since) ∧
    s.drive.isSome := by
  have h := run_inv hrun
  refine ⟨fun t guard hg => h.readers.since hg, fun cpu hcpu callback hc hm t guard hg => ?_, ?_⟩
  · have hlt := (h.queue cpu hcpu).eligible callback (by simp [hc]) hm
    exact Nat.lt_of_lt_of_le hlt (h.readers.since hg).1
  · obtain ⟨s', hs', -⟩ := h.drive
    rw [hs']
    rfl

/-- One CPU: a task is switched out with a scope, comes back and leaves it. Two of the three callbacks that
were accepted meanwhile run, and the marker goes back; then the task reads again. -/
def sampleOps : List Op :=
  [.reader (.noteContextSwitch 0), .reader (.switchTo 0 (some 7)), .reader (.enter 0 true), .submit 0 5, .submit 0 6,
    .enqueueDrainMarker 0 8] ++
  List.replicate 7 .drive ++
  [.reader (.noteContextSwitch 0), .reader (.switchTo 0 (some 7)), .reader (.leave 0), .reader (.unlink 7),
    .reader (.reportNode 0 0), .reader (.acceptReport 0)] ++
  List.replicate 8 .drive ++ [.take 0 2, .invoke 0 0, .invoke 0 0, .drop 0 0, .reader (.enter 0 false)]

def sampleRan : List Callback := [⟨5, false, 0⟩, ⟨6, false, 0⟩]

theorem run_safe_sample : ∃ s, Lib.Run step (fun _ _ => True) (new 1 fun _ => true) s ∧
    (s.queues 0).invoked = sampleRan ∧ (s.readers.tasks 7).guards.map ReadGuard.since = [1] ∧ s.drive.isSome := by
  exact (Lib.Run.exists_of_exec (p := fun s => (s.queues 0).invoked = sampleRan ∧
    (s.readers.tasks 7).guards.map ReadGuard.since = [1]) sampleOps (by decide +kernel)).imp
      fun s h => ⟨h.1, h.2.1, h.2.2, (run_safe h.1).2.2⟩

/-- A queue invokes what it accepted once and in order, after a period that started later, and keeps
its accounts; its window of two periods and the claim of its executor are never exceeded. -/
theorem run_callbacks {cpuCount : Nat} {participants : Nat → Bool}
    (hrun : Lib.Run step (fun _ _ => True) (new cpuCount participants) s) {cpu : Nat} (hcpu : cpu < s.cpuCount) :
    (s.queues cpu).accepted = (s.queues cpu).invoked ++ (s.queues cpu).held ∧
    (∀ callback ∈ (s.queues cpu).invoked, callback.isMarker = false → callback.since < s.readers.coordinator.finished) ∧
    (s.queues cpu).outstanding + (s.queues cpu).returned = (s.queues cpu).accepted.length ∧
    (s.queues cpu).returned + ((s.queues cpu).batches.map CallbackBatch.completed).sum = (s.queues cpu).invoked.length ∧
    (s.queues cpu).batches.length ≤ 1 ∧
    (∀ target has, s.driver = .assign cpu target has → ((s.queues cpu).assignPending target).isSome) ∧
    ∀ i batch, (s.queues cpu).batches[i]? = some batch → batch.callbacks = [] ∨ batch.budget = 0 →
      ((s.queues cpu).drop i).isSome := by
  have h := run_inv hrun
  have hq := h.queue cpu hcpu
  refine ⟨?_, fun callback hc hm => hq.eligible callback (by simp [hc]) hm, hq.count, hq.executed, ?_,
    fun target has hd => ?_, fun i batch hi hend => hq.drop_isSome hi hend⟩
  · rw [hq.order, held, waiting_eq hq.slots]
    simp
  · rw [hq.claim]
    exact Bool.toNat_le _
  · obtain ⟨s', hs', -⟩ := h.drive
    simp only [drive, hd, if_pos hcpu] at hs'
    obtain ⟨x, hx, -⟩ := bind_eq_some_iff.1 hs'
    rw [hx]
    rfl

theorem run_callbacks_sample : ∃ s, Lib.Run step (fun _ _ => True) (new 1 fun _ => true) s ∧
    (s.queues 0).invoked = sampleRan ∧ (s.queues 0).held = [⟨8, true, 0⟩] ∧
    (s.queues 0).accepted = (s.queues 0).invoked ++ (s.queues 0).held := by
  exact (Lib.Run.exists_of_exec (p := fun s => 0 < s.cpuCount ∧ (s.queues 0).invoked = sampleRan ∧
    (s.queues 0).held = [⟨8, true, 0⟩]) sampleOps (by decide +kernel)).imp
      fun s h => ⟨h.1, h.2.2.1, h.2.2.2, (run_callbacks h.1 h.2.1).1⟩

end CallbackState

end XKernel.Rcu
