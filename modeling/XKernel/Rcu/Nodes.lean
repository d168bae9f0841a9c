import XKernel.Rcu.Readers
/-!
# Reader nodes

The readers that block a period are the end of the node's list, from the first blocker on. A task
that enrolls before the CPU was observed joins them, one that enrolls later does not. A node that is
ready has no blockers and stays ready until the period ends.
-/

namespace XKernel.Rcu

open List Option

theorem next_append {t : Nat} {front rest : List Nat} (h : t ∉ front) : next t (front ++ t :: rest) = rest.head? := by
  induction front with
  | nil => simp [next]
  | cons a front ih =>
    rw [mem_cons, not_or] at h
    rw [cons_append, next, if_neg (Ne.symm h.1), ih h.2]

namespace ReaderNode

/-- The readers that block the period; without a period, those that the next one will wait for. -/
def blockers (node : ReaderNode) : List Nat :=
  match node.period with
  | none => node.readers
  | some period => period.firstBlocker.elim [] fun first => node.readers.dropWhile (· != first)

structure Ok (node : ReaderNode) : Prop where
  nodup : node.readers.Nodup
  first : ∀ period first, node.period = some period → period.firstBlocker = some first → first ∈ node.readers
  pending : node.cpuPending = true → node.period ≠ none

variable {node node' : ReaderNode} {t : Nat} {period : NodePeriod} {pending : Bool} {front rest : List Nat}

/-- The blockers are the end of the list that begins with the first of them. -/
theorem blockers_mk (hn : (front ++ rest).Nodup) (hf : period.firstBlocker = rest.head?) :
    (⟨front ++ rest, some period, pending⟩ : ReaderNode).blockers = rest := by
  simp only [blockers, hf]
  cases rest with
  | nil => rfl
  | cons first =>
    have hfront : ∀ a ∈ front, (a != first) = true := by
      intro a ha
      exact bne_iff_ne.2 fun he => (nodup_append.1 hn).2.2 a ha first mem_cons_self he
    rw [head?_cons, elim_some, dropWhile_append_of_pos hfront, dropWhile_cons_of_neg (by simp)]

theorem ok_mk (hn : (front ++ rest).Nodup) (hf : period.firstBlocker = rest.head?) :
    (⟨front ++ rest, some period, pending⟩ : ReaderNode).Ok := by
  refine ⟨hn, fun p first hp hfirst => ?_, fun _ => nofun⟩
  obtain rfl : period = p := some.inj hp
  exact mem_append_right _ (mem_of_mem_head? (hf ▸ hfirst))

/-- A node with a period, in its two parts. -/
theorem Ok.split {readers : List Nat} (h : (⟨readers, some period, pending⟩ : ReaderNode).Ok) :
    ∃ front rest, readers = front ++ rest ∧ period.firstBlocker = rest.head? := by
  cases hf : period.firstBlocker with
  | none => exact ⟨readers, [], (append_nil _).symm, rfl⟩
  | some first =>
    obtain ⟨front, rest, hr⟩ := append_of_mem (h.first period first rfl hf)
    exact ⟨front, first :: rest, hr, rfl⟩

variable {id : PeriodId}

theorem readyPeriod_iff : node.readyPeriod = some id ↔
    node.cpuPending = false ∧ ∃ period, node.period = some period ∧ period.firstBlocker = none ∧ period.id = id := by
  unfold readyPeriod NodePeriod.unblocked
  cases node.cpuPending <;> cases node.period <;> simp

/-- A node that is ready has no blockers. -/
theorem blockers_of_ready (h : node.readyPeriod = some id) : node.blockers = [] := by
  obtain ⟨-, period, hp, hf, -⟩ := readyPeriod_iff.1 h
  simp [blockers, hp, hf]

/-- What the sections of readers and observers keep. -/
structure Keeps (node node' : ReaderNode) : Prop where
  ok : node'.Ok
  id : node'.period.map NodePeriod.id = node.period.map NodePeriod.id
  ready : ∀ id, node.readyPeriod = some id → node'.readyPeriod = some id

section

variable (h : node.Ok)
include h

theorem Keeps.refl : Keeps node node := ⟨h, rfl, fun _ h => h⟩

/-- The CPU's observation is outstanding, and the CPU has not left the state of the first sample. -/
def Unseen (node : ReaderNode) (sequence : UInt64) : Prop :=
  ∀ period, node.period = some period → node.cpuPending = true ∧ ∀ x, period.watchingSnapshot = some x → x = sequence

theorem enrollLocked_spec (ht : t ∉ node.readers) :
    Keeps node (node.enrollLocked t) ∧ (∀ x, x ∈ (node.enrollLocked t).readers ↔ x = t ∨ x ∈ node.readers) ∧
      (∀ x ∈ node.blockers, x ∈ (node.enrollLocked t).blockers) ∧
      ∀ sequence, node.Unseen sequence → t ∈ (node.enrollLocked t).blockers := by
  obtain ⟨readers, period, pending⟩ := node
  cases period with
  | none =>
    have he : (⟨readers, none, pending⟩ : ReaderNode).enrollLocked t = ⟨t :: readers, none, pending⟩ := by
      cases pending <;> rfl
    rw [he]
    exact ⟨⟨⟨nodup_cons.2 ⟨ht, h.nodup⟩, nofun, h.pending⟩, rfl, fun _ h => h⟩, fun x => mem_cons,
      fun x hx => mem_cons_of_mem _ hx, fun _ _ => mem_cons_self⟩
  | some period =>
    obtain ⟨front, rest, rfl, hf⟩ := h.split
    have hblockers : (⟨front ++ rest, some period, pending⟩ : ReaderNode).blockers = rest := blockers_mk h.nodup hf
    cases pending with
    | false =>
      have hn : ((t :: front) ++ rest).Nodup := nodup_cons.2 ⟨ht, h.nodup⟩
      have he : (⟨front ++ rest, some period, false⟩ : ReaderNode).enrollLocked t =
          ⟨(t :: front) ++ rest, some period, false⟩ := rfl
      rw [he, hblockers, blockers_mk hn hf]
      refine ⟨⟨ok_mk hn hf, rfl, fun _ h => h⟩, fun x => mem_cons, fun x hx => hx, fun sequence hs => ?_⟩
      cases (hs period rfl).1
    | true =>
      have hn : (front ++ (rest ++ [t])).Nodup := by
        rw [← append_assoc]
        refine nodup_append.2 ⟨h.nodup, nodup_singleton t, fun a ha b hb he => ht ?_⟩
        exact mem_singleton.1 hb ▸ he ▸ ha
      have hf' : period.firstBlocker.or (some t) = (rest ++ [t]).head? := by rw [hf]; cases rest <;> rfl
      have he : (⟨front ++ rest, some period, true⟩ : ReaderNode).enrollLocked t =
          ⟨front ++ (rest ++ [t]), some { period with firstBlocker := period.firstBlocker.or (some t) }, true⟩ := by
        rw [← append_assoc]
        rfl
      rw [he, hblockers, blockers_mk hn hf']
      exact ⟨⟨ok_mk hn hf', rfl, nofun⟩, fun x => by simp [or_comm, or_left_comm], fun x hx => mem_append_left _ hx,
        fun _ _ => by simp⟩

theorem remove_spec (ht : t ∈ node.readers) :
    ∃ node', node.remove t = some node' ∧ Keeps node node' ∧ (∀ x, x ∈ node'.readers ↔ x ≠ t ∧ x ∈ node.readers) ∧
      (∀ x ∈ node.blockers, x ≠ t → x ∈ node'.blockers) ∧ ∀ sequence, node.Unseen sequence → node'.Unseen sequence := by
  refine ⟨_, if_pos ht, ?_⟩
  have hmem : ∀ x, x ∈ node.readers.erase t ↔ x ≠ t ∧ x ∈ node.readers := fun x => h.nodup.mem_erase_iff
  obtain ⟨readers, period, pending⟩ := node
  cases period with
  | none =>
    exact ⟨⟨⟨h.nodup.erase t, nofun, h.pending⟩, rfl, fun _ h => h⟩, hmem, fun x hx hne => (hmem x).2 ⟨hne, hx⟩,
      fun _ h => h⟩
  | some period =>
    obtain ⟨front, rest, rfl, hf⟩ := h.split
    have hblockers : (⟨front ++ rest, some period, pending⟩ : ReaderNode).blockers = rest := blockers_mk h.nodup hf
    -- the new parts of the list, and what was the first blocker
    obtain ⟨front', rest', hr, hf', hrest⟩ : ∃ front' rest', (front ++ rest).erase t = front' ++ rest' ∧
        (if period.firstBlocker = some t then next t (front ++ rest) else period.firstBlocker) = rest'.head? ∧
        ∀ x ∈ rest, x ≠ t → x ∈ rest' := by
      by_cases hfront : t ∈ front
      · have hnot : t ∉ rest := fun hrest => (nodup_append.1 h.nodup).2.2 t hfront t hrest rfl
        refine ⟨front.erase t, rest, erase_append_left rest hfront, ?_, fun x hx _ => hx⟩
        rw [if_neg, hf]
        exact fun he => hnot (mem_of_mem_head? (hf ▸ he))
      · cases rest with
        | nil => simp [hfront] at ht
        | cons first rest =>
          by_cases hfirst : first = t
          · subst hfirst
            refine ⟨front, rest, by simp [erase_append_right _ hfront], ?_, fun x hx hne => ?_⟩
            · rw [if_pos (by rw [hf, head?_cons]), next_append hfront]
            · exact (mem_cons.1 hx).resolve_left hne
          · refine ⟨front, first :: rest.erase t, ?_, ?_, fun x hx hne => ?_⟩
            · rw [erase_append_right _ hfront, erase_cons_tail (by simpa using hfirst)]
            · rw [if_neg, hf]
              · rfl
              · rw [hf]
                simpa using hfirst
            · rcases mem_cons.1 hx with rfl | hx
              · exact mem_cons_self
              · exact mem_cons_of_mem _ ((mem_erase_of_ne hne).2 hx)
    have hn : (front' ++ rest').Nodup := hr ▸ h.nodup.erase t
    obtain ⟨period', hp'⟩ : ∃ period', period' = if period.firstBlocker = some t then
        { period with firstBlocker := next t (front ++ rest) } else period := ⟨_, rfl⟩
    have hfirst : period'.firstBlocker = rest'.head? := by
      rw [← hf', hp']
      split <;> rfl
    have hid : period'.id = period.id ∧ period'.watchingSnapshot = period.watchingSnapshot := by
      rw [hp']
      split <;> exact ⟨rfl, rfl⟩
    simp only [map_some, ← hp', hblockers, hr] at hmem ⊢
    rw [blockers_mk hn hfirst]
    refine ⟨⟨ok_mk hn hfirst, by simp [hid.1], fun id hready => ?_⟩, hmem, hrest, fun sequence hs p hp => ?_⟩
    · obtain ⟨hpending, p, hp, hnone, hid'⟩ := readyPeriod_iff.1 hready
      obtain rfl : period = p := some.inj hp
      refine readyPeriod_iff.2 ⟨hpending, period', rfl, ?_, hid.1.trans hid'⟩
      rw [hp', if_neg (by simp [hnone])]
      exact hnone
    · obtain rfl : period' = p := some.inj hp
      rw [hid.2]
      exact hs period rfl

/-- What an observation leaves of the node, and what it returns. -/
structure Observed (node : ReaderNode) (result : ReaderNode × Option PeriodId) : Prop where
  keeps : Keeps node result.1
  readers : result.1.readers = node.readers
  blockers : result.1.blockers = node.blockers
  ready : ∀ id, result.2 = some id → result.1.readyPeriod = some id

theorem Observed.none : Observed node (node, none) := ⟨.refl h, rfl, rfl, nofun⟩

theorem observed_of_unobserved (hp : node.unobserved = some period) :
    Observed node ({ node with cpuPending := false }, period.unblocked) := by
  obtain ⟨readers, _, pending⟩ := node
  obtain ⟨hpending, hp⟩ := ite_none_right_eq_some.1 hp
  obtain rfl : pending = true := hpending
  obtain rfl := hp
  refine ⟨⟨⟨h.nodup, h.first, fun h => nomatch h⟩, rfl, ?_⟩, rfl, rfl, fun _ hid => hid⟩
  intro id hready
  cases (readyPeriod_iff.1 hready).1

theorem observeWatching_spec (observed : UInt64) : Observed node (node.observeWatching observed) ∧
    (observed &&& 1 ≠ 0 → node.Unseen observed → (node.observeWatching observed).1.Unseen observed) := by
  unfold observeWatching
  cases hp : node.unobserved with
  | none => exact ⟨.none h, fun _ hs => hs⟩
  | some period =>
    dsimp only
    obtain ⟨hpending, hperiod⟩ : node.cpuPending = true ∧ node.period = some period := by
      unfold unobserved at hp
      split at hp
      case isTrue hpending => exact ⟨hpending, hp⟩
      case isFalse => cases hp
    split
    case isTrue hodd =>
      have hblockers : ∀ pending, (⟨node.readers, some { period with watchingSnapshot := some observed },
        pending⟩ : ReaderNode).blockers =
          (⟨node.readers, some period, pending⟩ : ReaderNode).blockers := fun _ => rfl
      obtain ⟨readers, _, _⟩ := node
      obtain rfl := hperiod
      obtain rfl := hpending
      refine ⟨⟨⟨⟨h.nodup, fun p first hp hf => ?_, nofun⟩, rfl, ?_⟩, rfl, hblockers _, nofun⟩,
        fun _ _ p hp => ⟨rfl, ?_⟩⟩
      · obtain rfl := some.inj hp
        exact h.first period first rfl hf
      · intro id hready
        cases (readyPeriod_iff.1 hready).1
      · obtain rfl := some.inj hp
        exact fun x hx => (some.inj hx).symm
    case isFalse hcrossed =>
      refine ⟨observed_of_unobserved h hp, fun hodd hs => absurd ⟨hodd, ?_⟩ hcrossed⟩
      have hsnapshot := (hs period hperiod).2
      cases hw : period.watchingSnapshot with
      | none => simp
      | some x => simp [hsnapshot x hw]

theorem noteContextSwitch_observed : Observed node (node.noteContextSwitch t false) := by
  simp only [noteContextSwitch]
  split
  case h_1 => exact .none h
  case h_2 hp => exact observed_of_unobserved h hp

end

end ReaderNode

end XKernel.Rcu
