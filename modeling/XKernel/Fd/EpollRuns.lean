import XKernel.Fd.Epoll
/-!
# Entries and flags of the ready queue

The flag of an interest stands for its one entry, wherever that is: in the queue, in the hands of a
running call, or about to be pushed. Every section moves entries and flags together but one: a call
that pops an interest it has handled already drops the entry and leaves the flag.
-/

namespace XKernel.Epoll

open Function List Option EpollInner Poller Place

/-- The interest of a place, and whether the call has an entry for it. -/
def Place.interest : Place → Option (Nat × Bool)
  | .pop | .finish none => none
  | .popped i | .closed i | .unlisted i | .full i | .consume i | .polled i _ | .unmark i _ | .push i => some (i, true)
  | .rearm i _ _ | .registered i _ _ | .mark i | .finish (some i) => some (i, false)

/-- The entries for an interest in the hands of a call. -/
def Poller.holds (p : Poller) (i : Nat) : Nat :=
  p.deferredKeep.count i + if p.place.interest = some (i, true) then 1 else 0

def Poller.Knows (p : Poller) (i : Nat) : Prop := i ∈ p.deferredKeep ∨ ∃ b, p.place.interest = some (i, b)

theorem Poller.next_interest (p : Poller) : p.next.place.interest = none := by
  unfold next
  by_cases h : p.rounds ≤ 1 <;> simp [h, interest]

namespace EpollInner

variable {s s' : EpollInner} {i : Nat}

/-- The number of entries for an interest. -/
def entries (s : EpollInner) (i : Nat) : Nat :=
  s.readyQueue.count i + s.marked.count i + (s.pollers.map fun p => p.holds i).sum

def flag (s : EpollInner) (i : Nat) : Nat := (s.interests i).inReadyQueue.toNat

def Knows (s : EpollInner) (i : Nat) : Prop :=
  i ∈ s.readyQueue ∨ i ∈ s.marked ∨ (∃ p ∈ s.pollers, p.Knows i) ∨ (s.interests i).isLive = true

structure Inv (s : EpollInner) : Prop where
  made : ∀ i, s.Knows i → i < s.made
  entries : ∀ i, (s.interests i).isLive = true → s.entries i = s.flag i

/-- What a section of a call does, with the call before and after it. -/
structure PollMoves (s : EpollInner) (p : Poller) (s' : EpollInner) (p' : Option Poller) : Prop where
  made : s'.made = s.made
  pollers : s'.pollers = s.pollers
  marked : s'.marked = s.marked
  live : ∀ i, (s'.interests i).isLive = (s.interests i).isLive
  knows : ∀ i, i ∈ s'.readyQueue ∨ (∃ p ∈ p', p.Knows i) → i ∈ s.readyQueue ∨ p.Knows i
  count : ∀ i, (s.interests i).isLive = true →
    s'.readyQueue.count i + p'.elim 0 (·.holds i) + s.flag i = s.readyQueue.count i + p.holds i + s'.flag i

theorem flag_setMark (s : EpollInner) (i j : Nat) (b : Bool) :
    (s.setMark i b).flag j = if j = i then b.toNat else s.flag j := by
  unfold flag setMark setInterest
  rcases eq_or_ne j i with rfl | hne
  · simp
  · simp [hne]

theorem live_setMark (s : EpollInner) (i j : Nat) (b : Bool) :
    ((s.setMark i b).interests j).isLive = (s.interests j).isLive := by
  unfold setMark setInterest
  rcases eq_or_ne j i with rfl | hne
  · simp
  · simp [hne]

theorem consume_keeps (interest : EpollInterest) (current : IoEvents) :
    (interest.consume current).1.inReadyQueue = interest.inReadyQueue ∧
      (interest.consume current).1.isLive = interest.isLive := by
  unfold EpollInterest.consume EpollInterest.noEventRearmCurrentReady EpollInterest.noEventWaitForTransition
    EpollInterest.shouldNotifyEdge
  grind

/-- The call has popped an interest that it has handled already. -/
def skips (s : EpollInner) (p : Poller) : Bool :=
  match p.place with
  | .popped i => (s.interests i).isLive && s.isOpen (s.interests i).key.file && (s.interests i).key ∈ p.emitted
  | _ => false

def noSkip (s : EpollInner) : Op → Bool
  | .poll k _ => s.pollers[k]?.all fun p => !s.skips p
  | _ => true

variable {p : Poller}

/-- A section after which the call goes on, from the place of `x` to the place of `y`. -/
theorem PollMoves.intro {p' : Poller} {place : Place} (x y : Option (Nat × Bool)) (kept : List Nat)
    (hp : p.place = place) (hx : place.interest = x) (hy : p'.place.interest = y)
    (hkept : p'.deferredKeep = p.deferredKeep ++ kept) (hframe : s' = { s with
      readyQueue := s'.readyQueue, interests := s'.interests, table := s'.table })
    (hlive : ∀ j, (s'.interests j).isLive = (s.interests j).isLive)
    (hknows : ∀ j, j ∈ s'.readyQueue ∨ j ∈ kept ∨ (∃ b, y = some (j, b)) → j ∈ s.readyQueue ∨ ∃ b, x = some (j, b))
    (hcount : ∀ j, (s.interests j).isLive = true →
      s'.readyQueue.count j + kept.count j + (if y = some (j, true) then 1 else 0) + s.flag j =
      s.readyQueue.count j + (if x = some (j, true) then 1 else 0) + s'.flag j) : PollMoves s p s' (some p') := by
  refine ⟨by rw [hframe], by rw [hframe], by rw [hframe], hlive, fun j hj => ?_, fun j hj => ?_⟩
  · simp only [Poller.Knows, mem_some_iff, exists_eq_left', hy] at hj ⊢
    grind
  · have := hcount j hj
    simp only [holds, elim_some, hkept, hp, hx, hy, count_append]
    omega

/-- Only the place changes, and the call has the entries of live interests that it had. -/
theorem PollMoves.keep {p' : Poller} {place : Place} (x y : Option (Nat × Bool)) (hp : p.place = place)
    (hx : place.interest = x) (hy : p'.place.interest = y)
    (hkept : p'.deferredKeep = p.deferredKeep) (hknows : ∀ j b, y = some (j, b) → ∃ b, x = some (j, b))
    (hheld : ∀ j, (s.interests j).isLive = true → (y = some (j, true) ↔ x = some (j, true))) :
    PollMoves s p s (some p') := by
  refine .intro x y [] hp hx hy (by simp [hkept]) rfl (fun _ => rfl) (fun j hj => ?_) fun j hj => ?_
  · exact hj.imp_right fun hj => (hj.resolve_left not_mem_nil).elim fun b hb => hknows j b hb
  · simp [hheld j hj]

theorem pollStep_moves (found : Found) (hskip : s.skips p = false)
    (hflag : ∀ i, (s.interests i).isLive = true → p.place.interest = some (i, true) → s.flag i = 1) :
    PollMoves s p (s.pollStep p found).1 (s.pollStep p found).2 := by
  have hsame : ∀ x : Option (Nat × Bool), ∀ j b, x = some (j, b) → ∃ b, x = some (j, b) := fun _ _ b hj => ⟨b, hj⟩
  cases hp : p.place with simp only [pollStep, hp]
  | pop =>
    split
    · exact .keep none none hp rfl rfl rfl nofun fun _ _ => Iff.rfl
    · rename_i i queue hqueue
      refine .intro none (some (i, true)) [] hp rfl rfl (by simp) rfl (fun _ => rfl) (fun j hj => ?_) fun j _ => ?_
      · simpa [hqueue, or_comm, eq_comm] using hj
      · simp [hqueue, flag, count_cons]
  | popped i =>
    split
    · refine .keep (some (i, true)) none hp rfl (next_interest p) rfl nofun fun j hj => ⟨nofun, fun he => ?_⟩
      simp_all
    · split
      · exact .keep _ (some (i, true)) hp rfl rfl rfl (hsame _) fun _ _ => Iff.rfl
      · split
        · simp_all [skips]
        · refine .keep _ (some (i, true)) hp rfl ?_ rfl (hsame _) fun _ _ => Iff.rfl
          by_cases hfull : p.capacity ≤ p.count <;> simp [hfull, interest]
  | closed i =>
    exact .intro (some (i, true)) (some (i, true)) [] hp rfl rfl (by simp) rfl (fun _ => rfl) (by simp) (by simp [flag])
  | consume i =>
    exact .keep (some (i, true)) (some (i, true)) hp rfl rfl rfl (hsame _) fun _ _ => Iff.rfl
  | unlisted i =>
    refine .intro (some (i, true)) none [] hp rfl (next_interest p) (append_nil _).symm rfl
      (live_setMark s i · false) (by simp +contextual [setMark, setInterest]) fun j hj => ?_
    have hone := hflag j hj
    rw [flag_setMark]
    grind [interest, setMark, setInterest]
  | unmark i =>
    refine .intro (some (i, true)) (some (i, false)) [] hp rfl rfl (by simp) rfl
      (live_setMark s i · false) (by simp +contextual [setMark, setInterest]) fun j hj => ?_
    have hone := hflag j hj
    rw [flag_setMark]
    grind [interest, setMark, setInterest]
  | full i =>
    exact .intro (some (i, true)) none [] hp rfl rfl (by simp) rfl (fun _ => rfl) (by simp [or_comm, eq_comm])
      (by simp [flag, count_cons])
  | polled i current =>
    obtain ⟨hready, hlive⟩ := consume_keeps (s.interests i) current
    generalize (s.interests i).consume current = consumed at hready hlive
    have hsame (j : Nat) : ((s.setInterest i consumed.1).interests j).isLive = (s.interests j).isLive ∧
        (s.setInterest i consumed.1).flag j = s.flag j := by
      unfold flag setInterest
      rcases eq_or_ne j i with rfl | hne
      · simp [hready, hlive]
      · simp [hne]
    cases consumed.2 with
    | eventAndKeep =>
      refine .intro (some (i, true)) none [i] hp rfl (next_interest _) rfl rfl (fun j => (hsame j).1)
        (by simp +contextual [setInterest, eq_comm]) fun j _ => ?_
      rw [(hsame j).2]
      simp [setInterest, count_cons]
    | eventAndRemove | noEvent =>
      refine .intro (some (i, true)) (some (i, true)) [] hp rfl rfl (by simp) rfl (fun j => (hsame j).1)
        (by simp +contextual [setInterest]) fun j _ => ?_
      rw [(hsame j).2]
      simp [setInterest]
  | rearm i | registered i =>
    have hnext : PollMoves s p s (some p.next) :=
      .keep (some (i, false)) none hp rfl (next_interest p) rfl nofun (by simp)
    have hplace : ∀ place : Place, place.interest = some (i, false) → PollMoves s p s (some { p with place }) :=
      fun place hplace => .keep (some (i, false)) _ hp rfl hplace rfl (hsame _) fun _ _ => Iff.rfl
    repeat' split
    all_goals first | exact hnext | exact hplace _ rfl
  | mark i =>
    split
    · exact .keep (some (i, false)) none hp rfl (next_interest p) rfl nofun (by simp)
    · refine .intro (some (i, false)) (some (i, true)) [] hp rfl rfl (by simp) rfl
        (live_setMark s i · true) (by simp +contextual [setMark, setInterest]) fun j hj => ?_
      rw [flag_setMark]
      grind [flag, setMark, setInterest]
  | push i =>
    exact .intro (some (i, true)) none [] hp rfl (next_interest p) (append_nil _).symm rfl
      (fun _ => rfl) (by simp [eq_comm]) (by simp [flag, count_cons])
  | finish failed =>
    have hkept : ∀ q : EpollInner, q = { s with readyQueue := s.readyQueue ++ p.deferredKeep } →
      PollMoves s p q none := by
      rintro q rfl
      refine ⟨rfl, rfl, rfl, fun _ => rfl, fun j hj => ?_, fun j _ => ?_⟩
      · simp at hj
        exact hj.imp_right .inl
      · have hnone : p.place.interest ≠ some (j, true) := by
          rw [hp]
          cases failed <;> simp [interest]
        simp [holds, hnone, flag]
    cases failed with
    | none => exact hkept _ rfl
    | some i =>
      dsimp only
      split
      case isFalse => exact hkept _ rfl
      case isTrue hclear =>
        refine ⟨rfl, rfl, rfl, fun j => live_setMark _ i j true, fun j hj => ?_, fun j _ => ?_⟩
        · simp [Poller.Knows, interest] at hj ⊢
          grind
        · have hnone : p.place.interest ≠ some (j, true) := by simp [hp, interest]
          show _ + 0 + s.flag j = _ + p.holds j +
            (setMark { s with readyQueue := s.readyQueue ++ p.deferredKeep } i true).flag j
          rw [flag_setMark]
          simp [holds, flag] at hclear ⊢
          grind

/-! ## Runs -/

variable {k : Nat}

theorem sum_map_set {α : Type} (f : α → Nat) {l : List α} {a : α} (b : α) (h : l[k]? = some a) :
    ((l.set k b).map f).sum + f a = (l.map f).sum + f b ∧ ((l.eraseIdx k).map f).sum + f a = (l.map f).sum := by
  induction l generalizing k with
  | nil => simp at h
  | cons x l ih =>
    cases k with
    | zero =>
      obtain rfl : x = a := by simpa using h
      simp only [set_cons_zero, eraseIdx_cons_zero, map_cons, sum_cons]
      omega
    | succ k =>
      have := ih (by simpa using h)
      simp only [set_cons_succ, eraseIdx_cons_succ, map_cons, sum_cons]
      omega

theorem Inv.poll (h : s.Inv) (hk : s.pollers[k]? = some p) {p' : Option Poller} {pollers : List Poller}
    (hm : PollMoves s p s' p') (hp : ∀ q ∈ pollers, q ∈ s.pollers ∨ q ∈ p')
    (hsum : ∀ i, (pollers.map fun p => p.holds i).sum + p.holds i =
      (s.pollers.map fun p => p.holds i).sum + p'.elim 0 (·.holds i)) :
    Inv { s' with pollers } := by
  have hmem : p ∈ s.pollers := mem_of_getElem? hk
  refine ⟨fun i hi => ?_, fun i hi => ?_⟩
  · show i < s'.made
    rw [hm.made]
    refine h.made i ?_
    have hold : i ∈ s.readyQueue ∨ p.Knows i → s.Knows i := fun hi => hi.imp_right fun hi => .inr (.inl ⟨p, hmem, hi⟩)
    rcases hi with hi | hi | ⟨q, hq, hi⟩ | hi
    · exact hold (hm.knows i (.inl hi))
    · exact .inr (.inl (hm.marked ▸ hi))
    · rcases hp q hq with hq | hq
      · exact .inr (.inr (.inl ⟨q, hq, hi⟩))
      · exact hold (hm.knows i (.inr ⟨q, hq, hi⟩))
    · exact .inr (.inr (.inr ((hm.live i).symm.trans hi)))
  · have hlive : (s.interests i).isLive = true := (hm.live i).symm.trans hi
    have hcount := hm.count i hlive
    have hentries := h.entries i hlive
    have hsum := hsum i
    show s'.readyQueue.count i + s'.marked.count i + (pollers.map fun p => p.holds i).sum = s'.flag i
    rw [hm.marked]
    simp only [EpollInner.entries] at hentries
    omega

theorem Inv.flag_eq_one (h : s.Inv) (hk : s.pollers[k]? = some p) (hi : (s.interests i).isLive = true)
    (hplace : p.place.interest = some (i, true)) : s.flag i = 1 := by
  have hentries := h.entries i hi
  have hsum := (sum_map_set (fun p => p.holds i) p hk).2
  have hone : p.holds i = p.deferredKeep.count i + 1 := by simp [holds, hplace]
  have htwo : s.flag i ≤ 1 := Bool.toNat_le _
  simp only [EpollInner.entries] at hentries
  omega

theorem entries_eq_zero (h : ¬ s.Knows i) : s.entries i = 0 := by
  simp only [Knows, not_or, not_exists, not_and] at h
  obtain ⟨hqueue, hmarked, hpollers, -⟩ := h
  have hsum : (s.pollers.map fun p => p.holds i).sum = 0 := by
    refine List.sum_eq_zero_iff_forall_eq_nat.2 fun n hn => ?_
    obtain ⟨p, hp, rfl⟩ := List.mem_map.1 hn
    have hknows := hpollers p hp
    simp only [Poller.Knows, not_or, not_exists] at hknows
    simp [holds, List.count_eq_zero_of_not_mem hknows.1, hknows.2 true]
  rw [entries, List.count_eq_zero_of_not_mem hqueue, List.count_eq_zero_of_not_mem hmarked, hsum]

/-- No entry and no flag of a live interest changes. -/
theorem Inv.same (h : s.Inv) {files : Nat → IoEvents} {isOpen : Nat → Bool} {interests : Nat → EpollInterest}
    {table : EntryKey → Option Nat}
    (hi : ∀ i, (interests i).isLive = true → (s.interests i).isLive = true ∧
      (interests i).inReadyQueue = (s.interests i).inReadyQueue) :
    Inv { s with files, isOpen, interests, table } := by
  refine ⟨fun i hk => h.made i (hk.imp_right (Or.imp_right (Or.imp_right fun hl => (hi i hl).1))), fun i hl => ?_⟩
  have hflag : flag { s with files, isOpen, interests, table } i = s.flag i := by
    simp only [flag, (hi i hl).2]
  rw [hflag]
  exact h.entries i (hi i hl).1

theorem Inv.step {op : Op} (h : s.Inv) (hok : s.noSkip op = true)
    (hs : s.step op = some s') : s'.Inv := by
  have hupdate : ∀ (i : Nat) (interest : EpollInterest), interest.inReadyQueue = (s.interests i).inReadyQueue →
      (interest.isLive = true → (s.interests i).isLive = true) → Inv (s.setInterest i interest) := by
    intro i interest hf hl
    refine h.same fun j hj => ?_
    rcases eq_or_ne j i with rfl | hne
    · rw [update_self] at hj ⊢
      exact ⟨hl hj, hf⟩
    · rw [update_of_ne hne] at hj ⊢
      exact ⟨hj, rfl⟩
  cases op with simp only [EpollInner.step] at hs
  | setEvents | close => exact some.inj hs ▸ h.same fun i hi => ⟨hi, rfl⟩
  | modifyConfig i | setReportedEvents i => exact some.inj hs ▸ hupdate i _ rfl fun hi => hi
  | delete =>
    split at hs
    case isFalse => cases hs
    case isTrue => exact some.inj hs ▸ h.same fun i hi => ⟨hi, rfl⟩
  | release i =>
    split at hs
    case isTrue => cases hs
    case isFalse => exact some.inj hs ▸ hupdate i _ rfl nofun
  | add =>
    obtain ⟨-, hs⟩ := ite_none_left_eq_some.1 hs
    obtain rfl := some.inj hs
    have hnew : ¬ s.Knows s.made := fun hk => Nat.lt_irrefl _ (h.made _ hk)
    refine ⟨fun i hi => ?_, fun i hi => ?_⟩
    · rcases eq_or_ne i s.made with rfl | hne
      · exact Nat.lt_succ_self _
      · refine Nat.lt_succ_of_lt (h.made i (hi.imp_right (Or.imp_right (Or.imp_right fun hl => ?_))))
        simpa [setInterest, hne] using hl
    · show s.entries i = _
      rcases eq_or_ne i s.made with rfl | hne
      · rw [entries_eq_zero hnew]
        simp [flag, setInterest]
      · have hl : (s.interests i).isLive = true := by simpa [setInterest, hne] using hi
        rw [h.entries i hl]
        simp [flag, setInterest, hne]
  | mark i =>
    obtain ⟨hlive, hs⟩ := ite_none_left_eq_some.1 hs
    obtain rfl := some.inj hs
    split
    case isTrue => exact h
    case isFalse hclear =>
      refine ⟨fun j hj => h.made j ?_, fun j hj => ?_⟩
      · rcases hj with hj | hj | hj | hj
        · exact .inl hj
        · rcases mem_cons.1 hj with rfl | hj
          · exact .inr (.inr (.inr (by simpa using hlive)))
          · exact .inr (.inl hj)
        · exact .inr (.inr (.inl hj))
        · exact .inr (.inr (.inr ((live_setMark s i j true).symm.trans hj)))
      · have hentries := h.entries j ((live_setMark s i j true).symm.trans hj)
        show s.readyQueue.count j + (i :: s.marked).count j + (s.pollers.map fun p => p.holds j).sum =
          (s.setMark i true).flag j
        rw [flag_setMark, count_cons]
        simp only [EpollInner.entries, flag] at hentries ⊢
        grind
  | push i =>
    obtain ⟨hmem, hs⟩ := ite_none_right_eq_some.1 hs
    obtain rfl := some.inj hs
    refine ⟨fun j hj => h.made j ?_, fun j hj => ?_⟩
    · rcases hj with hj | hj | hj
      · rcases mem_append.1 hj with hj | hj
        · exact .inl hj
        · exact .inr (.inl (mem_singleton.1 hj ▸ hmem))
      · exact .inr (.inl (mem_of_mem_erase hj))
      · exact .inr (.inr hj)
    · have hentries := h.entries j hj
      have hcount := (perm_cons_erase hmem).count_eq j
      show (s.readyQueue ++ [i]).count j + (s.marked.erase i).count j +
        (s.pollers.map fun p => p.holds j).sum = s.flag j
      simp only [EpollInner.entries, count_append, count_cons, count_nil] at hentries hcount ⊢
      omega
  | pollEvents =>
    have hstart : ∀ (queue : List Nat) (p : Poller), (∀ j, j ∈ queue ∨ p.Knows j → j ∈ s.readyQueue) →
        (∀ j, queue.count j + p.holds j = s.readyQueue.count j) →
          Inv { s with readyQueue := queue, pollers := s.pollers ++ [p] } := by
      intro queue p hknows hcount
      refine ⟨fun j hj => h.made j ?_, fun j hj => ?_⟩
      · rcases hj with hj | hj | ⟨q, hq, hj⟩ | hj
        · exact .inl (hknows j (.inl hj))
        · exact .inr (.inl hj)
        · rcases mem_append.1 hq with hq | hq
          · exact .inr (.inr (.inl ⟨q, hq, hj⟩))
          · exact .inl (hknows j (.inr (mem_singleton.1 hq ▸ hj)))
        · exact .inr (.inr (.inr hj))
      · have hentries := h.entries j hj
        have hcount := hcount j
        show queue.count j + s.marked.count j + ((s.pollers ++ [p]).map fun p => p.holds j).sum = s.flag j
        simp only [EpollInner.entries, map_append, sum_append, map_cons, map_nil, sum_cons, sum_nil] at hentries ⊢
        omega
    split at hs
    · obtain rfl := some.inj hs
      exact hstart _ _ (by simp [Poller.Knows, interest]) (by simp [holds, interest])
    · rename_i i queue hqueue
      obtain rfl := some.inj hs
      refine hstart _ _ (fun j hj => ?_) fun j => ?_
      · simpa [Poller.Knows, interest, hqueue, or_comm, eq_comm] using hj
      · simp [holds, interest, hqueue, count_cons]
  | poll k found =>
    cases hk : s.pollers[k]? with
    | none => simp [hk] at hs
    | some p =>
      rw [hk] at hs
      dsimp only at hs
      have hm := pollStep_moves found (by simpa [noSkip, hk] using hok) fun i hi => h.flag_eq_one hk hi
      generalize s.pollStep p found = result at hm hs
      obtain ⟨s1, _ | p'⟩ := result
      · obtain rfl := some.inj hs
        rw [hm.pollers]
        exact h.poll hk hm (fun q hq => .inl (mem_of_mem_eraseIdx hq)) fun i => (sum_map_set _ p hk).2
      · obtain rfl := some.inj hs
        rw [hm.pollers]
        refine h.poll hk hm (fun q hq => ?_) fun i => (sum_map_set _ p' hk).1
        exact (mem_or_eq_of_mem_set hq).imp_right fun he => by rw [he]; rfl

theorem inv_new : new.Inv := by
  refine ⟨fun i hi => ?_, nofun⟩
  rcases hi with hi | hi | ⟨p, hp, -⟩ | hi
  · cases hi
  · cases hi
  · cases hp
  · cases hi

/-- Unless a call skips an interest that it popped again, a live interest has one entry while its flag
is set and none otherwise: in the queue, in the hands of a call, or about to be pushed. So without
calls and pushes under way the flag says whether it is queued, and it can be queued. -/
theorem run_entries (hrun : Lib.Run step (fun s op => s.noSkip op = true) new s) (hi : (s.interests i).isLive = true) :
    s.entries i = (s.interests i).inReadyQueue.toNat ∧
    (s.pollers = [] → i ∉ s.marked → ((s.interests i).inReadyQueue = true ↔ s.readyQueue.count i = 1) ∧
      ∃ s₁, s.step (.mark i) = some s₁ ∧ (i ∈ s₁.readyQueue ∨ ∃ s₂, s₁.step (.push i) = some s₂ ∧
        i ∈ s₂.readyQueue)) := by
  have h : s.Inv := hrun.inv Inv inv_new fun _ _ _ h hok hs => h.step hok hs
  have hentries := h.entries i hi
  refine ⟨hentries, fun hpollers hmarked => ?_⟩
  have hcount : s.readyQueue.count i = (s.interests i).inReadyQueue.toNat := by
    simpa [entries, flag, hpollers, count_eq_zero_of_not_mem hmarked] using hentries
  cases hflag : (s.interests i).inReadyQueue with
  | true =>
    rw [hflag, Bool.toNat_true] at hcount
    refine ⟨⟨fun _ => hcount, fun _ => rfl⟩, s, by simp [step, hi, hflag], .inl ?_⟩
    exact count_pos_iff.1 (by omega)
  | false =>
    rw [hflag, Bool.toNat_false] at hcount
    refine ⟨⟨nofun, fun h1 => by omega⟩, { s.setMark i true with marked := i :: s.marked },
      by simp [step, hi, hflag], .inr ⟨_, if_pos mem_cons_self, ?_⟩⟩
    simp

/-- Two interests are queued; one call pops the first and another call the second. The first call
finds no event, and the file becomes ready while it arms the interest again. -/
def sampleOps : List Op :=
  [.add ⟨3, 0⟩ 1 .level, .add ⟨4, 1⟩ 1 .level, .mark 0, .push 0, .mark 1, .push 1, .pollEvents 8, .pollEvents 8] ++
  List.replicate 5 (.poll 0 ⟨false, false, true⟩) ++ [.setEvents 0 1] ++ List.replicate 3 (.poll 0 ⟨false, false, true⟩)

theorem run_entries_sample :
    ∃ s, Lib.Run step (fun s op => s.noSkip op = true) new s ∧ (s.interests 0).inReadyQueue = true ∧
    s.entries 0 = (s.interests 0).inReadyQueue.toNat := by
  exact (Lib.Run.exists_of_exec (p := fun s => (s.interests 0).isLive = true ∧ (s.interests 0).inReadyQueue = true)
    sampleOps (by decide +kernel)).imp fun s h => ⟨h.1, h.2.2, (run_entries h.1 h.2.1).1⟩

/-- The first call pops the interest again, skips it and returns; so does the second call. The file
is ready, no call or push is under way, the flag is set and nothing is queued, also after a wake. -/
theorem run_skip_loses_entry :
    ∃ s, Lib.Run step (fun _ _ => True) new s ∧ (s.interests 0).isLive = true ∧ s.files 0 = 1 ∧
    s.pollers.length = 0 ∧ s.marked = [] ∧ (s.interests 0).inReadyQueue = true ∧ s.readyQueue = [] ∧
    (s.step (.mark 0)).any (fun s => s.marked = [] ∧ s.readyQueue = []) = true := by
  exact Lib.Run.exists_of_exec (sampleOps ++ replicate 10 (.poll 0 ⟨false, false, true⟩)) (by decide +kernel)

end EpollInner

end XKernel.Epoll
