import XKernel.Ext4.JournalReplay
import XKernel.Lib.Disk
/-!
# What replay leaves on the device

Replay without a plan does what the plan says, in its order. The plan keeps an update
exactly when its block is revoked neither by its own transaction nor by a later one, and
the last write to a block stays. So a block holds the contents from the last transaction
that may speak for it, as long as replay does not write over the log it reads.
-/

namespace XKernel.Ext4

open XKernel.Lib List Function List.Subset

variable {j : InternalJournal} {latest : LatestRevokes} {dev dev' : FilesystemDevice} {scan : JournalLogScan}

/-! ## Replay and its plan -/

theorem replayUpdates_eq_plan (ordinal : Nat) (us : List JournalUpdate) (s : ReplayState) :
    (ReplayState.dev <$> replayUpdates j latest ordinal us s) =
      replayPlan j (us.filter fun u => !latest.suppresses u.target ordinal) s.dev := by
  induction us generalizing s with
  | nil => rfl
  | cons u us ih =>
    unfold replayUpdates
    by_cases hs : latest.suppresses u.target ordinal = true
    · rw [if_pos hs, ih, filter_cons_of_neg (by simp [hs])]
    · rw [if_neg hs, filter_cons_of_pos (by simpa using hs), replayPlan]
      cases hr : readJournalReplayUpdate (j.readJournalBlock s.dev) u with
      | error => rfl
      | ok block =>
        cases hw : s.dev.writeReplayBlock u.target block with
        | error => simp [hw]
        | ok dev => simpa [hw] using ih { s with dev, updateCount := s.updateCount + 1 }

theorem replayPlan_append (us vs : List JournalUpdate) (dev : FilesystemDevice) :
    replayPlan j (us ++ vs) dev = replayPlan j us dev >>= replayPlan j vs := by
  induction us generalizing dev with
  | nil => rfl
  | cons u us ih =>
    rw [cons_append, replayPlan, replayPlan]
    cases readJournalReplayUpdate (j.readJournalBlock dev) u with
    | error => rfl
    | ok block =>
      cases hw : dev.writeReplayBlock u.target block with
      | error => simp [hw]
      | ok => simp [ih]

theorem replayTransactions_eq_plan (ordinal : Nat) (ts : List JournalTransaction) (s : ReplayState) :
    (ReplayState.dev <$> replayTransactions j latest ordinal ts s) =
      replayPlan j (planFrom latest ordinal ts) s.dev := by
  induction ts generalizing ordinal s with
  | nil => rfl
  | cons t ts ih =>
    rw [replayTransactions, planFrom, replayPlan_append, ← replayUpdates_eq_plan]
    cases replayUpdates j latest ordinal t.updates s with
    | error => rfl
    | ok s1 => simpa using ih (ordinal + 1) s1

theorem replayScannedJournal_eq_plan :
    (Prod.snd <$> replayScannedJournal j dev scan) =
      (failIf (dev.blockSize = 0) (.invalidBufferLength 1 0) >>= fun _ =>
        replayPlan j (planJournalReplay scan) dev) := by
  unfold replayScannedJournal
  by_cases hb : dev.blockSize = 0
  · simp [failIf, hb]
  · have h : _ = replayPlan j (planFrom (collectLatestRevokes scan) 0 (committedTransactions scan)) dev :=
      replayTransactions_eq_plan 0 (committedTransactions scan) ⟨dev, 0, 0⟩
    simp only [hb]
    rw [planJournalReplay, ← h]
    cases replayTransactions j (collectLatestRevokes scan) 0 (committedTransactions scan) ⟨dev, 0, 0⟩ with
    | error => rfl
    | ok => rfl

/-! ## A plan that keeps the log -/

/-- No block that the plan writes stores a log block that the plan reads. -/
def KeepsLog (j : InternalJournal) (plan : List JournalUpdate) : Prop :=
  ∀ u ∈ plan, ∀ v ∈ plan, j.mapJournalBlock v.logBlock ≠ .ok u.target

/-- `dev'` has the geometry of `dev`, and holds the same where the plan reads. -/
structure Steady (j : InternalJournal) (plan : List JournalUpdate) (dev dev' : FilesystemDevice) : Prop where
  blockSize_eq : dev'.blockSize = dev.blockSize
  filesystemBlocks_eq : dev'.filesystemBlocks = dev.filesystemBlocks
  log_eq : ∀ v ∈ plan, ∀ q, j.mapJournalBlock v.logBlock = .ok q → dev'.blocks q = dev.blocks q

theorem Steady.refl (plan : List JournalUpdate) (dev : FilesystemDevice) : Steady j plan dev dev :=
  ⟨rfl, rfl, fun _ _ _ _ => rfl⟩

variable {plan us : List JournalUpdate} {u : JournalUpdate}

theorem checkRange_congr (h : dev'.filesystemBlocks = dev.filesystemBlocks) (p : UInt64) :
    dev'.checkRange p = dev.checkRange p := by
  rw [FilesystemDevice.checkRange, FilesystemDevice.checkRange, h]

theorem Steady.read_eq (h : Steady j plan dev dev') (hu : u ∈ plan) :
    readJournalReplayUpdate (j.readJournalBlock dev') u = readJournalReplayUpdate (j.readJournalBlock dev) u := by
  have hread : j.readJournalBlock dev' u.logBlock = j.readJournalBlock dev u.logBlock := by
    unfold InternalJournal.readJournalBlock
    cases hq : j.mapJournalBlock u.logBlock with
    | error => rfl
    | ok q =>
      simp only [ok_bind, FilesystemDevice.readBlock, checkRange_congr h.filesystemBlocks_eq, h.log_eq u hu q hq]
  rw [readJournalReplayUpdate, readJournalReplayUpdate, hread]

variable {block : Bytes}

/-- A successful write changes one block, inside the filesystem. -/
theorem writeReplayBlock_eq_ok {p : UInt64} :
    dev.writeReplayBlock p block = .ok dev' ↔
      ∃ h : block.length = dev.blockSize, dev.checkRange p = .ok () ∧ dev' = dev.put p block h := by
  unfold FilesystemDevice.writeReplayBlock
  by_cases h : block.length = dev.blockSize
  · rw [dif_pos h, bind_eq_ok]
    constructor
    · rintro ⟨_, hr, hd⟩
      exact ⟨h, hr, (Except.ok.inj hd).symm⟩
    · rintro ⟨_, hr, rfl⟩
      exact ⟨(), hr, rfl⟩
  · simp [h]

/-- The contents that the log holds for an update. -/
def contentsOf (j : InternalJournal) (dev : FilesystemDevice) (u : JournalUpdate) : Bytes :=
  (readJournalReplayUpdate (j.readJournalBlock dev) u).toOption.getD []

/-- The block writes of a plan, with the contents of the log before it. -/
def planWrites (j : InternalJournal) (dev : FilesystemDevice) (us : List JournalUpdate) : List (UInt64 × Bytes) :=
  us.map fun u => (u.target, contentsOf j dev u)

/-- The log holds contents for the update, and its block is inside the filesystem. -/
structure CanReplay (j : InternalJournal) (dev : FilesystemDevice) (u : JournalUpdate) : Prop where
  read_ok : readJournalReplayUpdate (j.readJournalBlock dev) u = .ok (contentsOf j dev u)
  length_eq : (contentsOf j dev u).length = dev.blockSize
  range_ok : dev.checkRange u.target = .ok ()

/-- One step of a plan that keeps the log. -/
theorem Steady.put (h : Steady j plan dev dev') (hk : KeepsLog j plan) (hu : u ∈ plan)
    (hb : block.length = dev'.blockSize) : Steady j plan dev (dev'.put u.target block hb) where
  blockSize_eq := h.blockSize_eq
  filesystemBlocks_eq := h.filesystemBlocks_eq
  log_eq v hv q hq := by
    have hne : q ≠ u.target := by
      rintro rfl
      exact hk u hu v hv hq
    rw [← h.log_eq v hv q hq]
    exact update_of_ne hne _ _

/-- A plan that keeps the log succeeds exactly when each of its updates can be replayed, and
then carries out the writes of the plan. -/
theorem replayPlan_eq_ok {dev2 : FilesystemDevice} (hk : KeepsLog j plan) (hs : Steady j plan dev dev')
    (hsub : us ⊆ plan) :
    replayPlan j us dev' = .ok dev2 ↔
      (∀ u ∈ us, CanReplay j dev u) ∧ Steady j plan dev dev2 ∧
        dev2.blocks = applyWrites (planWrites j dev us) dev'.blocks := by
  induction us generalizing dev' with
  | nil =>
    simp only [replayPlan]
    constructor
    · rintro h
      cases h
      exact ⟨nofun, hs, rfl⟩
    · rintro ⟨_, h2, hb⟩
      congr 1
      exact FilesystemDevice.ext (hs.blockSize_eq.trans h2.blockSize_eq.symm)
        (hs.filesystemBlocks_eq.trans h2.filesystemBlocks_eq.symm) hb.symm
  | cons u us ih =>
    have hu : u ∈ plan := hsub mem_cons_self
    have hsub' : us ⊆ plan := fun v hv => hsub (mem_cons_of_mem u hv)
    rw [replayPlan, hs.read_eq hu, bind_eq_ok]
    constructor
    · rintro ⟨block, hread, h⟩
      obtain ⟨d1, hw, h⟩ := bind_eq_ok.1 h
      obtain ⟨hlen, hrange, rfl⟩ := writeReplayBlock_eq_ok.1 hw
      obtain ⟨hall, hst, hb⟩ := (ih (hs.put hk hu hlen) hsub').1 h
      have hcont : contentsOf j dev u = block := by
        rw [contentsOf, hread]
        rfl
      refine ⟨?_, hst, ?_⟩
      · intro v hv
        rcases mem_cons.1 hv with rfl | hv
        · refine ⟨by rw [hcont, hread], by rw [hcont, hlen, hs.blockSize_eq], ?_⟩
          rw [← checkRange_congr hs.filesystemBlocks_eq, hrange]
        · exact hall v hv
      · subst hcont
        exact hb
    · rintro ⟨hall, hst, hb⟩
      have hcan := hall u mem_cons_self
      have hlen : (contentsOf j dev u).length = dev'.blockSize := by rw [hcan.length_eq, hs.blockSize_eq]
      refine ⟨_, hcan.read_ok, bind_eq_ok.2 ⟨dev'.put u.target _ hlen, ?_, ?_⟩⟩
      · rw [writeReplayBlock_eq_ok]
        exact ⟨hlen, by rw [checkRange_congr hs.filesystemBlocks_eq, hcan.range_ok], rfl⟩
      · exact (ih (hs.put hk hu hlen) hsub').2 ⟨fun v hv => hall v (mem_cons_of_mem u hv), hst, hb⟩

/-! ## Revokes -/

variable (ts : List JournalTransaction)

/-- Transaction `k` of the list, or a later one, revokes the block. -/
def RevokedFrom (target : UInt64) (k : Nat) : Prop :=
  ∃ i t, ts[i]? = some t ∧ k ≤ i ∧ target ∈ t.revokedBlocks

theorem insertRevokes_apply (ordinal : Nat) (latest : LatestRevokes) (revoked : List UInt64) (b : UInt64) :
    insertRevokes ordinal latest revoked b = if b ∈ revoked then some ordinal else latest b := by
  induction revoked generalizing latest with
  | nil => simp [insertRevokes]
  | cons c cs ih =>
    have hcons : insertRevokes ordinal latest (c :: cs) =
        insertRevokes ordinal (update latest c (some ordinal)) cs := rfl
    rw [hcons, ih]
    by_cases hb : b ∈ cs
    · simp [hb]
    · by_cases hc : b = c
      · simp [hc]
      · simp [hc]

theorem suppresses_collect (i : Nat) (latest : LatestRevokes)
    (hlatest : ∀ b m, latest b = some m → m < i) (b : UInt64) (k : Nat) :
    (collectLatestRevokesFrom i ts latest).suppresses b k = true ↔
      latest.suppresses b k = true ∨ ∃ n t, ts[n]? = some t ∧ k ≤ i + n ∧ b ∈ t.revokedBlocks := by
  induction ts generalizing i latest with
  | nil => simp [collectLatestRevokesFrom]
  | cons t ts ih =>
    have hlatest' : ∀ b m, insertRevokes i latest t.revokedBlocks b = some m → m < i + 1 := by
      intro b m h
      rw [insertRevokes_apply] at h
      split at h
      · cases h
        omega
      · have := hlatest b m h
        omega
    have hfirst : (insertRevokes i latest t.revokedBlocks).suppresses b k = true ↔
        latest.suppresses b k = true ∨ (k ≤ i ∧ b ∈ t.revokedBlocks) := by
      simp only [LatestRevokes.suppresses, insertRevokes_apply]
      by_cases hb : b ∈ t.revokedBlocks
      · -- an earlier revoke of the block is below this one
        simp only [hb, if_true, Option.any_some, decide_eq_true_eq, and_true, Option.any_eq_true]
        constructor
        · exact .inr
        · rintro (⟨m, hm, hk⟩ | h)
          · have := hlatest b m hm
            omega
          · exact h
      · simp [hb]
    rw [collectLatestRevokesFrom, ih (i + 1) _ hlatest', hfirst, or_assoc]
    apply or_congr_right
    constructor
    · rintro (⟨hk, hb⟩ | ⟨n, t', ht', hk, hb⟩)
      · exact ⟨0, t, rfl, by omega, hb⟩
      · exact ⟨n + 1, t', ht', by omega, hb⟩
    · rintro ⟨n, t', ht', hk, hb⟩
      cases n with
      | zero =>
        obtain rfl : t = t' := by simpa using ht'
        exact .inl ⟨by omega, hb⟩
      | succ n => exact .inr ⟨n, t', ht', by omega, hb⟩

/-! ## The last update of a block -/

/-- Transaction `k` updates block `p`, and neither it nor a later one revokes the block. -/
structure SpeaksFor (ts : List JournalTransaction) (p : UInt64) (k : Nat) (t : JournalTransaction) : Prop where
  mem : ts[k]? = some t
  updates : ∃ u ∈ t.updates, u.target = p
  notRevoked : ¬ RevokedFrom ts p k

/-- The last update of block `p` in a transaction. -/
def lastIn (t : JournalTransaction) (p : UInt64) : Option JournalUpdate :=
  (t.updates.filter fun u => u.target = p).getLast?

variable {t : JournalTransaction}

theorem lastIn_eq_none {p : UInt64} : lastIn t p = none ↔ ¬ ∃ u ∈ t.updates, u.target = p := by
  simp [lastIn]

/-- `u` is the update of block `p` in the last transaction that speaks for it. -/
def IsLastUpdate (p : UInt64) (u : JournalUpdate) : Prop :=
  ∃ k t, SpeaksFor ts p k t ∧ lastIn t p = some u ∧ ∀ k' t', k < k' → ¬ SpeaksFor ts p k' t'

theorem filter_planned (t : JournalTransaction) (p : UInt64) (k : Nat) :
    ((t.updates.filter fun u => !latest.suppresses u.target k).filter fun u => u.target = p) =
      if latest.suppresses p k then [] else t.updates.filter fun u => u.target = p := by
  rw [filter_filter]
  by_cases hs : latest.suppresses p k = true
  · rw [if_pos hs, filter_eq_nil_iff]
    intro u _ h
    simp only [Bool.and_eq_true, decide_eq_true_eq] at h
    rw [h.1, hs] at h
    simp at h
  · rw [if_neg hs]
    apply filter_congr
    intro u _
    by_cases hu : u.target = p
    · simp [hu, hs]
    · simp [hu]

theorem last_planFrom_cons (t : JournalTransaction) (ts : List JournalTransaction) (p : UInt64) (i : Nat) :
    ((planFrom latest i (t :: ts)).filter fun u => u.target = p).getLast? =
      ((planFrom latest (i + 1) ts).filter fun u => u.target = p).getLast?.or
        (if latest.suppresses p i then none else lastIn t p) := by
  rw [planFrom, filter_append, filter_planned, getLast?_append]
  by_cases hs : latest.suppresses p i = true
  · simp [hs]
  · simp [hs, lastIn]

/-- Without a planned update of a block, no transaction that keeps the block updates it. -/
theorem lastIn_of_last_none (p : UInt64) (i : Nat)
    (h : ((planFrom latest i ts).filter fun u => u.target = p).getLast? = none) {k : Nat}
    (ht : ts[k]? = some t) (hs : latest.suppresses p (i + k) = false) : lastIn t p = none := by
  induction ts generalizing i k with
  | nil => simp at ht
  | cons t0 ts ih =>
    rw [last_planFrom_cons, Option.or_eq_none_iff] at h
    cases k with
    | zero =>
      obtain rfl : t0 = t := by simpa using ht
      rw [Nat.add_zero] at hs
      simpa [hs] using h.2
    | succ k => exact ih (i + 1) h.1 (by simpa using ht) (by rwa [Nat.add_assoc, Nat.add_comm 1 k])

/-- The last planned update of a block comes from the last transaction that keeps it. -/
theorem lastIn_of_last_some (p : UInt64) (i : Nat) {u : JournalUpdate}
    (h : ((planFrom latest i ts).filter fun u => u.target = p).getLast? = some u) :
    ∃ k t, ts[k]? = some t ∧ latest.suppresses p (i + k) = false ∧ lastIn t p = some u ∧
      ∀ k' t', k < k' → ts[k']? = some t' → latest.suppresses p (i + k') = false → lastIn t' p = none := by
  induction ts generalizing i with
  | nil => simp [planFrom] at h
  | cons t0 ts ih =>
    rw [last_planFrom_cons, Option.or_eq_some_iff] at h
    rcases h with h | ⟨hnone, h⟩
    · obtain ⟨k, t, ht, hs, hu, hlast⟩ := ih (i + 1) h
      refine ⟨k + 1, t, ht, by rwa [Nat.add_comm k 1, ← Nat.add_assoc], hu, ?_⟩
      intro k' t' hk ht' hs'
      obtain ⟨n, rfl⟩ := Nat.exists_eq_add_of_lt hk
      exact hlast (k + 1 + n) t' (by omega) (by simpa [Nat.add_right_comm] using ht')
        (by rw [show i + 1 + (k + 1 + n) = i + (k + 1 + n + 1) by omega]; exact hs')
    · refine ⟨0, t0, rfl, ?_, ?_, ?_⟩
      · by_contra hs
        simp [show latest.suppresses p i = true by simpa using hs] at h
      · split at h
        · cases h
        · exact h
      · intro k' t' hk ht' hs'
        obtain ⟨n, rfl⟩ := Nat.exists_eq_add_of_lt hk
        exact lastIn_of_last_none ts p (i + 1) hnone (by simpa using ht')
          (by rw [show i + 1 + n = i + (0 + n + 1) by omega]; exact hs')

theorem suppresses_eq_false (scan : JournalLogScan) (p : UInt64) (k : Nat) :
    (collectLatestRevokes scan).suppresses p k = false ↔ ¬ RevokedFrom (committedTransactions scan) p k := by
  rw [← Bool.not_eq_true, collectLatestRevokes, suppresses_collect _ 0 _ (fun _ _ h => by cases h)]
  simp [LatestRevokes.suppresses, RevokedFrom]

/-- What the plan does last to a block. -/
theorem last_planJournalReplay (scan : JournalLogScan) (p : UInt64) :
    (∀ u, ((planJournalReplay scan).filter fun u => u.target = p).getLast? = some u →
      IsLastUpdate (committedTransactions scan) p u) ∧
    (((planJournalReplay scan).filter fun u => u.target = p).getLast? = none →
      ∀ k t, ¬ SpeaksFor (committedTransactions scan) p k t) := by
  constructor
  · intro u h
    obtain ⟨k, t, ht, hs, hu, hlast⟩ := lastIn_of_last_some _ p 0 h
    rw [Nat.zero_add, suppresses_eq_false] at hs
    refine ⟨k, t, ⟨ht, ?_, hs⟩, hu, ?_⟩
    · by_contra hno
      rw [← lastIn_eq_none, hu] at hno
      cases hno
    · intro k' t' hk hsp
      refine lastIn_eq_none.1 (hlast k' t' hk hsp.mem ?_) hsp.updates
      rw [Nat.zero_add, suppresses_eq_false]
      exact hsp.notRevoked
  · intro h k t hsp
    refine lastIn_eq_none.1 (lastIn_of_last_none _ p 0 h hsp.mem ?_) hsp.updates
    rw [Nat.zero_add, suppresses_eq_false]
    exact hsp.notRevoked

/-! ## The result -/

theorem filter_planWrites (us : List JournalUpdate) (p : UInt64) :
    ((planWrites j dev us).filter fun w => w.1 = p) =
      (us.filter fun u => u.target = p).map fun u => (u.target, contentsOf j dev u) := by
  rw [planWrites, filter_map]
  rfl

/-- Replay of a scan ends in `dev'` exactly when its plan does. -/
theorem replayScannedJournal_eq_ok :
    (∃ report, replayScannedJournal j dev scan = .ok (report, dev')) ↔
      dev.blockSize ≠ 0 ∧ replayPlan j (planJournalReplay scan) dev = .ok dev' := by
  rw [ne_eq, ← failIf_bind (f := fun _ => replayPlan j (planJournalReplay scan) dev),
    ← replayScannedJournal_eq_plan, map_eq_ok]
  constructor
  · rintro ⟨report, h⟩
    exact ⟨_, h, rfl⟩
  · rintro ⟨⟨report, d⟩, h, rfl⟩
    exact ⟨report, h⟩

/-- The device after the writes of a plan. -/
def afterPlan (j : InternalJournal) (dev : FilesystemDevice) (plan : List JournalUpdate)
    (h : ∀ u ∈ plan, CanReplay j dev u) : FilesystemDevice where
  blockSize := dev.blockSize
  filesystemBlocks := dev.filesystemBlocks
  blocks := applyWrites (planWrites j dev plan) dev.blocks
  length_blocks p := by
    rw [applyWrites_eq_last, filter_planWrites, List.getLast?_map]
    cases hu : (plan.filter fun u => u.target = p).getLast? with
    | none => exact dev.length_blocks p
    | some u => exact (h u (List.mem_filter.1 (List.mem_of_getLast? hu)).1).length_eq

theorem afterPlan_steady (hk : KeepsLog j plan) (h : ∀ u ∈ plan, CanReplay j dev u) :
    Steady j plan dev (afterPlan j dev plan h) where
  blockSize_eq := rfl
  filesystemBlocks_eq := rfl
  log_eq v hv q hq := by
    apply applyWrites_of_notMem
    intro hmem
    obtain ⟨u, hu, rfl⟩ : ∃ u ∈ plan, u.target = q := by simpa [planWrites] using hmem
    exact hk u hu v hv hq

theorem blocks_of_replay (hk : KeepsLog j (planJournalReplay scan))
    (h : replayPlan j (planJournalReplay scan) dev = .ok dev') (p : UInt64) :
    (∃ u, IsLastUpdate (committedTransactions scan) p u ∧
      readJournalReplayUpdate (j.readJournalBlock dev) u = .ok (dev'.blocks p)) ∨
    (∀ k t, ¬ SpeaksFor (committedTransactions scan) p k t) ∧ dev'.blocks p = dev.blocks p := by
  obtain ⟨hall, _, hb⟩ := (replayPlan_eq_ok hk (Steady.refl _ dev) (refl _)).1 h
  have hp := congrFun hb p
  rw [applyWrites_eq_last, filter_planWrites, getLast?_map] at hp
  cases hu : ((planJournalReplay scan).filter fun u => u.target = p).getLast? with
  | none =>
    rw [hu] at hp
    exact .inr ⟨(last_planJournalReplay scan p).2 hu, hp⟩
  | some u =>
    rw [hu] at hp
    have hmem : u ∈ planJournalReplay scan := (mem_filter.1 (mem_of_getLast? hu)).1
    refine .inl ⟨u, (last_planJournalReplay scan p).1 u hu, ?_⟩
    rw [(hall u hmem).read_ok, hp]
    rfl

/-- A second replay finds every block as the first left it. -/
theorem replay_again (hk : KeepsLog j (planJournalReplay scan))
    (h : replayPlan j (planJournalReplay scan) dev = .ok dev') :
    replayPlan j (planJournalReplay scan) dev' = .ok dev' := by
  obtain ⟨hall, hst, hb⟩ := (replayPlan_eq_ok hk (Steady.refl _ dev) (refl _)).1 h
  rw [replayPlan_eq_ok hk hst (refl _)]
  refine ⟨hall, hst, ?_⟩
  rw [hb, applyWrites_again]

/-- Replay whose writes stay off the log blocks it reads: it succeeds exactly when every
update that is not revoked can be read and its block exists. Each block then holds the
contents from the last committed transaction that speaks for it, or its old contents where
there is none, and a second replay changes nothing. -/
theorem replayScannedJournal_last_wins (j : InternalJournal) (dev : FilesystemDevice) (scan : JournalLogScan)
    (hk : KeepsLog j (planJournalReplay scan)) :
    ((∃ result, replayScannedJournal j dev scan = .ok result) ↔
      dev.blockSize ≠ 0 ∧ ∀ u ∈ planJournalReplay scan, CanReplay j dev u) ∧
    ∀ report dev', replayScannedJournal j dev scan = .ok (report, dev') →
      (∀ p, (∃ u, IsLastUpdate (committedTransactions scan) p u ∧
          readJournalReplayUpdate (j.readJournalBlock dev) u = .ok (dev'.blocks p)) ∨
        (∀ k t, ¬ SpeaksFor (committedTransactions scan) p k t) ∧ dev'.blocks p = dev.blocks p) ∧
      ∃ report', replayScannedJournal j dev' scan = .ok (report', dev') := by
  constructor
  · constructor
    · rintro ⟨⟨report, dev'⟩, h⟩
      obtain ⟨hb, hplan⟩ := replayScannedJournal_eq_ok.1 ⟨report, h⟩
      exact ⟨hb, ((replayPlan_eq_ok hk (Steady.refl _ dev) (refl _)).1 hplan).1⟩
    · rintro ⟨hb, hall⟩
      have hplan := (replayPlan_eq_ok hk (Steady.refl _ dev) (refl _)).2 ⟨hall, afterPlan_steady hk hall, rfl⟩
      obtain ⟨report, h⟩ := replayScannedJournal_eq_ok.2 ⟨hb, hplan⟩
      exact ⟨_, h⟩
  · intro report dev' h
    obtain ⟨hb, hplan⟩ := replayScannedJournal_eq_ok.1 ⟨report, h⟩
    refine ⟨blocks_of_replay hk hplan, replayScannedJournal_eq_ok.2 ⟨?_, replay_again hk hplan⟩⟩
    have hst := ((replayPlan_eq_ok hk (Steady.refl _ dev) (refl _)).1 hplan).2.1
    rw [hst.blockSize_eq]
    exact hb

/-- A journal of four blocks at block 10 of the device, whose blocks hold their number. -/
def sampleJournal : InternalJournal := ⟨[⟨0, 10, 4⟩], 4⟩

def sampleDevice : FilesystemDevice := ⟨1, 64, fun p => [p.toUInt8], fun _ => rfl⟩

/-- One committed transaction, with log blocks 2 and 3 for its two targets. -/
def sampleScan (first second : UInt64) : JournalLogScan :=
  ⟨[⟨1, 1, 1, [⟨first, 2, false⟩, ⟨second, 3, false⟩], [], .committed⟩], 1, 2⟩

/-- The second transaction revokes one of the blocks that the first one updates, and updates the other. -/
def sampleRevoked : JournalLogScan :=
  ⟨[⟨1, 1, 1, [⟨30, 2, false⟩, ⟨31, 2, false⟩], [], .committed⟩, ⟨2, 1, 1, [⟨30, 3, false⟩], [31], .committed⟩], 1, 3⟩

theorem replayScannedJournal_last_wins_sample :
    ∃ report dev', replayScannedJournal sampleJournal sampleDevice sampleRevoked = .ok (report, dev') ∧
      dev'.blocks 30 = [13] ∧ dev'.blocks 31 = [31] ∧
      ∃ report', replayScannedJournal sampleJournal dev' sampleRevoked = .ok (report', dev') := by
  have hplan : planJournalReplay sampleRevoked = [⟨30, 2, false⟩, ⟨30, 3, false⟩] := rfl
  have hk : KeepsLog sampleJournal (planJournalReplay sampleRevoked) := by
    rw [hplan, KeepsLog]
    decide
  have h := (replayScannedJournal_last_wins sampleJournal sampleDevice sampleRevoked hk).2
  refine ⟨_, _, rfl, rfl, rfl, (h _ _ rfl).2⟩

/-- When the first update of a transaction is for the block of the device that stores log
block 3, the update behind it is replayed with the contents of log block 2. -/
theorem replayScannedJournal_reads_overwritten_log :
    ¬ ∀ (j : InternalJournal) (dev : FilesystemDevice) (scan : JournalLogScan) report dev',
      replayScannedJournal j dev scan = .ok (report, dev') →
        ∀ p u, IsLastUpdate (committedTransactions scan) p u →
          readJournalReplayUpdate (j.readJournalBlock dev) u = .ok (dev'.blocks p) := by
  intro h
  have hlast : IsLastUpdate (committedTransactions (sampleScan 13 20)) 20 ⟨20, 3, false⟩ := by
    refine ⟨0, _, ⟨rfl, ⟨_, .tail _ (.head _), rfl⟩, ?_⟩, rfl, ?_⟩
    · rintro ⟨i, t, ht, -, hr⟩
      cases i with
      | zero =>
        cases ht
        cases hr
      | succ => cases ht
    · intro k t hk hsp
      cases k with
      | zero => omega
      | succ => cases hsp.mem
  exact absurd (h sampleJournal sampleDevice (sampleScan 13 20) _ _ rfl 20 _ hlast) (by decide)

end XKernel.Ext4
