import XKernel.Mm.VmaUnmap
/-!
# Area sets refine partial maps

`protect` cuts every area into the pieces before, in and behind the range and sets the
flags of the one in the range. With `unmap`, `try_insert`, `extend` and the merging of
neighbours this covers every way the set changes.
-/

namespace XKernel.Vma

open XKernel.Lib List BTreeMap VmArea

/-! ## Protect -/

/-- The pieces of an area, those in the range with new flags. -/
def VmArea.protectPieces (lo hi : Nat) (flags : MappingFlags) (a : VmArea) : List VmArea :=
  a.below lo ++ (a.within lo hi).map (·.setFlags flags) ++ a.above hi

namespace VmAreaSet

variable {s : VmAreaSet} {lo hi start size : Nat} {flags : MappingFlags}

/-- What happens to the attributes of one address. -/
def protectAttr (start size : Nat) (flags : MappingFlags) (addr : Nat) (t : Attr) : Attr :=
  if start ≤ addr ∧ addr < start + size then { t with perm := flags } else t

theorem mem_protectPieces {a q : VmArea} (h : a.Ok) (hs : pageSize4K ∣ start) (hz : pageSize4K ∣ size)
    (hq : q ∈ a.protectPieces start (start + size) flags) :
    ∃ c, PieceOf a q c ∧ ∀ addr, q.start ≤ addr → addr < q.stop → c = protectAttr start size flags addr := by
  have hhi := Nat.dvd_add hs hz
  unfold protectPieces at hq
  simp only [mem_append, mem_map] at hq
  rcases hq with (hq | ⟨p, hp, rfl⟩) | hq
  · obtain ⟨hpc, -, hstop⟩ := h.below hs hq
    exact ⟨id, hpc, fun addr _ _ => funext fun t => (if_neg (by omega)).symm⟩
  · obtain ⟨hpc, hstart, hstop⟩ := h.within hs hhi hp
    refine ⟨fun t => { t with perm := flags },
      ⟨hpc.lo, hpc.nonempty, hpc.hi, hpc.aligned, fun addr h1 h2 => ?_⟩, fun addr h1 h2 => funext fun t => ?_⟩
    · exact congrArg (fun x => { x with perm := flags }) (hpc.attr addr h1 h2)
    · change p.start ≤ addr at h1
      change addr < p.stop at h2
      exact (if_pos (by omega)).symm
  · obtain ⟨hpc, hstart, -⟩ := h.above hhi hq
    exact ⟨id, hpc, fun addr _ _ => funext fun t => (if_neg (by omega)).symm⟩

variable {a : VmArea}

/-- The pieces come in the order of their addresses. -/
theorem protectPieces_sorted (h : a.Ok) (hs : pageSize4K ∣ start) (hz : pageSize4K ∣ size) (flags : MappingFlags) :
    (a.protectPieces start (start + size) flags).Pairwise fun q q' => q.stop ≤ q'.start := by
  have hhi := Nat.dvd_add hs hz
  unfold protectPieces
  rw [pairwise_append, pairwise_append]
  refine ⟨⟨?_, ?_, fun q hq q' hq' => ?_⟩, ?_, fun q hq q' hq' => ?_⟩
  · unfold below
    split <;> simp
  · unfold within
    split <;> simp
  · obtain ⟨p, hp, rfl⟩ := mem_map.1 hq'
    obtain ⟨-, -, h1⟩ := h.below hs hq
    obtain ⟨-, h2, -⟩ := h.within hs hhi hp
    show q.stop ≤ p.start
    omega
  · unfold above
    split <;> simp
  · obtain ⟨-, h2, -⟩ := h.above hhi hq'
    rcases mem_append.1 hq with hq | hq
    · obtain ⟨-, -, h1⟩ := h.below hs hq
      omega
    · obtain ⟨p, hp, rfl⟩ := mem_map.1 hq
      obtain ⟨-, -, h1⟩ := h.within hs hhi hp
      show p.stop ≤ q'.start
      omega

/-- An area is left with its first piece in place, and the others are to be inserted. -/
theorem protectArea_spec (h : a.Ok) (start : Nat) (hsize : size ≠ 0) (flags : MappingFlags) :
    ∃ a' ins, protectArea start size flags a.start a = some (a', ins.map fun q => (q.start, q)) ∧ a'.start = a.start ∧
      (a' :: ins).Perm (a.protectPieces start (start + size) flags) := by
  have hne := h.nonempty
  have hlt : start < start + size := by omega
  unfold protectArea protectPieces
  by_cases hafter : start + size ≤ a.start
  · have hb : a.below start = [] := if_neg (by omega)
    have hw : a.within start (start + size) = [] := if_neg (by omega)
    have ha := above_all hne hafter
    refine ⟨a, [], by rw [if_pos hafter]; rfl, rfl, ?_⟩
    rw [hb, hw, ha]
    exact .refl _
  by_cases hbefore : a.stop ≤ start
  · have hb := below_all hne hbefore
    have hw : a.within start (start + size) = [] := if_neg (by omega)
    have ha : a.above (start + size) = [] := if_neg (by omega)
    refine ⟨a, [], by rw [if_neg hafter, if_pos hbefore]; rfl, rfl, ?_⟩
    rw [hb, hw, ha]
    exact .refl _
  by_cases hin : start ≤ a.start ∧ a.stop ≤ start + size
  · have hb : a.below start = [] := if_neg (by omega)
    have hw : a.within start (start + size) = [a] := by
      unfold within
      rw [if_pos (by omega), max_eq_left hin.1, min_eq_left hin.2, dropTo_start]
      rfl
    have ha : a.above (start + size) = [] := if_neg (by omega)
    refine ⟨a.setFlags flags, [], by rw [if_neg hafter, if_neg hbefore, if_pos hin]; rfl, rfl, ?_⟩
    rw [hb, hw, ha]
    exact .refl _
  by_cases haround : a.start < start ∧ start + size < a.stop
  · have hsplit := split_eq (show a.start < start + size by omega) haround.2
    have hb := below_cut haround.1 (by omega)
    have hw : a.within start (start + size) = [(a.dropTo start).setEnd (start + size)] := by
      unfold within
      rw [max_eq_right (by omega), min_eq_right (by omega), if_pos hlt]
    have ha := above_cut haround.2 (by omega)
    refine ⟨a.setEnd start, [a.dropTo (start + size), ((a.dropTo start).setEnd (start + size)).setFlags flags],
      ?_, rfl, ?_⟩
    · rw [if_neg hafter, if_neg hbefore, if_neg hin, if_pos haround, hsplit]
      rfl
    · rw [hb, hw, ha]
      exact .cons _ (.swap _ _ _)
  by_cases hright : start + size < a.stop
  · have hsplit := split_eq (show a.start < start + size by omega) hright
    have hb : a.below start = [] := if_neg (by omega)
    have hw : a.within start (start + size) = [a.setEnd (start + size)] := by
      unfold within
      rw [max_eq_left (by omega), min_eq_right (by omega), if_pos (by omega), dropTo_start]
    have ha := above_cut hright (by omega)
    refine ⟨(a.setEnd (start + size)).setFlags flags, [a.dropTo (start + size)], ?_, rfl, ?_⟩
    · rw [if_neg hafter, if_neg hbefore, if_neg hin, if_neg haround, if_pos hright, hsplit]
      rfl
    · rw [hb, hw, ha]
      exact .refl _
  · have hsplit := split_eq (show a.start < start by omega) (show start < a.stop by omega)
    have hb : a.below start = [a.setEnd start] := below_cut (by omega) (by omega)
    have hw : a.within start (start + size) = [a.dropTo start] := by
      unfold within
      rw [max_eq_right (by omega), min_eq_left (by omega), if_pos (by omega)]
      rfl
    have ha : a.above (start + size) = [] := if_neg hright
    refine ⟨a.setEnd start, [(a.dropTo start).setFlags flags], ?_, rfl, ?_⟩
    · rw [if_neg hafter, if_neg hbefore, if_neg hin, if_neg haround, if_neg hright, hsplit]
      rfl
    · rw [hb, hw, ha]
      exact .refl _

/-- What `protectArea` leaves of an entry of the set, and what it has inserted. -/
structure Protects (start size : Nat) (flags : MappingFlags) (e : Nat × VmArea) (left : VmArea)
    (ins : List (Nat × VmArea)) : Prop where
  result : protectArea start size flags e.1 e.2 = some (left, ins)
  key : left.start = e.1
  inside : ∀ i ∈ ins, i.2.start = i.1 ∧ e.1 < i.1 ∧ i.1 < e.2.stop
  distinct : ins.Pairwise fun i i' => i.1 ≠ i'.1
  pieces : ∀ q, q ∈ e.2.protectPieces start (start + size) flags ↔ q = left ∨ (q.start, q) ∈ ins

theorem Wf.protects (h : s.Wf) (hsize : size ≠ 0) (hs : pageSize4K ∣ start) (hz : pageSize4K ∣ size)
    {e : Nat × VmArea} (he : e ∈ s.areas) : ∃ left ins, Protects start size flags e left ins := by
  have hok := h.ok (h.has he)
  have hk := h.keyed e he
  obtain ⟨left, ins, hres, hleft, hperm⟩ := protectArea_spec hok start hsize flags
  have hpiece : ∀ q ∈ left :: ins, ∃ c, PieceOf e.2 q c := by
    intro q hq
    obtain ⟨c, hp, -⟩ := mem_protectPieces hok hs hz (hperm.mem_iff.1 hq)
    exact ⟨c, hp⟩
  have hdist : (left :: ins).Pairwise fun q q' => q.start ≠ q'.start := by
    have hsorted := protectPieces_sorted hok hs hz flags
    refine (hperm.pairwise_iff fun hne => hne.symm).2 (hsorted.imp_of_mem fun {q q'} hq _ hle => ?_)
    obtain ⟨c, hp⟩ := hpiece q (hperm.mem_iff.2 hq)
    have := hp.nonempty
    omega
  rw [pairwise_cons] at hdist
  rw [hk] at hres hleft
  refine ⟨left, ins.map fun q => (q.start, q), hres, hleft, fun i hi => ?_, ?_, fun q => ?_⟩
  · obtain ⟨q, hq, rfl⟩ := mem_map.1 hi
    obtain ⟨c, hp⟩ := hpiece q (mem_cons_of_mem _ hq)
    have hne := hdist.1 q hq
    have hlo := hp.lo
    have hhi := hp.hi
    have hqn := hp.nonempty
    refine ⟨rfl, ?_, ?_⟩
    · show e.1 < q.start
      omega
    · show q.start < e.2.stop
      omega
  · exact pairwise_map.2 hdist.2
  · rw [← hperm.mem_iff, mem_cons, mem_map]
    simp

theorem mapM_eq_map {α β : Type} {f : α → Option β} {g : α → β} {l : List α} (h : ∀ e ∈ l, f e = some (g e)) :
    l.mapM f = some (l.map g) := by
  induction l with
  | nil => rfl
  | cons e l ih =>
    rw [mapM_cons, h e mem_cons_self, ih fun b hb => h b (mem_cons_of_mem _ hb)]
    rfl

section

variable (h : s.Wf)
include h

/-- `protect` never fails an `unwrap`, and cuts every area at the bounds of the range. -/
theorem protect_cut (hsize : size ≠ 0) (hs : pageSize4K ∣ start) (hz : pageSize4K ∣ size)
    (flags : MappingFlags) :
    ∃ t, s.protect start size flags = some t ∧ CutBy s t fun a => a.protectPieces start (start + size) flags := by
  let change : Nat × VmArea → VmArea × List (Nat × VmArea) :=
    fun e => (protectArea start size flags e.1 e.2).getD (e.2, [])
  have hch : ∀ e ∈ s.areas, protectArea start size flags e.1 e.2 = some (change e) ∧
      Protects start size flags e (change e).1 (change e).2 := by
    intro e he
    obtain ⟨left, ins, hp⟩ : ∃ left ins, Protects start size flags e left ins := h.protects hsize hs hz he
    have hc : change e = (left, ins) := by
      show (protectArea start size flags e.1 e.2).getD (e.2, []) = _
      rw [hp.result, Option.getD_some]
    rw [hc]
    exact ⟨hp.result, hp⟩
  have hmap := mapM_eq_map fun e he => (hch e he).1
  simp only [protect, if_neg hsize, hmap, Option.bind_eq_bind, Option.bind_some, Option.some.injEq,
    exists_eq_left', flatMap_map]
  generalize hm : s.areas.mapValues _ = inPlace
  have hplace : ∀ e, e ∈ inPlace ↔ ∃ v, (e.1, v) ∈ s.areas ∧ (change (e.1, v)).1 = e.2 := by
    intro e
    rw [← hm, mem_mapValues]
    refine exists_congr fun v => and_congr_right fun hv => ?_
    rw [(hch _ hv).1, Option.map_some, Option.getD_some]
  have hins : ∀ i, i ∈ s.areas.entries.flatMap (fun e => (change e).2) ↔ ∃ e ∈ s.areas, i ∈ (change e).2 :=
    fun i => mem_flatMap
  have hnew : ∀ i ∈ s.areas.entries.flatMap (fun e => (change e).2), ∀ b ∈ inPlace, b.1 ≠ i.1 := by
    intro i hi b hb
    obtain ⟨e, he, hie⟩ := (hins i).1 hi
    obtain ⟨v, hv, -⟩ := (hplace b).1 hb
    obtain ⟨-, h1, h2⟩ := (hch e he).2.inside i hie
    rw [← h.keyed e he] at h1
    have hne := h.not_start (h.has he) h1 h2 hv
    exact hne
  have hdist : (s.areas.entries.flatMap fun e => (change e).2).Pairwise fun i i' => i.1 ≠ i'.1 := by
    rw [pairwise_flatMap]
    refine ⟨fun e he => (hch e he).2.distinct, s.areas.sorted.imp_of_mem fun {e e'} he he' hlt i hi i' hi' => ?_⟩
    obtain ⟨-, h1, h2⟩ := (hch e he).2.inside i hi
    obtain ⟨-, h3, -⟩ := (hch e' he').2.inside i' hi'
    -- the areas are disjoint, and so are the keys inserted for them
    have := h.stop_le he he' hlt
    omega
  intro e
  rw [mem_insertAll hnew hdist, hins, hplace]
  constructor
  · rintro (⟨b, hb, hi⟩ | ⟨v, hv, hl⟩)
    · have hi' := ((hch b hb).2.inside e hi).1
      refine ⟨b.2, h.has hb, ((hch b hb).2.pieces _).2 (.inr ?_), hi'.symm⟩
      rw [hi']
      exact hi
    · have hp := (hch _ hv).2
      refine ⟨v, h.has hv, (hp.pieces _).2 (.inl hl.symm), ?_⟩
      rw [← hl]
      exact hp.key.symm
  · rintro ⟨a, ha, hq, hk⟩
    rcases ((hch _ ha).2.pieces _).1 hq with hl | hi
    · have hkey := (hch _ ha).2.key
      rw [← hl, ← hk] at hkey
      refine .inr ⟨a, ?_, ?_⟩
      · rw [hkey]
        exact ha
      · rw [hkey]
        exact hl.symm
    · rw [← hk] at hi
      exact .inl ⟨_, ha, hi⟩

theorem Wf.of_protect_cut {t : VmAreaSet} (hs : pageSize4K ∣ start) (hz : pageSize4K ∣ size)
    (hc : CutBy s t fun a => a.protectPieces start (start + size) flags) : t.Wf := by
  refine h.cut hc (fun a hok q hq => ?_) (fun a hok q hq q' hq' => ?_)
  · obtain ⟨c, hp, -⟩ := mem_protectPieces hok hs hz hq
    exact ⟨c, hp⟩
  · have hsorted := protectPieces_sorted hok hs hz flags
    have hdis : (a.protectPieces start (start + size) flags).Pairwise
        fun q q' => q = q' ∨ q.stop ≤ q'.start ∨ q'.stop ≤ q.start := hsorted.imp fun hle => .inr (.inl hle)
    exact hdis.forall_of_forall_of_flip (fun _ _ => .inl rfl) (hsorted.imp fun hle => .inr (.inr hle)) hq hq'

theorem Wf.protect_view (hs : pageSize4K ∣ start) (hz : pageSize4K ∣ size) (flags : MappingFlags) :
    ∃ t, s.protect start size flags = some t ∧ t.Wf ∧
      ∀ addr, t.view addr = (s.view addr).map (protectAttr start size flags addr) := by
  by_cases hsize : size = 0
  · have hid : ∀ addr, protectAttr start size flags addr = id := by
      intro addr
      funext t
      exact if_neg (by omega)
    refine ⟨s, by rw [protect, if_pos hsize], h, fun addr => ?_⟩
    rw [hid, Option.map_id]
    rfl
  obtain ⟨t, ht, hc⟩ := protect_cut h hsize hs hz flags
  have hw := h.of_protect_cut hs hz hc
  refine ⟨t, ht, hw, fun addr => ?_⟩
  have hv := h.view_cut hw hc addr (protectAttr start size flags addr) True
    (fun a hok q hq h1 h2 => by
      obtain ⟨c, hp, hattr⟩ := mem_protectPieces hok hs hz hq
      refine ⟨trivial, ⟨hp.lo.trans h1, h2.trans_le hp.hi⟩, ?_⟩
      rw [hp.attr addr h1 h2, hattr addr h1 h2])
    (fun a hok hax _ => by
      by_cases hbelow : addr < start
      · obtain ⟨q, hq, hqx⟩ := exists_below hax hbelow
        exact ⟨q, mem_append_left _ (mem_append_left _ hq), hqx⟩
      by_cases habove : start + size ≤ addr
      · obtain ⟨q, hq, hqx⟩ := exists_above hax habove
        exact ⟨q, mem_append_right _ hq, hqx⟩
      · have hin : start ≤ addr ∧ addr < start + size := by omega
        obtain ⟨q, hq, hqx⟩ := exists_within hax hin
        exact ⟨q.setFlags flags, mem_append_left _ (mem_append_right _ (mem_map_of_mem hq)), hqx⟩)
  rw [hv, if_pos trivial]

/-! ## Insertion -/

theorem Wf.overlaps_iff :
    s.overlaps lo hi = true ↔ ∃ a, s.Has a ∧ a.start < hi ∧ lo < a.stop := by
  unfold overlaps
  rw [Bool.or_eq_true]
  constructor
  · rintro (hc | hc)
    · split at hc
      · rename_i k a hl
        obtain ⟨ha, hk, -⟩ := lastBelow_some hl
        rw [← h.keyed _ ha] at hk
        exact ⟨a, h.has ha, hk, by simpa using hc⟩
      · cases hc
    · split at hc
      · rename_i k a hl
        obtain ⟨ha, hk, -⟩ := firstFrom_some hl
        rw [← h.keyed _ ha] at hk
        have hne := h.nonempty _ ha
        simp only at hk hne
        exact ⟨a, h.has ha, by simpa using hc, by omega⟩
      · cases hc
  · rintro ⟨a, ha, h1, h2⟩
    -- the last area that starts below `hi` ends no earlier than `a`
    refine .inl ?_
    cases hl : s.areas.lastBelow hi with
    | none =>
      have := lastBelow_none hl _ ha
      omega
    | some e =>
      obtain ⟨he, -, hmax⟩ := lastBelow_some hl
      have hle := hmax _ ha h1
      have hk := h.keyed e he
      have hne := h.nonempty e he
      simp only [decide_eq_true_eq]
      rcases h.disjoint _ ha _ he with heq | heq | heq
      · rw [← heq]
        exact h2
      all_goals simp only at heq hle; omega

theorem Wf.overlaps_view (hlt : lo < hi) :
    s.overlaps lo hi = true ↔ ∃ addr, lo ≤ addr ∧ addr < hi ∧ s.view addr ≠ none := by
  rw [h.overlaps_iff]
  constructor
  · rintro ⟨a, ha, h1, h2⟩
    have hne := h.nonempty _ ha
    simp only at hne
    refine ⟨max lo a.start, by omega, by omega, fun hn => ?_⟩
    exact h.view_eq_none.1 hn a ha (by omega)
  · rintro ⟨addr, h1, h2, hv⟩
    obtain ⟨t, ht⟩ := Option.ne_none_iff_exists'.1 hv
    obtain ⟨a, ha, hax, -⟩ := h.view_eq_some.1 ht
    exact ⟨a, ha, by omega, by omega⟩

/-- One area is put in, and the others that stay do not meet it. -/
theorem Wf.put {t : VmAreaSet} (hok : a.Ok)
    (ht : ∀ e ∈ t.areas, e = (a.start, a) ∨ e ∈ s.areas ∧ (a.stop ≤ e.2.start ∨ e.2.stop ≤ a.start)) : t.Wf := by
  refine ⟨fun e he => ?_, fun e he => ?_, fun e he => ?_, fun e he e' he' => ?_⟩
  · rcases ht e he with rfl | ⟨he, -⟩
    · rfl
    · exact h.keyed e he
  · rcases ht e he with rfl | ⟨he, -⟩
    · exact hok.nonempty
    · exact h.nonempty e he
  · rcases ht e he with rfl | ⟨he, -⟩
    · exact ⟨hok.start, hok.stop⟩
    · exact h.aligned e he
  · rcases ht e he with rfl | ⟨he, hd⟩ <;> rcases ht e' he' with rfl | ⟨he', hd'⟩
    · exact .inl rfl
    · exact .inr hd'
    · exact .inr hd.symm
    · exact h.disjoint e he e' he'

theorem Wf.insert (hok : a.Ok) (hd : ∀ b, s.Has b → a.stop ≤ b.start ∨ b.stop ≤ a.start) :
    VmAreaSet.Wf ⟨s.areas.insert a.start a⟩ :=
  h.put hok fun _ he => (mem_insert.1 he).imp_right fun he => ⟨he.1, hd _ (h.has he.1)⟩

theorem Wf.tryInsert (hok : a.Ok) : (s.tryInsert a).2.Wf := by
  unfold VmAreaSet.tryInsert
  by_cases ho : s.overlaps a.start a.stop = true
  · rw [if_pos ho]
    exact h
  · rw [if_neg ho]
    refine h.insert hok fun b hb => ?_
    by_contra hc
    exact ho (h.overlaps_iff.2 ⟨b, hb, by omega, by omega⟩)

/-! ## Extension and merging -/

/-- An area may end later as long as it meets no other one. -/
theorem Wf.stretch (ha : s.Has a) {stop : Nat} (hlt : a.start < stop) (hs : pageSize4K ∣ stop)
    (hd : ∀ b, s.Has b → b.start ≠ a.start → stop ≤ b.start ∨ b.stop ≤ a.start) :
    VmAreaSet.Wf ⟨s.areas.modify a.start (·.setEnd stop)⟩ := by
  refine h.put (a := a.setEnd stop) ⟨hlt, (h.ok ha).start, hs⟩ fun e he => ((mem_modify ha).1 he).imp_right ?_
  rintro ⟨he, hne⟩
  exact ⟨he, hd e.2 (h.has he) (by rw [h.keyed e he]; exact hne)⟩

/-- After the check of the caller, `extend` succeeds. -/
theorem Wf.extend (ha : s.Has a) {additional : Nat} (hz : pageSize4K ∣ additional)
    (hend : a.stop + additional < 2 ^ 64) (ho : s.overlaps a.stop (a.stop + additional) = false) :
    ∃ t, s.extend a.start additional = some t ∧ t.Wf := by
  unfold VmAreaSet.extend
  by_cases h0 : additional = 0
  · rw [if_pos h0]
    exact ⟨s, rfl, h⟩
  have hal : isAligned4k additional = true := by
    unfold isAligned4k
    rw [Nat.mod_eq_zero_of_dvd hz]
    rfl
  have hget : s.areas.get? a.start = some a := get?_eq_some.2 ha
  rw [if_neg h0, hget]
  simp only [Option.bind_eq_bind, Option.bind_some, hal,
    Nat.mod_eq_of_lt hend]
  have hne := (h.ok ha).nonempty
  refine ⟨_, rfl, h.stretch ha (by omega) (Nat.dvd_add (h.ok ha).stop hz) fun b hb hab => ?_⟩
  rcases lt_or_gt_of_ne hab with hlt | hlt
  · exact .inr (h.stop_le hb ha hlt)
  · refine .inl (not_lt.1 fun hc => ?_)
    have := h.overlaps_iff.2 ⟨b, hb, hc, lt_of_le_of_lt (h.stop_le ha hb hlt) (h.ok hb).nonempty⟩
    rw [ho] at this
    cases this

/-- An area takes over the one that starts at its end. -/
theorem Wf.join {a b : VmArea} (ha : s.Has a) (hb : s.Has b) (hab : a.stop = b.start) :
    VmAreaSet.Wf ⟨(s.areas.remove b.start).modify a.start (·.setEnd b.stop)⟩ := by
  have han := (h.ok ha).nonempty
  have hbn := (h.ok hb).nonempty
  have ha' : VmAreaSet.Has ⟨s.areas.remove b.start⟩ a := mem_remove.2 ⟨ha, by simp only; omega⟩
  refine (h.mono fun _ he => (mem_remove.1 he).1).stretch ha' (by omega) (h.ok hb).stop fun c hc hca => ?_
  obtain ⟨hc, hcb⟩ := mem_remove.1 hc
  rcases lt_or_gt_of_ne hca with hlt | hlt
  · exact .inr (h.stop_le hc ha hlt)
  · have hle : b.start ≤ c.start := hab ▸ h.stop_le ha hc hlt
    exact .inl (h.stop_le hb hc (lt_of_le_of_ne hle hcb.symm))

theorem Wf.mergeLeft (ha : s.Has a) (canMerge : VmArea → VmArea → Bool) :
    (s.mergeLeft a.start a canMerge).2.Wf := by
  unfold VmAreaSet.mergeLeft
  split
  · rename_i k left hl
    obtain ⟨hleft, -, -⟩ := lastBelow_some hl
    obtain rfl : left.start = k := h.keyed _ hleft
    split
    · rename_i hc
      simp only [Bool.and_eq_true, beq_iff_eq] at hc
      exact h.join hleft ha hc.1
    · exact h
  · exact h

theorem Wf.mergeRight (ha : s.Has a) (canMerge : VmArea → VmArea → Bool) :
    (s.mergeRight a.start a canMerge).Wf := by
  unfold VmAreaSet.mergeRight
  split
  · rename_i k right hl
    obtain ⟨hright, -, -⟩ := firstFrom_some hl
    obtain rfl : right.start = k := h.keyed _ hright
    split
    · rename_i hc
      simp only [Bool.and_eq_true, beq_iff_eq] at hc
      exact h.join ha hright hc.1.symm
    · exact h
  · exact h

/-- Merging keeps a set well formed, whatever the predicate accepts. -/
theorem Wf.mergeAdjacentWhere (start : Nat) (canMerge : VmArea → VmArea → Bool) :
    (s.mergeAdjacentWhere start canMerge).2.Wf := by
  unfold VmAreaSet.mergeAdjacentWhere
  cases hg : s.areas.get? start with
  | none => exact h
  | some a =>
    have ha := get?_eq_some.1 hg
    obtain rfl : a.start = start := h.keyed _ ha
    have hw := h.mergeLeft ha canMerge
    simp only
    generalize s.mergeLeft a.start a canMerge = r at hw
    obtain ⟨k, t⟩ := r
    cases hg' : t.areas.get? k with
    | none =>
      exact hw
    | some b =>
      have hb := get?_eq_some.1 hg'
      obtain rfl : b.start = k := hw.keyed _ hb
      exact hw.mergeRight hb canMerge

/-! ## The refinement -/

theorem Wf.tryInsert_error (hok : a.Ok) :
    s.tryInsert a = (.error .alreadyExists, s) ↔ ∃ addr, a.start ≤ addr ∧ addr < a.stop ∧ s.view addr ≠ none := by
  rw [← h.overlaps_view hok.nonempty]
  unfold VmAreaSet.tryInsert
  by_cases ho : s.overlaps a.start a.stop = true
  · simp
  · rw [if_neg ho]
    constructor
    · intro heq
      cases (Prod.mk.inj heq).1
    · intro ho'
      exact absurd ho' ho

theorem Wf.tryInsert_ok (hok : a.Ok)
    (hfree : ∀ addr, a.start ≤ addr → addr < a.stop → s.view addr = none) :
    (s.tryInsert a).1 = .ok () ∧ ∀ addr, (s.tryInsert a).2.view addr =
      if a.start ≤ addr ∧ addr < a.stop then some (a.attrAt addr) else s.view addr := by
  have hno : ¬ s.overlaps a.start a.stop = true := fun ho => by
    obtain ⟨addr, h1, h2, hv⟩ := (h.overlaps_view hok.nonempty).1 ho
    exact hv (hfree addr h1 h2)
  have heq : s.tryInsert a = (.ok (), ⟨s.areas.insert a.start a⟩) := if_neg hno
  have hw := h.tryInsert hok
  rw [heq] at hw ⊢
  refine ⟨rfl, fun addr => Option.ext fun x => ?_⟩
  have hhas : ∀ b, VmAreaSet.Has ⟨s.areas.insert a.start a⟩ b ↔ b = a ∨ s.Has b := by
    intro b
    unfold Has
    simp only [mem_insert, Prod.mk.injEq]
    constructor
    · rintro (⟨-, hb⟩ | hb)
      · exact .inl hb
      · exact .inr hb.1
    · rintro (rfl | hb)
      · exact .inl ⟨rfl, rfl⟩
      · -- an area at the same start would overlap
        refine .inr ⟨hb, fun hst => hno (h.overlaps_iff.2 ⟨b, hb, ?_, ?_⟩)⟩
        · rw [hst]
          exact hok.nonempty
        · rw [← hst]
          exact (h.ok hb).nonempty
  rw [hw.view_eq_some]
  by_cases hin : a.start ≤ addr ∧ addr < a.stop
  · rw [if_pos hin, Option.some.injEq]
    constructor
    · rintro ⟨b, hb, hbx, rfl⟩
      rw [hw.unique hb ((hhas a).2 (.inl rfl)) hbx hin]
    · rintro rfl
      exact ⟨a, (hhas a).2 (.inl rfl), hin, rfl⟩
  · rw [if_neg hin, h.view_eq_some]
    constructor
    · rintro ⟨b, hb, hbx, hx⟩
      rcases (hhas b).1 hb with rfl | hb
      · exact absurd hbx hin
      · exact ⟨b, hb, hbx, hx⟩
    · rintro ⟨b, hb, hbx, hx⟩
      exact ⟨b, (hhas b).2 (.inr hb), hbx, hx⟩

end

/-- An area set stands for a partial map from addresses to attributes: `unmap` removes the range from it, `protect`
changes the flags in the range, `tryInsert` of a non-empty area fails exactly if the area meets a mapped address, and
the set stays well formed. -/
theorem set_refines (s : VmAreaSet) (h : s.Wf) :
    (∀ start size, pageSize4K ∣ start → pageSize4K ∣ size →
      (s.unmap start size).Wf ∧
      ∀ addr, (s.unmap start size).view addr = if start ≤ addr ∧ addr < start + size then none else s.view addr) ∧
    (∀ start size flags, pageSize4K ∣ start → pageSize4K ∣ size →
      ∃ t, s.protect start size flags = some t ∧ t.Wf ∧
        ∀ addr, t.view addr = (s.view addr).map fun x =>
          if start ≤ addr ∧ addr < start + size then { x with perm := flags } else x) ∧
    (∀ a : VmArea, a.start < a.stop → pageSize4K ∣ a.start → pageSize4K ∣ a.stop →
      (s.tryInsert a).2.Wf ∧
      (s.tryInsert a = (.error .alreadyExists, s) ↔ ∃ addr, a.start ≤ addr ∧ addr < a.stop ∧ s.view addr ≠ none) ∧
      ((∀ addr, a.start ≤ addr → addr < a.stop → s.view addr = none) →
        (s.tryInsert a).1 = .ok () ∧ ∀ addr, (s.tryInsert a).2.view addr =
          if a.start ≤ addr ∧ addr < a.stop then some (a.attrAt addr) else s.view addr)) ∧
    (∀ (a : VmArea) (additional : Nat), s.areas.get? a.start = some a → pageSize4K ∣ additional →
      a.stop + additional < 2 ^ 64 → s.overlaps a.stop (a.stop + additional) = false →
      ∃ t, s.extend a.start additional = some t ∧ t.Wf) ∧
    ∀ start, (s.mergeAdjacent start).2.Wf := by
  refine ⟨fun start size hs hz => ⟨h.unmap hs hz, h.unmap_view hs hz⟩, fun start size flags hs hz => ?_,
    fun a hne hs hst => ?_, fun a additional ha hz hend ho => ?_, fun start => ?_⟩
  · exact h.protect_view hs hz flags
  · have hok : a.Ok := ⟨hne, hs, hst⟩
    exact ⟨h.tryInsert hok, h.tryInsert_error hok, h.tryInsert_ok hok⟩
  · exact h.extend (get?_eq_some.1 ha) hz hend ho
  · exact h.mergeAdjacentWhere start canMergeWith

theorem wf_empty : VmAreaSet.Wf ⟨empty⟩ := ⟨nofun, nofun, nofun, nofun⟩

/-- A mapping of the second and third page. -/
def sampleArea : VmArea := VmArea.new 0x1000 0x2000 ⟨3⟩ ⟨7⟩ ⟨.linear, .size4K⟩ 0 none

/-- A mapping of the fourth page, which may only be read. -/
def sampleNext : VmArea := VmArea.new 0x3000 0x1000 ⟨1⟩ ⟨7⟩ ⟨.linear, .size4K⟩ 0 none

def sampleSet : VmAreaSet := ((VmAreaSet.tryInsert ⟨empty⟩ sampleArea).2.tryInsert sampleNext).2

theorem sampleSet_wf : sampleSet.Wf :=
  (wf_empty.tryInsert ⟨by decide, by decide, by decide⟩).tryInsert ⟨by decide, by decide, by decide⟩

theorem has_sampleSet {b : VmArea} : sampleSet.Has b ↔ b = sampleArea ∨ b = sampleNext := by
  have hentries : sampleSet.areas.entries = [(sampleArea.start, sampleArea), (sampleNext.start, sampleNext)] := rfl
  rw [Has, mem_entries, hentries]
  simp
  constructor
  · rintro (h | h)
    · exact .inl h.2
    · exact .inr h.2
  · rintro (rfl | rfl) <;> simp

/-- A range over the end of one area and the start of the next. -/
theorem set_refines_sample : sampleSet.Wf ∧ (sampleSet.unmap 0x2000 0x2000).view 0x2000 = none ∧
    (sampleSet.unmap 0x2000 0x2000).view 0x3000 = none ∧
    (sampleSet.unmap 0x2000 0x2000).view 0x1000 = some (sampleArea.attrAt 0x1000) := by
  have hv := ((set_refines sampleSet sampleSet_wf).1 0x2000 0x2000 (by decide) (by decide)).2
  refine ⟨sampleSet_wf, ?_, ?_, ?_⟩
  · rw [hv, if_pos (by decide)]
  · rw [hv, if_pos (by decide)]
  · rw [hv, if_neg (by decide)]
    rfl

/-- An area without addresses inside a mapped one, as a request of size zero makes it. -/
def emptyArea : VmArea := VmArea.new 0x2000 0 ⟨3⟩ ⟨7⟩ ⟨.linear, .size4K⟩ 0 none

/-- For such an area `tryInsert` reports an overlap although no address of it is mapped, and an empty set that takes
it in is no longer well formed. -/
theorem tryInsert_empty_area : sampleSet.Wf ∧ pageSize4K ∣ emptyArea.start ∧ pageSize4K ∣ emptyArea.stop ∧
    sampleSet.tryInsert emptyArea = (.error .alreadyExists, sampleSet) ∧
    (¬ ∃ addr, emptyArea.start ≤ addr ∧ addr < emptyArea.stop ∧ sampleSet.view addr ≠ none) ∧
    ¬ (tryInsert ⟨empty⟩ emptyArea).2.Wf := by
  have hover : sampleSet.overlaps emptyArea.start emptyArea.stop = true := by decide
  refine ⟨sampleSet_wf, by decide, by decide, ?_, ?_, fun hw => ?_⟩
  · exact if_pos hover
  · rintro ⟨addr, h1, h2, -⟩
    exact absurd (lt_of_le_of_lt h1 h2) (lt_irrefl 0x2000)
  · exact lt_irrefl 0x2000 (hw.nonempty (0x2000, emptyArea) (mem_singleton_self _))

end VmAreaSet
end XKernel.Vma
