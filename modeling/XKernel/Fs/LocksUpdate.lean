import XKernel.Fs.Locks
/-!
# What `update` makes of a list of records

A list stands for the lock that each owner has on each byte. `update` grows its range
while it runs, but it grows only over records of the same owner and kind, and no other
record of that owner meets those or lies next to them: whether a record is absorbed,
cut or kept is the same for the grown range as for the request, so the loop is one
function of the request, applied to every record.
-/

namespace XKernel.Locks

open List

/-! ## The view -/

/-- The lock an owner has on a byte. -/
def held (rs : List FileLock) (o : FileLockOwner) (b : Int) : Option FileLockType :=
  (rs.find? fun r => r.owner = o ∧ r.start ≤ b ∧ b ≤ r.stop).map (·.kind)

/-- Two records of one list. -/
structure Apart (a b : FileLock) : Prop where
  disjoint : a.owner = b.owner → a.stop < b.start ∨ b.stop < a.start
  gap : a.owner = b.owner → a.kind = b.kind → a.stop + 1 < b.start ∨ b.stop + 1 < a.start
  shared : a.owner ≠ b.owner → a.stop < b.start ∨ b.stop < a.start ∨ a.kind = .read ∧ b.kind = .read

structure Record (r : FileLock) : Prop where
  lo : 0 ≤ r.start
  le : r.start ≤ r.stop
  hi : r.stop ≤ i64Max
  kind : r.kind ≠ .unlock

structure ListOk (rs : List FileLock) : Prop where
  record : ∀ r ∈ rs, Record r
  apart : rs.Pairwise Apart

variable {req x : FileLock} {rs : List FileLock} {list : List OwnedLock}

theorem Apart.symm {a b : FileLock} (h : Apart a b) : Apart b a where
  disjoint he := (h.disjoint he.symm).symm
  gap he hk := (h.gap he.symm hk.symm).symm
  shared hn := by
    rcases h.shared hn.symm with h | h | h
    · exact .inr (.inl h)
    · exact .inl h
    · exact .inr (.inr h.symm)

/-- Parts of two records are as far apart as the records. -/
theorem Apart.mono {a b a' b' : FileLock} (h : Apart a b) (ha : a'.owner = a.owner ∧ a'.kind = a.kind)
    (hb : b'.owner = b.owner ∧ b'.kind = b.kind) (ha' : a.start ≤ a'.start ∧ a'.stop ≤ a.stop)
    (hb' : b.start ≤ b'.start ∧ b'.stop ≤ b.stop) : Apart a' b' where
  disjoint he := by
    have := h.disjoint (by rw [← ha.1, ← hb.1, he])
    omega
  gap he hk := by
    have := h.gap (by rw [← ha.1, ← hb.1, he]) (by rw [← ha.2, ← hb.2, hk])
    omega
  shared hn := by
    rw [ha.2, hb.2]
    rcases h.shared (by rwa [← ha.1, ← hb.1]) with hd | hd | hd
    · exact .inl (by omega)
    · exact .inr (.inl (by omega))
    · exact .inr (.inr hd)

theorem ListOk.apart_of_mem (h : ListOk rs) {a b : FileLock} (ha : a ∈ rs) (hb : b ∈ rs) (hne : a ≠ b) : Apart a b := by
  have hp : rs.Pairwise fun a b => a ≠ b → Apart a b := h.apart.imp fun {a b} hab (_ : a ≠ b) => hab
  exact hp.forall_of_forall_of_flip (fun _ _ h => absurd rfl h) (h.apart.imp fun hab _ => hab.symm) ha hb hne

variable {b : Int} {o : FileLockOwner} {k : FileLockType}

theorem ListOk.held_eq_some (h : ListOk rs) :
    held rs o b = some k ↔ ∃ r ∈ rs, r.owner = o ∧ (r.start ≤ b ∧ b ≤ r.stop) ∧ r.kind = k := by
  unfold held
  constructor
  · intro hf
    obtain ⟨r, hr, hk⟩ := Option.map_eq_some_iff.1 hf
    have hp := find?_some hr
    simp only [decide_eq_true_eq] at hp
    exact ⟨r, mem_of_find?_eq_some hr, hp.1, hp.2, hk⟩
  · rintro ⟨r, hr, ho, hb, hk⟩
    cases hf : rs.find? fun r => r.owner = o ∧ r.start ≤ b ∧ b ≤ r.stop with
    | none =>
      have := find?_eq_none.1 hf r hr
      simp only [decide_eq_true_eq] at this
      exact absurd ⟨ho, hb⟩ this
    | some q =>
      have hp := find?_some hf
      simp only [decide_eq_true_eq] at hp
      -- one owner has at most one record on a byte
      obtain rfl : q = r := by
        by_contra hne
        have := (h.apart_of_mem (mem_of_find?_eq_some hf) hr hne).disjoint (by rw [hp.1, ho])
        omega
      rw [Option.map_some, hk]

/-! ## What `update` makes of one record -/

/-- Next to the request or over it. -/
def touches (req x : FileLock) : Prop := req.start - 1 ≤ x.stop ∧ x.start - 1 ≤ req.stop

instance : Decidable (touches req x) := inferInstanceAs (Decidable (_ ∧ _))

/-- A record that becomes part of the requested one. -/
def absorbed (req x : FileLock) : Prop := x.owner = req.owner ∧ x.kind = req.kind ∧ touches req x

instance : Decidable (absorbed req x) := inferInstanceAs (Decidable (_ ∧ _))

/-- What is left of a record outside the request. -/
def carve (req x : FileLock) : List FileLock :=
  if x.owner ≠ req.owner then [x]
  else if x.kind = req.kind ∧ touches req x then []
  else if x.start ≤ req.stop ∧ req.start ≤ x.stop then
    (if x.start < req.start then [{ x with stop := req.start - 1 }] else []) ++
      if req.stop < x.stop then [{ x with start := req.stop + 1 }] else []
  else [x]

theorem carve_of_ne (ho : x.owner ≠ req.owner) : carve req x = [x] := if_pos ho

theorem carve_of_absorbed (h : absorbed req x) : carve req x = [] := by
  rw [carve, if_neg (not_not.2 h.1), if_pos h.2]

/-- A record of the owner that is not absorbed is cut if it meets the request. -/
theorem carve_of_not_absorbed (ho : x.owner = req.owner) (h : ¬ absorbed req x) :
    carve req x = if x.start ≤ req.stop ∧ req.start ≤ x.stop then
      (if x.start < req.start then [{ x with stop := req.start - 1 }] else []) ++
        if req.stop < x.stop then [{ x with start := req.stop + 1 }] else []
    else [x] := by
  rw [carve, if_neg (not_not.2 ho), if_neg fun hc => h ⟨ho, hc⟩]

/-- The range of the loop has grown only over records that the rest of the list keeps away from. -/
structure Grown (req : FileLock) (list : List FileLock) (start stop : Int) : Prop where
  left : start = req.start ∨ start < req.start ∧ ∃ e, req.start - 1 ≤ e ∧ ∀ x ∈ list, x.owner = req.owner →
    (x.stop < start ∨ e < x.start) ∧ (x.kind = req.kind → x.stop + 1 < start ∨ e + 1 < x.start)
  right : stop = req.stop ∨ req.stop < stop ∧ ∃ b, b ≤ req.stop + 1 ∧ ∀ x ∈ list, x.owner = req.owner →
    (x.stop < b ∨ stop < x.start) ∧ (x.kind = req.kind → x.stop + 1 < b ∨ stop + 1 < x.start)

namespace Grown

variable {start stop : Int} {list : List FileLock}

theorem init (req : FileLock) (list : List FileLock) : Grown req list req.start req.stop := ⟨.inl rfl, .inl rfl⟩

section

variable (h : Grown req (x :: list) start stop)
include h

theorem tail : Grown req list start stop where
  left := h.left.imp_right fun ⟨hlt, e, he, hx⟩ => ⟨hlt, e, he, fun y hy => hx y (mem_cons_of_mem _ hy)⟩
  right := h.right.imp_right fun ⟨hlt, b, hb, hx⟩ => ⟨hlt, b, hb, fun y hy => hx y (mem_cons_of_mem _ hy)⟩

section

variable (ho : x.owner = req.owner)
include ho

/-- What the growth keeps from the record at hand. -/
theorem head :
    (start = req.start ∨ start < req.start ∧ ∃ e, req.start - 1 ≤ e ∧ (x.stop < start ∨ e < x.start) ∧
      (x.kind = req.kind → x.stop + 1 < start ∨ e + 1 < x.start)) ∧
    (stop = req.stop ∨ req.stop < stop ∧ ∃ b, b ≤ req.stop + 1 ∧ (x.stop < b ∨ stop < x.start) ∧
      (x.kind = req.kind → x.stop + 1 < b ∨ stop + 1 < x.start)) :=
  ⟨h.left.imp_right fun ⟨hlt, e, he, hx⟩ => ⟨hlt, e, he, hx x mem_cons_self ho⟩,
    h.right.imp_right fun ⟨hlt, b, hb, hx⟩ => ⟨hlt, b, hb, hx x mem_cons_self ho⟩⟩

/-- The range meets the record where the request does. -/
theorem overlap_iff (hx : x.start ≤ x.stop) :
    x.start ≤ stop ∧ start ≤ x.stop ↔ x.start ≤ req.stop ∧ req.start ≤ x.stop := by
  obtain ⟨hl | ⟨hl, e, he, hxe, -⟩, hr | ⟨hr, b, hb, hxb, -⟩⟩ := h.head ho <;> omega

/-- A record of the same kind touches the range where it touches the request. -/
theorem touch_iff (hk : x.kind = req.kind)
    (hx : x.start ≤ x.stop) :
    x.stop ≥ start - 1 ∧ x.start - 1 ≤ stop ↔ touches req x := by
  have hhead := h.head ho
  simp only [hk, true_implies] at hhead
  unfold touches
  obtain ⟨hl | ⟨hl, e, he, -, hxe⟩, hr | ⟨hr, b, hb, -, hxb⟩⟩ := hhead <;> omega

/-- A record that reaches out of the range on a side reaches out of the request there, which has not grown. -/
theorem left_iff
    (hov : x.start ≤ req.stop ∧ req.start ≤ x.stop) :
    (x.start < start ↔ x.start < req.start) ∧ (x.start < start → start = req.start) := by
  obtain hl | ⟨hl, e, he, hx, -⟩ := (h.head ho).1 <;> omega

theorem right_iff
    (hov : x.start ≤ req.stop ∧ req.start ≤ x.stop) :
    (stop < x.stop ↔ req.stop < x.stop) ∧ (stop < x.stop → stop = req.stop) := by
  obtain hr | ⟨hr, b, hb, hx, -⟩ := (h.head ho).2 <;> omega

end

/-- The range grows over a record that it touches. -/
theorem grow (ha : absorbed req x) (hap : ∀ y ∈ list, Apart x y) :
    Grown req list (min start x.start) (max stop x.stop) := by
  have hx : ∀ y ∈ list, y.owner = req.owner → (y.stop < x.start ∨ x.stop < y.start) ∧
      (y.kind = req.kind → y.stop + 1 < x.start ∨ x.stop + 1 < y.start) := by
    intro y hy ho
    have hxy : x.owner = y.owner := by rw [ha.1, ho]
    refine ⟨((hap y hy).disjoint hxy).symm, fun hk => ((hap y hy).gap hxy ?_).symm⟩
    rw [ha.2.1, hk]
  have ht := ha.2.2
  unfold touches at ht
  constructor
  · by_cases hlt : x.start < start
    · rw [min_eq_right hlt.le]
      by_cases hreq : x.start < req.start
      · exact .inr ⟨hreq, x.stop, ht.1, hx⟩
      · have hs : start = req.start ∨ start < req.start := h.left.imp_right (·.1)
        exact absurd hlt (by omega)
    · rw [min_eq_left (by omega)]
      exact h.tail.left
  · by_cases hlt : stop < x.stop
    · rw [max_eq_right hlt.le]
      by_cases hreq : req.stop < x.stop
      · exact .inr ⟨hreq, x.start, by omega, hx⟩
      · have hs : stop = req.stop ∨ req.stop < stop := h.right.imp_right (·.1)
        exact absurd hlt (by omega)
    · rw [max_eq_left (by omega)]
      exact h.tail.right

end

end Grown

/-! ## The loop -/

/-- The range after the loop: the least one over the request and all absorbed records. -/
structure Hull (req : FileLock) (list : List FileLock) (start stop start' stop' : Int) : Prop where
  lo : start' ≤ start ∧ ∀ x ∈ list, absorbed req x → start' ≤ x.start
  hi : stop ≤ stop' ∧ ∀ x ∈ list, absorbed req x → x.stop ≤ stop'
  lo_mem : start' = start ∨ ∃ x ∈ list, absorbed req x ∧ x.start = start'
  hi_mem : stop' = stop ∨ ∃ x ∈ list, absorbed req x ∧ x.stop = stop'

namespace Hull

variable {start stop start' stop' : Int} {list : List FileLock}

theorem refl (hn : ∀ x ∈ list, ¬ absorbed req x) : Hull req list start stop start stop :=
  ⟨⟨le_rfl, fun x hx ha => absurd ha (hn x hx)⟩, ⟨le_rfl, fun x hx ha => absurd ha (hn x hx)⟩, .inl rfl, .inl rfl⟩

theorem skip (h : Hull req list start stop start' stop') (hn : ¬ absorbed req x) :
    Hull req (x :: list) start stop start' stop' where
  lo := ⟨h.lo.1, forall_mem_cons.2 ⟨fun ha => absurd ha hn, h.lo.2⟩⟩
  hi := ⟨h.hi.1, forall_mem_cons.2 ⟨fun ha => absurd ha hn, h.hi.2⟩⟩
  lo_mem := h.lo_mem.imp_right fun ⟨y, hy, hp⟩ => ⟨y, mem_cons_of_mem _ hy, hp⟩
  hi_mem := h.hi_mem.imp_right fun ⟨y, hy, hp⟩ => ⟨y, mem_cons_of_mem _ hy, hp⟩

theorem grow (h : Hull req list (min start x.start) (max stop x.stop) start' stop') (ha : absorbed req x) :
    Hull req (x :: list) start stop start' stop' where
  lo := ⟨h.lo.1.trans (min_le_left _ _), forall_mem_cons.2 ⟨fun _ => h.lo.1.trans (min_le_right _ _), h.lo.2⟩⟩
  hi := ⟨(le_max_left _ _).trans h.hi.1, forall_mem_cons.2 ⟨fun _ => (le_max_right _ _).trans h.hi.1, h.hi.2⟩⟩
  lo_mem := by
    rcases h.lo_mem with he | ⟨y, hy, hp⟩
    · by_cases hlt : x.start < start
      · exact .inr ⟨x, mem_cons_self, ha, by omega⟩
      · exact .inl (by omega)
    · exact .inr ⟨y, mem_cons_of_mem _ hy, hp⟩
  hi_mem := by
    rcases h.hi_mem with he | ⟨y, hy, hp⟩
    · by_cases hlt : stop < x.stop
      · exact .inr ⟨x, mem_cons_self, ha, by omega⟩
      · exact .inl (by omega)
    · exact .inr ⟨y, mem_cons_of_mem _ hy, hp⟩

end Hull

/-- The records of a list of installed locks. -/
def records (list : List OwnedLock) : List FileLock := list.map (·.record)

/-- What the loop of `update` does to the records. -/
structure Carved (req : FileLock) (list : List OwnedLock) (u v : Update) : Prop where
  remaining : records v.remaining = records u.remaining ++ (records list).flatMap (carve req)
  hull : Hull req (records list) u.start u.stop v.start v.stop
  merged : ∀ lock, v.merged = some lock → u.merged = some lock ∨ lock.record.owner = req.owner ∧
    lock.record.kind = req.kind

variable {lock : OwnedLock}

/-- A record that is kept or cut. -/
theorem Carved.keep {u u' v : Update} (h : Carved req list u' v)
    (hrem : records u'.remaining = records u.remaining ++ carve req lock.record) (hs : u'.start = u.start)
    (he : u'.stop = u.stop) (hm : u'.merged = u.merged) (hn : ¬ absorbed req lock.record) :
    Carved req (lock :: list) u v where
  remaining := by
    rw [h.remaining, hrem, append_assoc]
    rfl
  hull := by
    have := h.hull
    rw [hs, he] at this
    exact this.skip hn
  merged := by
    rw [← hm]
    exact h.merged

/-- A record that the range grows over. -/
theorem Carved.absorb {u u' v : Update} (h : Carved req list u' v)
    (hrem : u'.remaining = u.remaining) (hs : u'.start = min u.start lock.record.start)
    (he : u'.stop = max u.stop lock.record.stop) (hm : ∀ l, u'.merged = some l → u.merged = some l ∨ l = lock)
    (ha : absorbed req lock.record) : Carved req (lock :: list) u v where
  remaining := by
    have hcons : (records (lock :: list)).flatMap (carve req) =
        carve req lock.record ++ (records list).flatMap (carve req) := rfl
    rw [h.remaining, hrem, hcons, carve_of_absorbed ha, nil_append]
  hull := by
    have := h.hull
    rw [hs, he] at this
    exact this.grow ha
  merged := by
    intro l hl
    rcases h.merged l hl with hl | hl
    · rcases hm l hl with hl | rfl
      · exact .inl hl
      · exact .inr ⟨ha.1, ha.2.1⟩
    · exact .inr hl

theorem records_append (l l' : List OwnedLock) : records (l ++ l') = records l ++ records l' := map_append

/-- No other record of the owner is near a request inside one of them. -/
theorem carve_of_inside {y : FileLock} (hin : x.start < req.start ∧ req.stop < x.stop) (ho : x.owner = req.owner)
    (hap : Apart x y) :
    carve req y = [y] ∧ ¬ absorbed req y := by
  by_cases hoy : y.owner = req.owner
  · have hd := hap.disjoint (by rw [ho, hoy])
    have ht : ¬ absorbed req y := by
      unfold absorbed touches
      omega
    rw [carve_of_not_absorbed hoy ht, if_neg (by omega)]
    exact ⟨rfl, ht⟩
  · exact ⟨carve_of_ne hoy, fun h => hoy h.1⟩

theorem updateLoop_carved (list : List OwnedLock) (u : Update)
    (hok : ∀ x ∈ records list, Record x) (hap : (records list).Pairwise Apart)
    (hg : Grown req (records list) u.start u.stop) : Carved req list u (updateLoop req list u) := by
  induction list generalizing u with
  | nil =>
    refine ⟨?_, .refl fun x hx => absurd hx not_mem_nil, fun lock hl => .inl hl⟩
    simp [updateLoop, records]
  | cons lock list ih =>
    have hcons : records (lock :: list) = lock.record :: records list := rfl
    rw [hcons] at hok hap hg
    have hx := hok _ mem_cons_self
    have hok' : ∀ x ∈ records list, Record x := fun x hx => hok x (mem_cons_of_mem _ hx)
    obtain ⟨hap1, hap2⟩ := pairwise_cons.1 hap
    have hgt := hg.tail
    unfold updateLoop
    by_cases ho : lock.record.owner = req.owner
    swap
    · rw [if_pos ho]
      refine Carved.keep (ih _ hok' hap2 (by exact hgt)) ?_ rfl rfl rfl fun ha => ho ha.1
      rw [records_append, carve_of_ne ho]
      rfl
    rw [if_neg (not_not.2 ho)]
    by_cases hk : lock.record.kind = req.kind ∧ touches req lock.record
    · -- the range grows
      have ha : absorbed req lock.record := ⟨ho, hk⟩
      have htouch := (hg.touch_iff ho hk.1 hx.le).2 hk.2
      have hgr := hg.grow ha hap1
      rw [if_pos ⟨hk.1, htouch⟩]
      cases hm : u.merged with
      | none =>
        refine (ih _ hok' hap2 hgr).absorb rfl rfl rfl (fun l hl => .inr ?_) ha
        exact (Option.some.inj hl).symm
      | some =>
        refine (ih _ hok' hap2 hgr).absorb rfl rfl rfl (fun l hl => .inl ?_) ha
        exact hm.trans hl
    have hna : ¬ absorbed req lock.record := fun ha => hk ha.2
    have hnt : ¬ (lock.record.kind = req.kind ∧ lock.record.stop ≥ u.start - 1 ∧ lock.record.start - 1 ≤ u.stop) :=
      fun hc => hk ⟨hc.1, (hg.touch_iff ho hc.1 hx.le).1 hc.2⟩
    rw [if_neg hnt]
    by_cases hov : lock.record.start ≤ req.stop ∧ req.start ≤ lock.record.stop
    swap
    · rw [if_neg fun hc => hov ((hg.overlap_iff ho hx.le).1 hc)]
      refine Carved.keep (ih _ hok' hap2 (by exact hgt)) ?_ rfl rfl rfl hna
      rw [records_append, carve_of_not_absorbed ho hna, if_neg hov]
      rfl
    rw [if_pos ((hg.overlap_iff ho hx.le).2 hov)]
    have hcarve := (carve_of_not_absorbed ho hna).trans (if_pos hov)
    obtain ⟨hl1, hl2⟩ := hg.left_iff ho hov
    obtain ⟨hr1, hr2⟩ := hg.right_iff ho hov
    by_cases hboth : lock.record.start < u.start ∧ u.stop < lock.record.stop
    · -- the request lies inside the record, and the loop ends
      have hs := hl2 hboth.1
      have he := hr2 hboth.2
      have hin : lock.record.start < req.start ∧ req.stop < lock.record.stop := ⟨hl1.1 hboth.1, hr1.1 hboth.2⟩
      have hrest : ∀ y ∈ records list, carve req y = [y] ∧ ¬ absorbed req y := fun y hy =>
        carve_of_inside hin ho (hap1 y hy)
      rw [if_pos hboth]
      refine ⟨?_, ?_, fun l hl => .inl hl⟩
      · have hflat : (records list).flatMap (carve req) = records list := by
          conv_rhs => rw [← flatMap_singleton' (records list)]
          exact flatMap_congr fun y hy => (hrest y hy).1
        rw [hcons, flatMap_cons, hflat, hcarve, if_pos hin.1, if_pos hin.2, records_append, records_append,
          append_assoc, hs, he]
        rfl
      · exact (Hull.refl fun y hy => (hrest y hy).2).skip hna
    rw [if_neg hboth]
    by_cases hleft : lock.record.start < u.start
    · have hs := hl2 hleft
      have hnr : ¬ req.stop < lock.record.stop := fun hc => hboth ⟨hleft, hr1.2 hc⟩
      rw [if_pos hleft]
      refine Carved.keep (ih _ hok' hap2 (by exact hgt)) ?_ rfl rfl rfl hna
      rw [records_append, hcarve, if_pos (hl1.1 hleft), if_neg hnr, append_nil, hs]
      rfl
    rw [if_neg hleft]
    have hnl : ¬ lock.record.start < req.start := fun hc => hleft (hl1.2 hc)
    by_cases hright : u.stop < lock.record.stop
    · have he := hr2 hright
      rw [if_pos hright]
      refine Carved.keep (ih _ hok' hap2 (by exact hgt)) ?_ rfl rfl rfl hna
      rw [records_append, hcarve, if_neg hnl, if_pos (hr1.1 hright), nil_append, he]
      rfl
    · have hnr : ¬ req.stop < lock.record.stop := fun hc => hright (hr1.2 hc)
      rw [if_neg hright]
      refine Carved.keep (ih _ hok' hap2 (by exact hgt)) ?_ rfl rfl rfl hna
      rw [hcarve, if_neg hnl, if_neg hnr, append_nil, append_nil]

/-! ## The records after an update -/

/-- What `carve` leaves of a record is a part of it, outside the request if the owner is the same. -/
structure PartOf (req x q : FileLock) : Prop where
  owner : q.owner = x.owner
  kind : q.kind = x.kind
  lo : x.start ≤ q.start
  le : q.start ≤ q.stop
  hi : q.stop ≤ x.stop
  outside : x.owner = req.owner → q.stop < req.start ∨ req.stop < q.start
  gap : x.owner = req.owner → x.kind = req.kind → q.stop + 1 < req.start ∨ req.stop + 1 < q.start

variable {q : FileLock}

theorem carve_part (hx : x.start ≤ x.stop) (hq : q ∈ carve req x) : PartOf req x q := by
  unfold carve at hq
  split at hq
  · rename_i ho
    rw [mem_singleton.1 hq]
    exact ⟨rfl, rfl, le_rfl, hx, le_rfl, fun h => absurd h ho, fun h => absurd h ho⟩
  split at hq
  · cases hq
  rename_i hk
  split at hq
  · rename_i hov
    -- a record of the same kind that meets the request is absorbed
    have hkind : x.kind ≠ req.kind := fun hc => hk ⟨hc, by unfold touches; omega⟩
    rcases mem_append.1 hq with hq | hq
    · obtain ⟨hlt, hq⟩ := mem_ite_nil_right.1 hq
      rw [mem_singleton.1 hq]
      exact ⟨rfl, rfl, le_rfl, by simp only; omega, by simp only; omega, fun _ => .inl (by simp only; omega),
        fun _ hc => absurd hc hkind⟩
    · obtain ⟨hlt, hq⟩ := mem_ite_nil_right.1 hq
      rw [mem_singleton.1 hq]
      exact ⟨rfl, rfl, by simp only; omega, by simp only; omega, le_rfl, fun _ => .inr (by simp only; omega),
        fun _ hc => absurd hc hkind⟩
  · rw [mem_singleton.1 hq]
    refine ⟨rfl, rfl, le_rfl, hx, le_rfl, fun _ => by omega, fun _ hc => ?_⟩
    have ht : ¬ touches req x := fun ht => hk ⟨hc, ht⟩
    unfold touches at ht
    omega

theorem carve_apart (hr : req.start ≤ req.stop) (x : FileLock) : (carve req x).Pairwise Apart := by
  unfold carve
  split
  · exact pairwise_singleton _ _
  split
  · exact .nil
  split
  · have hlr : Apart { x with stop := req.start - 1 } { x with start := req.stop + 1 } :=
      ⟨fun _ => .inl (by simp only; omega), fun _ _ => .inl (by simp only; omega), fun h => absurd rfl h⟩
    by_cases h1 : x.start < req.start <;> by_cases h2 : req.stop < x.stop <;> simp [h1, h2, hlr]
  · exact pairwise_singleton _ _

/-- A byte that the request leaves alone stays in a part of its record. -/
theorem exists_carve (hb : x.start ≤ b ∧ b ≤ x.stop) (hna : ¬ absorbed req x)
    (hout : ¬ (x.owner = req.owner ∧ req.start ≤ b ∧ b ≤ req.stop)) : ∃ q ∈ carve req x, q.start ≤ b ∧ b ≤ q.stop := by
  by_cases ho : x.owner = req.owner
  swap
  · rw [carve_of_ne ho]
    exact ⟨x, mem_singleton_self _, hb⟩
  rw [carve_of_not_absorbed ho hna]
  by_cases hov : x.start ≤ req.stop ∧ req.start ≤ x.stop
  · rw [if_pos hov]
    have hlt : b < req.start ∨ req.stop < b := by
      have := not_and.1 hout ho
      omega
    rcases hlt with hlt | hlt
    · refine ⟨{ x with stop := req.start - 1 }, mem_append_left _ ?_, hb.1, by simp only; omega⟩
      rw [if_pos (by omega)]
      exact mem_singleton_self _
    · refine ⟨{ x with start := req.stop + 1 }, mem_append_right _ ?_, by simp only; omega, hb.2⟩
      rw [if_pos (by omega)]
      exact mem_singleton_self _
  · rw [if_neg hov]
    exact ⟨x, mem_singleton_self _, hb⟩

theorem ListOk.carve (h : ListOk rs) (hr : req.start ≤ req.stop) : ListOk (rs.flatMap (carve req)) where
  record := by
    intro q hq
    obtain ⟨x, hx, hqx⟩ := mem_flatMap.1 hq
    have hrx := h.record x hx
    have hp := carve_part hrx.le hqx
    have hlo := hrx.lo
    have hhi := hrx.hi
    refine ⟨hlo.trans hp.lo, hp.le, hp.hi.trans hhi, ?_⟩
    rw [hp.kind]
    exact hrx.kind
  apart := by
    rw [pairwise_flatMap]
    refine ⟨fun x _ => carve_apart hr x, h.apart.imp_of_mem fun {x y} hx hy hxy q hq q' hq' => ?_⟩
    have hp := carve_part (h.record x hx).le hq
    have hp' := carve_part (h.record y hy).le hq'
    exact hxy.mono ⟨hp.owner, hp.kind⟩ ⟨hp'.owner, hp'.kind⟩ ⟨hp.lo, hp.hi⟩ ⟨hp'.lo, hp'.hi⟩

/-- The record of the request, grown over what it absorbs. -/
structure Requested (req : FileLock) (rs : List FileLock) (new : FileLock) : Prop where
  owner : new.owner = req.owner
  kind : new.kind = req.kind
  hull : Hull req rs req.start req.stop new.start new.stop

/-- No record of another owner stands against the request. -/
def Free (req : FileLock) (rs : List FileLock) : Prop :=
  ∀ x ∈ rs, x.owner ≠ req.owner → x.stop < req.start ∨ req.stop < x.start ∨ x.kind = .read ∧ req.kind = .read

namespace Requested

variable {new : FileLock}

theorem bounds (hn : Requested req rs new) : new.start ≤ req.start ∧ req.stop ≤ new.stop := ⟨hn.hull.lo.1, hn.hull.hi.1⟩

/-- A byte of the new record is requested or in an absorbed record. -/
theorem mem (hn : Requested req rs new) {b : Int} (hb : new.start ≤ b ∧ b ≤ new.stop) :
    (req.start ≤ b ∧ b ≤ req.stop) ∨ ∃ x ∈ rs, absorbed req x ∧ x.start ≤ b ∧ b ≤ x.stop := by
  by_cases hlo : b < req.start
  · rcases hn.hull.lo_mem with he | ⟨x, hx, ha, he⟩
    · omega
    · have ht := ha.2.2
      unfold touches at ht
      exact .inr ⟨x, hx, ha, by omega, by omega⟩
  by_cases hhi : req.stop < b
  · rcases hn.hull.hi_mem with he | ⟨x, hx, ha, he⟩
    · omega
    · have ht := ha.2.2
      unfold touches at ht
      exact .inr ⟨x, hx, ha, by omega, by omega⟩
  · exact .inl (by omega)

theorem record (hn : Requested req rs new) (h : ListOk rs) (hreq : req.Valid) (hk : req.kind ≠ .unlock) :
    Record new := by
  have hb := hn.bounds
  have hle := hreq.le
  refine ⟨?_, by omega, ?_, by rw [hn.kind]; exact hk⟩
  · rcases hn.hull.lo_mem with he | ⟨x, hx, -, he⟩
    · rw [he]
      exact hreq.lo
    · rw [← he]
      exact (h.record x hx).lo
  · rcases hn.hull.hi_mem with he | ⟨x, hx, -, he⟩
    · rw [he]
      exact hreq.hi
    · rw [← he]
      exact (h.record x hx).hi

end Requested

/-- Two ranges with no byte in common. -/
theorem disjoint_of_bytes {a b : FileLock} (ha : a.start ≤ a.stop) (hb : b.start ≤ b.stop)
    (h : ∀ n, a.start ≤ n → n ≤ a.stop → b.start ≤ n → n ≤ b.stop → False) : a.stop < b.start ∨ b.stop < a.start := by
  by_contra hc
  exact h (max a.start b.start) (by omega) (by omega) (by omega) (by omega)

theorem Requested.apart {new x : FileLock} (hn : Requested req rs new) (h : ListOk rs) (hreq : req.Valid)
    (hfree : Free req rs) (hx : x ∈ rs) (hq : q ∈ Locks.carve req x) : Apart new q := by
  have hp := carve_part (h.record x hx).le hq
  have hb := hn.bounds
  have hle := hreq.le
  have hlo := hp.lo
  have hple := hp.le
  have hhi := hp.hi
  -- nothing is left of an absorbed record
  have hxa : ∀ y ∈ rs, absorbed req y → Apart x y := by
    refine fun y hy ha => h.apart_of_mem hx hy ?_
    rintro rfl
    rw [carve_of_absorbed ha] at hq
    cases hq
  refine ⟨fun ho => ?_, fun ho hk => ?_, fun ho => ?_⟩
  · have hox : x.owner = req.owner := by rw [← hp.owner, ← ho, hn.owner]
    refine disjoint_of_bytes (by omega) hple fun n h1 h2 h3 h4 => ?_
    rcases hn.mem ⟨h1, h2⟩ with hr | ⟨y, hy, ha, hyn⟩
    · have := hp.outside hox
      omega
    · have := (hxa y hy ha).disjoint (hox.trans ha.1.symm)
      omega
  · have hox : x.owner = req.owner := by rw [← hp.owner, ← ho, hn.owner]
    have hkx : x.kind = req.kind := by rw [← hp.kind, ← hk, hn.kind]
    have hout := hp.gap hox hkx
    have hgap : ∀ y ∈ rs, absorbed req y → touches req y ∧ (x.stop + 1 < y.start ∨ y.stop + 1 < x.start) :=
      fun y hy ha => ⟨ha.2.2, (hxa y hy ha).gap (hox.trans ha.1.symm) (hkx.trans ha.2.1.symm)⟩
    unfold touches at hgap
    rcases hn.hull.lo_mem with hl | ⟨y, hy, ha, hl⟩ <;> rcases hn.hull.hi_mem with hr | ⟨z, hz, ha', hr⟩
    · omega
    · have := hgap z hz ha'
      omega
    · have := hgap y hy ha
      omega
    · have := hgap y hy ha
      have := hgap z hz ha'
      omega
  · have hox : x.owner ≠ req.owner := by rw [← hp.owner, ← hn.owner]; exact ho.symm
    by_contra hc
    have hread : ∀ n, new.start ≤ n → n ≤ new.stop → q.start ≤ n → n ≤ q.stop → new.kind = .read ∧ q.kind = .read := by
      intro n h1 h2 h3 h4
      rw [hn.kind, hp.kind]
      rcases hn.mem ⟨h1, h2⟩ with hr | ⟨y, hy, ha, hyn⟩
      · rcases hfree x hx hox with hf | hf | hf
        · omega
        · omega
        · exact hf.symm
      · rcases (hxa y hy ha).shared (by rw [ha.1]; exact hox) with hf | hf | hf
        · omega
        · omega
        · rw [← ha.2.1]
          exact hf.symm
    have hd := disjoint_of_bytes (by omega) hple fun n h1 h2 h3 h4 =>
      hc (.inr (.inr (hread n h1 h2 h3 h4)))
    exact hc (by omega)

/-- What `update` leaves: the cut records, and the requested one. -/
theorem update_records (req : FileLock) (h : ListOk (records list)) (waiter : Option NodeId) (w : Waits) :
    (req.kind = .unlock → records (update req waiter list w).1 = (records list).flatMap (carve req)) ∧
    (req.kind ≠ .unlock → ∃ new, Requested req (records list) new ∧
      (records (update req waiter list w).1).Perm (new :: (records list).flatMap (carve req))) := by
  have hc : Carved req list ⟨req.start, req.stop, [], none, w⟩
      (updateLoop req list ⟨req.start, req.stop, [], none, w⟩) :=
    updateLoop_carved list _ h.record h.apart (.init req _)
  have hinst : ∀ (l : List OwnedLock) (lock : OwnedLock),
      (records (install l lock)).Perm (lock.record :: records l) := by
    intro l lock
    have hp : (install l lock).Perm (lock :: l) := by
      refine perm_middle.trans ?_
      rw [takeWhile_append_dropWhile]
    exact hp.map _
  unfold update
  generalize updateLoop req list _ = u at hc
  have hrem : records u.remaining = (records list).flatMap (carve req) := hc.remaining
  rw [← hrem]
  constructor
  · intro hk
    rw [if_neg (not_not.2 hk)]
  · intro hk
    rw [if_pos hk]
    cases hm : u.merged with
    | some lock =>
      have hl : lock.record.owner = req.owner ∧ lock.record.kind = req.kind := by
        rcases hc.merged lock hm with hl | hl
        · cases hl
        · exact hl
      exact ⟨(lock.setBounds u.start u.stop).record, ⟨hl.1, hl.2, hc.hull⟩, hinst _ _⟩
    | none => exact ⟨{ req with start := u.start, stop := u.stop }, ⟨rfl, rfl, hc.hull⟩, hinst _ _⟩

variable {rs' : List FileLock}

theorem ListOk.perm (h : ListOk rs) (hp : rs.Perm rs') : ListOk rs' :=
  ⟨fun r hr => h.record r (hp.mem_iff.2 hr), (hp.pairwise_iff fun hab => hab.symm).1 h.apart⟩

/-- The lock on a byte after a request: as requested, or as before. -/
def heldAfter (req : FileLock) (rs : List FileLock) (o : FileLockOwner) (b : Int) : Option FileLockType :=
  if o = req.owner ∧ req.start ≤ b ∧ b ≤ req.stop then (if req.kind = .unlock then none else some req.kind)
  else held rs o b

/-- The result of a request that is granted. -/
structure Grants (req : FileLock) (rs rs' : List FileLock) : Prop where
  ok : ListOk rs'
  held : ∀ o b, held rs' o b = heldAfter req rs o b

theorem held_ext {f : FileLockOwner → Int → Option FileLockType} (h : ListOk rs')
    (hf : ∀ o b k, (∃ r ∈ rs', r.owner = o ∧ (r.start ≤ b ∧ b ≤ r.stop) ∧ r.kind = k) ↔ f o b = some k)
    (o : FileLockOwner) (b : Int) : held rs' o b = f o b := by
  refine Option.ext fun k => ?_
  rw [h.held_eq_some, hf]

/-- Whether a cut record is on a byte. -/
theorem ListOk.mem_carve (h : ListOk rs)
    (hout : ¬ (o = req.owner ∧ req.start ≤ b ∧ b ≤ req.stop))
      (hna : ∀ x ∈ rs, absorbed req x → x.start ≤ b → b ≤ x.stop → x.owner = o → False) :
    (∃ r ∈ rs.flatMap (Locks.carve req), r.owner = o ∧ (r.start ≤ b ∧ b ≤ r.stop) ∧ r.kind = k) ↔
      ∃ r ∈ rs, r.owner = o ∧ (r.start ≤ b ∧ b ≤ r.stop) ∧ r.kind = k := by
  constructor
  · rintro ⟨q, hq, ho, hb, hk⟩
    obtain ⟨x, hx, hqx⟩ := mem_flatMap.1 hq
    have hp := carve_part (h.record x hx).le hqx
    have hlo := hp.lo
    have hhi := hp.hi
    exact ⟨x, hx, by rw [← hp.owner, ho], by omega, by rw [← hp.kind, hk]⟩
  · rintro ⟨x, hx, ho, hb, hk⟩
    obtain ⟨q, hq, hqb⟩ := exists_carve hb (fun ha => hna x hx ha hb.1 hb.2 ho) (ho ▸ hout)
    have hp := carve_part (h.record x hx).le hq
    exact ⟨q, mem_flatMap.2 ⟨x, hx, hq⟩, by rw [hp.owner, ho], hqb, by rw [hp.kind, hk]⟩

/-- A cut record is not on a requested byte of the same owner. -/
theorem ListOk.not_mem_carve (h : ListOk rs) (hb : req.start ≤ b ∧ b ≤ req.stop)
    (hq : q ∈ rs.flatMap (Locks.carve req)) (ho : q.owner = req.owner) : ¬ (q.start ≤ b ∧ b ≤ q.stop) := by
  obtain ⟨x, hx, hqx⟩ := mem_flatMap.1 hq
  have hp := carve_part (h.record x hx).le hqx
  have := hp.outside (by rw [← hp.owner, ho])
  omega

theorem update_grants (h : ListOk (records list)) (hreq : req.Valid)
    (hfree : req.kind ≠ .unlock → Free req (records list)) (waiter : Option NodeId) (w : Waits) :
    Grants req (records list) (records (update req waiter list w).1) := by
  have hcar : ListOk ((records list).flatMap (carve req)) := h.carve hreq.le
  obtain ⟨hun, hlock⟩ := update_records req h waiter w
  by_cases hk : req.kind = .unlock
  · rw [hun hk]
    have hna : ∀ x ∈ records list, ¬ absorbed req x := fun x hx ha => (h.record x hx).kind (by rw [ha.2.1, hk])
    refine ⟨hcar, held_ext hcar fun o b k => ?_⟩
    unfold heldAfter
    rw [if_pos hk]
    by_cases hin : o = req.owner ∧ req.start ≤ b ∧ b ≤ req.stop
    · rw [if_pos hin]
      constructor
      · rintro ⟨q, hq, ho, hb, -⟩
        exact absurd hb (h.not_mem_carve hin.2 hq (by rw [ho, hin.1]))
      · rintro ⟨⟩
    · rw [if_neg hin, h.held_eq_some]
      exact h.mem_carve hin fun x hx ha _ _ _ => hna x hx ha
  · obtain ⟨new, hn, hperm⟩ := hlock hk
    have hok : ListOk (new :: (records list).flatMap (carve req)) := by
      refine ⟨forall_mem_cons.2 ⟨hn.record h hreq hk, hcar.record⟩, pairwise_cons.2 ⟨fun q hq => ?_, hcar.apart⟩⟩
      obtain ⟨x, hx, hqx⟩ := mem_flatMap.1 hq
      exact hn.apart h hreq (hfree hk) hx hqx
    have hok' := hok.perm hperm.symm
    refine ⟨hok', held_ext hok' fun o b k => ?_⟩
    unfold heldAfter
    rw [if_neg hk]
    simp only [hperm.mem_iff, mem_cons, or_and_right, exists_or, exists_eq_left]
    have hbd := hn.bounds
    by_cases hin : o = req.owner ∧ req.start ≤ b ∧ b ≤ req.stop
    · rw [if_pos hin, Option.some.injEq, hn.owner, hn.kind]
      constructor
      · rintro (⟨-, -, hkk⟩ | ⟨q, hq, ho, hb, -⟩)
        · exact hkk
        · exact absurd hb (h.not_mem_carve hin.2 hq (by rw [ho, hin.1]))
      · intro hkk
        exact .inl ⟨hin.1.symm, by omega, hkk⟩
    · rw [if_neg hin, h.held_eq_some, hn.owner, hn.kind]
      by_cases hnew : o = req.owner ∧ new.start ≤ b ∧ b ≤ new.stop
      · -- the byte was in an absorbed record
        obtain ⟨x, hx, ha, hxb⟩ := (hn.mem hnew.2).resolve_left fun hc => hin ⟨hnew.1, hc⟩
        have huniq : ∀ r ∈ records list, r.owner = o → r.start ≤ b ∧ b ≤ r.stop → r = x := by
          intro r hr ho hb
          by_contra hne
          have := (h.apart_of_mem hr hx hne).disjoint (by rw [ho, hnew.1, ha.1])
          omega
        constructor
        · rintro (⟨-, -, hkk⟩ | ⟨q, hq, ho, hb, hkk⟩)
          · exact ⟨x, hx, by rw [ha.1, hnew.1], hxb, by rw [ha.2.1, hkk]⟩
          · obtain ⟨y, hy, hqy⟩ := mem_flatMap.1 hq
            have := (hn.apart h hreq (hfree hk) hy hqy).disjoint (by rw [hn.owner, ho, hnew.1])
            omega
        · rintro ⟨r, hr, ho, hb, hkk⟩
          obtain rfl := huniq r hr ho hb
          exact .inl ⟨hnew.1.symm, hnew.2, by rw [← hkk, ha.2.1]⟩
      · rw [h.mem_carve hin fun x hx ha h1 h2 ho => hnew ⟨by rw [← ho, ha.1], by
            have := hn.hull.lo.2 x hx ha
            have := hn.hull.hi.2 x hx ha
            omega⟩]
        constructor
        · rintro (⟨ho, hb, -⟩ | hr)
          · exact absurd ⟨ho.symm, hb⟩ hnew
          · exact hr
        · exact .inr

end XKernel.Locks
