import XKernel.Seccomp.Filter
/-!
# The strict allowlist

`strict_allowlist` compiles a list of system calls to a load, one comparison each and two returns. From the comparison
at any index the rest of the program decides membership in the rest of the list.
-/

namespace XKernel.Seccomp

open XKernel.Lib List

def nrOffset : Nat := 0

/-- The comparison with `nr`: a match jumps over the comparisons behind it and the deny return. -/
def compareInsn (len i : Nat) (nr : UInt32) : SockFilter := ⟨bpfJmp ||| bpfJeq ||| bpfK, UInt8.ofNat (len - i), 0, nr⟩

def retInsn (value : UInt32) : SockFilter := ⟨bpfRet ||| bpfK, 0, 0, value⟩

/-- `SeccompFilter::strict_allowlist`, which does not call `validate`. -/
def strictAllowlist (nrs : List UInt32) : Except SeccompFilterError (List SockFilter) :=
  if nrs.length > bpfMaxinsns ∨ nrs.length > 255 then .error .tooManyInstructions
  else .ok (⟨bpfLd ||| bpfW ||| bpfAbs, 0, 0, UInt32.ofNat nrOffset⟩ :: nrs.mapIdx (compareInsn nrs.length) ++
    [retInsn seccompRetKillThread, retInsn seccompRetAllow])

section

variable {nrs : List UInt32} {program : List SockFilter} {data : Bytes} {m : Machine} {i n : Nat}

/-- What stands where in the program. -/
theorem strictAllowlist_layout (h : strictAllowlist nrs = .ok program) :
    nrs.length ≤ 255 ∧ program.length = nrs.length + 3 ∧
    program[0]? = some ⟨bpfLd ||| bpfW ||| bpfAbs, 0, 0, UInt32.ofNat nrOffset⟩ ∧
    (∀ i, i < nrs.length → program[i + 1]? = nrs[i]?.map (compareInsn nrs.length i)) ∧
    program[nrs.length + 1]? = some (retInsn seccompRetKillThread) ∧
    program[nrs.length + 2]? = some (retInsn seccompRetAllow) := by
  unfold strictAllowlist at h
  split at h
  · cases h
  · cases h
    refine ⟨by omega, by simp, rfl, fun i hi => ?_, ?_, ?_⟩
    · rw [cons_append, getElem?_cons_succ, getElem?_append_left (by simpa using hi), getElem?_mapIdx]
    · simp
    · simp

section

variable (nr value : UInt32)

theorem compareInsn_class : classOf (compareInsn n i nr).code = bpfJmp :=
  (by decide : classOf (bpfJmp ||| bpfJeq ||| bpfK) = bpfJmp)

theorem compareInsn_op : opOf (compareInsn n i nr).code = bpfJeq :=
  (by decide : opOf (bpfJmp ||| bpfJeq ||| bpfK) = bpfJeq)

theorem compareInsn_src : srcOf (compareInsn n i nr).code = bpfK :=
  (by decide : srcOf (bpfJmp ||| bpfJeq ||| bpfK) = bpfK)

theorem compareInsn_jt (h : n - i ≤ 255) : (compareInsn n i nr).jt.toNat = n - i :=
  UInt8.toNat_ofNat_of_lt' (Nat.lt_succ_of_le h)

theorem retInsn_class : classOf (retInsn value).code = bpfRet := (by decide : classOf (bpfRet ||| bpfK) = bpfRet)

theorem retInsn_size : sizeOfCode (retInsn value).code = 0 := (by decide : sizeOfCode (bpfRet ||| bpfK) = 0)

theorem execute_compareInsn (h : n - i ≤ 255) :
    execute data (compareInsn n i nr) m = .goes { m with pc := m.pc + (if m.a = nr then n - i else 0) + 1 } := by
  simp [execute, rhsOf, takenOf, compareInsn_class, compareInsn_op, compareInsn_src, compareInsn_jt nr h, bpfJmp, bpfLd,
    bpfLdx, bpfSt, bpfStx, bpfAlu, bpfJeq, bpfJa, bpfK, bpfX]
  rfl

theorem execute_retInsn : execute data (retInsn value) m = .halts value := by
  simp [execute, retInsn_class, retInsn_size, bpfRet, bpfLd, bpfLdx, bpfSt, bpfStx, bpfAlu, bpfJmp, sizeA]
  rfl

end

theorem run_at (data : Bytes) (insn : SockFilter) (hi : program[m.pc]? = some insn) :
    (runLoop program data).exit m = none ∧ (runLoop program data).body m = execute data insn m := by
  have hlt := (List.getElem?_eq_some_iff.1 hi).1
  exact ⟨if_pos hlt, by simp only [runLoop, hi]⟩

theorem run_ret (value : UInt32) (hi : program[m.pc]? = some (retInsn value)) (n : Nat) :
    (runLoop program data).run (n + 1) m = some value := by
  obtain ⟨hexit, hbody⟩ := run_at data _ hi
  exact Loop.run_succ_halts hexit (hbody.trans (execute_retInsn value)) n

/-- The program from the comparison with the `i`-th number on. -/
theorem run_comparisons (h : strictAllowlist nrs = .ok program) (rest : List UInt32) (hrest : nrs.drop i = rest)
    (hpc : m.pc = i + 1) (hi : i ≤ nrs.length) (hn : rest.length + 1 < n) :
    (runLoop program data).run n m = some (if m.a ∈ rest then seccompRetAllow else seccompRetKillThread) := by
  obtain ⟨hlen, -, -, hcompare, hkill, hallow⟩ := strictAllowlist_layout h
  induction rest generalizing i m n with
  | nil =>
    obtain rfl : i = nrs.length := le_antisymm hi (drop_eq_nil_iff.1 hrest)
    obtain ⟨n, rfl⟩ := Nat.exists_eq_succ_of_ne_zero (Nat.ne_zero_of_lt hn)
    rw [run_ret _ (by rw [hpc, hkill])]
    simp
  | cons nr rest ih =>
    obtain ⟨n, rfl⟩ := Nat.exists_eq_succ_of_ne_zero (Nat.ne_zero_of_lt hn)
    obtain ⟨n, rfl⟩ := Nat.exists_eq_succ_of_ne_zero (n := n) (by omega)
    have hlt : i < nrs.length := by
      by_contra hge
      rw [drop_eq_nil_of_le (by omega)] at hrest
      cases hrest
    have hnr : nrs[i]? = some nr := by
      rw [← Nat.add_zero i, ← getElem?_drop, hrest]
      rfl
    obtain ⟨hexit, hbody⟩ := run_at data (compareInsn nrs.length i nr) (by rw [hpc, hcompare i hlt, hnr]; rfl)
    rw [execute_compareInsn nr (by omega)] at hbody
    rw [Loop.run_succ_goes hexit hbody]
    by_cases ha : m.a = nr
    · rw [run_ret seccompRetAllow (by rw [← hallow]; congr 1; simp only [ha, hpc, if_true]; omega),
        if_pos (by rw [ha]; exact mem_cons_self)]
    · rw [ih (i := i + 1) (by rw [← tail_drop, hrest, tail_cons]) (by simp [ha, hpc]) hlt
        (by rw [length_cons] at hn; omega)]
      simp [ha]

theorem strictAllowlist_valid (h : strictAllowlist nrs = .ok program) : validate program = .ok () := by
  obtain ⟨hlen, hlength, hload, hcompare, hkill, hallow⟩ := strictAllowlist_layout h
  refine validateFrom_eq_ok.2 fun pc insn hpc => ?_
  have hlt := (List.getElem?_eq_some_iff.1 hpc).1
  rw [Nat.zero_add, hlength]
  rcases pc with - | i
  · cases hload.symm.trans hpc
    rfl
  obtain hi | rfl | rfl : i < nrs.length ∨ i = nrs.length ∨ i = nrs.length + 1 := by omega
  · obtain ⟨nr, -, rfl⟩ := Option.map_eq_some_iff.1 ((hcompare i hi).symm.trans hpc)
    have hjt := compareInsn_jt nr (n := nrs.length) (i := i) (by omega)
    have hjf : (compareInsn nrs.length i nr).jf.toNat = 0 := rfl
    simp [validInstruction, compareInsn_class, compareInsn_op, hjt, hjf, bpfJmp, bpfLd, bpfLdx, bpfSt, bpfStx, bpfAlu,
      bpfJeq, bpfJa]
    omega
  · cases hkill.symm.trans hpc
    rfl
  · cases hallow.symm.trans hpc
    rfl

end

/-- The strict program is valid, returns on every snapshot, and lets through the listed system calls only. -/
theorem strictAllowlist_exact (nrs : List UInt32) (hlen : nrs.length ≤ 255) :
    ∃ program, strictAllowlist nrs = .ok program ∧ validate program = .ok () ∧ ∀ data,
      run program.length program data =
        some (if loadWord data nrOffset ∈ nrs then seccompRetAllow else seccompRetKillThread) := by
  have hok : ¬ (nrs.length > bpfMaxinsns ∨ nrs.length > 255) := by
    unfold bpfMaxinsns
    omega
  obtain ⟨program, h⟩ : ∃ program, strictAllowlist nrs = .ok program := ⟨_, if_neg hok⟩
  obtain ⟨-, hlength, hload, -⟩ := strictAllowlist_layout h
  refine ⟨program, h, strictAllowlist_valid h, fun data => ?_⟩
  obtain ⟨hexit, hbody⟩ := run_at data (m := .start) _ hload
  rw [run, if_neg (by rw [List.isEmpty_iff]; rintro rfl; cases hlength), hlength, Loop.run_succ_goes hexit
    (hbody.trans rfl), run_comparisons h nrs rfl rfl (Nat.zero_le _) (by omega)]
  rfl

theorem strictAllowlist_exact_sample : ∃ program, strictAllowlist [63, 64, 93, 139, 64] = .ok program ∧
    run 8 program (64 :: replicate 63 0) = some seccompRetAllow ∧
    run 8 program (56 :: replicate 63 0) = some seccompRetKillThread := by
  obtain ⟨program, h, -, hrun⟩ := strictAllowlist_exact [63, 64, 93, 139, 64] (by decide)
  have hlength : program.length = 8 := (strictAllowlist_layout h).2.1
  rw [hlength] at hrun
  exact ⟨program, h, hrun _, hrun _⟩

end XKernel.Seccomp
