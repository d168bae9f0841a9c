import XKernel.Lib.Bytes
import XKernel.Lib.Result
/-!
# Errors and the byte codec of `kext4` (`error.rs`, `disk/codec.rs`, `disk/checksum.rs`)

Lengths and offsets are `usize` in the source. They are bounded by the length of a buffer,
so the checked additions on them do not fail, and they are numbers here.
-/

namespace XKernel.Ext4

open XKernel.Lib Function List Bytes

inductive CorruptKind where
  | truncated
  | invalidJournal
  | invalidDirectoryEntry
  deriving DecidableEq, Repr

inductive UnsupportedKind where
  | journalTooLarge
  | deletedJournalUpdate
  | largeDir
  deriving DecidableEq, Repr

inductive ChecksumTarget where
  | journalSuperblock
  | journalBlock (block : Nat)
  deriving DecidableEq, Repr

inductive Ext4Error where
  | journalAborted
  | insufficientJournalCredits
  | noSpace
  | notFound
  | journalBusy
  | invalidJournalTransaction
  | overflow
  | invalidBufferLength (expected actual : Nat)
  | outOfBounds
  | unsupportedJournalFeature (compat incompat readOnlyCompat : UInt32)
  | unsupported (kind : UnsupportedKind)
  | checksumMismatch (target : ChecksumTarget) (expected actual : UInt32)
  | corrupt (kind : CorruptKind)
  deriving DecidableEq, Repr

abbrev Ext4Result := Except Ext4Error

/-! ## Numbers in a buffer -/

/-- `codec::bytes`. -/
def bytes (n : Nat) (input : Bytes) (offset : Nat) : Ext4Result Bytes :=
  okOr (get n offset input) (.corrupt .truncated)

def beU16 (input : Bytes) (offset : Nat) : Ext4Result UInt16 := do
  return UInt16.ofNat (ofBe (← bytes 2 input offset))

def beU32 (input : Bytes) (offset : Nat) : Ext4Result UInt32 := do
  return UInt32.ofNat (ofBe (← bytes 4 input offset))

def beU64 (input : Bytes) (offset : Nat) : Ext4Result UInt64 := do
  return UInt64.ofNat (ofBe (← bytes 8 input offset))

def UInt16.toBeBytes (v : UInt16) : Bytes := toBe 2 v.toNat

def UInt32.toBeBytes (v : UInt32) : Bytes := toBe 4 v.toNat

def UInt64.toBeBytes (v : UInt64) : Bytes := toBe 8 v.toNat

variable (crc : UInt32) (error : Ext4Error) (offset : Nat)

/-- The body of the `put_be_*` functions, which differ in the number's width and in the
error for a field outside the buffer. -/
def putBytes (output : Bytes) (offset : Nat) (value : Bytes) : Ext4Result Bytes :=
  okOr (put value offset output) error

/-- `vec![0; n]`. -/
def zeros (n : Nat) : Bytes := List.replicate n 0

/-! ## CRC32C -/

def crc32cPolynomial : UInt32 := 0x82f63b78

def crc32cBit : UInt32 :=
  let mask := 0 - (crc &&& 1)
  (crc >>> 1) ^^^ (crc32cPolynomial &&& mask)

def crc32cByte (byte : UInt8) : UInt32 :=
  crc32cBit^[8] (crc ^^^ byte.toUInt32)

def crc32c (bytes : Bytes) : UInt32 := bytes.foldl crc32cByte crc

/-! ## Lemmas -/

@[simp]
theorem UInt16.length_toBeBytes (v : UInt16) : (UInt16.toBeBytes v).length = 2 := length_toBe _ _

@[simp]
theorem UInt32.length_toBeBytes (v : UInt32) : (UInt32.toBeBytes v).length = 4 := length_toBe _ _

@[simp]
theorem UInt64.length_toBeBytes (v : UInt64) : (UInt64.toBeBytes v).length = 8 := length_toBe _ _

@[simp]
theorem length_zeros (n : Nat) : (zeros n).length = n := length_replicate

theorem zeros_add (m n : Nat) : zeros (m + n) = zeros m ++ zeros n := replicate_add m n 0

variable {off : Nat}

variable {input : Bytes}

theorem bytes_of_holds {v : Bytes} {n : Nat} (h : Bytes.Holds input off v) (hn : v.length = n) :
    bytes n input off = .ok v := by
  rw [bytes, h.get hn, okOr_some]

/-- A number that was written at `off` is read back. -/
theorem beU16_of_holds {v : UInt16} (h : Bytes.Holds input off (UInt16.toBeBytes v)) : beU16 input off = .ok v := by
  rw [beU16, bytes_of_holds h (UInt16.length_toBeBytes v), ok_bind, UInt16.toBeBytes, ofBe_toBe]
  have hv : v.toNat % 256 ^ 2 = v.toNat := Nat.mod_eq_of_lt v.toNat_lt
  rw [hv, UInt16.ofNat_toNat, pure_eq_ok]

theorem beU32_of_holds {v : UInt32} (h : Bytes.Holds input off (UInt32.toBeBytes v)) : beU32 input off = .ok v := by
  rw [beU32, bytes_of_holds h (UInt32.length_toBeBytes v), ok_bind, UInt32.toBeBytes, ofBe_toBe]
  have hv : v.toNat % 256 ^ 4 = v.toNat := Nat.mod_eq_of_lt v.toNat_lt
  rw [hv, UInt32.ofNat_toNat, pure_eq_ok]

theorem beU64_of_holds {v : UInt64} (h : Bytes.Holds input off (UInt64.toBeBytes v)) : beU64 input off = .ok v := by
  rw [beU64, bytes_of_holds h (UInt64.length_toBeBytes v), ok_bind, UInt64.toBeBytes, ofBe_toBe]
  have hv : v.toNat % 256 ^ 8 = v.toNat := Nat.mod_eq_of_lt v.toNat_lt
  rw [hv, UInt64.ofNat_toNat, pure_eq_ok]

theorem putBytes_append (pre mid post new : Bytes) (ho : pre.length = off)
    (hn : mid.length = new.length) : putBytes error (pre ++ (mid ++ post)) off new = .ok (pre ++ (new ++ post)) := by
  rw [putBytes, put_append ho hn, okOr_some]

/-- A field written over the zeros behind `pre`. -/
theorem putBytes_zeros (pre v : Bytes) (k : Nat) (ho : pre.length = off)
    (hk : v.length ≤ k) : putBytes error (pre ++ zeros k) off v = .ok ((pre ++ v) ++ zeros (k - v.length)) := by
  have hz : zeros k = zeros v.length ++ zeros (k - v.length) := by rw [← zeros_add, Nat.add_sub_cancel' hk]
  rw [hz, putBytes_append error pre _ _ v ho (by simp), append_assoc]

/-! ## What the checksum tells apart -/

theorem crc32cBit_toNat :
    (crc32cBit crc).toNat =
      if crc.toNat % 2 = 0 then crc.toNat / 2 else (crc.toNat / 2) ^^^ crc32cPolynomial.toNat := by
  have hlow : (crc &&& 1).toNat = crc.toNat % 2 := by
    exact Nat.and_one_is_mod _
  have hshift : (crc >>> 1).toNat = crc.toNat / 2 := by
    rfl
  unfold crc32cBit
  split
  · rename_i heven
    have hzero : crc &&& 1 = 0 := UInt32.toNat_inj.1 (by rw [hlow, heven]; rfl)
    rw [hzero, UInt32.toNat_xor, hshift]
    simp
  · have hone : crc &&& 1 = 1 := UInt32.toNat_inj.1 (by rw [hlow]; have : (1 : UInt32).toNat = 1 := rfl; omega)
    rw [hone, UInt32.toNat_xor, hshift]
    rfl

/-- The top bit of the result tells the bit that was shifted out. -/
theorem crc32cBit_injective : Injective crc32cBit := by
  have htop : ∀ crc : UInt32, (crc32cBit crc).toNat < 2 ^ 31 ↔ crc.toNat % 2 = 0 := by
    intro crc
    have hlt := crc.toNat_lt
    rw [crc32cBit_toNat]
    split
    · rename_i heven
      exact iff_of_true (by omega) heven
    · rename_i hodd
      refine iff_of_false (Nat.not_lt.2 (Nat.ge_two_pow_of_testBit ?_)) hodd
      have hhalf : (crc.toNat / 2).testBit 31 = false := Nat.testBit_lt_two_pow (by omega)
      rw [Nat.testBit_xor, hhalf]
      decide
  intro a b h
  have hparity : a.toNat % 2 = 0 ↔ b.toNat % 2 = 0 := by rw [← htop a, ← htop b, h]
  have hnat : (crc32cBit a).toNat = (crc32cBit b).toNat := congrArg UInt32.toNat h
  rw [crc32cBit_toNat, crc32cBit_toNat] at hnat
  apply UInt32.toNat_inj.1
  by_cases ha : a.toNat % 2 = 0
  · rw [if_pos ha, if_pos (hparity.1 ha)] at hnat
    omega
  · rw [if_neg ha, if_neg (mt hparity.2 ha)] at hnat
    have hhalf : a.toNat / 2 = b.toNat / 2 := by
      rw [← Nat.xor_zero (a.toNat / 2), ← Nat.xor_self crc32cPolynomial.toNat, ← Nat.xor_assoc, hnat, Nat.xor_assoc,
        Nat.xor_self, Nat.xor_zero]
    omega

theorem crc32cByte_injective : Injective (crc32cByte crc) := by
  intro x y h
  have hbits := (crc32cBit_injective.iterate 8) h
  have hxor : x.toUInt32 = y.toUInt32 := by simpa using hbits
  exact UInt8.toNat_inj.1 (by simpa using congrArg UInt32.toNat hxor)

theorem crc32cByte_injective_left (byte : UInt8) : Injective fun crc => crc32cByte crc byte := by
  intro a b h
  simpa using (crc32cBit_injective.iterate 8) h

theorem crc32c_injective (bytes : Bytes) : Injective fun crc => crc32c crc bytes := by
  induction bytes with
  | nil => exact fun _ _ h => h
  | cons b bs ih => exact fun _ _ h => crc32cByte_injective_left b (ih h)

/-- A change of one byte changes the checksum. -/
theorem crc32c_ne (pre post : Bytes) {x y : UInt8} (h : x ≠ y) :
    crc32c crc (pre ++ x :: post) ≠ crc32c crc (pre ++ y :: post) := by
  intro heq
  simp only [crc32c, foldl_append] at heq
  exact h (crc32cByte_injective _ (crc32c_injective post heq))

end XKernel.Ext4
