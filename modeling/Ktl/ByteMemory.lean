import Mathlib.Data.BitVec

/-!
A byte memory under 64-bit addresses that wrap around, with little-endian loads and stores.
-/
namespace Ktl.ByteMemory

open Nat

abbrev Memory := BitVec 64 → BitVec 8

abbrev offset (a : BitVec 64) (n : Nat) : BitVec 64 := a + BitVec.ofNat 64 n

/-- The number in `n` bytes, the lowest byte first. -/
def load (mem : Memory) (a : BitVec 64) : Nat → Nat
  | 0 => 0
  | n + 1 => load mem a n + 256 ^ n * (mem (offset a n)).toNat

def store (mem : Memory) (a : BitVec 64) (n value : Nat) : Memory := fun x =>
  if (x - a).toNat < n then BitVec.ofNat 8 (value / 256 ^ (x - a).toNat) else mem x

def copy (mem : Memory) (dst src : BitVec 64) (n : Nat) : Memory := fun x =>
  if (x - dst).toNat < n then mem (src + (x - dst)) else mem x

def load32 (mem : Memory) (a : BitVec 64) : BitVec 32 := BitVec.ofNat 32 (load mem a 4)

def load64 (mem : Memory) (a : BitVec 64) : BitVec 64 := BitVec.ofNat 64 (load mem a 8)

def store32 (mem : Memory) (a : BitVec 64) (value : BitVec 32) : Memory := store mem a 4 value.toNat

def store64 (mem : Memory) (a : BitVec 64) (value : BitVec 64) : Memory := store mem a 8 value.toNat

theorem offset_offset (a : BitVec 64) (m n : Nat) : offset (offset a m) n = offset a (m + n) := by
  rw [offset, offset, offset, BitVec.add_assoc, ← BitVec.ofNat_add]
theorem offset_sub_toNat (a : BitVec 64) (hn : n < 2 ^ 64) : (offset a n - a).toNat = n := by
  rw [offset, BitVec.add_comm, BitVec.add_sub_cancel, BitVec.toNat_ofNat, mod_eq_of_lt hn]

theorem load_congr (hsame : ∀ i < n, mem (offset a i) = mem' (offset a i)) : load mem a n = load mem' a n := by
  induction n with
  | zero => rfl
  | succ n ih =>
    rw [load, load, ih fun i hi => hsame i (lt_succ_of_lt hi), hsame n (lt_succ_self n)]

theorem load_add (mem : Memory) (a : BitVec 64) (m n : Nat) :
    load mem a (m + n) = load mem a m + 256 ^ m * load mem (offset a m) n := by
  induction n with
  | zero => rfl
  | succ n ih =>
    rw [← Nat.add_assoc, load, ih, load, offset_offset, Nat.mul_add, ← Nat.mul_assoc, ← Nat.pow_add, Nat.add_assoc]

theorem load_lt (mem : Memory) (a : BitVec 64) (n : Nat) : load mem a n < 256 ^ n := by
  induction n with
  | zero => exact Nat.one_pos
  | succ n ih =>
    have hbyte := le_of_lt_succ (mem (offset a n)).isLt
    have hscaled := Nat.mul_le_mul_left (256 ^ n) hbyte
    rw [load, Nat.pow_succ]
    omega

theorem store_of_outside (hout : n ≤ (x - a).toNat) (mem : Memory) (value : Nat) : store mem a n value x = mem x :=
  if_neg hout.not_gt

theorem load_store_of_disjoint (hout : ∀ i < m, n ≤ (offset b i - a).toNat) (value : Nat) :
    load (store mem a n value) b m = load mem b m :=
  load_congr fun i hi => store_of_outside (hout i hi) mem value

theorem load_store (hn : n ≤ 2 ^ 64) (mem : Memory) (a : BitVec 64) (value : Nat) :
    load (store mem a n value) a n = value % 256 ^ n := by
  -- the store is fixed, the number of bytes read grows up to its length
  suffices hpart : ∀ k ≤ n, load (store mem a n value) a k = value % 256 ^ k from hpart n le_rfl
  intro k hk
  induction k with
  | zero => rw [load, Nat.pow_zero, mod_one]
  | succ k ih =>
    have hbyte : (store mem a n value (offset a k)).toNat = value / 256 ^ k % 256 := by
      have hoff := offset_sub_toNat a (n := k) (by omega)
      rw [store, hoff, if_pos (lt_of_succ_le hk), BitVec.toNat_ofNat]
    rw [load, ih (le_of_succ_le hk), hbyte, mod_pow_succ]

theorem load_byte (mem : Memory) (a : BitVec 64) (hi : i < n) :
    BitVec.ofNat 8 (load mem a n / 256 ^ i) = mem (offset a i) := by
  obtain ⟨k, rfl⟩ : ∃ k, n = i + (1 + k) := ⟨n - i - 1, by omega⟩
  have hfirst : load mem (offset a i) 1 = (mem (offset a i)).toNat := by
    simp [load]
  rw [load_add, add_mul_div_left _ _ (Nat.pow_pos (by decide)), div_eq_of_lt (load_lt mem a i),
    Nat.zero_add, load_add, hfirst]
  apply BitVec.eq_of_toNat_eq
  rw [BitVec.toNat_ofNat]
  omega

theorem copy_eq_store (mem : Memory) (dst src : BitVec 64) (n : Nat) :
    copy mem dst src n = store mem dst n (load mem src n) := by
  funext x
  rw [copy, store]
  split_ifs with hin
  · rw [load_byte mem src hin, offset, BitVec.ofNat_toNat, BitVec.setWidth_eq]
  · rfl

theorem copy_eq_self_iff (hn : n ≤ 2 ^ 64) :
    copy mem dst src n = mem ↔ ∀ i < n, mem (offset dst i) = mem (offset src i) := by
  constructor
  · intro hsame i hi
    have hbyte := congrFun hsame (offset dst i)
    rw [copy, offset_sub_toNat dst (by omega), if_pos hi] at hbyte
    rw [← hbyte, offset, BitVec.add_comm dst, BitVec.add_sub_cancel]
  · intro hbytes
    funext x
    rw [copy]
    split_ifs with hin
    · have hbyte := hbytes _ hin
      rw [offset, offset, BitVec.ofNat_toNat, BitVec.setWidth_eq, BitVec.add_comm, BitVec.sub_add_cancel] at hbyte
      exact hbyte.symm
    · rfl

theorem halves_of_load64_eq (h : load64 mem a = load64 mem' b) :
    load32 mem a = load32 mem' b ∧ load32 mem (offset a 4) = load32 mem' (offset b 4) := by
  have hword := congrArg BitVec.toNat h
  have hlow := load_lt mem a 4
  have hlow' := load_lt mem' b 4
  have hhigh := load_lt mem (offset a 4) 4
  have hhigh' := load_lt mem' (offset b 4) 4
  simp only [load64, load_add _ _ 4 4, BitVec.toNat_ofNat] at hword
  have hparts : load mem a 4 = load mem' b 4 ∧ load mem (offset a 4) 4 = load mem' (offset b 4) 4 := by
    omega
  simp [load32, hparts]

theorem load64_store64 (mem : Memory) (a value : BitVec 64) : load64 (store64 mem a value) a = value := by
  have hfit : value.toNat < 256 ^ 8 := value.isLt
  rw [load64, store64, load_store (by decide), mod_eq_of_lt hfit, BitVec.ofNat_toNat, BitVec.setWidth_eq]

theorem copy_eq_store64 (mem : Memory) (dst src : BitVec 64) :
    copy mem dst src 8 = store64 mem dst (load64 mem src) := by
  have hfit : load mem src 8 < 2 ^ 64 := load_lt mem src 8
  rw [copy_eq_store, store64, load64, BitVec.toNat_ofNat, mod_eq_of_lt hfit]

theorem store64_inj : store64 mem a value = store64 mem a value' ↔ value = value' := by
  constructor
  · intro hsame
    rw [← load64_store64 mem a value, hsame, load64_store64]
  · exact congrArg _

theorem store64_eq_self_iff : store64 mem a value = mem ↔ load64 mem a = value := by
  have hself : store64 mem a (load64 mem a) = mem := by
    rw [← copy_eq_store64, copy_eq_self_iff (by decide)]
    exact fun _ _ => rfl
  constructor
  · intro hsame
    rw [← hsame, load64_store64]
  · rintro rfl
    exact hself

theorem load32_store32 (mem : Memory) (a : BitVec 64) (value : BitVec 32) : load32 (store32 mem a value) a = value := by
  have hfit : value.toNat < 256 ^ 4 := value.isLt
  rw [load32, store32, load_store (by decide), mod_eq_of_lt hfit, BitVec.ofNat_toNat, BitVec.setWidth_eq]

theorem sub_offset_toNat (hk : k ≤ (x - a).toNat) : (x - offset a k).toNat = (x - a).toNat - k := by
  have hsub : x - offset a k = x - a - BitVec.ofNat 64 k := by
    unfold offset
    bv_omega
  rw [hsub, BitVec.toNat_sub_of_le]
  · rw [BitVec.toNat_ofNat, mod_eq_of_lt (by omega)]
  · rw [BitVec.le_def, BitVec.toNat_ofNat, mod_eq_of_lt (by omega)]
    exact hk

theorem store_offset_of_outside (hout : k + n ≤ (x - a).toNat) (mem : Memory) (value : Nat) :
    store mem (offset a k) n value x = mem x := by
  apply store_of_outside
  rw [sub_offset_toNat (by omega)]
  omega

end Ktl.ByteMemory
