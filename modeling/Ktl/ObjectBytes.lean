import Ktl.ByteMemory

/-!
Objects of one size in a byte memory, each at a place of its own, and the ways to
write them: one by one, as one copy of bytes, and by one byte everywhere.
-/
namespace Ktl.ObjectBytes

open ByteMemory

variable {α : Type} {size : Nat}

def Apart (a : BitVec 64) (m : Nat) (b : BitVec 64) (n : Nat) : Prop :=
  ∀ k < m, n ≤ (offset a k - b).toNat

theorem Apart.symm (h : Apart a m b n) (hn : n ≤ 2 ^ 64) : Apart b n a m := by
  intro k hk
  by_contra hinside
  -- a common byte is the byte `k` from `b` on, and some byte from `a` on
  have hsame : offset a (offset b k - a).toNat = offset b k := by
    rw [offset, BitVec.ofNat_toNat, BitVec.setWidth_eq, BitVec.add_comm, BitVec.sub_add_cancel]
  have hfar := h _ (not_le.mp hinside)
  rw [hsame, offset_sub_toNat b (hk.trans_le hn)] at hfar
  omega

def Separate (place : Nat → BitVec 64) (size n : Nat) : Prop :=
  ∀ i < n, ∀ j < n, i ≠ j → Apart (place i) size (place j) size

def element (base : BitVec 64) (size i : Nat) : BitVec 64 := offset base (i * size)

theorem offset_element (base : BitVec 64) (size i k : Nat) :
    offset (element base size i) k = offset base (i * size + k) :=
  offset_offset base (i * size) k

theorem byte_lt (hi : i < n) (hk : k < size) : i * size + k < n * size := by
  have hnext := Nat.mul_le_mul_right size hi
  rw [Nat.succ_mul] at hnext
  omega

theorem byte_lt_add (hk : k < n * size) : i * size + k < (i + n) * size := by
  rw [Nat.add_mul]
  omega

theorem sub_offset_toNat_of_lt (base : BitVec 64) (hij : i < j) (hj : j < 2 ^ 64) :
    (offset base i - offset base j).toNat = 2 ^ 64 - (j - i) := by
  have hsub : offset base i - offset base j = BitVec.ofNat 64 i - BitVec.ofNat 64 j := by
    unfold offset
    bv_omega
  simp (disch := omega) only [hsub, BitVec.toNat_sub, BitVec.toNat_ofNat, Nat.mod_eq_of_lt,
    Nat.mod_eq_of_lt (hij.trans hj)]
  omega

theorem separate_element (base : BitVec 64) (hroom : n * size ≤ 2 ^ 64) : Separate (element base size) size n := by
  intro i hi j hj hij k hk
  have hbyte := byte_lt hi hk
  rw [offset_element, element]
  rcases Nat.lt_or_gt_of_ne hij with hlt | hgt
  · have hend := Nat.mul_le_mul_right size hj
    have hbefore := byte_lt hlt hk
    rw [Nat.succ_mul] at hend
    rw [sub_offset_toNat_of_lt base hbefore (by omega)]
    omega
  · have hbehind := Nat.mul_le_mul_right size hgt
    have hfar : (offset base (i * size + k) - base).toNat = i * size + k := offset_sub_toNat base (by omega)
    rw [Nat.succ_mul] at hbehind
    rw [sub_offset_toNat (by omega), hfar]
    omega

/-- Values are stored in `size` bytes, which hold the number `code`, the lowest first. -/
structure Layout (α : Type) where
  size : Nat
  size_pos : 0 < size
  size_lt : size < 2 ^ 64
  code : α → Nat
  code_lt : ∀ v, code v < 256 ^ size
  decode : Nat → α
  decode_code : ∀ v, decode (code v) = v

namespace Layout

def read (L : Layout α) (mem : Memory) (a : BitVec 64) : α := L.decode (load mem a L.size)

def write (L : Layout α) (mem : Memory) (a : BitVec 64) (v : α) : Memory := store mem a L.size (L.code v)

def Holds (L : Layout α) (mem : Memory) (a : BitVec 64) (v : α) : Prop := load mem a L.size = L.code v

def HoldsAll (L : Layout α) (mem : Memory) (place : Nat → BitVec 64) (vs : List α) : Prop :=
  ∀ i v, vs[i]? = some v → L.Holds mem (place i) v

def writeAll (L : Layout α) (place : Nat → BitVec 64) : Memory → Nat → List α → Memory
  | mem, _, [] => mem
  | mem, start, v :: vs => L.writeAll place (L.write mem (place start) v) (start + 1) vs

variable {L : Layout α} {place : Nat → BitVec 64}

theorem read_of_holds (h : L.Holds mem a v) : L.read mem a = v := by
  rw [read, h, L.decode_code]

theorem holds_congr (hsame : ∀ k < L.size, mem (offset a k) = mem' (offset a k)) :
    L.Holds mem a v ↔ L.Holds mem' a v := by
  rw [Holds, Holds, load_congr hsame]

theorem holds_write (L : Layout α) (mem : Memory) (a : BitVec 64) (v : α) : L.Holds (L.write mem a v) a v := by
  rw [Holds, write, load_store L.size_lt.le, Nat.mod_eq_of_lt (L.code_lt v)]

theorem write_of_outside (L : Layout α) (mem : Memory) (v : α) (hout : L.size ≤ (x - a).toNat) :
    L.write mem a v x = mem x :=
  store_of_outside hout mem (L.code v)

theorem Holds.write {β : Type} {L' : Layout β} {w : β} (h : L.Holds mem a v) (hapart : Apart a L.size b L'.size) :
    L.Holds (L'.write mem b w) a v :=
  (holds_congr fun k hk => write_of_outside L' mem w (hapart k hk)).mpr h

theorem holds_iff : L.Holds mem a v ↔ ∀ k < L.size, mem (offset a k) = BitVec.ofNat 8 (L.code v / 256 ^ k) := by
  constructor
  · intro h k hk
    rw [← load_byte mem a hk, h]
  · intro hbytes
    have hsame : ∀ k < L.size, mem (offset a k) = L.write mem a v (offset a k) := by
      intro k hk
      rw [hbytes k hk, write, store, offset_sub_toNat a (hk.trans L.size_lt), if_pos hk]
    exact (holds_congr hsame).mpr (holds_write L mem a v)

theorem writeAll_of_outside (vs : List α) (mem : Memory) (start : Nat)
    (hout : ∀ i, start ≤ i → i < start + vs.length → L.size ≤ (x - place i).toNat) :
    L.writeAll place mem start vs x = mem x := by
  induction vs generalizing mem start with
  | nil => rfl
  | cons v vs ih =>
    rw [List.length_cons] at hout
    rw [writeAll, ih _ (start + 1) fun i hi hi' => hout i (by omega) (by omega)]
    exact write_of_outside L mem v (hout start le_rfl (by omega))

theorem holds_writeAll (vs : List α) (mem : Memory) (start : Nat) (hsep : Separate place L.size n)
    (hn : start + vs.length ≤ n) (hv : vs[i]? = some v) :
    L.Holds (L.writeAll place mem start vs) (place (start + i)) v := by
  induction vs generalizing mem start i with
  | nil => cases hv
  | cons w vs ih =>
    rw [List.length_cons] at hn
    rw [writeAll]
    cases i with
    | zero =>
      obtain rfl : w = v := Option.some.inj hv
      -- the later objects have no byte of this one
      apply (holds_congr _).mpr (holds_write L mem (place start) w)
      intro k hk
      apply writeAll_of_outside
      intro j hj hj'
      exact hsep start (by omega) j (by omega) (by omega) k hk
    | succ i =>
      have hindex : start + (i + 1) = start + 1 + i := by omega
      rw [hindex]
      exact ih _ (start + 1) (by omega) hv

theorem holdsAll_writeAll (vs : List α) (mem : Memory) (hsep : Separate place L.size vs.length) :
    L.HoldsAll (L.writeAll place mem 0 vs) place vs := by
  intro i v hv
  have h := holds_writeAll vs mem 0 hsep (by omega) hv
  rwa [Nat.zero_add] at h

end Layout

def fill (mem : Memory) (a : BitVec 64) (n : Nat) (byte : BitVec 8) : Memory :=
  fun x => if (x - a).toNat < n then byte else mem x

theorem fill_of_outside (byte : BitVec 8) (hout : n ≤ (x - a).toNat) : fill mem a n byte x = mem x :=
  if_neg hout.not_gt

theorem fill_offset (byte : BitVec 8) (hk : k < 2 ^ 64) :
    fill mem a n byte (offset a k) = if k < n then byte else mem (offset a k) := by
  rw [fill, offset_sub_toNat a hk]

end Ktl.ObjectBytes
