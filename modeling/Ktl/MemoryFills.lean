import Ktl.ObjectBytes

/-!
`fill_n` and `uninitialized_fill_n` of pointers, with their three ways to write the
elements, and the callers `array::fill` and `vector::insert`. The elements are scalars: for
others the calls of `memset` do not compile.
-/
namespace Ktl.MemoryFills

open ByteMemory ObjectBytes

structure Fillable (α : Type) extends Layout α where
  wmemsetIsSafe : Bool
  memsetIsSafe : Bool
  memsetZeroyingIsSafe : Bool
  size_of_memsetIsSafe : memsetIsSafe = true → size = 1

variable {α γ : Type}

structure Filler (T : Fillable α) (γ : Type) where
  /-- the conversion to the element type -/
  convert : γ → α
  /-- `static_cast<int>(value)` -/
  toInt : γ → Int
  allBitsAreZeroes : γ → Bool
  code_of_zeroes : ∀ v, allBitsAreZeroes v = true → T.code (convert v) = 0
  toInt_of_zeroes : ∀ v, allBitsAreZeroes v = true → BitVec.ofInt 8 (toInt v) = 0

structure OwnFiller (T : Fillable α) extends Filler T α where
  /-- the conversions between elements and `size_type` -/
  toCount : α → Nat
  ofCount : Nat → α
  toCount_lt : ∀ v, toCount v < 2 ^ 64
  convert_eq : ∀ v, convert v = v
  allBitsAreZeroes_iff : ∀ v, allBitsAreZeroes v = true ↔ T.code v = 0
  toInt_of_memsetIsSafe : T.memsetIsSafe = true → ∀ v, BitVec.ofInt 8 (toInt v) = BitVec.ofNat 8 (T.code v)

section

variable {T : Fillable α} (F : Filler T γ) (mem : Memory)

def isMemsetSafe (value : γ) : Bool :=
  T.memsetIsSafe || (T.memsetZeroyingIsSafe && F.allBitsAreZeroes value)

/-- The loop of `fill_n`. -/
def assignEach (first : BitVec 64) (count : Nat) (value : γ) : Memory :=
  T.writeAll (element first T.size) mem 0 (List.replicate count (F.convert value))

/-- `fill_n`: the memory and the returned iterator. `memset` is told the number of
the elements. -/
def fillN (first : BitVec 64) (count : Nat) (value : γ) : Memory × BitVec 64 :=
  if count ≠ 0 then
    if T.wmemsetIsSafe then (assignEach F mem first count value, first)
    else if isMemsetSafe F value then (fill mem first count (BitVec.ofInt 8 (F.toInt value)), first)
    else (assignEach F mem first count value, element first T.size count)
  else (mem, first)

/-- `uninitialized_fill_n`, without an allocator or with one that may construct the
objects itself. -/
def uninitializedFillN (hasConstruct : Option Bool) (first : BitVec 64) (count : Nat) (value : γ) :
    Memory × BitVec 64 :=
  if T.wmemsetIsSafe && !hasConstruct.getD false then (assignEach F mem first count value, first)
  else if isMemsetSafe F value && !hasConstruct.getD false then
    (fill mem first (count * T.size) (BitVec.ofInt 8 (F.toInt value)), first)
  else (assignEach F mem first count value, element first T.size count)

def arrayFill (O : OwnFiller T) (elems : BitVec 64) (size : Nat) (value : α) : Memory :=
  (fillN O.toFiller mem elems size value).1

/-- `vector::insert_n_without_grow`; the elements are transferred and shifted as bytes. -/
def insertNWithoutGrow (O : OwnFiller T) (hasConstruct : Bool) (buffer : BitVec 64) (size count : Nat) (value : α)
    (offset : Nat) : Memory :=
  let slot := element buffer T.size
  let residue := size - offset
  if count ≤ residue then
    let unshifted := residue - count
    let mem := copy mem (slot size) (slot (offset + unshifted)) (count * T.size)
    let mem := if count = 0 then mem else copy mem (slot (offset + count)) (slot offset) (unshifted * T.size)
    (fillN O.toFiller mem (slot offset) count value).1
  else
    let inRawMemory := count - residue
    let mem := (uninitializedFillN O.toFiller mem (some hasConstruct) (slot size) inRawMemory value).1
    let mem := copy mem (slot (size + inRawMemory)) (slot offset) (residue * T.size)
    (fillN O.toFiller mem (slot offset) residue value).1

/-- `vector::insert` with room. At the end the arguments of `append_n_without_grow` are exchanged.
-/
def insertInPlace (O : OwnFiller T) (hasConstruct : Bool) (buffer : BitVec 64) (size count : Nat) (value : α)
    (offset : Nat) : Memory × Nat :=
  if offset = size then
    ((uninitializedFillN O.toFiller mem (some hasConstruct) (element buffer T.size size) (O.toCount value)
        (O.ofCount count)).1,
      (size + O.toCount value) % 2 ^ 64)
  else (insertNWithoutGrow mem O hasConstruct buffer size count value offset, size + count)

end

def Stores (T : Fillable α) (mem : Memory) (first : BitVec 64) (n : Nat) (v : α) : Prop :=
  ∀ i < n, T.Holds mem (element first T.size i) v

def Frames (mem mem' : Memory) (first : BitVec 64) (n : Nat) : Prop :=
  ∀ x : BitVec 64, n ≤ (x - first).toNat → mem' x = mem x

def ZeroedByMemset (T : Fillable α) (v : α) : Prop :=
  T.wmemsetIsSafe = false ∧ T.memsetIsSafe = false ∧ T.memsetZeroyingIsSafe = true ∧ T.code v = 0

def RestIsZero (T : Fillable α) (mem : Memory) (first : BitVec 64) (n : Nat) : Prop :=
  ∀ k, n ≤ k → k < n * T.size → mem (offset first k) = 0

section

variable {T : Fillable α} {F : Filler T γ}


theorem stores_assignEach (F : Filler T γ) (mem : Memory) (first : BitVec 64) (value : γ)
    (hroom : n * T.size ≤ 2 ^ 64) :
    Stores T (assignEach F mem first n value) first n (F.convert value) := by
  have hsep : Separate (element first T.size) T.size (List.replicate n (F.convert value)).length := by
    rw [List.length_replicate]
    exact separate_element first hroom
  intro i hi
  apply Layout.holdsAll_writeAll _ mem hsep
  rw [List.getElem?_replicate, if_pos hi]

theorem frames_assignEach : Frames mem (assignEach F mem first n value) first (n * T.size) := by
  intro x hx
  apply Layout.writeAll_of_outside
  intro i _ hi
  rw [Nat.zero_add, List.length_replicate] at hi
  have hend := Nat.mul_le_mul_right T.size hi
  rw [Nat.succ_mul] at hend
  rw [element, sub_offset_toNat (by omega)]
  omega

theorem stores_iff : Stores T mem first n v ↔
    ∀ i < n, ∀ k < T.size, mem (offset first (i * T.size + k)) = BitVec.ofNat 8 (T.code v / 256 ^ k) := by
  constructor
  · intro h i hi k hk
    rw [← offset_element]
    exact Layout.holds_iff.mp (h i hi) k hk
  · intro h i hi
    rw [Layout.holds_iff]
    intro k hk
    rw [offset_element]
    exact h i hi k hk

theorem stores_zero_iff (hcode : T.code v = 0) :
    Stores T mem first n v ↔ ∀ k < n * T.size, mem (offset first k) = 0 := by
  rw [stores_iff]
  simp only [hcode, Nat.zero_div]
  constructor
  · intro h k hk
    have hlt : k / T.size < n := Nat.div_lt_of_lt_mul (by rwa [Nat.mul_comm])
    have hbyte := h (k / T.size) hlt (k % T.size) (Nat.mod_lt k T.size_pos)
    rwa [Nat.mul_comm, Nat.div_add_mod] at hbyte
  · intro h i hi k hk
    exact h _ (byte_lt hi hk)

theorem stores_fill_zero_iff (hroom : n * T.size ≤ 2 ^ 64) (hcode : T.code v = 0) :
    Stores T (fill mem first m 0) first n v ↔ ∀ k, m ≤ k → k < n * T.size → mem (offset first k) = 0 := by
  rw [stores_zero_iff hcode]
  constructor
  · intro h k hm hk
    have hbyte := h k hk
    rwa [fill_offset 0 (by omega), if_neg hm.not_gt] at hbyte
  · intro h k hk
    rw [fill_offset 0 (by omega)]
    split
    · rfl
    · exact h k (by omega) hk

theorem frames_fill (byte : BitVec 8) (hm : m ≤ n) : Frames mem (fill mem first m byte) first n :=
  fun _ hx => fill_of_outside byte (hm.trans hx)
theorem frames_copy (mem : Memory) (dst src : BitVec 64) (n : Nat) : Frames mem (copy mem dst src n) dst n :=
  fun _ hx => if_neg hx.not_gt

theorem frames_fillN (F : Filler T γ) (mem : Memory) (first : BitVec 64) (n : Nat) (value : γ) :
    Frames mem (fillN F mem first n value).1 first (n * T.size) := by
  have hbytes : n ≤ n * T.size := Nat.le_mul_of_pos_right n T.size_pos
  rw [fillN]
  split
  · split
    · exact frames_assignEach
    · split
      · exact frames_fill _ hbytes
      · exact frames_assignEach
  · exact fun _ _ => rfl

theorem frames_uninitializedFillN (F : Filler T γ) (mem : Memory) (hasConstruct : Option Bool) (first : BitVec 64)
    (n : Nat) (value : γ) : Frames mem (uninitializedFillN F mem hasConstruct first n value).1 first (n * T.size) := by
  rw [uninitializedFillN]
  split
  · exact frames_assignEach
  · split
    · exact frames_fill _ le_rfl
    · exact frames_assignEach

theorem isMemsetSafe_iff (O : OwnFiller T) (v : α) (hwide : T.wmemsetIsSafe = false) :
    isMemsetSafe O.toFiller v = true ↔ T.memsetIsSafe = true ∨ ZeroedByMemset T v := by
  have hzeroes := O.allBitsAreZeroes_iff v
  rw [isMemsetSafe, Bool.or_eq_true, Bool.and_eq_true, hzeroes, ZeroedByMemset]
  cases T.memsetIsSafe <;> simp [hwide]

theorem stores_assignEach_own (O : OwnFiller T) (mem : Memory) (first : BitVec 64) (v : α)
    (hroom : n * T.size ≤ 2 ^ 64) :
    Stores T (assignEach O.toFiller mem first n v) first n v := by
  have h := stores_assignEach O.toFiller mem first v hroom
  rwa [O.convert_eq] at h

theorem stores_memset_iff (O : OwnFiller T) (hm : n ≤ m) (hwide : T.wmemsetIsSafe = false)
    (hsafe : isMemsetSafe O.toFiller v = true) (hroom : n * T.size ≤ 2 ^ 64) :
    Stores T (fill mem first m (BitVec.ofInt 8 (O.toInt v))) first n v ↔
      (ZeroedByMemset T v → ∀ k, m ≤ k → k < n * T.size → mem (offset first k) = 0) := by
  rcases (isMemsetSafe_iff O v hwide).mp hsafe with hbytes | hzero
  · have hsize := T.size_of_memsetIsSafe hbytes
    have hnone : ¬ ZeroedByMemset T v := fun h => by simp [h.2.1] at hbytes
    rw [O.toInt_of_memsetIsSafe hbytes, stores_iff]
    constructor
    · exact fun _ h => absurd h hnone
    · intro _ i hi k hk
      have hk0 : k = 0 := by omega
      rw [hsize] at hroom ⊢
      rw [hk0, fill_offset _ (by omega), if_pos (by omega), Nat.pow_zero, Nat.div_one]
  · have hcode : T.code v = 0 := hzero.2.2.2
    rw [O.toInt_of_zeroes v ((O.allBitsAreZeroes_iff v).mpr hcode), stores_fill_zero_iff hroom hcode]
    exact ⟨fun h _ => h, fun h => h hzero⟩

theorem stores_fillN_iff (O : OwnFiller T) (v : α) (hroom : n * T.size ≤ 2 ^ 64) :
    Stores T (fillN O.toFiller mem first n v).1 first n v ↔ (ZeroedByMemset T v → RestIsZero T mem first n) := by
  have heach := stores_assignEach_own O mem first v hroom
  rw [fillN]
  split
  · split
    · rename_i hwide
      have hnone : ¬ ZeroedByMemset T v := fun h => by simp [h.1] at hwide
      exact iff_of_true heach fun h => absurd h hnone
    · rename_i hwide
      rw [Bool.not_eq_true] at hwide
      split_ifs with hsafe
      · exact stores_memset_iff O (Nat.le_refl n) hwide hsafe hroom
      · have hnone : ¬ ZeroedByMemset T v := fun h => hsafe ((isMemsetSafe_iff O v hwide).mpr (.inr h))
        exact iff_of_true heach fun h => absurd h hnone
  · rename_i hn
    obtain rfl : n = 0 := Decidable.not_not.mp hn
    exact iff_of_true (fun i hi => absurd hi (Nat.not_lt_zero i)) fun _ k _ hk => by omega

theorem stores_uninitializedFillN (O : OwnFiller T) (hasConstruct : Option Bool) (v : α) (hroom : n * T.size ≤ 2 ^ 64) :
    Stores T (uninitializedFillN O.toFiller mem hasConstruct first n v).1 first n v := by
  have heach := stores_assignEach_own O mem first v hroom
  rw [uninitializedFillN]
  split
  · exact heach
  · rename_i hwide
    split_ifs with hsafe
    · obtain ⟨hsafe, halloc⟩ := Bool.and_eq_true_iff.mp hsafe
      have hwide : T.wmemsetIsSafe = false := by simpa [halloc] using hwide
      rw [stores_memset_iff O (Nat.le_mul_of_pos_right n T.size_pos) hwide hsafe hroom]
      intro _ k hk hk'
      omega
    · exact heach

end

section

variable {T : Fillable α} {mem mem' : Memory}

theorem Frames.before (h : Frames mem mem' (element base size d) (n * size)) (hk : k < d * size)
    (hroom : (d + n) * size < 2 ^ 64) : mem' (offset base k) = mem (offset base k) := by
  rw [Nat.add_mul] at hroom
  apply h
  rw [element, sub_offset_toNat_of_lt base hk (by omega)]
  omega

theorem Frames.behind (h : Frames mem mem' (element base size d) (n * size)) (hk : (d + n) * size ≤ k)
    (hroom : k < 2 ^ 64) : mem' (offset base k) = mem (offset base k) := by
  have hdist := offset_sub_toNat base hroom
  rw [Nat.add_mul] at hk
  apply h
  rw [element, sub_offset_toNat (by omega), hdist]
  omega

section
variable (hsame : ∀ k < n * T.size, mem' (offset first k) = mem (offset first k))
include hsame

theorem restIsZero_congr : RestIsZero T mem' first n ↔ RestIsZero T mem first n := by
  constructor
  · intro h k hk hk'
    rw [← hsame k hk', h k hk hk']
  · intro h k hk hk'
    rw [hsame k hk', h k hk hk']

theorem stores_congr : Stores T mem' first n v ↔ Stores T mem first n v := by
  rw [stores_iff, stores_iff]
  constructor
  · intro h i hi k hk
    rw [← hsame _ (byte_lt hi hk), h i hi k hk]
  · intro h i hi k hk
    rw [hsame _ (byte_lt hi hk), h i hi k hk]

end

theorem element_element (base : BitVec 64) (size i j : Nat) :
    element (element base size i) size j = element base size (i + j) := by
  rw [element, element, element, offset_offset, Nat.add_mul]

theorem stores_add : Stores T mem first (m + n) v ↔ Stores T mem first m v ∧
    Stores T mem (element first T.size m) n v := by
  constructor
  · intro h
    constructor
    · exact fun i hi => h i (by omega)
    · intro i hi
      rw [element_element]
      exact h (m + i) (by omega)
  · rintro ⟨hfront, hback⟩ i hi
    by_cases him : i < m
    · exact hfront i him
    · have h := hback (i - m) (by omega)
      rwa [element_element, Nat.add_sub_cancel' (by omega)] at h

section
variable (O : OwnFiller T) (mem : Memory) (hasConstruct : Bool) (buffer : BitVec 64) (v : α) {offset : Nat}

theorem stores_insertNWithoutGrow_of_le (hcount : count ≤ size - offset) (hoff : offset ≤ size)
    (hroom : (size + count) * T.size < 2 ^ 64) :
    Stores T (insertNWithoutGrow mem O hasConstruct buffer size count v offset) (element buffer T.size offset) count v ↔
      (ZeroedByMemset T v → RestIsZero T mem (element buffer T.size offset) count) := by
  have hend : (offset + count) * T.size ≤ size * T.size := Nat.mul_le_mul_right T.size (by omega)
  have hshifted : (offset + count + (size - offset - count)) * T.size < 2 ^ 64 := by
    have : offset + count + (size - offset - count) = size := by omega
    rw [this]
    rw [Nat.add_mul] at hroom
    omega
  have hslots : count * T.size ≤ 2 ^ 64 := by
    rw [Nat.add_mul] at hroom
    omega
  simp only [insertNWithoutGrow, if_pos hcount]
  rw [stores_fillN_iff O v hslots, restIsZero_congr]
  -- the bytes of the slots are the old ones when they are filled
  intro k hk
  rw [offset_element]
  have hk' : offset * T.size + k < (offset + count) * T.size := byte_lt_add hk
  have htransferred := (frames_copy mem (element buffer T.size size)
    (element buffer T.size (offset + (size - offset - count))) (count * T.size)).before (hk'.trans_le hend) hroom
  split
  · exact htransferred
  · exact ((frames_copy _ _ _ _).before hk' hshifted).trans htransferred

theorem stores_insertNWithoutGrow_of_lt (residue inRawMemory : Nat) (hcount : 0 < inRawMemory)
    (hroom : (offset + residue + (residue + inRawMemory)) * T.size < 2 ^ 64) :
    Stores T (insertNWithoutGrow mem O hasConstruct buffer (offset + residue) (residue + inRawMemory) v offset)
        (element buffer T.size offset) (residue + inRawMemory) v ↔
      (ZeroedByMemset T v → RestIsZero T mem (element buffer T.size offset) residue) := by
  have hresidue : offset + residue - offset = residue := by omega
  have hraw : residue + inRawMemory - residue = inRawMemory := by omega
  have hless : ¬ residue + inRawMemory ≤ residue := by omega
  have hslots : (offset + residue + inRawMemory) * T.size < 2 ^ 64 := by
    simp only [Nat.add_mul] at hroom ⊢
    omega
  have hroom' : (offset + residue + inRawMemory + residue) * T.size < 2 ^ 64 := by
    simp only [Nat.add_mul] at hroom ⊢
    omega
  simp only [insertNWithoutGrow, hresidue, hraw, if_neg hless]
  have hbuilt := frames_uninitializedFillN O.toFiller mem (some hasConstruct) (element buffer T.size (offset + residue))
    inRawMemory v
  have hstored : Stores T (uninitializedFillN O.toFiller mem (some hasConstruct)
      (element buffer T.size (offset + residue)) inRawMemory v).1 (element buffer T.size (offset + residue))
        inRawMemory v := by
    apply stores_uninitializedFillN
    simp only [Nat.add_mul] at hslots
    omega
  generalize (uninitializedFillN O.toFiller mem (some hasConstruct) (element buffer T.size (offset + residue))
    inRawMemory v).1 = raw at hbuilt hstored ⊢
  have hcopied := frames_copy raw (element buffer T.size (offset + residue + inRawMemory))
    (element buffer T.size offset) (residue * T.size)
  generalize copy raw _ _ _ = moved at hcopied ⊢
  have hfilled := frames_fillN O.toFiller moved (element buffer T.size offset) residue v
  -- the slots in the raw memory keep the value
  have hback : Stores T (fillN O.toFiller moved (element buffer T.size offset) residue v).1
      (element buffer T.size (offset + residue)) inRawMemory v := by
    apply (stores_congr _).mpr hstored
    intro k hk
    have hk' : (offset + residue) * T.size + k < (offset + residue + inRawMemory) * T.size := byte_lt_add hk
    rw [offset_element, hfilled.behind (Nat.le_add_right _ k) (hk'.trans hslots)]
    exact hcopied.before hk' hroom'
  rw [stores_add, element_element, and_iff_left hback, stores_fillN_iff O v, restIsZero_congr]
  · intro k hk
    have hk' : offset * T.size + k < (offset + residue) * T.size := byte_lt_add hk
    have hlast : (offset + residue) * T.size ≤ (offset + residue + inRawMemory) * T.size :=
      Nat.mul_le_mul_right T.size (Nat.le_add_right _ _)
    rw [offset_element, hcopied.before (hk'.trans_le hlast) hroom']
    exact hbuilt.before hk' hslots
  · simp only [Nat.add_mul] at hslots
    omega

theorem stores_insertNWithoutGrow_iff (hoff : offset ≤ size) (hroom : (size + count) * T.size < 2 ^ 64) :
    Stores T (insertNWithoutGrow mem O hasConstruct buffer size count v offset) (element buffer T.size offset) count v ↔
      (ZeroedByMemset T v → RestIsZero T mem (element buffer T.size offset) (min count (size - offset))) := by
  by_cases hcount : count ≤ size - offset
  · rw [Nat.min_eq_left hcount]
    exact stores_insertNWithoutGrow_of_le O mem hasConstruct buffer v hcount hoff hroom
  · obtain ⟨residue, rfl⟩ : ∃ residue, size = offset + residue := ⟨size - offset, by omega⟩
    obtain ⟨inRawMemory, rfl⟩ : ∃ n, count = residue + n := ⟨count - residue, by omega⟩
    have hresidue : min (residue + inRawMemory) (offset + residue - offset) = residue := by omega
    rw [hresidue]
    exact stores_insertNWithoutGrow_of_lt O mem hasConstruct buffer v residue inRawMemory (by omega) hroom

end

end

/-- The vector has got `count` elements more, and they are copies of the value. -/
def Inserts {T : Fillable α} (O : OwnFiller T) (mem : Memory) (hasConstruct : Bool) (buffer : BitVec 64)
    (size count : Nat) (v : α) (offset : Nat) : Prop :=
  (insertInPlace mem O hasConstruct buffer size count v offset).2 = size + count ∧
    Stores T (insertInPlace mem O hasConstruct buffer size count v offset).1 (element buffer T.size offset) count v

theorem Stores.unique {T : Fillable α} {mem : Memory} (h : Stores T mem first n v) (h' : Stores T mem first n w)
    (hn : n ≠ 0) : v = w := by
  have hv := h 0 (Nat.pos_of_ne_zero hn)
  have hw := h' 0 (Nat.pos_of_ne_zero hn)
  have hcode := hv.symm.trans hw
  rw [← T.decode_code v, hcode, T.decode_code]

/-- At the end the number of the copies and the value have to be the same; elsewhere a `memset` of
zeroes must not be cut short. -/
theorem inserts_iff {T : Fillable α} (O : OwnFiller T) (mem : Memory) (hasConstruct : Bool) (buffer : BitVec 64) (v : α)
    {size count offset : Nat} (hoff : offset ≤ size) (hroom : (size + count) * T.size < 2 ^ 64) :
    Inserts O mem hasConstruct buffer size count v offset ↔
      if offset = size then O.toCount v = count ∧ (count = 0 ∨ O.ofCount count = v)
      else ZeroedByMemset T v → RestIsZero T mem (element buffer T.size offset) (min count (size - offset)) := by
  rw [Inserts, insertInPlace]
  split_ifs with hend
  · have hsize := (Nat.le_mul_of_pos_right _ T.size_pos).trans_lt hroom
    have htotal : (size + O.toCount v) % 2 ^ 64 = size + count ↔ O.toCount v = count := by
      have := O.toCount_lt v
      omega
    rw [hend, htotal]
    refine and_congr_right fun hcount => ?_
    have hstores : Stores T (uninitializedFillN O.toFiller mem (some hasConstruct) (element buffer T.size size)
        (O.toCount v) (O.ofCount count)).1 (element buffer T.size size) count (O.ofCount count) := by
      rw [hcount]
      apply stores_uninitializedFillN
      rw [Nat.add_mul] at hroom
      omega
    constructor
    · intro hv
      by_cases hzero : count = 0
      · exact .inl hzero
      · exact .inr (hstores.unique hv hzero)
    · rintro (rfl | hv)
      · exact fun i hi => absurd hi (Nat.not_lt_zero i)
      · rw [hv] at hstores ⊢
        exact hstores
  · rw [and_iff_right rfl]
    exact stores_insertNWithoutGrow_iff O mem hasConstruct buffer v hoff hroom

/-- `fill_n` writes the value to all elements and nothing else, and returns the
iterator behind them. -/
def Fills {T : Fillable α} (F : Filler T γ) (mem : Memory) (first : BitVec 64) (n : Nat) (value : γ) : Prop :=
  Stores T (fillN F mem first n value).1 first n (F.convert value) ∧
    Frames mem (fillN F mem first n value).1 first (n * T.size) ∧
    (fillN F mem first n value).2 = element first T.size n

section

variable {T : Fillable α} (F : Filler T γ) (O : OwnFiller T) (mem : Memory)

theorem element_ne_base (hsize : 0 < size) (hn : n ≠ 0) (hroom : n * size < 2 ^ 64) : element first size n ≠ first := by
  intro hsame
  have hdist : (element first size n - first).toNat = n * size := offset_sub_toNat first hroom
  rw [hsame, BitVec.sub_self] at hdist
  have hpos : 0 < n * size := Nat.mul_pos (Nat.pos_of_ne_zero hn) hsize
  rw [← hdist] at hpos
  exact absurd hpos (by decide)

theorem element_zero (first : BitVec 64) (size : Nat) : element first size 0 = first := by
  rw [element, offset, Nat.zero_mul, BitVec.add_zero]

theorem fills_iff (hroom : n * T.size < 2 ^ 64) :
    Fills F mem first n value ↔ n = 0 ∨ T.wmemsetIsSafe = false ∧ isMemsetSafe F value = false := by
  have hframes := frames_fillN F mem first n value
  by_cases hn : n = 0
  · subst hn
    have hret := (element_zero first T.size).symm
    exact iff_of_true ⟨fun i hi => absurd hi (Nat.not_lt_zero i), hframes, hret⟩ (.inl rfl)
  · have hne : first ≠ element first T.size n := (element_ne_base T.size_pos hn hroom).symm
    have heach := stores_assignEach F mem first value hroom.le
    rw [Fills, and_iff_right hframes, fillN, if_pos hn]
    cases T.wmemsetIsSafe <;> cases isMemsetSafe F value <;> simp [hn, hne, heach]

/-- `fill_n` does what it should exactly if it takes the loop over the elements (or has nothing to
do): the other ways return the first iterator. Its callers store the value everywhere unless a
`memset` of zeroes is cut short in front of a byte that is not zero; but at the end of a vector the
value is taken for the number of its copies, and the number for the value. -/
theorem fillN_iff_and_arrayFill_iff_and_insert_iff (hasConstruct : Bool) (first elems buffer : BitVec 64)
    (n length size count offset : Nat) (value : γ) (v : α) (hn : n * T.size < 2 ^ 64) (hlen : length * T.size < 2 ^ 64)
    (hoff : offset ≤ size) (hinsert : (size + count) * T.size < 2 ^ 64) :
    (Fills F mem first n value ↔ n = 0 ∨ T.wmemsetIsSafe = false ∧ isMemsetSafe F value = false) ∧
    (Stores T (arrayFill mem O elems length v) elems length v ↔ (ZeroedByMemset T v → RestIsZero T mem elems length)) ∧
    (Inserts O mem hasConstruct buffer size count v offset ↔
      if offset = size then O.toCount v = count ∧ (count = 0 ∨ O.ofCount count = v)
      else ZeroedByMemset T v → RestIsZero T mem (element buffer T.size offset) (min count (size - offset))) := by
  refine ⟨fills_iff F mem hn, ?_, inserts_iff O mem hasConstruct buffer v hoff hinsert⟩
  exact stores_fillN_iff O v hlen.le

end

def int32 : Fillable (BitVec 32) where
  size := 4
  size_pos := by decide
  size_lt := by decide
  code v := v.toNat
  code_lt v := v.isLt
  decode := BitVec.ofNat 32
  decode_code v := by simp
  wmemsetIsSafe := false
  memsetIsSafe := false
  memsetZeroyingIsSafe := true
  size_of_memsetIsSafe h := nomatch h

def int32Filler : OwnFiller int32 where
  convert v := v
  toInt v := v.toInt
  allBitsAreZeroes v := v.toNat == 0
  code_of_zeroes _ h := eq_of_beq h
  toInt_of_zeroes v h := by
    obtain rfl : v = 0 := BitVec.eq_of_toNat_eq (eq_of_beq h)
    rfl
  toCount v := (v.signExtend 64).toNat
  ofCount := BitVec.ofNat 32
  toCount_lt v := (v.signExtend 64).isLt
  convert_eq _ := rfl
  allBitsAreZeroes_iff _ := beq_iff_eq
  toInt_of_memsetIsSafe h := nomatch h

theorem fillN_iff_and_arrayFill_iff_and_insert_iff_ones : Fills int32Filler.toFiller (fun _ => 0) 0 2 1 ∧
    Stores int32 (arrayFill (fun _ => 255) int32Filler 0 3 1) 0 3 1 ∧
    Inserts int32Filler (fun _ => 255) false 0 3 2 7 1 ∧ Inserts int32Filler (fun _ => 255) false 0 3 2 2 3 := by
  have h := fillN_iff_and_arrayFill_iff_and_insert_iff int32Filler.toFiller int32Filler
  have hfill := (h (fun _ => 0) false 0 0 0 2 0 0 0 0 1 0 (by decide) (by decide) (by decide) (by decide)).1
  have harray := (h (fun _ => 255) false 0 0 0 0 3 0 0 0 0 1 (by decide) (by decide) (by decide) (by decide)).2.1
  have hinsert := (h (fun _ => 255) false 0 0 0 0 0 3 2 1 0 7 (by decide) (by decide) (by decide) (by decide)).2.2
  have hend := (h (fun _ => 255) false 0 0 0 0 0 3 2 3 0 2 (by decide) (by decide) (by decide) (by decide)).2.2
  exact ⟨hfill.mpr (.inr (by decide)), harray.mpr fun hzero => absurd hzero.2.2.2 (by decide),
    hinsert.mpr fun hzero => absurd hzero.2.2.2 (by decide), hend.mpr ⟨by decide, .inr (by decide)⟩⟩

/-- Two integers are filled with zero where all bytes were `0xFF`: two bytes are written. The same
goes for an array, and for an insertion into three elements. Two sevens at the end become seven
twos. -/
theorem fillN_of_zero_is_cut_short : (fillN int32Filler.toFiller (fun _ => 255) 0 2 0).2 = 0 ∧
    load (fillN int32Filler.toFiller (fun _ => 255) 0 2 0).1 0 4 = 0xFFFF0000 ∧
    load (arrayFill (fun _ => 255) int32Filler 0 2 0) 4 4 = 0xFFFFFFFF ∧
    load (insertInPlace (fun _ => 255) int32Filler false 0 3 2 0 0).1 4 4 = 0xFFFFFFFF ∧
    (insertInPlace (fun _ => 255) int32Filler false 0 3 2 7 3).2 = 10 ∧
    load (insertInPlace (fun _ => 255) int32Filler false 0 3 2 7 3).1 12 4 = 2 := by
  decide

end Ktl.MemoryFills
