import Ktl.FrameHandler4

/-!
What the compressed tables mean. `Encodes` relates the bytes of a number to the number
without the reader. Looking a program counter up in a table of regions is compared with
the scan of the older format's array.
-/
namespace Ktl.CompressedTables

open ByteMemory CatchBlocks List Option BitVec

/-- The `length` bytes at an address encode a number. -/
inductive Encodes (mem : Memory) (data : BitVec 64) : (number length : Nat) → Prop
  | one {v : Nat} (h : load mem data 1 = 2 * v) : Encodes mem data v 1
  | two {v : Nat} (h : load mem data 2 = 4 * v + 1) : Encodes mem data v 2
  | three {v : Nat} (h : load mem data 3 = 8 * v + 3) : Encodes mem data v 3
  | four {v : Nat} (h : load mem data 4 = 16 * v + 7) : Encodes mem data v 4
  /-- the upper half of the first byte is not used -/
  | five {v unused : Nat} (hunused : unused < 16)
      (h : load mem data 5 = 256 * v + (16 * unused + 15)) : Encodes mem data v 5

variable {length : Nat}

theorem byte_eq_load_mod (mem : Memory) (data : BitVec 64) (hn : 0 < n) : (mem data).toNat = load mem data n % 256 := by
  obtain ⟨n, rfl⟩ := Nat.exists_eq_add_of_lt hn
  have hbyte : load mem data 1 = (mem data).toNat := by simp [load]
  rw [Nat.zero_add, Nat.add_comm, load_add, hbyte]
  omega

theorem load_ending (mem : Memory) (data : BitVec 64) (hn : n ≤ 4) : ∃ low < 256 ^ (4 - n),
      load mem (offset data n - 4) 4 = low + 256 ^ (4 - n) * load mem data n := by
  have hstart : offset (offset data n - 4) (4 - n) = data := by
    have : n = 0 ∨ n = 1 ∨ n = 2 ∨ n = 3 ∨ n = 4 := by omega
    rcases this with rfl | rfl | rfl | rfl | rfl <;> unfold offset <;> bv_omega
  refine ⟨load mem (offset data n - 4) (4 - n), load_lt _ _ _, ?_⟩
  have hsplit := load_add mem (offset data n - 4) (4 - n) n
  rwa [Nat.sub_add_cancel hn, hstart] at hsplit

theorem readUnsigned_eq (he : (mem data).toNat % 16 = e) (hlen : FrameHandler4.lengths.getD e 0 = k)
    (hshift : FrameHandler4.shifts.getD e 0 = shift) (hvalue : load mem (offset data k - 4) 4 / 2 ^ shift = v)
    (hv : v < 2 ^ 32) : FrameHandler4.readUnsigned mem data = (BitVec.ofNat 32 v, offset data k) := by
  have hload : load mem (offset data k - 4) 4 < 2 ^ 32 := load_lt _ _ _
  simp only [FrameHandler4.readUnsigned, he, hlen, hshift, load32, Prod.mk.injEq, and_true]
  apply eq_of_toNat_eq
  rw [toNat_ushiftRight, toNat_ofNat, toNat_ofNat, Nat.shiftRight_eq_div_pow,
    Nat.mod_eq_of_lt hload, Nat.mod_eq_of_lt hv, hvalue]

/-- `n` bytes have their low `n` bits for the length, all set but the highest. -/
theorem array_entries : ∀ e < 16, (∀ n < 5, 0 < n → e % 2 ^ n = 2 ^ (n - 1) - 1 →
      FrameHandler4.lengths.getD e 0 = n ∧ FrameHandler4.shifts.getD e 0 = 32 - 7 * n) ∧
    (e = 15 → FrameHandler4.lengths.getD e 0 = 5 ∧ FrameHandler4.shifts.getD e 0 = 0) := by
  decide

theorem readUnsigned_short (hn : 0 < n) (hn' : n < 5) (h : load mem data n = 2 ^ n * v + (2 ^ (n - 1) - 1))
    (hv : v < 2 ^ 32) : FrameHandler4.readUnsigned mem data = (BitVec.ofNat 32 v, offset data n) := by
  have hbyte := byte_eq_load_mod mem data hn
  obtain ⟨low, hlow, hload⟩ := load_ending mem data (n := n) (by omega)
  have hentry := (array_entries ((mem data).toNat % 16) (Nat.mod_lt _ (by decide))).1 n hn' hn
  have hcases : n = 1 ∨ n = 2 ∨ n = 3 ∨ n = 4 := by omega
  rcases hcases with rfl | rfl | rfl | rfl
  all_goals
    obtain ⟨hlen, hshift⟩ := hentry (by omega)
    exact readUnsigned_eq rfl hlen hshift (by omega) hv

section

variable (h : Encodes mem data v length)

include h

theorem Encodes.lt : v < 2 ^ 32 := by
  cases h with
  | one h => have := load_lt mem data 1; omega
  | two h => have := load_lt mem data 2; omega
  | three h => have := load_lt mem data 3; omega
  | four h => have := load_lt mem data 4; omega
  | five _ h => have := load_lt mem data 5; omega

theorem Encodes.length_le : length ≤ 5 := by
  cases h <;> decide
theorem Encodes.length_pos : 0 < length := by
  cases h <;> decide

theorem Encodes.readUnsigned : FrameHandler4.readUnsigned mem data = (BitVec.ofNat 32 v, offset data length) := by
  have hv := h.lt
  cases h with
  | one h | two h | three h | four h => exact readUnsigned_short (by decide) (by decide) h hv
  | five hunused h =>
    have hbyte := byte_eq_load_mod mem data (n := 5) (by decide)
    obtain ⟨hlen, hshift⟩ := (array_entries ((mem data).toNat % 16) (Nat.mod_lt _ (by decide))).2 (by omega)
    -- the four bytes behind the first are the number
    have hstart : offset data 5 - 4 = offset data 1 := by
      unfold offset
      bv_omega
    have hsplit : load mem data 5 = load mem data 1 + 256 ^ 1 * load mem (offset data 1) 4 :=
      load_add mem data 1 4
    have hfirst : load mem data 1 = (mem data).toNat := by simp [load]
    exact readUnsigned_eq rfl hlen hshift (by rw [hstart, Nat.pow_zero, Nat.div_one]; omega) hv

end

/-! ## Numbers in a row -/

structure Number where
  value : BitVec 32
  length : Nat
  /-- the half of the first of five bytes that is not used -/
  unused : BitVec 4
  length_pos : 0 < length
  length_le : length ≤ 5
  fits : value.toNat < 2 ^ (7 * length)

def Number.tagged (n : Number) : Nat :=
  match n.length with
  | 1 => 2 * n.value.toNat
  | 2 => 4 * n.value.toNat + 1
  | 3 => 8 * n.value.toNat + 3
  | 4 => 16 * n.value.toNat + 7
  | _ => 256 * n.value.toNat + (16 * n.unused.toNat + 15)

def Number.bytes (n : Number) : List (BitVec 8) :=
  (List.range n.length).map fun i => BitVec.ofNat 8 (n.tagged / 256 ^ i)

def Holds (mem : Memory) (data : BitVec 64) (bytes : List (BitVec 8)) : Prop :=
  ∀ i < bytes.length, bytes[i]? = some (mem (offset data i))

def readAll (mem : Memory) : Nat → BitVec 64 → List (BitVec 32) × BitVec 64
  | 0, data => ([], data)
  | count + 1, data =>
    let (value, data) := FrameHandler4.readUnsigned mem data
    let (values, data) := readAll mem count data
    (value :: values, data)

@[simp] theorem Number.length_bytes (n : Number) : n.bytes.length = n.length := by simp [bytes]

theorem Holds.load_bytes {n : Number} (h : Holds mem data n.bytes) :
    load mem data n.length = n.tagged % 256 ^ n.length := by
  have hle := n.length_le
  rw [← load_store (by omega) mem data n.tagged]
  apply load_congr
  intro i hi
  have hi' : (offset data i - data).toNat = i := offset_sub_toNat data (by omega)
  have hbyte := h i (by simpa using hi)
  simp only [Number.bytes, getElem?_map, getElem?_range hi, map_some, some.injEq] at hbyte
  rw [store, hi', if_pos hi, hbyte]

theorem Holds.encodes {n : Number} (h : Holds mem data n.bytes) : Encodes mem data n.value.toNat n.length := by
  have hload := h.load_bytes
  obtain ⟨value, length, unused, hpos, hle, hfits⟩ := n
  have hunused := unused.isLt
  have hlen : length = 1 ∨ length = 2 ∨ length = 3 ∨ length = 4 ∨ length = 5 := by omega
  rcases hlen with rfl | rfl | rfl | rfl | rfl
  all_goals simp only [Number.tagged] at hload ⊢
  · exact .one (by omega)
  · exact .two (by omega)
  · exact .three (by omega)
  · exact .four (by omega)
  · exact .five hunused (by omega)

theorem Holds.of_append (h : Holds mem data (bs ++ cs)) : Holds mem data bs ∧ Holds mem (offset data bs.length) cs := by
  constructor
  · intro i hi
    rw [← h i (by rw [length_append]; omega), getElem?_append_left hi]
  · intro i hi
    have hi' := h (bs.length + i) (by rw [length_append]; omega)
    rwa [getElem?_append_right (by omega), Nat.add_sub_cancel_left, ← offset_offset] at hi'

theorem Holds.readUnsigned {n : Number} (h : Holds mem data n.bytes) :
    FrameHandler4.readUnsigned mem data = (n.value, offset data n.length) := by
  rw [h.encodes.readUnsigned, ofNat_toNat, setWidth_eq]

theorem Holds.readAll {numbers : List Number} (h : Holds mem data (numbers.flatMap Number.bytes)) :
    CompressedTables.readAll mem numbers.length data
      = (numbers.map Number.value, offset data (numbers.flatMap Number.bytes).length) := by
  induction numbers generalizing data with
  | nil => simp [CompressedTables.readAll, offset]
  | cons n rest ih =>
    obtain ⟨hn, hrest⟩ := h.of_append
    rw [n.length_bytes] at hrest
    simp [CompressedTables.readAll, hn.readUnsigned, ih hrest, offset_offset]

/-- Numbers are read back from their bytes, also one behind the other; every value can be written.
-/
theorem read_unsigned_encodings (mem : Memory) (data : BitVec 64) (n : Number) (rest : List Number)
    (h : Holds mem data ((n :: rest).flatMap Number.bytes)) :
    FrameHandler4.readUnsigned mem data = (n.value, offset data n.length) ∧ readAll mem (n :: rest).length data
        = ((n :: rest).map Number.value, offset data ((n :: rest).flatMap Number.bytes).length) ∧
      ∀ v : BitVec 32, ∃ n : Number, n.value = v :=
  ⟨h.of_append.1.readUnsigned, h.readAll, fun v => ⟨⟨v, 5, 0, by decide, by decide, by omega⟩, rfl⟩⟩

theorem read_unsigned_encodings_two :
    let mem : Memory := fun a => [0x0a, 0xb1, 0x04].getD (a - 0x1000).toNat 0xff
    readAll mem 2 0x1000 = ([5, 300], 0x1003) :=
  (read_unsigned_encodings _ 0x1000 ⟨5, 1, 0, by decide, by decide, by decide⟩
    [⟨300, 2, 0, by decide, by decide, by decide⟩] (by unfold Holds; decide)).2.1

/-! ## Regions -/

/-- Where a region begins, from the start of the function on, and its state. -/
structure Region where
  start : Nat
  state : Int
  deriving DecidableEq

def stateAt (regions : List Region) (pc : Nat) : Option Int :=
  (regions.filter fun r => decide (r.start ≤ pc)).getLast?.map Region.state

inductive EncodesRegions (mem : Memory) : (previous : Nat) → BitVec 64 → List Region → Prop
  | nil {previous : Nat} {data : BitVec 64} : EncodesRegions mem previous data []
  | cons {previous l m : Nat} {data : BitVec 64} {r : Region} {rest : List Region}
      (hdelta : Encodes mem data (r.start - previous) l) (hstate : Encodes mem (offset data l) (r.state + 1).toNat m)
      (hrest : EncodesRegions mem r.start (offset (offset data l) m) rest) :
      EncodesRegions mem previous data (r :: rest)

def EncodesTable (mem : Memory) (table : BitVec 64) (regions : List Region) : Prop :=
  ∃ l, Encodes mem table regions.length l ∧ EncodesRegions mem 0 (offset table l) regions

def arrayOf (fnBegin : Nat) (regions : List Region) : List FrameHandler3.EhRegion :=
  regions.map fun r => ⟨BitVec.ofNat 32 (fnBegin + r.start), r.state⟩

structure Regular (regions : List Region) : Prop where
  increasing : regions.Pairwise fun r r' => r.start < r'.start
  states : ∀ r ∈ regions, -1 ≤ r.state ∧ r.state < 2 ^ 31

theorem Regular.tail (h : Regular (r :: rest)) : Regular rest :=
  ⟨(pairwise_cons.mp h.increasing).2, fun r' hr' => h.states r' (mem_cons_of_mem _ hr')⟩

theorem Regular.stateAt_of_lt (h : Regular (r :: rest)) (hpc : pc < r.start) : stateAt (r :: rest) pc = none := by
  have hnone : (r :: rest).filter (fun r => decide (r.start ≤ pc)) = [] := by
    rw [filter_eq_nil_iff]
    intro r' hr'
    rcases mem_cons.mp hr' with rfl | hmem
    · simpa using hpc
    · have := (pairwise_cons.mp h.increasing).1 r' hmem
      simp only [decide_eq_true_eq]
      omega
  simp [stateAt, hnone]

theorem stateAt_cons_of_le (hpc : r.start ≤ pc) (rest : List Region) :
    stateAt (r :: rest) pc = some ((stateAt rest pc).getD r.state) := by
  simp only [stateAt, filter_cons, hpc, decide_true, if_true]
  cases hrest : (rest.filter fun r => decide (r.start ≤ pc)).getLast? with
  | none => simp [getLast?_eq_none_iff.mp hrest]
  | some last => simp [getLast?_cons, hrest]

theorem scanRegions_array (hregular : Regular regions) (hpc : fnBegin + pc < 2 ^ 32)
    (hfits : ∀ r ∈ regions, fnBegin + r.start < 2 ^ 32) (first : FrameHandler3.EhRegion) :
    FrameHandler3.scanRegions (BitVec.ofNat 32 (fnBegin + pc)) first (arrayOf fnBegin regions)
      = (stateAt regions pc).getD first.state := by
  induction regions generalizing first with
  | nil => rfl
  | cons r rest ih =>
    have hr := hfits r mem_cons_self
    have hcompare : (BitVec.ofNat 32 (fnBegin + pc) < BitVec.ofNat 32 (fnBegin + r.start)) ↔ pc < r.start := by
      rw [lt_def, toNat_ofNat, toNat_ofNat, Nat.mod_eq_of_lt hpc, Nat.mod_eq_of_lt hr]
      omega
    simp only [arrayOf, map_cons, FrameHandler3.scanRegions, hcompare]
    split_ifs with hlt
    · rw [hregular.stateAt_of_lt hlt, getD_none]
    · rw [stateAt_cons_of_le (not_lt.mp hlt), getD_some]
      exact ih hregular.tail (fun r' hr' => hfits r' (mem_cons_of_mem _ hr')) _

theorem scanRegions_table (pc : Nat) (state : Int) (hencoded : EncodesRegions mem previous data regions)
    (hregular : Regular regions) (hprevious : ∀ r ∈ regions, previous ≤ r.start) (hpc : pc < 2 ^ 32)
    (hfits : ∀ r ∈ regions, r.start < 2 ^ 32) :
    FrameHandler4.scanRegions mem (BitVec.ofNat 32 pc) regions.length (BitVec.ofInt 32 state)
        (BitVec.ofNat 32 previous) data
      = BitVec.ofInt 32 ((stateAt regions pc).getD state) := by
  induction hencoded generalizing state with
  | nil => rfl
  | cons hdelta hstate hrest ih =>
    rename_i previous l m data r rest
    have hr := hfits r mem_cons_self
    have hprev := hprevious r mem_cons_self
    have hsum : BitVec.ofNat 32 previous + BitVec.ofNat 32 (r.start - previous) = BitVec.ofNat 32 r.start := by
      rw [← ofNat_add, Nat.add_sub_cancel' hprev]
    have hcompare : (BitVec.ofNat 32 pc < BitVec.ofNat 32 r.start) ↔ pc < r.start := by
      rw [lt_def, toNat_ofNat, toNat_ofNat, Nat.mod_eq_of_lt hpc, Nat.mod_eq_of_lt hr]
    have hnext : BitVec.ofNat 32 (r.state + 1).toNat - 1 = BitVec.ofInt 32 r.state := by
      have hlow := (hregular.states r mem_cons_self).1
      rw [← ofInt_natCast, Int.toNat_of_nonneg (by omega), ofInt_add]
      exact BitVec.add_sub_cancel _ _
    simp only [length_cons, FrameHandler4.scanRegions, hdelta.readUnsigned,
      hstate.readUnsigned, hsum, hcompare, hnext]
    split_ifs with hlt
    · rw [hregular.stateAt_of_lt hlt, getD_none]
    · rw [stateAt_cons_of_le (not_lt.mp hlt), getD_some]
      refine ih _ hregular.tail (fun r' hr' => ?_) fun r' hr' => hfits r' (mem_cons_of_mem _ hr')
      exact ((pairwise_cons.mp hregular.increasing).1 r' hr').le

theorem stateAt_mem (h : stateAt regions pc = some state) : ∃ r ∈ regions, r.state = state := by
  obtain ⟨r, hr, rfl⟩ := map_eq_some_iff.mp h
  exact ⟨r, (mem_filter.mp (mem_of_getLast? hr)).1, rfl⟩

/-- Both lookups of a program counter at or behind the first start give the state of the last region
that does not begin after it. -/
theorem lookupRegion_agree {prog : Program} {info : FrameHandler4.ExcInfo} {regions : List Region}
    {fnBegin pc : Nat} (hregular : Regular regions) (hne : regions ≠ []) (hfirst : ∀ r ∈ regions.head?, r.start ≤ pc)
    (hpc : fnBegin + pc < 2 ^ 32) (hfits : ∀ r ∈ regions, fnBegin + r.start < 2 ^ 32) (hregions : info.regions ≠ 0)
    (htable : EncodesTable mem (prog.imageBase + info.regions.setWidth 64) regions) :
    ∃ state, stateAt regions pc = some state ∧ FrameHandler4.lookupRegion prog mem info (BitVec.ofNat 32 pc) = state ∧
      FrameHandler3.lookupRegion (BitVec.ofNat 32 (fnBegin + pc)) (arrayOf fnBegin regions) = state := by
  cases regions with
  | nil => exact absurd rfl hne
  | cons r rest =>
    have hr : r.start ≤ pc := hfirst r rfl
    have hstate := stateAt_cons_of_le hr rest
    refine ⟨_, hstate, ?_, ?_⟩
    · obtain ⟨l, hcount, hencoded⟩ := htable
      have hscan := scanRegions_table pc (-1) hencoded hregular (fun _ _ => Nat.zero_le _)
        (by omega) (fun r' hr' => by have := hfits r' hr'; omega)
      have hlen : (BitVec.ofNat 32 (r :: rest).length).toNat = (r :: rest).length := by
        rw [toNat_ofNat, Nat.mod_eq_of_lt hcount.lt]
      obtain ⟨r', hr', hr'state⟩ := stateAt_mem hstate
      have hbounds := hregular.states r' hr'
      simp only [FrameHandler4.lookupRegion, hregions, if_false, hcount.readUnsigned, hlen]
      have hminus : (-1 : BitVec 32) = BitVec.ofInt 32 (-1) := by decide
      have hzero : (0 : BitVec 32) = BitVec.ofNat 32 0 := rfl
      simp (disch := omega) only [hminus, hzero, hscan, hstate, getD_some, ← hr'state, toInt_ofInt_eq_self]
    · simp only [arrayOf, map_cons, FrameHandler3.lookupRegion]
      exact scanRegions_array hregular.tail hpc (fun r' hr' => hfits r' (mem_cons_of_mem _ hr')) _

/-- Three regions of a function at `0x2000`, the last one with a two-byte distance. -/
theorem lookupRegion_agree_three :
    let bytes : List (BitVec 8) := [0x06, 0x00, 0x00, 0x08, 0x02, 0x11, 0x03, 0x04]
    let mem : Memory := fun a => bytes.getD (a - 0x140001000).toNat 0
    let regions : List Region := [⟨0, -1⟩, ⟨4, 0⟩, ⟨200, 1⟩]
    let info : FrameHandler4.ExcInfo := ⟨0, 0, 0, 0, 0x1000, 0⟩
    EncodesTable mem 0x140001000 regions ∧ ∃ state, stateAt regions 300 = some state ∧
        FrameHandler4.lookupRegion plainProgram mem info (BitVec.ofNat 32 300) = state ∧
        FrameHandler3.lookupRegion (BitVec.ofNat 32 (0x2000 + 300)) (arrayOf 0x2000 regions) = state := by
  intro bytes mem regions info
  have htable : EncodesTable mem 0x140001000 regions :=
    ⟨1, .one (by decide), .cons (.one (by decide)) (.one (by decide)) (.cons (.one (by decide)) (.one (by decide))
        (.cons (.two (by decide)) (.one (by decide)) .nil))⟩
  refine ⟨htable, lookupRegion_agree ⟨?_, ?_⟩ ?_ ?_ ?_ ?_ ?_ htable⟩ <;> decide

end Ktl.CompressedTables
