import Mathlib.Data.BitVec
import Mathlib.Data.List.Lex

/-!
`lexicographical_compare`. The specialisation for pointers, which every element type
gets, compares the bytes of the elements.
-/
namespace Ktl.LexicographicalCompare

open List

variable {α : Type}

structure Ordered (α : Type) where
  /-- `sizeof(Ty)` -/
  size : Nat
  bytes : α → List (BitVec 8)
  length_bytes : ∀ x, (bytes x).length = size
  bytes_inj : ∀ x y, bytes x = bytes y → x = y
  less : α → α → Bool
  irrefl : ∀ x, less x x = false

def memcmp : Nat → List (BitVec 8) → List (BitVec 8) → Int
  | n + 1, x :: xs, y :: ys => if x = y then memcmp n xs ys else if x.toNat < y.toNat then -1 else 1
  | _, _, _ => 0

/-- The loop of `LexicographicalComparator`. -/
def compareEach (comp : α → α → Bool) : List α → List α → Bool
  | x :: xs, y :: ys =>
    if comp x y then true
    else if comp y x then false
    else compareEach comp xs ys
  | [], _ :: _ => true
  | _, [] => false

def compareIntegralImpl (E : Ordered α) (lhs rhs : List α) (pred : Int → Bool) (lc : Nat → Nat → Bool) : Bool :=
  let result := memcmp (min lhs.length rhs.length * E.size) (lhs.flatMap E.bytes) (rhs.flatMap E.bytes)
  if result ≠ 0 then pred result else lc lhs.length rhs.length

def compareIntegralLess (E : Ordered α) (lhs rhs : List α) : Bool :=
  compareIntegralImpl E lhs rhs (fun result => decide (result < 0)) fun m n => decide (m < n)

/-- `lexicographical_compare` of pointers; the condition on the element type is never looked at. -/
def lexicographicalCompare (E : Ordered α) (lhs rhs : List α) : Bool := compareIntegralLess E lhs rhs

/-- `operator<` of two vectors. -/
def operatorLess (E : Ordered α) (lhs rhs : List α) : Bool := lexicographicalCompare E lhs rhs

inductive Precedes (less : α → α → Bool) : List α → List α → Prop
  | shorter (y : α) (ys : List α) : Precedes less [] (y :: ys)
  | first {x y : α} (xs ys : List α) (h : less x y) : Precedes less (x :: xs) (y :: ys)
  | later {x y : α} {xs ys : List α} (h : less x y = false) (h' : less y x = false) (hrest : Precedes less xs ys) :
    Precedes less (x :: xs) (y :: ys)

variable {less : α → α → Bool}

theorem compareEach_iff : compareEach less xs ys ↔ Precedes less xs ys := by
  induction xs generalizing ys with
  | nil =>
    cases ys with
    | nil => exact iff_of_false Bool.false_ne_true nofun
    | cons y ys => exact iff_of_true rfl (.shorter y ys)
  | cons x xs ih =>
    cases ys with
    | nil => exact iff_of_false Bool.false_ne_true nofun
    | cons y ys =>
      rw [compareEach]
      split
      · rename_i hless
        exact iff_of_true rfl (.first xs ys hless)
      · rename_i hless
        split
        · rename_i hgreater
          refine iff_of_false Bool.false_ne_true fun h => ?_
          cases h with
          | first _ _ h => exact hless h
          | later _ h' _ => exact Bool.false_ne_true (h'.symm.trans hgreater)
        · rename_i hgreater
          rw [ih]
          constructor
          · exact .later (Bool.eq_false_of_not_eq_true hless) (Bool.eq_false_of_not_eq_true hgreater)
          · intro h
            cases h with
            | first _ _ h => exact absurd h hless
            | later _ _ hrest => exact hrest

theorem memcmp_zero : memcmp 0 a b = 0 := by
  cases a <;> cases b <;> rfl

theorem memcmp_append (h : a.length = b.length) (n : Nat) : memcmp (a.length + n) (a ++ s) (b ++ t) =
    if a = b then memcmp n s t else memcmp a.length a b := by
  induction a generalizing b with
  | nil =>
    obtain rfl : b = [] := eq_nil_of_length_eq_zero h.symm
    rw [if_pos rfl, length_nil, Nat.zero_add]
    rfl
  | cons x a ih =>
    cases b with
    | nil => cases h
    | cons y b =>
      have hlen := Nat.succ.inj h
      rw [length_cons, Nat.succ_add, cons_append, cons_append, memcmp, memcmp]
      by_cases hxy : x = y
      · subst hxy
        rw [if_pos rfl, if_pos rfl, ih hlen]
        simp
      · rw [if_neg hxy, if_neg hxy, if_neg fun heq => hxy (cons.inj heq).1]

theorem precedes_cons_self (hirrefl : less x x = false) : Precedes less (x :: xs) (x :: ys) ↔ Precedes less xs ys := by
  constructor
  · intro h
    cases h with
    | first _ _ h => exact absurd h (by rw [hirrefl]; exact Bool.false_ne_true)
    | later _ _ hrest => exact hrest
  · exact .later hirrefl hirrefl

/-- The bytes as numbers, from the lowest address on; lists of numbers have the lexicographic
order. -/
def byteNumbers (a : List (BitVec 8)) : List Nat := a.map BitVec.toNat

theorem byteNumbers_inj : byteNumbers a = byteNumbers b ↔ a = b :=
  map_inj_right fun _ _ => BitVec.eq_of_toNat_eq

/-- `memcmp` has the sign of the order of the bytes. -/
theorem memcmp_neg_iff (h : a.length = b.length) :
    (memcmp a.length a b < 0 ↔ byteNumbers a < byteNumbers b) ∧ (memcmp a.length a b = 0 ↔ a = b) := by
  induction a generalizing b with
  | nil =>
    obtain rfl : b = [] := eq_nil_of_length_eq_zero h.symm
    exact ⟨iff_of_false (Int.lt_irrefl 0) (lt_irrefl _), iff_of_true rfl rfl⟩
  | cons x a ih =>
    cases b with
    | nil => cases h
    | cons y b =>
      obtain ⟨hneg, hzero⟩ := ih (Nat.succ.inj h)
      rw [length_cons, memcmp, byteNumbers, byteNumbers, map_cons, map_cons, cons_lt_cons_iff,
        cons.injEq]
      by_cases hxy : x = y
      · subst hxy
        simpa using ⟨hneg, hzero⟩
      · have hne : x.toNat ≠ y.toNat := fun heq => hxy (BitVec.eq_of_toNat_eq heq)
        simp only [hxy, hne, if_false, false_and, or_false, iff_false]
        split <;> simp [*]

/-- The bytes of `x` come before those of `y`. -/
def BytesLess (E : Ordered α) (x y : α) : Prop := byteNumbers (E.bytes x) < byteNumbers (E.bytes y)

theorem not_bytesLess_iff (hne : E.bytes x ≠ E.bytes y) : ¬ BytesLess E x y ↔ BytesLess E y x := by
  have hne' : byteNumbers (E.bytes y) ≠ byteNumbers (E.bytes x) := fun h => hne (byteNumbers_inj.mp h).symm
  rw [BytesLess, BytesLess, not_lt, hne'.le_iff_lt]

/-- At the first elements with different bytes, the bytes come first in the range whose element is
less; if neither is, in that whose rest comes first. -/
def BytesDecide (E : Ordered α) : List α → List α → Prop
  | x :: xs, y :: ys =>
    if E.bytes x = E.bytes y then BytesDecide E xs ys
    else if E.less x y then BytesLess E x y
    else if E.less y x then BytesLess E y x
    else BytesLess E x y ↔ Precedes E.less xs ys
  | _, _ => True

theorem lexicographicalCompare_nil : lexicographicalCompare E [] ys = decide (0 < ys.length) := by
  rw [lexicographicalCompare, compareIntegralLess, compareIntegralImpl]
  simp [memcmp_zero]

theorem lexicographicalCompare_nil_right : lexicographicalCompare E xs [] = false := by
  rw [lexicographicalCompare, compareIntegralLess, compareIntegralImpl]
  simp [memcmp_zero]

theorem lexicographicalCompare_cons : lexicographicalCompare E (x :: xs) (y :: ys) ↔
    if E.bytes x = E.bytes y then lexicographicalCompare E xs ys = true else BytesLess E x y := by
  have hlen : (E.bytes x).length = (E.bytes y).length := by rw [E.length_bytes, E.length_bytes]
  have hcount : min (x :: xs).length (y :: ys).length * E.size =
      (E.bytes x).length + min xs.length ys.length * E.size := by
    rw [E.length_bytes, length_cons, length_cons, Nat.succ_min_succ, Nat.succ_mul, Nat.add_comm]
  simp only [lexicographicalCompare, compareIntegralLess, compareIntegralImpl, hcount, flatMap_cons,
    memcmp_append hlen]
  by_cases hsame : E.bytes x = E.bytes y
  · simp [if_pos hsame]
  · obtain ⟨hneg, hzero⟩ := memcmp_neg_iff hlen
    rw [if_neg hsame, if_neg hsame, if_pos (fun h => hsame (hzero.mp h)), decide_eq_true_iff]
    exact hneg

theorem lexicographicalCompare_iff : (lexicographicalCompare E xs ys ↔ Precedes E.less xs ys) ↔
    BytesDecide E xs ys := by
  induction xs generalizing ys with
  | nil =>
    rw [lexicographicalCompare_nil]
    refine iff_of_true ?_ trivial
    cases ys with
    | nil => exact iff_of_false (by simp) nofun
    | cons y ys => exact iff_of_true (by simp) (.shorter y ys)
  | cons x xs ih =>
    cases ys with
    | nil =>
      rw [lexicographicalCompare_nil_right]
      exact iff_of_true (iff_of_false Bool.false_ne_true nofun) trivial
    | cons y ys =>
      rw [lexicographicalCompare_cons, BytesDecide]
      by_cases hsame : E.bytes x = E.bytes y
      · obtain rfl : x = y := E.bytes_inj x y hsame
        rw [if_pos rfl, if_pos rfl, precedes_cons_self (E.irrefl x)]
        exact ih
      · rw [if_neg hsame, if_neg hsame, ← compareEach_iff, compareEach]
        split_ifs
        · exact iff_true_right rfl
        · rw [← not_bytesLess_iff hsame]
          exact iff_false_right (by decide)
        · rw [compareEach_iff]

theorem lexicographicalCompare_eq_compareEach_iff :
    lexicographicalCompare E xs ys = compareEach E.less xs ys ↔ BytesDecide E xs ys := by
  rw [← lexicographicalCompare_iff, ← compareEach_iff, Bool.eq_iff_iff]

/-- All ranges of a type are compared rightly exactly if its order is that of the bytes. -/
theorem forall_bytesDecide_iff :
    (∀ xs ys, BytesDecide E xs ys) ↔ ∀ x y, E.less x y ↔ BytesLess E x y := by
  constructor
  · intro h x y
    have hpair := h [x] [y]
    rw [BytesDecide] at hpair
    by_cases hsame : E.bytes x = E.bytes y
    · obtain rfl : x = y := E.bytes_inj x y hsame
      rw [E.irrefl]
      exact iff_of_false Bool.false_ne_true (lt_irrefl _)
    · rw [if_neg hsame] at hpair
      split_ifs at hpair with hless hgreater
      · exact iff_of_true hless hpair
      · exact iff_of_false hless ((not_bytesLess_iff hsame).mpr hpair)
      · exact iff_of_false hless fun hbytes => nomatch hpair.mp hbytes
  · intro h xs
    induction xs with
    | nil => exact fun _ => trivial
    | cons x xs ih =>
      intro ys
      cases ys with
      | nil => trivial
      | cons y ys =>
        rw [BytesDecide]
        split_ifs with hsame hless hgreater
        · exact ih ys
        · exact (h x y).mp hless
        · exact (h y x).mp hgreater
        · rw [h] at hless hgreater
          exact absurd ((not_bytesLess_iff hsame).mp hless) hgreater

section

def littleEndian (x : BitVec (8 * w)) : List (BitVec 8) := (List.range w).map fun i => x.extractLsb' (8 * i) 8

theorem length_littleEndian (x : BitVec (8 * w)) : (littleEndian x).length = w := by
  rw [littleEndian, length_map, length_range]

theorem littleEndian_inj (x y : BitVec (8 * w)) (h : littleEndian x = littleEndian y) : x = y := by
  have hbyte : ∀ i < w, x.extractLsb' (8 * i) 8 = y.extractLsb' (8 * i) 8 := by
    intro i hi
    exact map_inj_left.mp h i (mem_range.mpr hi)
  apply BitVec.eq_of_getLsbD_eq
  intro j hj
  have hbit := congrArg (fun b => b.getLsbD (j % 8)) (hbyte (j / 8) (by omega))
  have hmod : j % 8 < 8 := Nat.mod_lt j (by decide)
  have hindex := Nat.div_add_mod j 8
  simpa only [BitVec.getLsbD_extractLsb', hmod, decide_true, Bool.true_and, hindex] using hbit

def integralLess (signed : Bool) (x y : BitVec (8 * w)) : Bool := if signed then x.slt y else x.ult y

theorem integralLess_irrefl (signed : Bool) (x : BitVec (8 * w)) : integralLess signed x x = false := by
  cases signed with
  | false => simp [integralLess, BitVec.ult]
  | true => simp [integralLess, BitVec.slt]

def integral (w : Nat) (signed : Bool) : Ordered (BitVec (8 * w)) where
  size := w
  bytes := littleEndian
  length_bytes := length_littleEndian
  bytes_inj := littleEndian_inj
  less := integralLess signed
  irrefl := integralLess_irrefl signed

theorem byteNumbers_littleEndian (x : BitVec (8 * (w + 1))) :
    ∃ bs, byteNumbers (littleEndian x) = x.toNat % 256 :: bs := by
  rw [littleEndian, range_succ_eq_map, map_cons]
  exact ⟨_, by simp [byteNumbers]; rfl⟩

/-- The lowest byte decides. -/
theorem not_bytesLess_of_low_byte {x y : BitVec (8 * (w + 1))} (h : y.toNat % 256 < x.toNat % 256) :
    ¬ BytesLess (integral (w + 1) signed) x y := by
  obtain ⟨bs, hx⟩ := byteNumbers_littleEndian x
  obtain ⟨cs, hy⟩ := byteNumbers_littleEndian y
  change ¬ byteNumbers (littleEndian x) < byteNumbers (littleEndian y)
  rw [hx, hy, cons_lt_cons_iff]
  omega

/-- Of the integers only those of one byte without a sign have the order of their bytes. -/
theorem integral_order_iff (w : Nat) (signed : Bool) :
    (∀ x y, (integral w signed).less x y ↔ BytesLess (integral w signed) x y) ↔
      w = 0 ∨ w = 1 ∧ signed = false := by
  match w with
  | 0 =>
    refine iff_of_true (fun x y => ?_) (.inl rfl)
    obtain rfl : x = y := BitVec.eq_of_zero_length rfl
    rw [(integral 0 signed).irrefl]
    exact iff_of_false Bool.false_ne_true (lt_irrefl _)
  | 1 =>
    cases signed with
    | true =>
      refine iff_of_false (fun h => ?_) (by decide)
      exact not_bytesLess_of_low_byte (by decide) ((h 255#8 0#8).mp (by decide))
    | false =>
      refine iff_of_true (fun x y => ?_) (by decide)
      have hone : ∀ z : BitVec (8 * 1), byteNumbers (littleEndian z) = [z.toNat] := fun z => by
        simp [littleEndian, byteNumbers]
      change integralLess false x y ↔ byteNumbers (littleEndian x) < byteNumbers (littleEndian y)
      rw [hone, hone, cons_lt_cons_iff]
      simp [integralLess, BitVec.ult]
  | w + 2 =>
    refine iff_of_false (fun h => ?_) (by omega)
    have hwide : 2 ^ 16 ≤ 2 ^ (8 * (w + 2)) := Nat.pow_le_pow_right (by decide) (by omega)
    have hsmall : ∀ n < 2 ^ 16, (BitVec.ofNat (8 * (w + 2)) n).toNat = n := fun n hn => by
      rw [BitVec.toNat_ofNat, Nat.mod_eq_of_lt (by omega)]
    have hone := hsmall 1 (by decide)
    have hnext := hsmall 256 (by decide)
    refine not_bytesLess_of_low_byte (by rw [hone, hnext]; decide) ((h (BitVec.ofNat _ 1) (BitVec.ofNat _ 256)).mp ?_)
    cases signed with
    | false =>
      simp only [integral, integralLess, BitVec.ult, hone, hnext, Bool.false_eq_true, if_false, decide_eq_true_iff]
      omega
    | true =>
      simp only [integral, integralLess, BitVec.slt, BitVec.toInt, hone, hnext, if_true, decide_eq_true_iff]
      omega

/-- The specialisation is the general loop, and `operator<` of vectors the lexicographic order,
exactly where the bytes decide as the order does at the first difference. All ranges of a type are
compared so exactly if its order is that of its bytes. -/
theorem lexicographicalCompare_eq_iff (E : Ordered α) (xs ys : List α) :
    (lexicographicalCompare E xs ys = compareEach E.less xs ys ↔ BytesDecide E xs ys) ∧
    ((operatorLess E xs ys ↔ Precedes E.less xs ys) ↔ BytesDecide E xs ys) ∧
    ((∀ xs ys, lexicographicalCompare E xs ys = compareEach E.less xs ys) ↔ ∀ x y, E.less x y ↔ BytesLess E x y) ∧
    ∀ w signed, (∀ xs ys, lexicographicalCompare (integral w signed) xs ys = compareEach (integralLess signed) xs ys) ↔
      w = 0 ∨ w = 1 ∧ signed = false := by
  refine ⟨lexicographicalCompare_eq_compareEach_iff, lexicographicalCompare_iff, ?_, fun w signed => ?_⟩
  · simp only [lexicographicalCompare_eq_compareEach_iff]
    exact forall_bytesDecide_iff
  · rw [← integral_order_iff, ← forall_bytesDecide_iff]
    simp only [← lexicographicalCompare_eq_compareEach_iff]
    exact Iff.rfl

/-- `{1} < {256}` for vectors of four-byte integers. -/
theorem operatorLess_compares_low_bytes : compareEach (integralLess true) [1#(8 * 4)] [256#(8 * 4)] = true ∧
    operatorLess (integral 4 true) [1#(8 * 4)] [256#(8 * 4)] = false := by
  decide +kernel

end

end Ktl.LexicographicalCompare
