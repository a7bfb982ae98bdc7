import Ktl.TextOrder
import Ktl.WinntString

/-!
`basic_winnt_string_view`: a buffer of characters and its length in bytes, a
number of 16 bits. Characters are ordered as the numbers without sign that
`memcmp` and `wmemcmp` compare.
-/
namespace Ktl.StringView

open TextOrder WinntString List

variable {α : Type}

structure View (f : Format) (α : Type) where
  chars : List α
  /-- `Length` is a number of 16 bits -/
  fits : chars.length * f.charSize < 2 ^ 16

section

variable [LinearOrder α]

@[simp] def compareChars : List α → List α → Nat → Int
  | _, _, 0 => 0
  | a :: str1, b :: str2, count + 1 =>
    if a = b then compareChars str1 str2 count else if a < b then -1 else 1
  | _, _, _ + 1 => 0

@[simp] def compareUnchecked (lhs : List α) (lhsCount : Nat) (rhs : List α) (rhsCount : Nat) : Int :=
  let cmpResult := compareChars lhs rhs (min lhsCount rhsCount)
  if cmpResult = 0 ∧ lhsCount ≠ rhsCount then if lhsCount < rhsCount then -1 else 1
  else cmpResult

theorem compareUnchecked_eq_sign {lhs rhs : List α} (hlhs : lhsCount ≤ lhs.length) (hrhs : rhsCount ≤ rhs.length) :
    compareUnchecked lhs lhsCount rhs rhsCount = sign (lhs.take lhsCount) (rhs.take rhsCount) := by
  induction lhsCount generalizing lhs rhs rhsCount with
  | zero =>
    cases rhsCount with
    | zero => simp
    | succ rhsCount =>
      obtain ⟨b, rhs, rfl⟩ := exists_cons_of_length_pos ((Nat.succ_pos _).trans_le hrhs)
      simp
  | succ lhsCount ih =>
    obtain ⟨a, lhs, rfl⟩ := exists_cons_of_length_pos ((Nat.succ_pos _).trans_le hlhs)
    cases rhsCount with
    | zero => simp
    | succ rhsCount =>
      obtain ⟨b, rhs, rfl⟩ := exists_cons_of_length_pos ((Nat.succ_pos _).trans_le hrhs)
      have hmin : min (lhsCount + 1) (rhsCount + 1) = min lhsCount rhsCount + 1 := by omega
      rw [take_succ_cons, take_succ_cons]
      by_cases hab : a = b
      · subst hab
        have hrest := ih (Nat.le_of_succ_le_succ hlhs) (Nat.le_of_succ_le_succ hrhs)
        rw [sign_cons_self, ← hrest]
        simp [compareUnchecked, hmin, compareChars]
      · rw [sign_cons_ne hab]
        simp only [compareUnchecked, hmin, compareChars, if_neg hab]
        split <;> simp

end

namespace View

variable {f : Format} (v w : View f α)

def size : Nat := v.chars.length

def substrUnchecked (pos count : Nat) : View f α :=
  let rest := (v.size + 2 ^ 16 - pos) % 2 ^ 16
  ⟨(v.chars.drop pos).take (f.toChars (f.toBytes (min rest count))), by
    have hle : ((v.chars.drop pos).take (f.toChars (f.toBytes (min rest count)))).length ≤ v.chars.length := by
      rw [List.length_take, List.length_drop]
      omega
    exact (Nat.mul_le_mul_right _ hle).trans_lt v.fits⟩

variable [LinearOrder α]

def compare : Int := compareUnchecked v.chars v.size w.chars w.size

def startsWith : Bool :=
  if v.size < w.size then false
  else compareUnchecked v.chars w.size w.chars w.size = 0

/-- The result of the comparison is returned as it is, so that every number but
zero becomes `true`. -/
def endsWith : Bool :=
  if v.size < w.size then false
  else (v.substrUnchecked (v.size - w.size) w.size).compare w ≠ 0

end View

def View.reverse {f : Format} (v : View f α) : View f α :=
  ⟨v.chars.reverse, by rw [List.length_reverse]; exact v.fits⟩

variable {f : Format} {v : View f α}

theorem size_lt (v : View f α) : v.size < 2 ^ 16 := by
  have hfits := v.fits
  cases f.charSize_eq with
  | inl h => rwa [h, Nat.mul_one] at hfits
  | inr h =>
    rw [h] at hfits
    exact (Nat.le_mul_of_pos_right _ (by decide)).trans_lt hfits

theorem chars_substrUnchecked_last (hn : n ≤ v.size) :
    (v.substrUnchecked (v.size - n) n).chars = v.chars.drop (v.size - n) := by
  have hsize := size_lt v
  have hrest : (v.size + 2 ^ 16 - (v.size - n)) % 2 ^ 16 = n := by omega
  have hbytes : f.toChars (f.toBytes n) = n := by
    have hfits := v.fits
    have hmul := (Nat.mul_le_mul_right _ hn).trans_lt hfits
    rw [Format.toBytes, Nat.mod_eq_of_lt hmul, Format.toChars]
    apply Nat.mul_div_cancel
    cases f.charSize_eq with
    | inl h => rw [h]; decide
    | inr h => rw [h]; decide
  have hlen : (v.chars.drop (v.size - n)).length = n := by
    rw [length_drop]
    exact Nat.sub_sub_self hn
  simp only [View.substrUnchecked, hrest, Nat.min_self, hbytes]
  rw [take_of_length_le hlen.le]

variable [LinearOrder α]

theorem compare_eq_sign : v.compare w = sign v.chars w.chars := by
  have heq := compareUnchecked_eq_sign (Nat.le_refl v.chars.length) (Nat.le_refl w.chars.length)
  rw [take_length, take_length] at heq
  exact heq

theorem startsWith_iff : v.startsWith w = true ↔ w.chars <+: v.chars := by
  unfold View.startsWith
  split_ifs with hless
  · simp only [false_iff]
    exact fun hbegins => hless.not_ge hbegins.length_le
  · have hself : w.size ≤ w.chars.length := le_rfl
    rw [decide_eq_true_iff, compareUnchecked_eq_sign (not_lt.mp hless) hself, sign_eq_zero]
    change v.chars.take w.chars.length = w.chars.take w.chars.length ↔ _
    rw [take_length, prefix_iff_eq_take]
    exact eq_comm

theorem endsWith_iff : v.endsWith w = true ↔ w.size ≤ v.size ∧ ¬ w.chars <:+ v.chars := by
  unfold View.endsWith
  split_ifs with hless
  · simp [hless.not_ge]
  · have hle' := not_lt.mp hless
    rw [decide_eq_true_iff, compare_eq_sign, chars_substrUnchecked_last hle', ne_eq, sign_eq_zero]
    rw [suffix_iff_eq_drop]
    simp only [hle', true_and]
    exact not_congr eq_comm

theorem says_iff (hb : b = true ↔ p ∧ ¬ q) (hq : q → p) : (b = true ↔ q) ↔ ¬ p := by
  rw [hb]
  constructor
  · intro h hp
    by_cases hq' : q
    · exact (h.mpr hq').2 hq'
    · exact hq' (h.mp ⟨hp, hq'⟩)
  · intro hp
    exact iff_of_false (fun hand => hp hand.1) fun hq' => hp (hq hq')

/-- `starts_with` is right; `ends_with` only for views that are too long to be one. -/
theorem affixes_iff (v w : View f α) : (v.startsWith w = true ↔ ∃ u, v.chars = w.chars ++ u) ∧
    ((v.endsWith w = true ↔ ∃ u, v.chars = u ++ w.chars) ↔ v.size < w.size) ∧
    (v.endsWith w = v.reverse.startsWith w.reverse ↔ v.size < w.size) := by
  have hlen : w.chars <:+ v.chars → w.size ≤ v.size := List.IsSuffix.length_le
  have hends := says_iff endsWith_iff hlen
  rw [Nat.not_le] at hends
  refine ⟨?_, ?_, ?_⟩
  · rw [startsWith_iff]
    exact exists_congr fun u => eq_comm
  · rw [← hends]
    have hsuffix : (∃ u, v.chars = u ++ w.chars) ↔ w.chars <:+ v.chars := exists_congr fun u => eq_comm
    rw [hsuffix]
  · rw [← hends, Bool.eq_iff_iff, startsWith_iff]
    exact iff_congr Iff.rfl reverse_prefix

theorem noBuffer_lt : 0 < 2 ^ 16 := by decide

def ansi : Format := ⟨1, 0, narrowChar_size, noBuffer_lt⟩

/-- `"ab"` does not end with `"b"` but ends with `"a"`. -/
theorem endsWith_inverted : (View.endsWith (⟨[97, 98], by decide⟩ : View ansi Nat) ⟨[98], by decide⟩ = false ∧
      [98] <:+ [97, 98]) ∧
    (View.endsWith (⟨[97, 98], by decide⟩ : View ansi Nat) ⟨[97], by decide⟩ = true ∧ ¬ [97] <:+ [97, 98]) := by
  decide

end Ktl.StringView
