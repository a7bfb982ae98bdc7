import Mathlib.Algebra.Group.Int.Defs
import Mathlib.Algebra.Group.Nat.Defs

/-!
The integral types of C++ with the widths they have on Windows: the common type of
two of them, and conversion, which keeps the low bits of a number.
-/
namespace Ktl

inductive IntegralType where
  | bool | char | signedChar | unsignedChar | wchar | char16 | short | unsignedShort | char32
  | int | unsignedInt | long | unsignedLong | longLong | unsignedLongLong
  deriving DecidableEq

namespace IntegralType

@[simp] def bits : IntegralType → Nat
  | bool => 1
  | char | signedChar | unsignedChar => 8
  | wchar | char16 | short | unsignedShort => 16
  | char32 | int | unsignedInt | long | unsignedLong => 32
  | longLong | unsignedLongLong => 64

@[simp] def signed : IntegralType → Bool
  | char | signedChar | short | int | long | longLong => true
  | _ => false

def Holds (t : IntegralType) (n : Int) : Prop :=
  if t.signed then -2 ^ (t.bits - 1) ≤ n ∧ n < 2 ^ (t.bits - 1) else 0 ≤ n ∧ n < 2 ^ t.bits
deriving Decidable

def convert (t : IntegralType) (n : Int) : Int :=
  if t = bool then if n = 0 then 0 else 1
  else if t.signed then n.bmod (2 ^ t.bits) else n % 2 ^ t.bits

@[simp] def promote : IntegralType → IntegralType
  | bool | char | signedChar | unsignedChar | wchar | char16 | short | unsignedShort => int
  | char32 => unsignedInt
  | t => t

@[simp] def usual : IntegralType → IntegralType → IntegralType
  | unsignedLongLong, _ | _, unsignedLongLong => unsignedLongLong
  | longLong, _ | _, longLong => longLong
  | unsignedLong, _ | _, unsignedLong | long, unsignedInt | unsignedInt, long => unsignedLong
  | long, _ | _, long => long
  | unsignedInt, _ | _, unsignedInt => unsignedInt
  | _, _ => int

def common (s t : IntegralType) : IntegralType := if s = t then s else usual s.promote t.promote

theorem holds_convert (t : IntegralType) (n : Int) : t.Holds (t.convert n) := by
  cases t <;> simp [Holds, convert, Int.bmod_def] <;> omega
theorem convert_of_holds {t : IntegralType} (h : t.Holds n) : t.convert n = n := by
  cases t <;> simp [Holds, convert, Int.bmod_def] at h ⊢ <;> omega
theorem longLong_holds : longLong.Holds n ↔ -2 ^ 63 ≤ n ∧ n < 2 ^ 63 := Iff.rfl
theorem Holds.of_le {t : IntegralType} (h : t.Holds n) (hm : 0 ≤ m) (hmn : m ≤ n) : t.Holds m := by
  cases t <;> simp [Holds] at h ⊢ <;> omega

theorem Holds.tdiv {t : IntegralType} (h : t.Holds n) (hk : 0 < k) : t.Holds (n.tdiv k) := by
  have hle : (n.tdiv k).natAbs ≤ n.natAbs := by
    rw [Int.natAbs_tdiv]
    exact Nat.div_le_self _ _
  have hpos : 0 ≤ n → 0 ≤ n.tdiv k := fun hn => Int.tdiv_nonneg hn (Int.le_of_lt hk)
  have hneg : n ≤ 0 → n.tdiv k ≤ 0 := fun hn => by
    have := Int.tdiv_nonneg (Int.neg_nonneg_of_nonpos hn) (Int.le_of_lt hk)
    rw [Int.neg_tdiv] at this
    omega
  cases t <;> simp [Holds] at h ⊢ <;> omega

section

variable {s t : IntegralType} (hs : s.signed = true) (ht : t.signed = true)
include hs

theorem Holds.longLong (h : s.Holds n) : longLong.Holds n := by
  cases s <;> simp [Holds] at hs h ⊢ <;> omega

include ht

theorem signed_common : (common s t).signed = true := by
  cases s <;> cases t <;> simp_all [common]
theorem common_common_longLong : common (common s t) IntegralType.longLong = IntegralType.longLong := by
  cases s <;> cases t <;> simp_all [common]

end

end IntegralType
end Ktl
