import Mathlib.Data.List.Lex
import Mathlib.Order.Lattice

/-!
Three-way comparison of lists in lexicographic order, where a proper prefix is
smaller, and how it sees a list of which only a first part is compared.
-/
namespace Ktl.TextOrder

open List

variable {α : Type*} [LinearOrder α] {a t : List α} {y : α}

/-- Negative, zero or positive as the first list is smaller, equal or greater. -/
def sign (a b : List α) : Int := if a < b then -1 else if b < a then 1 else 0

theorem sign_of_lt (h : a < b) : sign a b = -1 := if_pos h
theorem sign_of_gt (h : b < a) : sign a b = 1 := by rw [sign, if_neg (lt_asymm h), if_pos h]
@[simp] theorem sign_self : sign a a = 0 := by simp [sign]

theorem sign_eq_zero : sign a b = 0 ↔ a = b := by
  constructor
  · intro h
    rcases lt_trichotomy a b with hlt | heq | hgt
    · rw [sign_of_lt hlt] at h
      cases h
    · exact heq
    · rw [sign_of_gt hgt] at h
      cases h
  · rintro rfl
    exact sign_self

theorem sign_lt_zero : sign a b < 0 ↔ a < b := by
  rcases lt_trichotomy a b with hlt | rfl | hgt
  · simp [sign_of_lt hlt, hlt]
  · simp
  · simp [sign_of_gt hgt, lt_asymm hgt]

theorem zero_lt_sign : 0 < sign a b ↔ b < a := by
  rcases lt_trichotomy a b with hlt | rfl | hgt
  · simp [sign_of_lt hlt, lt_asymm hlt]
  · simp
  · simp [sign_of_gt hgt, hgt]

@[simp] theorem sign_nil_cons : sign [] (y :: b) = -1 := sign_of_lt (nil_lt_cons y b)
@[simp] theorem sign_cons_nil : sign (x :: a) [] = 1 := sign_of_gt (nil_lt_cons x a)
theorem sign_cons_self : sign (x :: a) (x :: b) = sign a b := by
  simp [sign]

theorem sign_cons_ne (h : x ≠ y) : sign (x :: a) (y :: b) = if x < y then -1 else 1 := by
  split_ifs with hlt
  · exact sign_of_lt (cons_lt_cons_iff.mpr (.inl hlt))
  · exact sign_of_gt (cons_lt_cons_iff.mpr (.inl (lt_of_le_of_ne (le_of_not_gt hlt) h.symm)))

theorem sign_append_of_not_prefix (h : ¬ t <+: s) : sign s (t ++ u) = sign s t := by
  induction t generalizing s with
  | nil => exact absurd nil_prefix h
  | cons y t ih =>
    cases s with
    | nil => rw [cons_append, sign_nil_cons, sign_nil_cons]
    | cons x s =>
      rw [cons_append]
      by_cases hxy : x = y
      · subst hxy
        rw [sign_cons_self, sign_cons_self]
        exact ih fun hbegins => h ((prefix_cons_inj x).mpr hbegins)
      · rw [sign_cons_ne hxy, sign_cons_ne hxy]

theorem lt_append (h : u ≠ []) : a < a ++ u := by
  induction a with
  | nil =>
    obtain ⟨x, u, rfl⟩ := exists_cons_of_ne_nil h
    exact nil_lt_cons x u
  | cons x a ih => exact cons_lt_cons_iff.mpr (.inr ⟨rfl, ih⟩)

theorem sign_of_prefix (h : t <+: s) : sign s t = if s = t then 0 else 1 := by
  obtain ⟨u, rfl⟩ := h
  split_ifs with heq
  · rw [heq, sign_self]
  · apply sign_of_gt
    apply lt_append
    rintro rfl
    exact heq (append_nil t)

end Ktl.TextOrder
