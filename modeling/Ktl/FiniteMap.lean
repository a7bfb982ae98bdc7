import Mathlib.Data.List.Pairwise

/-!
Finite maps as lists of entries with different keys. Keys are compared by an
equivalence of their own, and the order of the entries has no meaning.
-/
namespace Ktl.FiniteMap

open List

variable {κ ν : Type*}

def lookup (eq : κ → κ → Bool) (m : List (κ × ν)) (k : κ) : Option (κ × ν) := m.find? fun e => eq k e.1

def assign (eq : κ → κ → Bool) (m : List (κ × ν)) (k : κ) (v : ν) : List (κ × ν) :=
  m.map fun e => if eq k e.1 then (e.1, v) else e

def erase (eq : κ → κ → Bool) (m : List (κ × ν)) (k : κ) : List (κ × ν) := m.filter fun e => !eq k e.1

def Distinct (eq : κ → κ → Bool) (m : List (κ × ν)) : Prop := m.Pairwise fun e e' => eq e.1 e'.1 = false

structure Equivalence (eq : κ → κ → Bool) : Prop where
  symm : ∀ x y, eq x y = true → eq y x = true
  trans : ∀ x y z, eq x y = true → eq y z = true → eq x z = true

section
variable {eq : κ → κ → Bool} {m : List (κ × ν)} {k : κ} {e : κ × ν} {before after : List (κ × ν)}

theorem lookup_eq_none (habsent : ∀ e ∈ m, eq k e.1 = false) : lookup eq m k = none := by
  rw [lookup, find?_eq_none]
  intro e he
  rw [habsent e he]
  exact Bool.false_ne_true

theorem erase_of_absent (habsent : ∀ e ∈ m, eq k e.1 = false) : erase eq m k = m := by
  rw [erase, filter_eq_self]
  intro e he
  rw [habsent e he]
  rfl

section

variable (heq : Equivalence eq)

include heq

section
variable (hdistinct : Distinct eq (before ++ e :: after)) (hkey : eq k e.1 = true)
include hdistinct hkey

theorem Distinct.others : ∀ x ∈ before ++ after, eq k x.1 = false := by
  rw [Distinct, pairwise_append, pairwise_cons] at hdistinct
  obtain ⟨_, ⟨hafter, _⟩, hbefore⟩ := hdistinct
  intro x hx
  rw [← Bool.not_eq_true]
  intro hsame
  rcases mem_append.mp hx with hx | hx
  · have hne := hbefore x hx e mem_cons_self
    rw [heq.trans x.1 k e.1 (heq.symm k x.1 hsame) hkey] at hne
    cases hne
  · have hne := hafter x hx
    rw [heq.trans e.1 k x.1 (heq.symm k e.1 hkey) hsame] at hne
    cases hne

theorem lookup_middle : lookup eq (before ++ e :: after) k = some e := by
  have hothers := hdistinct.others heq hkey
  have hbefore : before.find? (fun x => eq k x.1) = none :=
    lookup_eq_none fun x hx => hothers x (mem_append_left after hx)
  rw [lookup, find?_append, hbefore, Option.none_or, find?_cons, hkey]

end

theorem lookup_of_mem (hdistinct : Distinct eq m) (he : e ∈ m) (hkey : eq k e.1 = true) : lookup eq m k = some e := by
  obtain ⟨before, after, rfl⟩ := append_of_mem he
  exact lookup_middle heq hdistinct hkey

section
variable (hdistinct : Distinct eq (before ++ e :: after)) (hkey : eq k e.1 = true)
include hdistinct hkey

theorem erase_middle : erase eq (before ++ e :: after) k = before ++ after := by
  have hothers := hdistinct.others heq hkey
  have hkeep : ∀ l : List (κ × ν), (∀ x ∈ l, x ∈ before ++ after) → l.filter (fun x => !eq k x.1) = l := by
    intro l hl
    rw [filter_eq_self]
    intro x hx
    rw [hothers x (hl x hx)]
    rfl
  rw [erase, filter_append, filter_cons_of_neg (by simp [hkey]),
    hkeep before fun x hx => mem_append_left after hx,
    hkeep after fun x hx => mem_append_right before hx]

theorem assign_middle (v : ν) : assign eq (before ++ e :: after) k v = before ++ (e.1, v) :: after := by
  have hothers := hdistinct.others heq hkey
  have hkeep : ∀ l : List (κ × ν), (∀ x ∈ l, x ∈ before ++ after) →
      l.map (fun x => if eq k x.1 then (x.1, v) else x) = l := by
    intro l hl
    calc l.map (fun x => if eq k x.1 then (x.1, v) else x) = l.map id := by
          apply map_congr_left
          intro x hx
          rw [hothers x (hl x hx)]
          rfl
      _ = l := map_id l
  rw [assign, map_append, map_cons, if_pos hkey, hkeep before fun x hx => mem_append_left after hx,
    hkeep after fun x hx => mem_append_right before hx]

end

end

end

end Ktl.FiniteMap
