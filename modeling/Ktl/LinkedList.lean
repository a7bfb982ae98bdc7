import Mathlib.Data.List.Basic

/-!
Singly linked lists in memory. The successor of a node is read from a memory
function; `Linked next start L` says that following it from `start` visits
exactly the nodes of `L` and then stops.
-/
namespace Ktl.LinkedList

variable {β : Type*}

def Linked (next : β → Option β) : Option β → List β → Prop
  | none, [] => True
  | some p, q :: L => p = q ∧ Linked next (next p) L
  | _, _ => False

def follow (next : β → Option β) : Nat → Option β → List β
  | fuel + 1, some p => p :: follow next fuel (next p)
  | _, _ => []

variable {next next' : β → Option β} {start : Option β} {L : List β}

@[simp] theorem linked_nil : Linked next start [] ↔ start = none := by
  cases start with
  | none => exact iff_of_true trivial rfl
  | some p => exact iff_of_false id nofun

@[simp] theorem linked_cons : Linked next start (q :: L) ↔ start = some q ∧ Linked next (next q) L := by
  cases start with
  | none => exact iff_of_false id fun h => nomatch h.1
  | some p =>
    constructor
    · rintro ⟨rfl, h⟩
      exact ⟨rfl, h⟩
    · rintro ⟨hp, h⟩
      exact ⟨Option.some.inj hp, Option.some.inj hp ▸ h⟩

theorem linked_none : Linked next none L ↔ L = [] := by
  cases L <;> simp

theorem Linked.of_append (h : Linked next start (L ++ p :: L')) : Linked next (next p) L' := by
  induction L generalizing start with
  | nil => exact (linked_cons.mp h).2
  | cons a L ih => exact ih (linked_cons.mp h).2

theorem Linked.snoc (h : Linked next start (L ++ [p])) (heq : ∀ a ∈ L, next' a = next a)
    (hp : next' p = some q) (hq : next' q = none) : Linked next' start (L ++ [p, q]) := by
  induction L generalizing start with
  | nil =>
    obtain ⟨hs, -⟩ := linked_cons.mp h
    simp [hs, hp, hq]
  | cons a L ih =>
    obtain ⟨hs, hrest⟩ := linked_cons.mp h
    refine linked_cons.mpr ⟨hs, ?_⟩
    rw [heq a (by simp)]
    exact ih hrest fun b hb => heq b (by simp [hb])

section

variable (h : Linked next start L)

include h

theorem Linked.frame (heq : ∀ p ∈ L, next' p = next p) : Linked next' start L := by
  induction L generalizing start with
  | nil => simpa using h
  | cons q L ih =>
    obtain ⟨hs, hrest⟩ := linked_cons.mp h
    rw [linked_cons, heq q (by simp)]
    exact ⟨hs, ih hrest fun p hp => heq p (by simp [hp])⟩

theorem Linked.mem_tail (hp : p ∈ L) (hq : next p = some q) : q ∈ L.tail := by
  induction L generalizing start with
  | nil => simp at hp
  | cons a L ih =>
    obtain ⟨-, hrest⟩ := linked_cons.mp h
    rcases List.mem_cons.mp hp with rfl | hp
    · cases L with
      | nil => simp [hq] at hrest
      | cons b L =>
        obtain ⟨hb, -⟩ := linked_cons.mp hrest
        rw [hq, Option.some.injEq] at hb
        simp [hb]
    · exact List.mem_of_mem_tail (ih hrest hp)

theorem Linked.eq_append (hp : p ∈ L) (hnone : next p = none) : ∃ M, L = M ++ [p] := by
  induction L generalizing start with
  | nil => simp at hp
  | cons a L ih =>
    obtain ⟨-, hrest⟩ := linked_cons.mp h
    rcases List.mem_cons.mp hp with rfl | hp
    · rw [hnone, linked_none] at hrest
      exact ⟨[], by rw [hrest]; rfl⟩
    · obtain ⟨M, rfl⟩ := ih hrest hp
      exact ⟨a :: M, rfl⟩

theorem follow_linked (hfuel : L.length ≤ fuel) : follow next fuel start = L := by
  induction L generalizing start fuel with
  | nil =>
    rw [linked_nil] at h
    subst h
    cases fuel <;> rfl
  | cons a L ih =>
    obtain ⟨rfl, hrest⟩ := linked_cons.mp h
    cases fuel with
    | zero => simp at hfuel
    | succ fuel => rw [follow, ih hrest (by simpa using hfuel)]

end

end Ktl.LinkedList
