import Mathlib.Data.List.Basic

/-!
Accesses of shared cells that were reserved in some order and are carried out
later. `settled` is what the cells will hold once every reserved access has
been made in that order; an access that is made in its turn leaves it as it is.
-/
namespace Ktl.Deferred

inductive Access (α : Type*) where
  /-- a read, with the value it has to see -/
  | read (seen : α)
  | write (value : α)
  deriving DecidableEq

def Access.seen {α : Type*} : Access α → Option α
  | .read x => some x
  | .write _ => none

@[simp] theorem seen_read {α : Type*} (x : α) : (Access.read x).seen = some x := rfl
@[simp] theorem seen_write {α : Type*} (x : α) : (Access.write x).seen = none := rfl

structure Entry (ι τ α : Type*) where
  index : ι
  owner : τ
  access : Access α
  deriving DecidableEq

variable {ι τ α : Type*} [DecidableEq ι]

@[simp] def replay : α → List (Access α) → α
  | x, [] => x
  | x, .read _ :: accesses => replay x accesses
  | _, .write y :: accesses => replay y accesses

@[simp] def Consistent : α → List (Access α) → Prop
  | _, [] => True
  | x, .read seen :: accesses => seen = x ∧ Consistent x accesses
  | _, .write y :: accesses => Consistent y accesses

@[simp] def accessesAt (order : List (Entry ι τ α)) (i : ι) : List (Access α) :=
  (order.filter fun e => e.index = i).map Entry.access

def settled (cells : ι → α) (order : List (Entry ι τ α)) (i : ι) : α :=
  replay (cells i) (accessesAt order i)

def Coherent (cells : ι → α) (order : List (Entry ι τ α)) : Prop :=
  ∀ i, Consistent (cells i) (accessesAt order i)

theorem replay_append (x : α) (as bs : List (Access α)) : replay x (as ++ bs) = replay (replay x as) bs := by
  induction as generalizing x with
  | nil => rfl
  | cons a as ih =>
    cases a with
    | read seen => exact ih x
    | write y => exact ih y

theorem consistent_append (x : α) (as bs : List (Access α)) :
    Consistent x (as ++ bs) ↔ Consistent x as ∧ Consistent (replay x as) bs := by
  induction as generalizing x with
  | nil => simp
  | cons a as ih =>
    cases a with
    | read seen => simp [ih, and_assoc]
    | write y => simp [ih]

theorem accessesAt_append (as bs : List (Entry ι τ α)) (i : ι) :
    accessesAt (as ++ bs) i = accessesAt as i ++ accessesAt bs i := by
  simp

theorem accessesAt_eq_nil {as : List (Entry ι τ α)} (h : ∀ e ∈ as, e.index ≠ i) : accessesAt as i = [] := by
  simpa [List.filter_eq_nil_iff] using h

section
variable {cells : ι → α}

theorem settled_append_read (v : α) : settled cells (order ++ [⟨i, t, .read v⟩]) = settled cells order := by
  funext j
  rw [settled, accessesAt_append, replay_append]
  by_cases he : i = j <;> simp [he, settled]

theorem settled_append_write (v : α) :
    settled cells (order ++ [⟨i, t, .write v⟩]) = Function.update (settled cells order) i v := by
  funext j
  rw [settled, accessesAt_append, replay_append]
  by_cases he : i = j
  · subst he
    simp
  · simp [he, Ne.symm he, settled]

theorem Coherent.append_read (h : Coherent cells order) :
    Coherent cells (order ++ [⟨i, t, .read (settled cells order i)⟩]) := by
  intro j
  rw [accessesAt_append, consistent_append]
  constructor
  · exact h j
  · by_cases he : i = j
    · subst he
      simp [settled]
    · simp [he]

theorem Coherent.append_write (h : Coherent cells order) (v : α) : Coherent cells (order ++ [⟨i, t, .write v⟩]) := by
  intro j
  rw [accessesAt_append, consistent_append]
  constructor
  · exact h j
  · by_cases he : i = j <;> simp [he]

end

section

variable {cells : ι → α} {before : List (Entry ι τ α)} {i : ι}

theorem accessesAt_other (hne : i ≠ j) :
    accessesAt (before ++ ⟨i, t, a⟩ :: after) j = accessesAt (before ++ after) j := by
  simp [hne]

section
variable (hfirst : ∀ e ∈ before, e.index ≠ i)
include hfirst

theorem accessesAt_first {a : Access α} :
    accessesAt (before ++ ⟨i, t, a⟩ :: after) i = a :: accessesAt (before ++ after) i := by
  rw [accessesAt_append, accessesAt_append, accessesAt_eq_nil hfirst]
  simp

theorem Coherent.perform_read (h : Coherent cells (before ++ ⟨i, t, .read v⟩ :: after)) :
    cells i = v ∧ Coherent cells (before ++ after) := by
  have hi := h i
  rw [accessesAt_first hfirst, Consistent] at hi
  constructor
  · exact hi.1.symm
  · intro j
    by_cases he : i = j
    · subst he
      exact hi.2
    · have hj := h j
      rwa [accessesAt_other he] at hj

theorem settled_perform_read :
    settled cells (before ++ after) = settled cells (before ++ ⟨i, t, .read v⟩ :: after) := by
  funext j
  by_cases he : i = j
  · subst he
    rw [settled, settled, accessesAt_first hfirst, replay]
  · rw [settled, settled, accessesAt_other he]

theorem Coherent.perform_write (h : Coherent cells (before ++ ⟨i, t, .write v⟩ :: after)) :
    Coherent (Function.update cells i v) (before ++ after) := by
  intro j
  have hj := h j
  by_cases he : i = j
  · subst he
    rw [accessesAt_first hfirst, Consistent] at hj
    rwa [Function.update_self]
  · rw [accessesAt_other he] at hj
    rwa [Function.update_of_ne (Ne.symm he)]

theorem settled_perform_write : settled (Function.update cells i v) (before ++ after) =
      settled cells (before ++ ⟨i, t, .write v⟩ :: after) := by
  funext j
  by_cases he : i = j
  · subst he
    rw [settled, settled, accessesAt_first hfirst, replay, Function.update_self]
  · rw [settled, settled, accessesAt_other he, Function.update_of_ne (Ne.symm he)]

end

omit [DecidableEq ι] in
theorem owner_ne_of_nodup (hn : ((before ++ e :: after).map Entry.owner).Nodup) :
    ∀ e' ∈ before ++ after, e'.owner ≠ e.owner := by
  have hmid : (e.owner :: ((before ++ after).map Entry.owner)).Nodup := by
    apply hn.perm
    simp
  intro e' he' heq
  apply (List.nodup_cons.mp hmid).1
  rw [← heq]
  exact List.mem_map_of_mem he'

omit [DecidableEq ι] in
theorem filter_owner_ne [DecidableEq τ] (hn : ((before ++ e :: after).map Entry.owner).Nodup) :
    (before ++ e :: after).filter (fun e' => e'.owner ≠ e.owner) = before ++ after := by
  rw [List.filter_append, List.filter_cons_of_neg (by simp), ← List.filter_append, List.filter_eq_self]
  simpa using owner_ne_of_nodup hn

end

end Ktl.Deferred
