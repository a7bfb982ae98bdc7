import Ktl.Outcome

/-!
Construction and destruction of arrays (`__ehvec_ctor`, `__ehvec_dtor`). Constructors and
destructors are arbitrary routines over an arbitrary program state, and every call is
recorded with the address it was given.
-/
namespace Ktl.ArrayUnwind

variable {ε σ : Type*}

inductive Call where
  | constructor (object : BitVec 64)
  | destructor (object : BitVec 64)
  deriving DecidableEq

structure Machine (σ : Type*) where
  state : σ
  calls : List Call
  deriving DecidableEq

structure Element (ε σ : Type*) where
  size : BitVec 64
  construct : BitVec 64 → σ → Outcome ε σ
  destroy : BitVec 64 → σ → σ

def callConstructor (el : Element ε σ) (object : BitVec 64) (m : Machine σ) : Outcome ε (Machine σ) :=
  match el.construct object m.state with
  | .returned s => .returned ⟨s, m.calls ++ [.constructor object]⟩
  | .threw e s => .threw e ⟨s, m.calls ++ [.constructor object]⟩

def callDestructor (el : Element ε σ) (object : BitVec 64) (m : Machine σ) : Machine σ :=
  ⟨el.destroy object m.state, m.calls ++ [.destructor object]⟩

/-- The loop of `destroy_array_in_reversed_order`, from one past the last
element. -/
def destroyLoop (el : Element ε σ) : Nat → BitVec 64 → Machine σ → Machine σ
  | 0, _, m => m
  | count + 1, currentObj, m =>
    let currentObj := currentObj - el.size
    destroyLoop el count currentObj (callDestructor el currentObj m)

def destroyArrayInReversedOrder (el : Element ε σ) (arrBegin : BitVec 64) (count : Nat) (m : Machine σ) : Machine σ :=
  destroyLoop el count (arrBegin + el.size * BitVec.ofNat 64 count) m

/-- The loop of `construct_array`: `idx` elements are constructed, `remaining` still to come. -/
def constructLoop (el : Element ε σ) (arrBegin : BitVec 64) :
    (remaining idx : Nat) → BitVec 64 → Machine σ → Outcome ε (Machine σ)
  | 0, _, _, m => .returned m
  | remaining + 1, idx, currentObj, m =>
    match callConstructor el currentObj m with
    | .returned m => constructLoop el arrBegin remaining (idx + 1) (currentObj + el.size) m
    -- the handler destroys what was built and throws again
    | .threw e m => .threw e (destroyArrayInReversedOrder el arrBegin idx m)

def constructArray (el : Element ε σ) (arrBegin : BitVec 64) (count : Nat) (m : Machine σ) : Outcome ε (Machine σ) :=
  constructLoop el arrBegin count 0 arrBegin m

/-! ## What the calls are for -/

def elementAt (el : Element ε σ) (arrBegin : BitVec 64) (i : Nat) : BitVec 64 :=
  arrBegin + el.size * BitVec.ofNat 64 i

/-- The constructors of the first `i` elements all return and lead from `s` to `t`. -/
inductive Builds (el : Element ε σ) (arrBegin : BitVec 64) (s : σ) : Nat → σ → Prop
  | zero : Builds el arrBegin s 0 s
  | succ {i : Nat} {t u : σ} (h : Builds el arrBegin s i t)
      (hret : el.construct (elementAt el arrBegin i) t = .returned u) :
      Builds el arrBegin s (i + 1) u

def destroyed (el : Element ε σ) (arrBegin : BitVec 64) : Nat → σ → σ
  | 0, s => s
  | i + 1, s => destroyed el arrBegin i (el.destroy (elementAt el arrBegin i) s)

def constructions (el : Element ε σ) (arrBegin : BitVec 64) (i : Nat) : List Call :=
  (List.range i).map fun j => .constructor (elementAt el arrBegin j)

def destructions (el : Element ε σ) (arrBegin : BitVec 64) (i : Nat) : List Call :=
  (List.range i).reverse.map fun j => .destructor (elementAt el arrBegin j)

@[simp] theorem elementAt_zero : elementAt el arrBegin 0 = arrBegin := by
  simp [elementAt]
theorem elementAt_succ (i : Nat) : elementAt el arrBegin (i + 1) = elementAt el arrBegin i + el.size := by
  simp [elementAt, BitVec.ofNat_add, BitVec.mul_add, BitVec.add_assoc]
theorem elementAt_succ_sub (i : Nat) : elementAt el arrBegin (i + 1) - el.size = elementAt el arrBegin i := by
  rw [elementAt_succ, BitVec.add_sub_cancel]

theorem constructions_succ (i : Nat) : constructions el arrBegin (i + 1)
      = constructions el arrBegin i ++ [.constructor (elementAt el arrBegin i)] := by
  simp [constructions, List.range_succ]

theorem destructions_succ (i : Nat) : destructions el arrBegin (i + 1)
      = .destructor (elementAt el arrBegin i) :: destructions el arrBegin i := by
  simp [destructions, List.range_succ]

theorem destroyLoop_eq (i : Nat) (m : Machine σ) : destroyLoop el i (elementAt el arrBegin i) m
      = ⟨destroyed el arrBegin i m.state, m.calls ++ destructions el arrBegin i⟩ := by
  induction i generalizing m with
  | zero => simp [destroyLoop, destroyed, destructions]
  | succ i ih =>
    simp [destroyLoop, elementAt_succ_sub, ih, callDestructor, destroyed, destructions_succ]

theorem constructLoop_of_threw (hthrew : el.construct (elementAt el arrBegin i) t = .threw e u) :
    constructLoop el arrBegin (remaining + 1) i (elementAt el arrBegin i) ⟨t, calls⟩
      = .threw e ⟨destroyed el arrBegin i u,
        calls ++ [.constructor (elementAt el arrBegin i)] ++ destructions el arrBegin i⟩ := by
  simp only [constructLoop, callConstructor, hthrew, destroyArrayInReversedOrder]
  exact congrArg (Outcome.threw e) (destroyLoop_eq i _)

theorem constructLoop_of_builds (hbuilds : Builds el arrBegin s i t) (calls : List Call) (remaining : Nat) :
    constructLoop el arrBegin (i + remaining) 0 arrBegin ⟨s, calls⟩
      = constructLoop el arrBegin remaining i (elementAt el arrBegin i) ⟨t, calls ++ constructions el arrBegin i⟩ := by
  induction hbuilds generalizing remaining with
  | zero => simp [constructions]
  | succ h hret ih =>
    rename_i i t u
    rw [Nat.add_assoc, Nat.add_comm 1, ih (remaining + 1)]
    simp [constructLoop, callConstructor, hret, elementAt_succ, constructions_succ]

theorem builds_or_threw (el : Element ε σ) (arrBegin : BitVec 64) (s : σ) (n : Nat) :
    (∃ t, Builds el arrBegin s n t) ∨ ∃ i < n, ∃ t e u, Builds el arrBegin s i t ∧
        el.construct (elementAt el arrBegin i) t = .threw e u := by
  induction n with
  | zero => exact .inl ⟨s, .zero⟩
  | succ n ih =>
    rcases ih with ⟨t, ht⟩ | ⟨i, hi, hthrew⟩
    · cases hcall : el.construct (elementAt el arrBegin n) t with
      | returned u => exact .inl ⟨u, .succ ht hcall⟩
      | threw e u => exact .inr ⟨n, Nat.lt_succ_self n, t, e, u, ht, hcall⟩
    · exact .inr ⟨i, Nat.lt_succ_of_lt hi, hthrew⟩

/-- Either all constructors return, called in increasing order, and nothing is destroyed; or that of
some element `i` throws, exactly the elements `i - 1, …, 0` are destroyed, in that order, and the
exception goes on. -/
theorem constructArray_unwinds (el : Element ε σ) (arrBegin : BitVec 64) (n : Nat) (s : σ) :
    (∀ t, Builds el arrBegin s n t →
      constructArray el arrBegin n ⟨s, []⟩ = .returned ⟨t, constructions el arrBegin n⟩) ∧
    (∀ i < n, ∀ t e u, Builds el arrBegin s i t → el.construct (elementAt el arrBegin i) t = .threw e u →
      constructArray el arrBegin n ⟨s, []⟩ = .threw e ⟨destroyed el arrBegin i u,
        constructions el arrBegin (i + 1) ++ destructions el arrBegin i⟩) ∧
    ((∃ t, Builds el arrBegin s n t) ∨ ∃ i < n, ∃ t e u, Builds el arrBegin s i t ∧
        el.construct (elementAt el arrBegin i) t = .threw e u) := by
  refine ⟨?_, ?_, builds_or_threw el arrBegin s n⟩
  · intro t hbuilds
    have hloop := constructLoop_of_builds hbuilds [] 0
    simpa [constructArray, constructLoop] using hloop
  · intro i hi t e u hbuilds hthrew
    obtain ⟨remaining, rfl⟩ : ∃ remaining, n = i + (remaining + 1) := ⟨n - i - 1, by omega⟩
    rw [constructArray, constructLoop_of_builds hbuilds [], constructLoop_of_threw hthrew,
      constructions_succ, List.nil_append]

/-- Three elements of eight bytes whose third constructor throws. -/
example :
    let el : Element String Nat :=
      ⟨8, fun _ s => if s = 2 then .threw "full" s else .returned (s + 1), fun _ s => s - 1⟩
    constructArray el 0x1000 3 ⟨0, []⟩ = .threw "full" ⟨0, [.constructor 0x1000,
      .constructor 0x1008, .constructor 0x1010, .destructor 0x1008, .destructor 0x1000]⟩ := by
  decide

end Ktl.ArrayUnwind
