import Ktl.FrameWalk

/-!
The search of the exception table for the function that an address belongs to.
-/
namespace Ktl.FrameWalk

abbrev Function.Covers (fn : Function) (rva : Nat) : Prop := fn.beginRva.toNat ≤ rva ∧ rva < fn.endRva.toNat

/-- The entries are sorted by where they begin, and each ends before the next begins. -/
def Consecutive (functions : List Function) : Prop :=
  functions.Pairwise fun f g => f.beginRva.toNat ≤ g.beginRva.toNat ∧ f.endRva.toNat ≤ g.beginRva.toNat

variable {j : Nat}

section

variable (hfunctions : Consecutive functions)
include hfunctions

theorem Consecutive.lt (hij : i < j) (hf : functions[i]? = some f) (hg : functions[j]? = some g) :
    f.beginRva.toNat ≤ g.beginRva.toNat ∧ f.endRva.toNat ≤ g.beginRva.toNat := by
  obtain ⟨hi, rfl⟩ := List.getElem?_eq_some_iff.mp hf
  obtain ⟨hj, rfl⟩ := List.getElem?_eq_some_iff.mp hg
  exact List.pairwise_iff_getElem.mp hfunctions i j hi hj hij

/-- An entry before another that does not begin behind the address ends there or before. -/
theorem Consecutive.le_of_covers (hf : functions[i]? = some f) (hg : functions[j]? = some g) (hcovers : f.Covers pc)
    (hbegin : g.beginRva.toNat ≤ pc) : j ≤ i := by
  apply Nat.le_of_not_lt
  intro hij
  have hend := (hfunctions.lt hij hf hg).2
  omega

theorem Consecutive.unique (hf : functions[i]? = some f) (hg : functions[j]? = some g) (hcf : f.Covers pc)
    (hcg : g.Covers pc) : i = j :=
  (hfunctions.le_of_covers hg hf hcg hcf.1).antisymm (hfunctions.le_of_covers hf hg hcf hcg.1)

/-- While an entry with the address can only be in the part that is left, the loop finds it. -/
theorem searchEntry_eq_some_iff (fuel left right : Nat) (hfuel : right - left < fuel)
    (hright : right ≤ functions.length)
    (hpart : ∀ (i : Nat) f, functions[i]? = some f → f.Covers pc → left ≤ i ∧ i < right) (f : Function) :
    searchEntry functions pc fuel left right = some f ↔ ∃ i : Nat, functions[i]? = some f ∧ f.Covers pc := by
  fun_induction searchEntry functions pc fuel left right with
  | case1 left right => omega
  | case2 left right fuel hlt idx hnone =>
    have hbehind := List.getElem?_eq_none_iff.mp hnone
    omega
  | case3 left right fuel hlt idx fn hfn hbegin ih =>
    apply ih (by omega) (by omega)
    intro i f hf hcovers
    have hi := hpart i f hf hcovers
    refine ⟨hi.1, not_le.mp fun hle => ?_⟩
    rcases Nat.lt_or_eq_of_le hle with hlt | rfl
    · have := (hfunctions.lt hlt hfn hf).1
      omega
    · cases hfn.symm.trans hf
      exact absurd hcovers.1 (by omega)
  | case4 left right fuel hlt idx fn hfn hbegin hend ih =>
    apply ih (by omega) hright
    intro i f hf hcovers
    have hi := hpart i f hf hcovers
    refine ⟨?_, hi.2⟩
    rcases Nat.lt_or_eq_of_le (hfunctions.le_of_covers hf hfn hcovers (by omega)) with hlt | rfl
    · exact hlt
    · cases hfn.symm.trans hf
      exact absurd hcovers.2 (by omega)
  | case5 left right fuel hlt idx fn hfn hbegin hend =>
    have hcovers : fn.Covers pc := ⟨by omega, by omega⟩
    constructor
    · rintro ⟨⟩
      exact ⟨idx, hfn, hcovers⟩
    · rintro ⟨i, hf, hcovers'⟩
      obtain rfl := hfunctions.unique hf hfn hcovers' hcovers
      exact hfn.symm.trans hf
  | case6 left right fuel hle =>
    constructor
    · rintro ⟨⟩
    · rintro ⟨i, hf, hcovers⟩
      have hi := hpart i f hf hcovers
      omega

theorem searchEntry_all (hfuel : functions.length < fuel) (f : Function) :
    searchEntry functions pc fuel 0 functions.length = some f ↔ f ∈ functions ∧ f.Covers pc := by
  rw [searchEntry_eq_some_iff hfunctions fuel 0 _ (by omega) le_rfl, List.mem_iff_getElem?, exists_and_right]
  intro i f hf _
  exact ⟨Nat.zero_le i, (List.getElem?_eq_some_iff.mp hf).1⟩

end

/-- From as many passes as entries on, the search gives the only entry that has the address, if any.
-/
theorem find_function_entry_correct (image : Image) (addr : BitVec 64) (hin : containsAddress image addr)
    (hfunctions : Consecutive image.functions) :
    let rva := (addr - image.base).toNat
    (∀ f, findFunctionEntry image addr = some f ↔ f ∈ image.functions ∧ f.Covers rva) ∧
      (findFunctionEntry image addr = none ↔ ∀ f ∈ image.functions, ¬ f.Covers rva) ∧
      (∀ (i j : Nat) f g, image.functions[i]? = some f → image.functions[j]? = some g → f.Covers rva →
        g.Covers rva → i = j) ∧
      ∀ fuel, image.functions.length < fuel →
        searchEntry image.functions rva fuel 0 image.functions.length = findFunctionEntry image addr := by
  intro rva
  have hfind : findFunctionEntry image addr =
      searchEntry image.functions rva (image.functions.length + 1) 0 image.functions.length := if_pos hin
  have hsome : ∀ f, findFunctionEntry image addr = some f ↔ f ∈ image.functions ∧ f.Covers rva := by
    intro f
    rw [hfind, searchEntry_all hfunctions (Nat.lt_succ_self _)]
  refine ⟨hsome, ?_, fun i j f g => hfunctions.unique, ?_⟩
  · simp [Option.eq_none_iff_forall_ne_some, hsome]
  · intro fuel hfuel
    apply Option.ext
    intro f
    rw [searchEntry_all hfunctions hfuel, hsome]

theorem find_function_entry_gap :
    let info : UnwindInfo := ⟨0, 0, 0, 0, [], .other⟩
    let image : Image := ⟨0x140000000, 0x3000, [⟨0x1000, 0x1010, info⟩, ⟨0x1020, 0x1040, info⟩]⟩
    findFunctionEntry image 0x140001030 = some ⟨0x1020, 0x1040, info⟩ ∧ findFunctionEntry image 0x140001010 = none := by
  intro info image
  have hfunctions : Consecutive image.functions := by simp [Consecutive, image]
  exact ⟨((find_function_entry_correct image 0x140001030 (by decide) hfunctions).1 _).mpr ⟨by simp [image], by decide⟩,
    (find_function_entry_correct image 0x140001010 (by decide) hfunctions).2.1.mpr (by decide)⟩

end Ktl.FrameWalk
