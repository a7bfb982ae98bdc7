import Ktl.FrameWalk
import Mathlib.Tactic.IntervalCases

/-!
The documented meaning of the x64 unwind codes, and where `frame_walk_pdata::unwind` has it.
An operand that is not scaled takes the two slots behind its code, and the offset of a saved
register counts from the stack pointer or, in a function with a frame pointer, from where the
stack pointer was when that was set.

A code without a rule gives `none`. The two codes that only have a length, `epilog` and
`reserved07`, are passed over.
-/
namespace Ktl.UnwindRules

open ByteMemory Option
open FrameWalk hiding Function

structure Registers where
  general : Fin 8 → BitVec 64
  xmm : Fin 10 → BitVec 128
  deriving DecidableEq

def Registers.setGeneral (r : Registers) (i : Fin 8) (value : BitVec 64) : Registers :=
  { r with general := Function.update r.general i value }

def Registers.setXmm (r : Registers) (i : Fin 10) (value : BitVec 128) : Registers :=
  { r with xmm := Function.update r.xmm i value }

structure Progress where
  idx : Nat
  registers : Registers
  mach : MachineFrame
  ripUpdated : Bool
  deriving DecidableEq

def slotCount : UnwindCode → Nat → Option Nat
  | .pushNonVolatileReg, _ | .allocSmall, _ | .setFramePointer, _ => some 1
  | .pushMachineFrame, operand => if operand ≤ 1 then some 1 else none
  | .allocLarge, operand => if operand = 0 then some 2 else if operand = 1 then some 3 else none
  | .saveNonVolatileReg, _ | .saveXmm128, _ | .epilog, _ => some 2
  | .saveFarNonVolatileReg, _ | .saveFarXmm128, _ | .reserved07, _ => some 3

def xmmRegister (number : Nat) : Option (Fin 10) :=
  if 6 ≤ number ∧ number < 16 then some (Fin.ofNat 10 (number - 6)) else none

def frameBase (info : UnwindInfo) (p : Progress) : Option (BitVec 64) :=
  if info.frameReg = 0 then some p.mach.rsp
  else (gp info.frameReg.toNat).map fun reg =>
    p.registers.general reg - BitVec.ofNat 64 (info.frameRegDisp.toNat * 16)

def saveOffset (info : UnwindInfo) (idx : Nat) : UnwindCode → Nat
  | .saveNonVolatileReg => (info.data (idx + 1)).toNat * 8
  | .saveXmm128 => (info.data (idx + 1)).toNat * 16
  | _ => info.data32 (idx + 1)

def restoreGeneral (info : UnwindInfo) (mem : Memory) (code : UnwindCode) (p : Progress) :
    Option Progress :=
  (gp (info.operand p.idx)).bind fun reg => (frameBase info p).map fun base =>
    { p with registers :=
        p.registers.setGeneral reg (load64 mem (offset base (saveOffset info p.idx code))) }

def restoreXmm (info : UnwindInfo) (mem : Memory) (code : UnwindCode) (p : Progress) :
    Option Progress :=
  (xmmRegister (info.operand p.idx)).bind fun reg => (frameBase info p).map fun base =>
    { p with registers :=
        p.registers.setXmm reg (loadXmm mem (offset base (saveOffset info p.idx code))) }

def effect (info : UnwindInfo) (mem : Memory) (p : Progress) : UnwindCode → Option Progress
  | .pushNonVolatileReg => (gp (info.operand p.idx)).map fun reg =>
      { p with
        registers := p.registers.setGeneral reg (load64 mem p.mach.rsp)
        mach := { p.mach with rsp := offset p.mach.rsp 8 } }
  | .allocLarge =>
    let size := if info.operand p.idx = 0 then (info.data (p.idx + 1)).toNat * 8
      else info.data32 (p.idx + 1)
    some { p with mach := { p.mach with rsp := offset p.mach.rsp size } }
  | .allocSmall =>
    some { p with mach := { p.mach with rsp := offset p.mach.rsp (info.operand p.idx * 8 + 8) } }
  | .setFramePointer => (gp info.frameReg.toNat).map fun reg =>
      { p with mach := { p.mach with
          rsp := p.registers.general reg - BitVec.ofNat 64 (info.frameRegDisp.toNat * 16) } }
  | .saveNonVolatileReg => restoreGeneral info mem .saveNonVolatileReg p
  | .saveFarNonVolatileReg => restoreGeneral info mem .saveFarNonVolatileReg p
  | .epilog | .reserved07 => some p
  | .saveXmm128 => restoreXmm info mem .saveXmm128 p
  | .saveFarXmm128 => restoreXmm info mem .saveFarXmm128 p
  | .pushMachineFrame =>
    let machine := offset p.mach.rsp (info.operand p.idx * 8)
    some { p with
      mach := ⟨load64 mem machine, load64 mem (offset machine 24)⟩
      ripUpdated := true }

def documentedCode (info : UnwindInfo) (mem : Memory) (p : Progress) : Option Progress :=
  (info.code p.idx).bind fun code =>
    (slotCount code (info.operand p.idx)).bind fun slots =>
      if p.idx + slots ≤ info.codeCount.toNat then
        (effect info mem p code).map fun q => { q with idx := p.idx + slots }
      else none

def documentedCodes (info : UnwindInfo) (mem : Memory) : Nat → Progress → Option Progress
  | 0, p => some p
  | fuel + 1, p =>
    if p.idx < info.codeCount.toNat then (documentedCode info mem p).bind (documentedCodes info mem fuel)
    else some p

def documented (info : UnwindInfo) (mem : Memory) (registers : Registers) (mach : MachineFrame) :
    Option (Registers × MachineFrame) :=
  (documentedCodes info mem info.codeCount.toNat ⟨0, registers, mach, false⟩).map fun p =>
    if p.ripUpdated then (p.registers, p.mach)
    else (p.registers, ⟨load64 mem p.mach.rsp, offset p.mach.rsp 8⟩)

/-! ## The registers in a `frame_walk_context` -/

def xmmUnit (i : Fin 10) : Fin 11 := if i.val = 9 then Fin.last 10 else i.castSucc

def registersOf (ctx : FrameWalkContext) : Registers := ⟨ctx.general, fun i => ctx.xmm (xmmUnit i)⟩

@[simp] def Progress.of (u : Unwinding) : Progress := ⟨u.idx, registersOf u.ctx, u.mach, u.ripUpdated⟩

/-- The upper half of a large allocation's size is zero, and a saved register is found where it is
looked for. `xmm15` is written to another place, so it is right only if it already was. -/
def DecodesCode (info : UnwindInfo) (mem : Memory) (p : Progress) : UnwindCode → Prop
  | .allocLarge => info.operand p.idx ≠ 0 → info.data (p.idx + 2) = 0
  | .saveNonVolatileReg => ∀ base ∈ frameBase info p, load64 mem (offset p.mach.rsp ((info.data (p.idx + 1)).toNat * 8))
        = load64 mem (offset base (saveOffset info p.idx .saveNonVolatileReg))
  | .saveFarNonVolatileReg => ∀ base ∈ frameBase info p, load64 mem (offset p.mach.rsp (info.data32 p.idx))
        = load64 mem (offset base (saveOffset info p.idx .saveFarNonVolatileReg))
  | .saveXmm128 => ∀ base ∈ frameBase info p, (if info.operand p.idx = 15 then p.registers.xmm 9
        else loadXmm mem (offset p.mach.rsp ((info.data (p.idx + 1)).toNat * 16)))
        = loadXmm mem (offset base (saveOffset info p.idx .saveXmm128))
  | .saveFarXmm128 => ∀ base ∈ frameBase info p, (if info.operand p.idx = 15 then p.registers.xmm 9
        else loadXmm mem (offset p.mach.rsp (info.data (p.idx + 1)).toNat))
        = loadXmm mem (offset base (saveOffset info p.idx .saveFarXmm128))
  | _ => True

def Decodes (info : UnwindInfo) (mem : Memory) (p : Progress) : Prop :=
  ∀ code ∈ info.code p.idx, DecodesCode info mem p code

instance (info : UnwindInfo) (mem : Memory) (p : Progress) :
    (code : UnwindCode) → Decidable (DecodesCode info mem p code)
  | .allocLarge => inferInstanceAs (Decidable (_ → _))
  | .saveNonVolatileReg | .saveFarNonVolatileReg | .saveXmm128 | .saveFarXmm128 =>
    inferInstanceAs (Decidable (∀ _ ∈ _, _))
  | .pushNonVolatileReg | .allocSmall | .setFramePointer | .epilog | .reserved07
  | .pushMachineFrame => inferInstanceAs (Decidable True)

instance (info : UnwindInfo) (mem : Memory) (p : Progress) : Decidable (Decodes info mem p) :=
  inferInstanceAs (Decidable (∀ _ ∈ _, _))

@[simp] theorem registersOf_setGeneral (ctx : FrameWalkContext) (i : Fin 8) (value : BitVec 64) :
    registersOf (ctx.setGeneral i value) = (registersOf ctx).setGeneral i value := rfl

theorem registersOf_setXmm (ctx : FrameWalkContext) (hi : i ≠ 9) (value : BitVec 128) :
    registersOf (ctx.setXmm i.castSucc value) = (registersOf ctx).setXmm i value := by
  simp only [registersOf, FrameWalkContext.setXmm, Registers.setXmm, Registers.mk.injEq, true_and]
  funext j
  by_cases hj : j = i
  · subst hj
    have hval : j.val ≠ 9 := fun h => hi (Fin.ext h)
    simp [xmmUnit, hval]
  · have hunit : xmmUnit j ≠ i.castSucc := by
      intro h
      unfold xmmUnit at h
      split at h
      · exact absurd (congrArg Fin.val h) (by simp; omega)
      · exact hj (Fin.castSucc_injective _ h)
    simp [hj, hunit]

theorem registersOf_setXmm_nine (ctx : FrameWalkContext) (value : BitVec 128) :
    registersOf (ctx.setXmm 9 value) = registersOf ctx := by
  simp only [registersOf, FrameWalkContext.setXmm, Registers.mk.injEq, true_and]
  funext j
  have hunit : xmmUnit j ≠ 9 := by
    revert j
    decide
  simp [hunit]

theorem Registers.setGeneral_inj (r : Registers) (i : Fin 8) (v w : BitVec 64) :
    r.setGeneral i v = r.setGeneral i w ↔ v = w := by
  simp [Registers.setGeneral, (Function.update_injective r.general i).eq_iff]

theorem Registers.setXmm_inj (r : Registers) (i : Fin 10) (v w : BitVec 128) : r.setXmm i v = r.setXmm i w ↔ v = w := by
  simp [Registers.setXmm, (Function.update_injective r.xmm i).eq_iff]

theorem Registers.eq_setXmm_iff (r : Registers) (i : Fin 10) (v : BitVec 128) : r = r.setXmm i v ↔ r.xmm i = v := by
  have hself : r = r.setXmm i (r.xmm i) := by simp [Registers.setXmm]
  constructor
  · intro h
    rw [h]
    simp [Registers.setXmm]
  · rintro rfl
    exact hself

theorem getXmm_of_xmmRegister (h : xmmRegister number = some i) :
    getXmm number = some i.castSucc ∧ (number = 15 ↔ i = 9) := by
  unfold xmmRegister at h
  split at h
  · rename_i hrange
    cases h
    obtain ⟨hlow, hhigh⟩ := hrange
    interval_cases number <;> decide
  · cases h

/-! ## One code -/

theorem lowHalf_iff (info : UnwindInfo) (idx : Nat) :
    BitVec.ofNat 64 (info.data idx).toNat = BitVec.ofNat 64 (info.data32 idx) ↔ info.data (idx + 1) = 0 := by
  simp (disch := omega) only [← BitVec.toNat_inj, BitVec.toNat_ofNat, UnwindInfo.data32, Nat.mod_eq_of_lt]
  simp

theorem restoreGeneral_iff (hreg : gp (info.operand u.idx) = some reg)
    (h : restoreGeneral info mem code (.of u) = some q) :
    Progress.of { u with idx := n, ctx := u.ctx.setGeneral reg value } = { q with idx := n } ↔
      ∀ base ∈ frameBase info (.of u), value = load64 mem (offset base (saveOffset info u.idx code)) := by
  simp only [restoreGeneral, Progress.of, hreg, bind_some] at h
  obtain ⟨base, hbase, rfl⟩ := map_eq_some_iff.mp h
  simp [hbase, Registers.setGeneral_inj]

theorem restoreXmm_iff (hunit : getXmm (info.operand u.idx) = some unit)
    (h : restoreXmm info mem code (.of u) = some q) :
    Progress.of { u with idx := n, ctx := u.ctx.setXmm unit value } = { q with idx := n } ↔
      ∀ base ∈ frameBase info (.of u), (if info.operand u.idx = 15 then (registersOf u.ctx).xmm 9 else value)
          = loadXmm mem (offset base (saveOffset info u.idx code)) := by
  simp only [restoreXmm, Progress.of] at h
  obtain ⟨reg, hreg, hrest⟩ := bind_eq_some_iff.mp h
  obtain ⟨base, hbase, rfl⟩ := map_eq_some_iff.mp hrest
  obtain ⟨hget, hlast⟩ := getXmm_of_xmmRegister hreg
  obtain rfl : reg.castSucc = unit := some.inj (hget.symm.trans hunit)
  by_cases h15 : info.operand u.idx = 15
  · obtain rfl := hlast.mp h15
    have hnine : registersOf (u.ctx.setXmm (Fin.castSucc 9) value) = registersOf u.ctx :=
      registersOf_setXmm_nine u.ctx value
    rw [if_pos h15]
    simp only [Progress.of, hnine, hbase, Progress.mk.injEq, true_and, and_true, mem_def,
      some.injEq, forall_eq', Registers.eq_setXmm_iff]
  · have hreg9 : reg ≠ 9 := fun h => h15 (hlast.mpr h)
    simp [hbase, h15, registersOf_setXmm _ hreg9, Registers.setXmm_inj]

theorem unwindCode_documented (h : documentedCode info mem (.of u) = some p) :
    ∃ u', unwindCode info mem u = some u' ∧ u'.idx = p.idx ∧ (Progress.of u' = p ↔ Decodes info mem (.of u)) := by
  obtain ⟨code, hcode, hslots⟩ := bind_eq_some_iff.mp h
  obtain ⟨slots, hcount, hinside⟩ := bind_eq_some_iff.mp hslots
  rw [ite_none_right_eq_some] at hinside
  obtain ⟨q, heffect, rfl⟩ := map_eq_some_iff.mp hinside.2
  have hcode' : info.code u.idx = some code := hcode
  cases code with
  | pushNonVolatileReg =>
    cases hcount
    obtain ⟨reg, hreg, rfl⟩ := map_eq_some_iff.mp heffect
    have hreg' : gp (info.operand u.idx) = some reg := hreg
    simp [unwindCode, hcode', hreg', Decodes, DecodesCode]
  | allocLarge =>
    cases heffect
    by_cases hzero : info.operand u.idx = 0
    · have hslots : slots = 2 := by simpa [slotCount, hzero, eq_comm] using hcount
      simp [unwindCode, hcode', hzero, Decodes, DecodesCode, hslots]
    · have hslots : slots = 3 := by
        have hone : info.operand u.idx = 1 := by
          by_contra hne
          simp [slotCount, hzero, hne] at hcount
        simpa [slotCount, hone, eq_comm] using hcount
      simp only [unwindCode, hcode', hzero, if_false, some.injEq, exists_eq_left', Decodes, DecodesCode,
        mem_def, forall_eq', Progress.of, hslots, true_and, Progress.mk.injEq, MachineFrame.mk.injEq,
        and_true, ne_eq, not_false_eq_true, forall_const, offset, BitVec.add_right_inj]
      exact lowHalf_iff info (u.idx + 1)
  | allocSmall | epilog | reserved07 =>
    cases hcount
    cases heffect
    simp [unwindCode, hcode', Decodes, DecodesCode]
  | setFramePointer =>
    cases hcount
    obtain ⟨reg, hreg, rfl⟩ := map_eq_some_iff.mp heffect
    simp [unwindCode, hcode', hreg, Decodes, DecodesCode, registersOf]
  | saveNonVolatileReg | saveFarNonVolatileReg =>
    cases hcount
    obtain ⟨reg, hreg, -⟩ := bind_eq_some_iff.mp heffect
    have hreg' : gp (info.operand u.idx) = some reg := hreg
    simp only [unwindCode, hcode', hreg', map_some, some.injEq, exists_eq_left',
      Decodes, DecodesCode, mem_def, forall_eq', Progress.of, true_and]
    exact restoreGeneral_iff hreg' heffect
  | saveXmm128 | saveFarXmm128 =>
    cases hcount
    obtain ⟨reg, hreg, -⟩ := bind_eq_some_iff.mp heffect
    have hunit := (getXmm_of_xmmRegister hreg).1
    have hunit' : getXmm (info.operand u.idx) = some reg.castSucc := hunit
    simp only [unwindCode, hcode', hunit', map_some, some.injEq, exists_eq_left',
      Decodes, DecodesCode, mem_def, forall_eq', Progress.of, true_and]
    exact restoreXmm_iff hunit' heffect
  | pushMachineFrame =>
    cases heffect
    have hslots : slots = 1 := by
      simp only [slotCount, ite_none_right_eq_some] at hcount
      exact (some.inj hcount.2).symm
    simp [unwindCode, hcode', Decodes, DecodesCode, hslots]

/-! ## All codes of a function -/

def documentedSteps (info : UnwindInfo) (mem : Memory) : Nat → Progress → List Progress
  | 0, _ => []
  | fuel + 1, p =>
    if p.idx < info.codeCount.toNat then
      match documentedCode info mem p with
      | some q => q :: documentedSteps info mem fuel q
      | none => []
    else []

def unwindSteps (info : UnwindInfo) (mem : Memory) : Nat → Unwinding → List Progress
  | 0, _ => []
  | fuel + 1, u =>
    if u.idx < info.codeCount.toNat then
      match unwindCode info mem u with
      | some v => .of v :: unwindSteps info mem fuel v
      | none => []
    else []

def DecodesAll (info : UnwindInfo) (mem : Memory) : Nat → Progress → Prop
  | 0, _ => True
  | fuel + 1, p => p.idx < info.codeCount.toNat →
      Decodes info mem p ∧ ∀ q ∈ documentedCode info mem p, DecodesAll info mem fuel q

instance (info : UnwindInfo) (mem : Memory) : (fuel : Nat) → (p : Progress) → Decidable (DecodesAll info mem fuel p)
  | 0, _ => inferInstanceAs (Decidable True)
  | fuel + 1, _ =>
    have : ∀ q, Decidable (DecodesAll info mem fuel q) := fun q =>
      instDecidableDecodesAll info mem fuel q
    inferInstanceAs (Decidable (_ → _ ∧ ∀ _ ∈ _, _))

theorem documentedCodes_succ (h : documentedCodes info mem (fuel + 1) p = some r)
    (hidx : p.idx < info.codeCount.toNat) :
    ∃ q, documentedCode info mem p = some q ∧ documentedCodes info mem fuel q = some r := by
  rw [documentedCodes, if_pos hidx] at h
  exact bind_eq_some_iff.mp h

theorem unwindSteps_eq_iff (h : documentedCodes info mem fuel (.of u) = some r) :
    unwindSteps info mem fuel u = documentedSteps info mem fuel (.of u) ↔ DecodesAll info mem fuel (.of u) := by
  induction fuel generalizing u with
  | zero => simp [unwindSteps, documentedSteps, DecodesAll]
  | succ fuel ih =>
    by_cases hidx : (Progress.of u).idx < info.codeCount.toNat
    · obtain ⟨q, hq, hrest⟩ := documentedCodes_succ h hidx
      obtain ⟨v, hv, -, heffect⟩ := unwindCode_documented hq
      have hidx' : u.idx < info.codeCount.toNat := hidx
      simp only [unwindSteps, hidx', if_true, hv, documentedSteps, hidx, hq, List.cons.injEq,
        DecodesAll, forall_const, mem_def, some.injEq, forall_eq', heffect]
      refine and_congr_right fun hdecodes => ?_
      obtain rfl := heffect.mpr hdecodes
      exact ih hrest
    · have hidx' : ¬u.idx < info.codeCount.toNat := hidx
      simp [unwindSteps, hidx', documentedSteps, DecodesAll]

theorem unwindCodes_documented (h : documentedCodes info mem fuel (.of u) = some r)
    (hall : DecodesAll info mem fuel (.of u)) :
    ∃ v, unwindCodes info mem fuel u = some v ∧ Progress.of v = r := by
  induction fuel generalizing u with
  | zero => exact ⟨u, rfl, some.inj h⟩
  | succ fuel ih =>
    by_cases hidx : (Progress.of u).idx < info.codeCount.toNat
    · obtain ⟨q, hq, hrest⟩ := documentedCodes_succ h hidx
      obtain ⟨v, hv, -, heffect⟩ := unwindCode_documented hq
      obtain ⟨hdecodes, htail⟩ := hall hidx
      obtain rfl := heffect.mpr hdecodes
      obtain ⟨w, hw, hend⟩ := ih hrest (htail _ hq)
      have hidx' : u.idx < info.codeCount.toNat := hidx
      exact ⟨w, by rw [unwindCodes, if_pos hidx', hv, bind_some, hw], hend⟩
    · have hidx' : ¬u.idx < info.codeCount.toNat := hidx
      rw [documentedCodes, if_neg hidx] at h
      exact ⟨u, by rw [unwindCodes, if_neg hidx'], some.inj h⟩

theorem frameBase_isSome (info : UnwindInfo) (p p' : Progress) :
    (frameBase info p).isSome = (frameBase info p').isSome := by
  unfold frameBase
  split <;> simp

theorem effect_isSome (hidx : p.idx = p'.idx) (code : UnwindCode) :
    (effect info mem p code).isSome = (effect info mem p' code).isSome := by
  have hbase := frameBase_isSome info p p'
  cases code with
  | saveNonVolatileReg | saveFarNonVolatileReg =>
    simp only [effect, restoreGeneral, hidx]
    cases gp (info.operand p'.idx) <;> simp [hbase]
  | saveXmm128 | saveFarXmm128 =>
    simp only [effect, restoreXmm, hidx]
    cases xmmRegister (info.operand p'.idx) <;> simp [hbase]
  | _ => simp [effect, hidx]

theorem documentedCode_idx (p' : Progress) (hidx : p.idx = p'.idx) (h : documentedCode info mem p = some q) :
    ∃ q', documentedCode info mem p' = some q' ∧ q'.idx = q.idx := by
  obtain ⟨code, hcode, hslots⟩ := bind_eq_some_iff.mp h
  obtain ⟨slots, hcount, hinside⟩ := bind_eq_some_iff.mp hslots
  rw [ite_none_right_eq_some] at hinside
  obtain ⟨after, heffect, rfl⟩ := map_eq_some_iff.mp hinside.2
  obtain ⟨after', heffect'⟩ : ∃ after', effect info mem p' code = some after' := by
    rw [← isSome_iff_exists, ← effect_isSome hidx, heffect]
    rfl
  rw [hidx] at hcode hcount hinside
  refine ⟨{ after' with idx := p'.idx + slots }, ?_, by rw [hidx]⟩
  rw [documentedCode, hcode, bind_some, hcount, bind_some, if_pos hinside.1, heffect', map_some]

theorem unwindSteps_idx (hidx : u.idx = p.idx) (h : documentedCodes info mem fuel p = some r) :
    (unwindSteps info mem fuel u).map Progress.idx = (documentedSteps info mem fuel p).map Progress.idx := by
  induction fuel generalizing u p with
  | zero => rfl
  | succ fuel ih =>
    by_cases hlt : p.idx < info.codeCount.toNat
    · obtain ⟨q, hq, hrest⟩ := documentedCodes_succ h hlt
      obtain ⟨q', hq', hqidx⟩ := documentedCode_idx (.of u) hidx.symm hq
      obtain ⟨v, hv, hvidx, -⟩ := unwindCode_documented hq'
      have hsame : v.idx = q.idx := hvidx.trans hqidx
      simp only [unwindSteps, hidx, hlt, if_true, hv, documentedSteps, hq, List.map_cons,
        ih hsame hrest, List.cons.injEq, and_true]
      exact hsame
    · simp [unwindSteps, documentedSteps, hidx, hlt]

/-- The loop reads its codes from the slots that the rules say. Every code has its documented effect
exactly when every code decodes, and then the registers, `rsp` and `rip` of the caller are those of
the rules. -/
theorem unwind_documented_iff {ctx : FrameWalkContext} {mach : MachineFrame}
    {r : Registers × MachineFrame} (h : documented info mem (registersOf ctx) mach = some r) :
    let n := info.codeCount.toNat
    let start : Unwinding := ⟨0, ctx, mach, false⟩
    (unwindSteps info mem n start).map Progress.idx = (documentedSteps info mem n (.of start)).map Progress.idx ∧
      (unwindSteps info mem n start = documentedSteps info mem n (.of start) ↔ DecodesAll info mem n (.of start)) ∧
      (DecodesAll info mem n (.of start) →
        (unwind info mem ctx mach).map (fun c => (registersOf c.1, c.2)) = some r) := by
  intro n start
  obtain ⟨last, hcodes, rfl⟩ := map_eq_some_iff.mp h
  have hstart := hcodes
  refine ⟨unwindSteps_idx rfl hstart, unwindSteps_eq_iff hstart, fun hall => ?_⟩
  obtain ⟨v, hv, rfl⟩ := unwindCodes_documented hstart hall
  have hloop := hv
  rw [unwind, hloop, map_some, map_some]
  cases hrip : v.ripUpdated <;> simp [hrip]

/-- The codes `alloc_small 0x20` and `push_nonvol rbx`. -/
theorem unwind_documented_small :
    let info : UnwindInfo := ⟨0, 2, 0, 0, [0x3204, 0x3000], .other⟩
    let ctx : FrameWalkContext := ⟨fun _ => 0, fun _ => 0⟩
    let mach : MachineFrame := ⟨0x140001000, 0x8000⟩
    let mem : Memory := store64 (store64 (fun _ => 0) 0x8020 7) 0x8028 0x140002000
    let r : Registers × MachineFrame :=
      ((registersOf ctx).setGeneral 0 7, ⟨0x140002000, 0x8030⟩)
    documented info mem (registersOf ctx) mach = some r ∧
      (unwind info mem ctx mach).map (fun c => (registersOf c.1, c.2)) = some r := by
  intro info ctx mach mem r
  have hdocumented : documented info mem (registersOf ctx) mach = some r := by decide +kernel
  exact ⟨hdocumented, (unwind_documented_iff hdocumented).2.2 (by decide +kernel)⟩

/-- One code each: a large allocation of `0x10000` bytes, `rbx` and `xmm6` saved at a 32-bit offset,
`xmm15` saved, and `rbx` saved at an offset from the frame pointer `rbp`. -/
theorem unwind_misreads :
    let ctx : FrameWalkContext := ⟨fun _ => 0x9000, fun _ => 0⟩
    let mach : MachineFrame := ⟨0x140001000, 0x8000⟩
    let mem : Memory := fun a => a.setWidth 8 + a.extractLsb' 12 8
    let infos : List UnwindInfo :=
      [⟨0, 3, 0, 0, [0x1104, 0x0000, 0x0001], .other⟩, ⟨0, 3, 0, 0, [0x3504, 0x0010, 0x0000], .other⟩,
        ⟨0, 3, 0, 0, [0x6904, 0x0000, 0x0001], .other⟩, ⟨0, 2, 0, 0, [0xf804, 0x0001], .other⟩,
        ⟨0, 2, 5, 0, [0x3404, 0x0001], .other⟩]
    ∀ info ∈ infos, (documented info mem (registersOf ctx) mach).isSome ∧
      (unwind info mem ctx mach).map (fun c => (registersOf c.1, c.2))
        ≠ documented info mem (registersOf ctx) mach := by
  decide +kernel

end Ktl.UnwindRules
