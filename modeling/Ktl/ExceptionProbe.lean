import Ktl.FrameWalk

/-!
The probe of a rethrow, which has no exception object of its own: the first frame handler
that comes to a try block walks on to the next catch frame and links the throw frame to the
`catch_info` found there. The walk is done with the registers of the throw frame itself,
those with which the dispatch goes on.
-/
namespace Ktl.ExceptionProbe

open ByteMemory FrameWalk Option

/-- `throw_frame`, with two fields of its `catch_info`; zero is the null pointer. -/
structure ThrowFrame where
  ctx : FrameWalkContext
  mach : MachineFrame
  exceptionObjectOrLink : BitVec 64
  throwInfoIfOwner : BitVec 64
  deriving DecidableEq

def catchInfoOffset : Nat := 72
def linkOffset : Nat := 96
def throwInfoOffset : Nat := 104

/-- `__cxx_call_catch_frame_handler` with the probe's cookie; `none` is `terminate`. -/
def probeCatchFrame (mem : Memory) (framePtr : BitVec 64) (t : ThrowFrame) : Option ThrowFrame :=
  let link := load64 mem (offset framePtr linkOffset)
  if link = 0 then none
  else if load64 mem (offset framePtr throwInfoOffset) ≠ 0 then
    some { t with exceptionObjectOrLink := offset framePtr catchInfoOffset }
  else some { t with exceptionObjectOrLink := link }

def framePointer (info : UnwindInfo) (t : ThrowFrame) : Option (BitVec 64) :=
  if info.frameReg ≠ 0 then (gp info.frameReg.toNat).map t.ctx.general else some t.mach.rsp

/-- A handler called with the probe's cookie: the C++ frame handlers return at once. -/
def callHandler (mem : Memory) (framePtr : BitVec 64) (t : ThrowFrame) : Handler → Option ThrowFrame
  | .cxxCallCatchFrameHandler => probeCatchFrame mem framePtr t
  | .cxxFrameHandler | .other => some t

def executeHandler (mem : Memory) (info : UnwindInfo) (t : ThrowFrame) : Option ThrowFrame :=
  if info.flags &&& 3 ≠ 0 then
    (framePointer info t).bind fun framePtr => callHandler mem framePtr t info.handler
  else some t

/-- `probe_for_exception`; `none` also if it has not returned after `fuel` frames. -/
def probeForException (image : Image) (mem : Memory) : Nat → ThrowFrame → Option ThrowFrame
  | 0, _ => none
  | fuel + 1, t =>
    (findFunctionEntry image t.mach.rip).bind fun fn =>
      (executeHandler mem fn.unwindInfo t).bind fun t =>
        if t.exceptionObjectOrLink ≠ 0 then some t
        else (unwind fn.unwindInfo mem t.ctx t.mach).bind fun c =>
          probeForException image mem fuel { t with ctx := c.1, mach := c.2 }

def caller (image : Image) (mem : Memory) (c : FrameWalkContext × MachineFrame) :
    Option (FrameWalkContext × MachineFrame) :=
  (findFunctionEntry image c.2.rip).bind fun fn => unwind fn.unwindInfo mem c.1 c.2

inductive CallStack (image : Image) (mem : Memory) : FrameWalkContext × MachineFrame → Prop
  | bottom {c} (hlast : caller image mem c = none) : CallStack image mem c
  | frame {c c'} (hcaller : caller image mem c = some c') (hrise : c.2.rsp < c'.2.rsp)
      (hrest : CallStack image mem c') : CallStack image mem c

def handlerAt (image : Image) (rip : BitVec 64) : Option Handler :=
  (findFunctionEntry image rip).map fun fn => fn.unwindInfo.handler

theorem probeCatchFrame_registers (h : probeCatchFrame mem framePtr t = some t') :
    t'.ctx = t.ctx ∧ t'.mach = t.mach := by
  simp only [probeCatchFrame] at h
  split at h
  · cases h
  · split at h <;> cases h <;> exact ⟨rfl, rfl⟩

theorem executeHandler_registers (h : executeHandler mem info t = some t') : t'.ctx = t.ctx ∧ t'.mach = t.mach := by
  unfold executeHandler at h
  split at h
  · obtain ⟨framePtr, -, hcall⟩ := bind_eq_some_iff.mp h
    cases hkind : info.handler with
    | cxxCallCatchFrameHandler =>
      rw [hkind] at hcall
      exact probeCatchFrame_registers hcall
    | cxxFrameHandler | other =>
      rw [hkind] at hcall
      cases hcall
      exact ⟨rfl, rfl⟩
  · cases h
    exact ⟨rfl, rfl⟩

theorem executeHandler_of_cxx (hcxx : info.handler = .cxxFrameHandler) (h : executeHandler mem info t = some t') :
    t' = t := by
  unfold executeHandler at h
  rw [hcxx] at h
  split at h
  · obtain ⟨framePtr, -, hcall⟩ := bind_eq_some_iff.mp h
    cases hcall
    rfl
  · cases h
    rfl

theorem probe_rsp_le (hstack : CallStack image mem (t.ctx, t.mach))
    (hprobe : probeForException image mem fuel t = some t') : t.mach.rsp ≤ t'.mach.rsp := by
  induction fuel generalizing t with
  | zero => cases hprobe
  | succ fuel ih =>
    obtain ⟨fn, hfn, hframe⟩ := bind_eq_some_iff.mp hprobe
    obtain ⟨t₁, hhandler, hwalk⟩ := bind_eq_some_iff.mp hframe
    obtain ⟨hctx, hmach⟩ := executeHandler_registers hhandler
    split at hwalk
    · cases hwalk
      rw [hmach]
      exact BitVec.le_refl _
    · obtain ⟨c, hunwind, hrest⟩ := bind_eq_some_iff.mp hwalk
      rw [hctx, hmach] at hunwind
      have hcaller : caller image mem (t.ctx, t.mach) = some c := by
        rw [caller, hfn]
        exact hunwind
      cases hstack with
      | bottom hlast => simp [hlast] at hcaller
      | frame hcaller' hrise hrest' =>
        obtain rfl := some.inj (hcaller.symm.trans hcaller')
        have hle := ih hrest' hrest
        simp only [BitVec.le_def, BitVec.lt_def] at hrise hle ⊢
        omega

/-- After the probe the registers and the machine frame are as before only if the link was already
set. -/
theorem probe_keeps_registers_iff {fuel : Nat} (hstack : CallStack image mem (t.ctx, t.mach))
    (hcxx : handlerAt image t.mach.rip = some .cxxFrameHandler)
    (hprobe : probeForException image mem fuel t = some t') :
    (t'.ctx = t.ctx ∧ t'.mach = t.mach) ↔ t.exceptionObjectOrLink ≠ 0 := by
  cases fuel with
  | zero => cases hprobe
  | succ fuel =>
    obtain ⟨fn, hfn, hframe⟩ := bind_eq_some_iff.mp hprobe
    obtain ⟨t₁, hhandler, hwalk⟩ := bind_eq_some_iff.mp hframe
    have hkind : fn.unwindInfo.handler = .cxxFrameHandler := by simpa [handlerAt, hfn] using hcxx
    obtain rfl := executeHandler_of_cxx hkind hhandler
    split_ifs at hwalk with hlink
    · cases hwalk
      exact ⟨fun _ => hlink, fun _ => ⟨rfl, rfl⟩⟩
    · refine ⟨fun hkept => absurd hkept.2 ?_, fun h => absurd h hlink⟩
      obtain ⟨c, hunwind, hrest⟩ := bind_eq_some_iff.mp hwalk
      have hcaller : caller image mem (t₁.ctx, t₁.mach) = some c := by
        rw [caller, hfn]
        exact hunwind
      cases hstack with
      | bottom hlast => simp [hlast] at hcaller
      | frame hcaller' hrise hrest' =>
        obtain rfl := some.inj (hcaller.symm.trans hcaller')
        have hle := probe_rsp_le (t := { t₁ with ctx := c.1, mach := c.2 }) hrest' hrest
        intro hsame
        rw [hsame] at hle
        exact absurd hle (BitVec.not_le.mpr hrise)

def tryInHandler : Image where
  base := 0x140000000
  size := 0x3000
  functions :=
    [⟨0x1000, 0x1100, ⟨1, 1, 0, 0, [0x0200], .cxxFrameHandler⟩⟩,
      ⟨0x2000, 0x2100, ⟨1, 0, 0, 0, [], .cxxCallCatchFrameHandler⟩⟩]

/-- The try block's frame is at `0x8000`, the catch frame, which owns `0x9000`, at `0x8010`. -/
def handlerStack : Memory :=
  store64 (store64 (store64 (fun _ => 0) 0x8008 0x140002010) 0x8070 0x9000) 0x8078 0x140003000

def tryRegisters : FrameWalkContext × MachineFrame :=
  (⟨fun _ => 0, fun _ => 0⟩, ⟨0x140001010, 0x8000⟩)

def rethrowFrame (link : BitVec 64) : ThrowFrame := ⟨tryRegisters.1, tryRegisters.2, link, 0⟩

theorem handlerStack_callStack : CallStack tryInHandler handlerStack tryRegisters := by
  have hhandler : caller tryInHandler handlerStack tryRegisters
      = some (⟨fun _ => 0, fun _ => 0⟩, ⟨0x140002010, 0x8010⟩) := by decide +kernel
  have hlast : caller tryInHandler handlerStack (⟨fun _ => 0, fun _ => 0⟩, ⟨0x140002010, 0x8010⟩)
      = some (⟨fun _ => 0, fun _ => 0⟩, ⟨0, 0x8018⟩) := by decide +kernel
  refine .frame hhandler (by decide) (.frame hlast (by decide) (.bottom ?_))
  decide +kernel

theorem probe_keeps_registers_linked :
    ∃ t', probeForException tryInHandler handlerStack 3 (rethrowFrame 0x8058) = some t'
      ∧ ((t'.ctx = (rethrowFrame 0x8058).ctx ∧ t'.mach = (rethrowFrame 0x8058).mach)
        ↔ (rethrowFrame 0x8058).exceptionObjectOrLink ≠ 0) := by
  have hprobe : probeForException tryInHandler handlerStack 3 (rethrowFrame 0x8058)
      = some (rethrowFrame 0x8058) := by decide +kernel
  exact ⟨_, hprobe, probe_keeps_registers_iff handlerStack_callStack (by decide +kernel) hprobe⟩

/-- The probe ends at the catch frame, and leaves the throw frame with the registers of that frame.
-/
theorem probe_moves_registers : probeForException tryInHandler handlerStack 3 (rethrowFrame 0)
      = some { rethrowFrame 0x8058 with mach := ⟨0x140002010, 0x8010⟩ } := by
  decide +kernel

end Ktl.ExceptionProbe
