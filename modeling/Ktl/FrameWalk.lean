import Mathlib.Data.Fintype.Pi
import Ktl.ByteMemory

/-!
Walking the stack by the exception table of the image. `frame_walk_pdata::unwind` turns the
registers of a frame into those of its caller; `none` stands for `terminate`.
-/
namespace Ktl.FrameWalk

open ByteMemory

/-- `rbx`, `rbp`, `rsi`, `rdi`, `r12` to `r15`; `xmm6` to `xmm14`, `padding1` with `dummy_rsp`,
`xmm15`. -/
structure FrameWalkContext where
  general : Fin 8 → BitVec 64
  xmm : Fin 11 → BitVec 128
  deriving DecidableEq

structure MachineFrame where
  rip : BitVec 64
  rsp : BitVec 64
  deriving DecidableEq

inductive Handler where
  /-- `__CxxFrameHandler3` or `__CxxFrameHandler4`, with or without a cookie check -/
  | cxxFrameHandler
  /-- `__cxx_call_catch_frame_handler` -/
  | cxxCallCatchFrameHandler
  /-- `__cxx_seh_frame_handler` or a handler of the system -/
  | other
  deriving DecidableEq

inductive UnwindCode where
  | pushNonVolatileReg | allocLarge | allocSmall | setFramePointer | saveNonVolatileReg
  | saveFarNonVolatileReg | epilog | reserved07 | saveXmm128 | saveFarXmm128 | pushMachineFrame
  deriving DecidableEq

def UnwindCode.decode : Nat → Option UnwindCode
  | 0 => some .pushNonVolatileReg
  | 1 => some .allocLarge
  | 2 => some .allocSmall
  | 3 => some .setFramePointer
  | 4 => some .saveNonVolatileReg
  | 5 => some .saveFarNonVolatileReg
  | 6 => some .epilog
  | 7 => some .reserved07
  | 8 => some .saveXmm128
  | 9 => some .saveFarXmm128
  | 10 => some .pushMachineFrame
  | _ => none

/-- `slots` are the sixteen-bit units from the first entry on, which `entries`
and `data` both name. -/
structure UnwindInfo where
  flags : BitVec 5
  codeCount : BitVec 8
  frameReg : BitVec 4
  frameRegDisp : BitVec 4
  slots : List (BitVec 16)
  handler : Handler
  deriving DecidableEq

/-- `get_unwind_data_as` -/
def UnwindInfo.data (info : UnwindInfo) (idx : Nat) : BitVec 16 := info.slots.getD idx 0

def UnwindInfo.code (info : UnwindInfo) (idx : Nat) : Option UnwindCode :=
  UnwindCode.decode ((info.data idx).toNat / 2 ^ 8 % 2 ^ 4)

def UnwindInfo.operand (info : UnwindInfo) (idx : Nat) : Nat := (info.data idx).toNat / 2 ^ 12

def UnwindInfo.data32 (info : UnwindInfo) (idx : Nat) : Nat :=
  (info.data idx).toNat + 2 ^ 16 * (info.data (idx + 1)).toNat

def gp : Nat → Option (Fin 8)
  | 3 => some 0
  | 5 => some 1
  | 6 => some 2
  | 7 => some 3
  | 12 => some 4
  | 13 => some 5
  | 14 => some 6
  | 15 => some 7
  | _ => none

def getXmm : Nat → Option (Fin 11)
  | 6 => some 0
  | 7 => some 1
  | 8 => some 2
  | 9 => some 3
  | 10 => some 4
  | 11 => some 5
  | 12 => some 6
  | 13 => some 7
  | 14 => some 8
  | 15 => some 9
  | _ => none

def FrameWalkContext.setGeneral (ctx : FrameWalkContext) (i : Fin 8) (value : BitVec 64) :
    FrameWalkContext :=
  { ctx with general := Function.update ctx.general i value }

def FrameWalkContext.setXmm (ctx : FrameWalkContext) (i : Fin 11) (value : BitVec 128) :
    FrameWalkContext :=
  { ctx with xmm := Function.update ctx.xmm i value }

def loadXmm (mem : Memory) (a : BitVec 64) : BitVec 128 := BitVec.ofNat 128 (load mem a 16)

/-- The next slot, the registers, and whether a machine frame has set `rip`. -/
structure Unwinding where
  idx : Nat
  ctx : FrameWalkContext
  mach : MachineFrame
  ripUpdated : Bool

/-- One code of `unwind`. -/
def unwindCode (info : UnwindInfo) (mem : Memory) (u : Unwinding) : Option Unwinding :=
  let idx := u.idx
  let operand := info.operand idx
  let rsp := u.mach.rsp
  match info.code idx with
  | some .pushNonVolatileReg => (gp operand).map fun reg =>
      { u with
        idx := idx + 1
        ctx := u.ctx.setGeneral reg (load64 mem rsp)
        mach := { u.mach with rsp := offset rsp 8 } }
  | some .allocLarge =>
    if operand = 0 then
      some { u with
        idx := idx + 2
        mach := { u.mach with rsp := offset rsp ((info.data (idx + 1)).toNat * 8) } }
    else
      some { u with
        idx := idx + 3
        mach := { u.mach with rsp := offset rsp (info.data (idx + 1)).toNat } }
  | some .allocSmall =>
    some { u with idx := idx + 1, mach := { u.mach with rsp := offset rsp (operand * 8 + 8) } }
  | some .setFramePointer => (gp info.frameReg.toNat).map fun reg =>
      { u with
        idx := idx + 1
        mach := { u.mach with
          rsp := u.ctx.general reg - BitVec.ofNat 64 (info.frameRegDisp.toNat * 16) } }
  | some .saveNonVolatileReg => (gp operand).map fun reg =>
      { u with
        idx := idx + 2
        ctx := u.ctx.setGeneral reg (load64 mem (offset rsp ((info.data (idx + 1)).toNat * 8))) }
  | some .saveFarNonVolatileReg => (gp operand).map fun reg =>
      { u with
        idx := idx + 3
        ctx := u.ctx.setGeneral reg (load64 mem (offset rsp (info.data32 idx))) }
  | some .epilog => some { u with idx := idx + 2 }
  | some .reserved07 => some { u with idx := idx + 3 }
  | some .saveXmm128 => (getXmm operand).map fun reg =>
      { u with
        idx := idx + 2
        ctx := u.ctx.setXmm reg (loadXmm mem (offset rsp ((info.data (idx + 1)).toNat * 16))) }
  | some .saveFarXmm128 => (getXmm operand).map fun reg =>
      { u with
        idx := idx + 3
        ctx := u.ctx.setXmm reg (loadXmm mem (offset rsp (info.data (idx + 1)).toNat)) }
  | some .pushMachineFrame =>
    let machine := offset rsp (operand * 8)
    some { u with
      idx := idx + 1
      mach := ⟨load64 mem machine, load64 mem (offset machine 24)⟩
      ripUpdated := true }
  | none => some { u with idx := idx + 1 }

/-- The loop of `unwind`. Every code takes a slot, so the number of slots is
enough fuel. -/
def unwindCodes (info : UnwindInfo) (mem : Memory) : Nat → Unwinding → Option Unwinding
  | 0, u => some u
  | fuel + 1, u =>
    if u.idx < info.codeCount.toNat then (unwindCode info mem u).bind (unwindCodes info mem fuel)
    else some u

def unwind (info : UnwindInfo) (mem : Memory) (ctx : FrameWalkContext) (mach : MachineFrame) :
    Option (FrameWalkContext × MachineFrame) :=
  (unwindCodes info mem info.codeCount.toNat ⟨0, ctx, mach, false⟩).map fun u =>
    if u.ripUpdated then (u.ctx, u.mach)
    else (u.ctx, ⟨load64 mem u.mach.rsp, offset u.mach.rsp 8⟩)

/-! ## The exception table -/

structure Function where
  beginRva : BitVec 32
  endRva : BitVec 32
  unwindInfo : UnwindInfo
  deriving DecidableEq

/-- `frame_walk_pdata` -/
structure Image where
  base : BitVec 64
  size : BitVec 32
  functions : List Function

def containsAddress (image : Image) (addr : BitVec 64) : Bool :=
  image.base.toNat ≤ addr.toNat && (addr - image.base).toNat < image.size.toNat

/-- The binary search of `find_function_entry`; the number of entries is enough fuel. -/
def searchEntry (functions : List Function) (pc : Nat) : Nat → Nat → Nat → Option Function
  | 0, _, _ => none
  | fuel + 1, left, right =>
    if left < right then
      let idx := left + (right - left) / 2
      match functions[idx]? with
      | none => none
      | some fn =>
        if pc < fn.beginRva.toNat then searchEntry functions pc fuel left idx
        else if fn.endRva.toNat ≤ pc then searchEntry functions pc fuel (idx + 1) right
        else some fn
    else none

/-- `find_function_entry`; `none` is `terminate` or the null pointer, which every caller
dereferences. -/
def findFunctionEntry (image : Image) (addr : BitVec 64) : Option Function :=
  if containsAddress image addr then
    searchEntry image.functions (addr - image.base).toNat (image.functions.length + 1) 0 image.functions.length
  else none

end Ktl.FrameWalk
