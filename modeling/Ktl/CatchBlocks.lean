import Ktl.ByteMemory

/-!
What the frame handlers of both table formats share: the `catch_info` of the throw frame,
the program that is unwound, and `process_catch_block`.
-/
namespace Ktl.CatchBlocks

open ByteMemory

inductive BugCheckReason where
  | corruptedFunctionUnwindState
  | corruptedEhUnwindData
  | noexceptViolation
  | corruptedExceptionHandler
  | noMatchingExceptionHandler
  deriving DecidableEq

/-- Why a handler does not return: it calls `terminate`, or its table has a cycle. -/
inductive Stop where
  | terminate (reason : BugCheckReason)
  | cycle
  deriving DecidableEq

structure MemberPtr where
  vbaseOffset : BitVec 32
  vbtablePtrOffset : BitVec 32
  memberOffset : BitVec 32
  deriving DecidableEq

def MemberPtr.apply (ptr : MemberPtr) (mem : Memory) (obj : BitVec 64) : BitVec 64 :=
  let base := if ptr.vbtablePtrOffset ≠ 0 then
      let vbtablePtr := obj + ptr.vbtablePtrOffset.setWidth 64
      let vbtable := load64 mem vbtablePtr
      vbtablePtr + (load32 mem (vbtable + ptr.vbaseOffset.setWidth 64)).setWidth 64
    else obj
  base + ptr.memberOffset.setWidth 64

structure CatchableType where
  properties : BitVec 32
  desc : BitVec 32
  offset : MemberPtr
  size : BitVec 32
  copyFn : BitVec 32
  deriving DecidableEq

structure ThrowInfo where
  attributes : BitVec 32
  destroyExcObj : BitVec 32
  catchables : List CatchableType
  deriving DecidableEq

def isSimpleType : BitVec 32 := 0x01
def byReferenceOnly : BitVec 32 := 0x02
def hasVirtualBase : BitVec 32 := 0x04
def throwQualifiers : BitVec 32 := 0x07
def isReference : BitVec 32 := 0x08
def isEllipsis : BitVec 32 := 0x40

def hasAnyOf {w : Nat} (flags other : BitVec w) : Bool := flags &&& other != 0

/-- The program whose stack is unwound: its image, the `throw_info` behind a pointer, its copy
constructors (told whether the class has a virtual base), its cleanup functions, and the link that a
probe finds, `none` for `terminate`. -/
structure Program where
  imageBase : BitVec 64
  throwInfo : BitVec 64 → ThrowInfo
  copyCtor : BitVec 32 → BitVec 64 → BitVec 64 → Bool → Memory → Memory
  call : BitVec 32 → BitVec 64 → Memory → Memory
  probe : Memory → Option (BitVec 64)

def plainProgram : Program where
  imageBase := 0x140000000
  throwInfo _ := ⟨0, 0, []⟩
  copyCtor _ _ _ _ mem := mem
  call _ _ mem := mem
  probe _ := none

/-! ## The throw frame's `catch_info`, by its address -/

def continuationField (ci : BitVec 64) (k : Nat) : BitVec 64 := offset ci (8 * k)
def primaryFramePtrField (ci : BitVec 64) : BitVec 64 := offset ci 16
def linkField (ci : BitVec 64) : BitVec 64 := offset ci 24
def throwInfoField (ci : BitVec 64) : BitVec 64 := offset ci 32
def unwindContextField (ci : BitVec 64) : BitVec 64 := offset ci 40

def getExceptionObject (mem : Memory) (ci : BitVec 64) : BitVec 64 :=
  let link := load64 mem (linkField ci)
  if load64 mem (throwInfoField ci) ≠ 0 then link
  else if link ≠ 0 then load64 mem (linkField link) else 0

def getThrowInfo (mem : Memory) (ci : BitVec 64) : BitVec 64 :=
  let link := load64 mem (linkField ci)
  if link ≠ 0 then
    let own := load64 mem (throwInfoField ci)
    if own ≠ 0 then own else load64 mem (throwInfoField link)
  else 0

def resolve (prog : Program) (mem : Memory) (ci : BitVec 64) : Except Stop Memory :=
  if getThrowInfo mem ci = 0 then
    match prog.probe mem with
    | some link => .ok (store64 mem (linkField ci) link)
    | none => .error (.terminate .corruptedExceptionHandler)
  else .ok mem

def destroyException (prog : Program) (mem : Memory) (ci : BitVec 64) : Memory :=
  let throwInfo := load64 mem (throwInfoField ci)
  if throwInfo ≠ 0 ∧ (prog.throwInfo throwInfo).destroyExcObj ≠ 0 then
    prog.call (prog.throwInfo throwInfo).destroyExcObj (load64 mem (linkField ci)) mem
  else mem

/-- `__cxx_call_catch_frame_handler` for an unwind of the handler frame with `frameCi`. -/
def unwindCatchFrame (prog : Program) (mem : Memory) (ci frameCi : BitVec 64) : Memory :=
  let link := load64 mem (linkField ci)
  let mem := if link = 0 ∨ link = frameCi then
      let mem := store64 mem (linkField ci) (load64 mem (linkField frameCi))
      store64 mem (throwInfoField ci) (load64 mem (throwInfoField frameCi))
    else destroyException prog mem frameCi
  let mem := store64 mem (primaryFramePtrField ci) (load64 mem (primaryFramePtrField frameCi))
  store64 mem (unwindContextField ci) (load64 mem (unwindContextField frameCi))

/-! ## `process_catch_block` -/

def copyToCatchBlock (prog : Program) (mem : Memory) (catchable : CatchableType)
    (catchVar object : BitVec 64) : Memory :=
  if hasAnyOf catchable.properties isSimpleType then
    copy mem catchVar object catchable.size.toNat
  else if catchable.copyFn = 0 then
    copy mem catchVar (catchable.offset.apply mem object) catchable.size.toNat
  else
    prog.copyCtor catchable.copyFn catchVar object (hasAnyOf catchable.properties hasVirtualBase) mem

def transferToCatchBlock (prog : Program) (mem : Memory) (adjectives : BitVec 32)
    (catchable : CatchableType) (catchVar object : BitVec 64) : Memory :=
  if !hasAnyOf catchable.properties byReferenceOnly || hasAnyOf adjectives isReference then
    if !hasAnyOf adjectives isReference then copyToCatchBlock prog mem catchable catchVar object
    else store64 mem catchVar object
  else mem

/-- `process_catch_block`: `some` is true, with the memory after the clause's
variable has been set. -/
def processCatchBlock (prog : Program) (mem : Memory) (adjectives matchType : BitVec 32)
    (catchVar object : BitVec 64) (throwInfo : ThrowInfo) : Option Memory :=
  if hasAnyOf adjectives isEllipsis then some mem
  else if throwInfo.attributes &&& throwQualifiers &&& ~~~adjectives ≠ 0 then none
  else (throwInfo.catchables.find? (·.desc == matchType)).map fun catchable =>
    transferToCatchBlock prog mem adjectives catchable catchVar object

end Ktl.CatchBlocks
