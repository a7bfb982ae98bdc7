import Ktl.FrameHandler3

/-!
`frame_handler` of the compressed table format. The tables are read from the image byte by
byte.
-/
namespace Ktl.FrameHandler4

open ByteMemory CatchBlocks FrameHandler3

/-! ## Reading the tables -/

def lengths : List Nat := [1, 2, 1, 3, 1, 2, 1, 4, 1, 2, 1, 3, 1, 2, 1, 5]

def shifts : List Nat :=
  [0x19, 0x12, 0x19, 0x0b, 0x19, 0x12, 0x19, 0x04, 0x19, 0x12, 0x19, 0x0b, 0x19, 0x12, 0x19, 0x00]

/-- The value read and the pointer behind it. The four bytes loaded end where
the encoding does. -/
def readUnsigned (mem : Memory) (data : BitVec 64) : BitVec 32 × BitVec 64 :=
  let encType := (mem data).toNat % 16
  let length := lengths.getD encType 0
  (load32 mem (offset data length - 4) >>> shifts.getD encType 0, offset data length)

def readRva (mem : Memory) (data : BitVec 64) : BitVec 32 × BitVec 64 := (load32 mem data, offset data 4)

def isCatchFunclet : BitVec 8 := 0x01
def hasMultipleFunclets : BitVec 8 := 0x02
def bbt : BitVec 8 := 0x04
def hasUnwindMap : BitVec 8 := 0x08
def hasTryBlockMap : BitVec 8 := 0x10
def isNoexcept : BitVec 8 := 0x40

structure ExcInfo where
  flags : BitVec 8
  bbtFlags : BitVec 32
  unwindGraph : BitVec 32
  tryBlocks : BitVec 32
  regions : BitVec 32
  primaryFramePtr : BitVec 32
  deriving DecidableEq

def readIf (present : Bool) (read : BitVec 64 → BitVec 32 × BitVec 64) (data : BitVec 64) : BitVec 32 × BitVec 64 :=
  if present then read data else (0, data)

/-- The loop of `load_exception_info`. -/
def findFunclet (mem : Memory) (fnBegin : BitVec 32) : Nat → BitVec 64 → BitVec 32
  | 0, _ => 0
  | count + 1, data =>
    let (fn, data) := readRva mem data
    let (regions, data) := readRva mem data
    if fn = fnBegin then regions else findFunclet mem fnBegin count data

def loadExceptionInfo (prog : Program) (mem : Memory) (fnBegin : BitVec 32) (data : BitVec 64) :
    ExcInfo :=
  let flags := mem data
  let (bbtFlags, data) := readIf (hasAnyOf flags bbt) (readUnsigned mem) (offset data 1)
  let (unwindGraph, data) := readIf (hasAnyOf flags hasUnwindMap) (readRva mem) data
  let (tryBlocks, data) := readIf (hasAnyOf flags hasTryBlockMap) (readRva mem) data
  let (regionsOrMap, data) := readRva mem data
  let regions :=
    if hasAnyOf flags hasMultipleFunclets then
      let (count, entries) := readUnsigned mem (prog.imageBase + regionsOrMap.setWidth 64)
      findFunclet mem fnBegin count.toNat entries
    else regionsOrMap
  let (primaryFramePtr, _) := readIf (hasAnyOf flags isCatchFunclet) (readUnsigned mem) data
  ⟨flags, bbtFlags, unwindGraph, tryBlocks, regions, primaryFramePtr⟩

/-- The loop of `lookup_region`. -/
def scanRegions (mem : Memory) (pc : BitVec 32) : Nat → BitVec 32 → BitVec 32 → BitVec 64 → BitVec 32
  | 0, state, _, _ => state
  | count + 1, state, fnRva, data =>
    let (delta, data) := readUnsigned mem data
    if pc < fnRva + delta then state
    else
      let (next, data) := readUnsigned mem data
      scanRegions mem pc count (next - 1) (fnRva + delta) data

def lookupRegion (prog : Program) (mem : Memory) (info : ExcInfo) (pc : BitVec 32) : Int :=
  if info.regions = 0 then -1
  else
    let (count, data) := readUnsigned mem (prog.imageBase + info.regions.setWidth 64)
    (scanRegions mem pc count.toNat (-1) 0 data).toInt

/-! ## The state and the catch clause -/

/-- The state and the primary frame pointer. -/
def locate (prog : Program) (info : ExcInfo) (call : Call) (mem : Memory) : Int × BitVec 64 :=
  let primaryFramePtr := load64 mem (primaryFramePtrField call.ci)
  if call.framePtr ≤ primaryFramePtr then
    (((load64 mem (unwindContextField call.ci)).setWidth 32).toInt, primaryFramePtr)
  else
    (lookupRegion prog mem info (call.pc - call.fnBegin),
      if hasAnyOf info.flags isCatchFunclet then
        load64 mem (call.framePtr + info.primaryFramePtr.setWidth 64)
      else call.framePtr)

def hasTypeFlags : BitVec 8 := 0x01
def hasTypeInfo : BitVec 8 := 0x02
def hasCatchVar : BitVec 8 := 0x04
def imageRva : BitVec 8 := 0x08

def continuationAddrCount (flags : BitVec 8) : Nat := flags.toNat / 16 % 4

def storeContinuations (base ci : BitVec 64) (read : Memory → BitVec 64 → BitVec 32 × BitVec 64) :
    Nat → Nat → Memory → BitVec 64 → Memory × BitVec 64
  | 0, _, mem, data => (mem, data)
  | n + 1, k, mem, data =>
    let (address, data) := read mem data
    storeContinuations base ci read n (k + 1) (store64 mem (continuationField ci k) (base + address.setWidth 64)) data

structure Clause where
  adjectives : BitVec 32
  type : BitVec 32
  catchVar : BitVec 32
  handler : BitVec 32
  deriving DecidableEq

def readClause (prog : Program) (call : Call) (mem : Memory) (data : BitVec 64) : Clause × Memory × BitVec 64 :=
  let flags := mem data
  let (adjectives, data) := readIf (hasAnyOf flags hasTypeFlags) (readUnsigned mem) (offset data 1)
  let (type, data) := readIf (hasAnyOf flags hasTypeInfo) (readRva mem) data
  let (catchVar, data) := readIf (hasAnyOf flags hasCatchVar) (readUnsigned mem) data
  let (handler, data) := readRva mem data
  let (mem, data) :=
    if hasAnyOf flags imageRva then
      storeContinuations prog.imageBase call.ci readRva (continuationAddrCount flags) 0 mem data
    else
      storeContinuations (prog.imageBase + call.fnBegin.setWidth 64) call.ci readUnsigned
        (continuationAddrCount flags) 0 mem data
  (⟨adjectives, type, catchVar, handler⟩, mem, data)

/-- The next `count` clauses of a try block: the first that takes the exception. -/
def selectHandler (prog : Program) (call : Call) (primaryFramePtr : BitVec 64) (tryLow : BitVec 32) :
    Nat → Memory → BitVec 64 → Memory × Option Selected
  | 0, mem, _ => (mem, none)
  | count + 1, mem, data =>
    let (clause, mem, data) := readClause prog call mem data
    match processCatchBlock prog mem clause.adjectives clause.type (primaryFramePtr + clause.catchVar.setWidth 64)
        (getExceptionObject mem call.ci) (prog.throwInfo (getThrowInfo mem call.ci)) with
    | some mem' => (mem', some ⟨tryLow.toInt, clause.handler⟩)
    | none => selectHandler prog call primaryFramePtr tryLow count mem data

def selectBlock (prog : Program) (call : Call) (state : BitVec 32) (primaryFramePtr : BitVec 64) :
    Nat → Memory → BitVec 64 → Except Stop (Memory × Option Selected)
  | 0, mem, _ => .ok (mem, none)
  | count + 1, mem, data =>
    let (tryLow, data) := readUnsigned mem data
    let (tryHigh, data) := readUnsigned mem data
    let (_, data) := readUnsigned mem data
    let (handlers, data) := readRva mem data
    if tryLow > state ∨ state > tryHigh then
      selectBlock prog call state primaryFramePtr count mem data
    else
      (resolve prog mem call.ci).bind fun mem =>
        let (handlerCount, clauses) := readUnsigned mem (prog.imageBase + handlers.setWidth 64)
        match selectHandler prog call primaryFramePtr tryLow handlerCount.toNat mem clauses with
        | (mem', some selected) => .ok (mem', some selected)
        | (mem', none) => selectBlock prog call state primaryFramePtr count mem' data

def select (prog : Program) (info : ExcInfo) (call : Call) (state : Int) (primaryFramePtr : BitVec 64)
    (mem : Memory) : Except Stop (Memory × Option Selected) :=
  if info.tryBlocks ≠ 0 ∧ 0 ≤ state then
    let (count, data) := readUnsigned mem (prog.imageBase + info.tryBlocks.setWidth 64)
    selectBlock prog call (BitVec.ofInt 32 state) primaryFramePtr count.toNat mem data
  else .ok (mem, none)

/-- The primary frame and the state, widened to the whole of `unwind_context`. -/
def storeSelected (call : Call) (primaryFramePtr : BitVec 64) (mem : Memory) (selected : Selected) :
    Memory :=
  let mem := store64 mem (primaryFramePtrField call.ci) primaryFramePtr
  store64 mem (unwindContextField call.ci) (BitVec.ofInt 64 (selected.tryLow - 1))

/-! ## The cleanup functions -/

inductive EdgeType where
  | trivial | objectOffset | objectPtrOffset | function
  deriving DecidableEq

def EdgeType.decode : Nat → EdgeType
  | 0 => .trivial
  | 1 => .objectOffset
  | 2 => .objectPtrOffset
  | _ => .function

structure UnwindEdge where
  targetOffset : Nat
  type : EdgeType
  destroyFn : BitVec 32
  object : BitVec 32
  deriving DecidableEq

def UnwindEdge.read (mem : Memory) (data : BitVec 64) : UnwindEdge × BitVec 64 :=
  let (targetOffsetAndType, data) := readUnsigned mem data
  let type := EdgeType.decode (targetOffsetAndType.toNat % 4)
  let (destroyFn, data) := readIf (type != .trivial) (readRva mem) data
  let (object, data) :=
    readIf (type == .objectOffset || type == .objectPtrOffset) (readUnsigned mem) data
  (⟨targetOffsetAndType.toNat / 4, type, destroyFn, object⟩, data)

/-- `unwind_edge::skip` -/
def skipEdges (mem : Memory) : Nat → BitVec 64 → BitVec 64
  | 0, data => data
  | n + 1, data => skipEdges mem n (UnwindEdge.read mem data).2

structure Cleanup where
  fn : BitVec 32
  argument : BitVec 64
  deriving DecidableEq

def UnwindEdge.cleanup (edge : UnwindEdge) (mem : Memory) (framePtr : BitVec 64) : Option Cleanup :=
  match edge.type with
  | .trivial => none
  | .objectOffset => some ⟨edge.destroyFn, framePtr + edge.object.setWidth 64⟩
  | .objectPtrOffset => some ⟨edge.destroyFn, load64 mem (framePtr + edge.object.setWidth 64)⟩
  | .function => some ⟨edge.destroyFn, framePtr⟩

def runCleanup (prog : Program) (mem : Memory) : Option Cleanup → Memory
  | some cleanup => prog.call cleanup.fn cleanup.argument mem
  | none => mem

/-- The second loop of `destroy_objects`. An offset is not zero, so there is enough fuel. -/
def destroyEdges (prog : Program) (framePtr lastEdge : BitVec 64) :
    Nat → Memory → BitVec 64 → Except Stop (List Cleanup × Memory)
  | 0, mem, _ => .ok ([], mem)
  | fuel + 1, mem, currentEdge =>
    let edge := (UnwindEdge.read mem currentEdge).1
    let cleanup := edge.cleanup mem framePtr
    if edge.targetOffset = 0 then .error (.terminate .corruptedEhUnwindData)
    else if (currentEdge - lastEdge).toNat < edge.targetOffset then
      .ok (cleanup.toList, runCleanup prog mem cleanup)
    else
      (destroyEdges prog framePtr lastEdge fuel (runCleanup prog mem cleanup)
        (currentEdge - BitVec.ofNat 64 edge.targetOffset)).map fun (rest, mem) => (cleanup.toList ++ rest, mem)

def destroyObjects (prog : Program) (mem : Memory) (unwindGraph : BitVec 32) (framePtr : BitVec 64)
    (initialState finalState : Int) : Except Stop (List Cleanup × Memory) :=
  let (nodeCount, graph) := readUnsigned mem (prog.imageBase + unwindGraph.setWidth 64)
  if initialState < 0 ∨ nodeCount.toNat ≤ initialState.toNat then
    .error (.terminate .corruptedEhUnwindData)
  else
    let currentEdge := skipEdges mem initialState.toNat graph
    let lastEdge := skipEdges mem (finalState + 1).toNat graph
    destroyEdges prog framePtr lastEdge ((currentEdge - lastEdge).toNat + 1) mem currentEdge

structure Result where
  mem : Memory
  handler : Option (BitVec 64)
  cleanups : List Cleanup

def frameHandler (prog : Program) (data : BitVec 64) (call : Call) (mem : Memory) :
    Except Stop Result := do
  let info := loadExceptionInfo prog mem call.fnBegin data
  let (state, primaryFramePtr) := locate prog info call mem
  let (mem', selected) ← select prog info call state primaryFramePtr mem
  let target := (selected.map fun s => s.tryLow - 1).getD (-1)
  let stored := (selected.map (storeSelected call primaryFramePtr mem')).getD mem'
  let (cleanups, final) ← if target < state then
      destroyObjects prog stored info.unwindGraph call.framePtr state target
    else .ok ([], stored)
  .ok ⟨final, selected.map fun s => prog.imageBase + s.handler.setWidth 64, cleanups⟩

end Ktl.FrameHandler4
