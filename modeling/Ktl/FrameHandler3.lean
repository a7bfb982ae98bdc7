import Ktl.CatchBlocks

/-!
`frame_handler` of the older table format. Tables are constant data of the image and are
given decoded; the stack and the `catch_info` of the throw frame are in memory.
-/
namespace Ktl.FrameHandler3

open ByteMemory CatchBlocks

structure CatchHandler where
  adjectives : BitVec 32
  typeDesc : BitVec 32
  catchObjectOffset : BitVec 32
  handler : BitVec 32
  nodeOffset : BitVec 32
  deriving DecidableEq

structure TryBlock where
  tryLow : Int
  tryHigh : Int
  catchHigh : Int
  catchHandlers : List CatchHandler
  deriving DecidableEq

structure EhRegion where
  firstIp : BitVec 32
  state : Int
  deriving DecidableEq

structure UnwindGraphEdge where
  next : Int
  cleanupHandler : BitVec 32
  deriving DecidableEq

structure FunctionEhInfo where
  unwindGraph : List UnwindGraphEdge
  tryBlocks : List TryBlock
  regions : List EhRegion
  ehFlags : BitVec 32
  deriving DecidableEq

def isNoexcept : BitVec 32 := 4

/-- The frame, the function and the instruction as offsets into the image, and the `catch_info`. -/
structure Call where
  framePtr : BitVec 64
  fnBegin : BitVec 32
  pc : BitVec 32
  ci : BitVec 64
  deriving DecidableEq

/-! ## Where the function was -/

def scanRegions (pc : BitVec 32) : EhRegion → List EhRegion → Int
  | region, [] => region.state
  | region, next :: rest => if pc < next.firstIp then region.state else scanRegions pc next rest

def lookupRegion (pc : BitVec 32) : List EhRegion → Int
  | [] => -1
  | region :: rest => scanRegions pc region rest

/-- `function_context`, behind the pointer that `unwind_context` is taken for. -/
def contextState (mem : Memory) (ci : BitVec 64) : Int :=
  (load32 mem (load64 mem (unwindContextField ci))).toInt

def contextHomeBlockIndex (mem : Memory) (ci : BitVec 64) : Int :=
  (load32 mem (offset (load64 mem (unwindContextField ci)) 4)).toInt

def startState (info : FunctionEhInfo) (call : Call) (mem : Memory) : Int × Int :=
  if load64 mem (primaryFramePtrField call.ci) < call.framePtr then
    (lookupRegion call.pc info.regions, info.tryBlocks.length - 1)
  else (contextState mem call.ci, contextHomeBlockIndex mem call.ci)

/-- The funclet that the frame belongs to: the index of its try block (-1 for the function itself),
the lowest state of that try block and the frame that has the variables. -/
structure Home where
  homeBlockIndex : Int
  funcletLowState : Int
  primaryFramePtr : BitVec 64
  deriving DecidableEq

def funcletPrimary (call : Call) (mem : Memory) (primaryFramePtr : BitVec 64) (block : TryBlock) :
    Except Stop (BitVec 64) :=
  if primaryFramePtr < call.framePtr then
    match block.catchHandlers.find? (·.handler == call.fnBegin) with
    | none => .ok primaryFramePtr
    | some handler =>
      let primary := load64 mem (call.framePtr + handler.nodeOffset.setWidth 64)
      if primary < call.framePtr then .error (.terminate .corruptedExceptionHandler)
      else .ok primary
  else .ok primaryFramePtr

def findHome (info : FunctionEhInfo) (call : Call) (mem : Memory) (state : Int)
    (primaryFramePtr : BitVec 64) : Nat → Except Stop Home
  | 0 => .ok ⟨-1, -1, primaryFramePtr⟩
  | n + 1 =>
    match info.tryBlocks[n]? with
    | none => findHome info call mem state primaryFramePtr n
    | some block =>
      if block.tryHigh < state ∧ state ≤ block.catchHigh then
        (funcletPrimary call mem primaryFramePtr block).map fun primary => ⟨n, block.tryLow, primary⟩
      else findHome info call mem state primaryFramePtr n

def Home.raise (call : Call) (home : Home) : Home :=
  if home.primaryFramePtr < call.framePtr then { home with primaryFramePtr := call.framePtr } else home

def locate (info : FunctionEhInfo) (call : Call) (mem : Memory) : Except Stop (Int × Home) :=
  let primaryFramePtr := load64 mem (primaryFramePtrField call.ci)
  let (state, homeBlockIndex) := startState info call mem
  if primaryFramePtr = call.framePtr then .ok (state, ⟨-1, -1, primaryFramePtr⟩)
  else if homeBlockIndex ≤ -1 then
    .ok (state, Home.raise call ⟨homeBlockIndex, -1, primaryFramePtr⟩)
  else (findHome info call mem state primaryFramePtr (homeBlockIndex + 1).toNat).map fun home =>
    (state, home.raise call)

/-! ## The catch clause -/

structure Selected where
  tryLow : Int
  handler : BitVec 32
  deriving DecidableEq

def selectHandler (prog : Program) (call : Call) (home : Home) (mem : Memory) (block : TryBlock) :
    List CatchHandler → Option (Memory × Selected)
  | [] => none
  | clause :: rest =>
    match processCatchBlock prog mem clause.adjectives clause.typeDesc
        (home.primaryFramePtr + clause.catchObjectOffset.setWidth 64)
        (getExceptionObject mem call.ci) (prog.throwInfo (getThrowInfo mem call.ci)) with
    | some mem' => some (mem', ⟨block.tryLow, clause.handler⟩)
    | none => selectHandler prog call home mem block rest

def TryBlock.around (block : TryBlock) (state funcletLowState : Int) : Bool :=
  decide (block.tryLow ≤ state ∧ state ≤ block.tryHigh ∧ ¬block.tryLow < funcletLowState)

def selectBlock (prog : Program) (call : Call) (state : Int) (home : Home) (mem : Memory) :
    List TryBlock → Except Stop (Memory × Option Selected)
  | [] => .ok (mem, none)
  | block :: rest =>
    if block.around state home.funcletLowState then
      (resolve prog mem call.ci).bind fun mem =>
        match selectHandler prog call home mem block block.catchHandlers with
        | some (mem', selected) => .ok (mem', some selected)
        | none => selectBlock prog call state home mem rest
    else selectBlock prog call state home mem rest

def select (prog : Program) (info : FunctionEhInfo) (call : Call) (state : Int) (home : Home)
    (mem : Memory) : Except Stop (Memory × Option Selected) :=
  selectBlock prog call state home mem (info.tryBlocks.drop (home.homeBlockIndex + 1).toNat)

/-- What the handler stores; `ctx` is the value that `unwind_context` had when it began. -/
def storeSelected (call : Call) (ctx : BitVec 64) (home : Home) (mem : Memory) (selected : Selected) : Memory :=
  let mem := store64 mem (primaryFramePtrField call.ci) home.primaryFramePtr
  let mem := store32 mem (offset ctx 4) (BitVec.ofInt 32 home.homeBlockIndex)
  store32 mem ctx (BitVec.ofInt 32 (selected.tryLow - 1))

/-! ## The cleanup functions -/

/-- The cleanup functions that the loop over the unwind graph calls, in order. A loop that has not
ended after as many rounds as the graph has edges never does. -/
def cleanups (graph : List UnwindGraphEdge) (target : Int) : Nat → Int → Option (List (BitVec 32))
  | 0, state => if target < state then none else some []
  | fuel + 1, state =>
    if target < state then
      let edge := graph.getD state.toNat ⟨-1, 0⟩
      (cleanups graph target fuel edge.next).map fun rest =>
        if edge.cleanupHandler ≠ 0 then edge.cleanupHandler :: rest else rest
    else some []

structure Result where
  mem : Memory
  handler : Option (BitVec 64)
  cleanups : List (BitVec 32)

def frameHandler (prog : Program) (info : FunctionEhInfo) (call : Call) (mem : Memory) :
    Except Stop Result := do
  let (state, home) ← locate info call mem
  let (mem', selected) ← select prog info call state home mem
  if home.homeBlockIndex = -1 ∧ selected = none ∧ hasAnyOf info.ehFlags isNoexcept then
    .error (.terminate .noexceptViolation)
  else
    let target := (selected.map fun s => s.tryLow - 1).getD home.funcletLowState
    if target < home.funcletLowState then .error (.terminate .corruptedFunctionUnwindState)
    else
      match cleanups info.unwindGraph target info.unwindGraph.length state with
      | none => .error .cycle
      | some cleanups =>
        let ctx := load64 mem (unwindContextField call.ci)
        .ok ⟨(selected.map (storeSelected call ctx home mem')).getD mem',
          selected.map fun s => prog.imageBase + s.handler.setWidth 64, cleanups⟩

end Ktl.FrameHandler3
