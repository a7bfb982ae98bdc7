import Ktl.ExceptionDispatch
import Ktl.UnwindGraph

/-!
The frame pointer that cleanup actions are given. All variables of a function live in the
frame of its primary funclet; a catch funclet has a frame of its own and only keeps a pointer
to the primary one. The calls that the handlers make are compared with those that the
primary frame pointer would give.
-/
namespace Ktl.PrimaryFrame

open ByteMemory CatchBlocks UnwindGraph ExceptionDispatch

structure Pending where
  action : Action
  mem : Memory

@[simp] def Pending.call (p : Pending) (framePtr : BitVec 64) : Option FrameHandler4.Cleanup :=
  p.action.cleanup p.mem framePtr

/-- Nothing is called, or the same pointer to an object is found in both frames. -/
def Pending.Indifferent (p : Pending) (framePtr framePtr' : BitVec 64) : Prop :=
  match p.action with
  | .nothing => True
  | .objectPtr _ ptrOffset =>
    load64 p.mem (framePtr + ptrOffset.setWidth 64) = load64 p.mem (framePtr' + ptrOffset.setWidth 64)
  | .object _ _ | .funclet _ => False

theorem Pending.call_eq_iff (p : Pending) (framePtr framePtr' : BitVec 64) :
    p.call framePtr = p.call framePtr' ↔ framePtr = framePtr' ∨ p.Indifferent framePtr framePtr' := by
  obtain ⟨action, mem⟩ := p
  cases action with
  | nothing | object fn objectOffset | funclet fn => simp [Action.cleanup, Pending.Indifferent]
  | objectPtr fn ptrOffset =>
    simp only [Pending.call, Action.cleanup, Pending.Indifferent, Option.some.injEq,
      FrameHandler4.Cleanup.mk.injEq, true_and]
    constructor
    · exact .inr
    · rintro (rfl | h)
      · rfl
      · exact h

/-- The calls that actions make when all of them are given one frame pointer. -/
def calls (framePtr : BitVec 64) (pending : List Pending) : List FrameHandler4.Cleanup :=
  pending.flatMap fun p => (p.call framePtr).toList

@[simp] theorem calls_nil (framePtr : BitVec 64) : calls framePtr [] = [] := rfl
@[simp] theorem calls_cons (framePtr : BitVec 64) (p : Pending) (rest : List Pending) :
    calls framePtr (p :: rest) = (p.call framePtr).toList ++ calls framePtr rest := rfl

theorem calls_eq_iff (pending : List Pending) (framePtr framePtr' : BitVec 64) :
    calls framePtr pending = calls framePtr' pending
      ↔ framePtr = framePtr' ∨ ∀ p ∈ pending, p.Indifferent framePtr framePtr' := by
  induction pending with
  | nil => simp
  | cons p rest ih =>
    have hlen : (p.call framePtr).toList.length = (p.call framePtr').toList.length := by
      obtain ⟨action, mem⟩ := p
      cases action <;> rfl
    have hhead : (p.call framePtr).toList = (p.call framePtr').toList
        ↔ framePtr = framePtr' ∨ p.Indifferent framePtr framePtr' := by
      rw [← p.call_eq_iff]
      cases p.call framePtr <;> cases p.call framePtr' <;> simp
    have hsplit : calls framePtr (p :: rest) = calls framePtr' (p :: rest)
        ↔ (p.call framePtr).toList = (p.call framePtr').toList ∧ calls framePtr rest = calls framePtr' rest := by
      simp only [calls_cons]
      exact ⟨fun h => List.append_inj h hlen, fun h => by rw [h.1, h.2]⟩
    rw [hsplit, hhead, ih]
    simp only [List.mem_cons, forall_eq_or_imp]
    exact or_and_left.symm

/-! ## The actions of the two handlers -/

/-- The loop over the older unwind graph: each funclet with the memory that the
ones before it left. -/
def pendingFunclets (prog : Program) (framePtr : BitVec 64) : List (BitVec 32) → Memory → List Pending
  | [], _ => []
  | fn :: rest, mem => ⟨.funclet fn, mem⟩ :: pendingFunclets prog framePtr rest (prog.call fn framePtr mem)

def actionOf (edge : FrameHandler4.UnwindEdge) : Action :=
  match edge.type with
  | .trivial => .nothing
  | .objectOffset => .object edge.destroyFn edge.object
  | .objectPtrOffset => .objectPtr edge.destroyFn edge.object
  | .function => .funclet edge.destroyFn

def pendingEdges (prog : Program) (framePtr lastEdge : BitVec 64) : Nat → Memory → BitVec 64 → List Pending
  | 0, _, _ => []
  | fuel + 1, mem, currentEdge =>
    let edge := (FrameHandler4.UnwindEdge.read mem currentEdge).1
    let cleanup := edge.cleanup mem framePtr
    if edge.targetOffset = 0 then []
    else if (currentEdge - lastEdge).toNat < edge.targetOffset then [⟨actionOf edge, mem⟩]
    else ⟨actionOf edge, mem⟩ :: pendingEdges prog framePtr lastEdge fuel
      (FrameHandler4.runCleanup prog mem cleanup) (currentEdge - BitVec.ofNat 64 edge.targetOffset)

def pendingObjects (prog : Program) (mem : Memory) (unwindGraph : BitVec 32) (framePtr : BitVec 64)
    (initialState finalState : Int) : List Pending :=
  let graph := (FrameHandler4.readUnsigned mem (prog.imageBase + unwindGraph.setWidth 64)).2
  let currentEdge := FrameHandler4.skipEdges mem initialState.toNat graph
  let lastEdge := FrameHandler4.skipEdges mem (finalState + 1).toNat graph
  pendingEdges prog framePtr lastEdge ((currentEdge - lastEdge).toNat + 1) mem currentEdge

structure Unwinding where
  primaryFramePtr : BitVec 64
  pending : List Pending

def unwinding3 (prog : Program) (info : FrameHandler3.FunctionEhInfo) (call : FrameHandler3.Call)
    (mem : Memory) : Option Unwinding :=
  match FrameHandler3.locate info call mem, FrameHandler3.frameHandler prog info call mem with
  | .ok (_, home), .ok result =>
    some ⟨home.primaryFramePtr, pendingFunclets prog call.framePtr result.cleanups result.mem⟩
  | _, _ => none

def unwinding4 (prog : Program) (data : BitVec 64) (call : FrameHandler3.Call) (mem : Memory) :
    Option Unwinding :=
  let info := FrameHandler4.loadExceptionInfo prog mem call.fnBegin data
  let (state, primaryFramePtr) := FrameHandler4.locate prog info call mem
  match FrameHandler4.select prog info call state primaryFramePtr mem with
  | .error _ => none
  | .ok (mem', selected) =>
    let target := (selected.map fun s => s.tryLow - 1).getD (-1)
    let stored :=
      (selected.map (FrameHandler4.storeSelected call primaryFramePtr mem')).getD mem'
    some ⟨primaryFramePtr, if target < state then
      pendingObjects prog stored info.unwindGraph call.framePtr state target else []⟩

def unwinding (prog : Program) (ci : BitVec 64) (frame : Frame) (mem : Memory) : Option Unwinding :=
  match frame.tables with
  | .fh3 info => unwinding3 prog info (frame.call ci) mem
  | .fh4 data => unwinding4 prog data (frame.call ci) mem
  | .callCatch | .other => none

/-- The calls that a handler makes; `none` where it does not end or runs no cleanups. -/
def callsMade (prog : Program) (ci : BitVec 64) (frame : Frame) (mem : Memory) : Option (List FrameHandler4.Cleanup) :=
  match frame.tables with
  | .fh3 info =>
    (FrameHandler3.frameHandler prog info (frame.call ci) mem).toOption.map fun result =>
      result.cleanups.map fun fn => ⟨fn, frame.framePtr⟩
  | .fh4 data =>
    (FrameHandler4.frameHandler prog data (frame.call ci) mem).toOption.map fun result =>
      result.cleanups
  | .callCatch | .other => none

theorem pendingFunclets_calls (prog : Program) (framePtr : BitVec 64) (fns : List (BitVec 32)) (mem : Memory) :
    calls framePtr (pendingFunclets prog framePtr fns mem) = fns.map fun fn => ⟨fn, framePtr⟩ := by
  induction fns generalizing mem with
  | nil => rfl
  | cons fn rest ih => simp [pendingFunclets, ih, Action.cleanup]

theorem actionOf_cleanup (edge : FrameHandler4.UnwindEdge) (mem : Memory) (framePtr : BitVec 64) :
    (actionOf edge).cleanup mem framePtr = edge.cleanup mem framePtr := by
  obtain ⟨_, type, _, _⟩ := edge
  cases type <;> rfl

theorem pendingEdges_calls
    (h : FrameHandler4.destroyEdges prog framePtr lastEdge fuel mem currentEdge = .ok (cleanups, mem')) :
    calls framePtr (pendingEdges prog framePtr lastEdge fuel mem currentEdge) = cleanups := by
  induction fuel generalizing mem currentEdge cleanups mem' with
  | zero =>
    cases h
    rfl
  | succ fuel ih =>
    simp only [FrameHandler4.destroyEdges] at h
    simp only [pendingEdges]
    split at h
    · cases h
    · rename_i hzero
      rw [if_neg hzero]
      split_ifs at h with hstop
      · cases h
        rw [if_pos hstop]
        simp [actionOf_cleanup]
      · rw [if_neg hstop]
        cases hrest : FrameHandler4.destroyEdges prog framePtr lastEdge fuel (FrameHandler4.runCleanup prog mem
              ((FrameHandler4.UnwindEdge.read mem currentEdge).1.cleanup mem framePtr))
            (currentEdge - BitVec.ofNat 64 (FrameHandler4.UnwindEdge.read mem currentEdge).1.targetOffset) with
        | error stop =>
          rw [hrest] at h
          cases h
        | ok r =>
          rw [hrest] at h
          cases h
          rw [calls_cons, ih hrest, Pending.call, actionOf_cleanup]

theorem pendingObjects_calls
    (h : FrameHandler4.destroyObjects prog mem unwindGraph framePtr initialState finalState = .ok (cleanups, mem')) :
    calls framePtr (pendingObjects prog mem unwindGraph framePtr initialState finalState) = cleanups := by
  simp only [FrameHandler4.destroyObjects] at h
  split at h
  · cases h
  · exact pendingEdges_calls h

theorem unwinding3_calls (h : FrameHandler3.frameHandler prog info call mem = .ok result) :
    ∃ u, unwinding3 prog info call mem = some u ∧
      calls call.framePtr u.pending = result.cleanups.map fun fn => ⟨fn, call.framePtr⟩ := by
  cases hlocate : FrameHandler3.locate info call mem with
  | error stop =>
    simp only [FrameHandler3.frameHandler, hlocate, bind, Except.bind] at h
    cases h
  | ok located =>
    refine ⟨⟨located.2.primaryFramePtr, pendingFunclets prog call.framePtr result.cleanups result.mem⟩, ?_, ?_⟩
    · simp [unwinding3, hlocate, h]
    · exact pendingFunclets_calls _ _ _ _

theorem unwinding4_calls (h : FrameHandler4.frameHandler prog data call mem = .ok result) :
    ∃ u, unwinding4 prog data call mem = some u ∧ calls call.framePtr u.pending = result.cleanups := by
  simp only [FrameHandler4.frameHandler, bind, Except.bind] at h
  simp only [unwinding4]
  split at h
  · cases h
  · rename_i selected hselect
    simp only [hselect]
    refine ⟨_, rfl, ?_⟩
    split_ifs at h with hbelow
    · rw [if_pos hbelow]
      split at h
      · cases h
      · rename_i destroyed hgone
        cases h
        exact pendingObjects_calls hgone
    · rw [if_neg hbelow]
      cases h
      rfl

theorem callsMade_eq (h : callsMade prog ci frame mem = some made) :
    ∃ u, unwinding prog ci frame mem = some u ∧ made = calls frame.framePtr u.pending := by
  simp only [callsMade] at h
  split at h
  · rename_i info htables
    obtain ⟨result, hres, rfl⟩ := Option.map_eq_some_iff.mp h
    cases hhandler : FrameHandler3.frameHandler prog info (frame.call ci) mem with
    | error stop =>
      rw [hhandler] at hres
      cases hres
    | ok result' =>
      rw [hhandler] at hres
      cases hres
      obtain ⟨u, hu, hcalls⟩ := unwinding3_calls hhandler
      exact ⟨u, by simp only [unwinding, htables, hu], hcalls.symm⟩
  · rename_i data htables
    obtain ⟨result, hres, rfl⟩ := Option.map_eq_some_iff.mp h
    cases hhandler : FrameHandler4.frameHandler prog data (frame.call ci) mem with
    | error stop =>
      rw [hhandler] at hres
      cases hres
    | ok result' =>
      rw [hhandler] at hres
      cases hres
      obtain ⟨u, hu, hcalls⟩ := unwinding4_calls hhandler
      exact ⟨u, by simp only [unwinding, htables, hu], hcalls.symm⟩
  · cases h
  · cases h

/-- The cleanups get the primary frame pointer exactly when the frame is primary or no action can
tell the two apart. -/
theorem given_primary_iff {prog : Program} {ci : BitVec 64} {frame : Frame} {mem : Memory}
    {made : List FrameHandler4.Cleanup} (h : callsMade prog ci frame mem = some made) :
    ∃ u, unwinding prog ci frame mem = some u ∧ (made = calls u.primaryFramePtr u.pending ↔
        frame.framePtr = u.primaryFramePtr ∨ ∀ p ∈ u.pending, p.Indifferent frame.framePtr u.primaryFramePtr) := by
  obtain ⟨u, hu, rfl⟩ := callsMade_eq h
  exact ⟨u, hu, calls_eq_iff u.pending frame.framePtr u.primaryFramePtr⟩

/-- A catch funclet at `0x2000` keeps the primary frame pointer at offset `0x20`. -/
def olderTables : FrameHandler3.FunctionEhInfo where
  unwindGraph := [⟨-1, 0⟩, ⟨0, 0x30⟩]
  tryBlocks := [⟨0, 0, 1, [⟨0, 0, 0, 0x2000, 0x20⟩]⟩]
  regions := [⟨0x1000, -1⟩, ⟨0x2000, 1⟩]
  ehFlags := 0

/-- A stack on which the funclet's frame at `0x5000` points to the primary frame at `0x9000`. -/
def funcletMemory : Memory := fun a =>
  let bytes : List (BitVec 8) := [0x09, 0x10, 0x10, 0, 0, 0x20, 0x10, 0, 0, 0x40, 0, 0, 0, 0, 0, 0,
    0x02, 0x0e, 0x30, 0, 0, 0, 0, 0, 0, 0, 0, 0, 0, 0, 0, 0, 0x02, 0x00, 0x02]
  if a = 0x5021 then 0x90 else bytes.getD (a - 0x140001000).toNat 0

/-- The frame of the function itself is the primary one. -/
theorem given_primary_in_function :
    let tables : FrameHandler3.FunctionEhInfo := ⟨[⟨-1, 0x30⟩], [], [⟨0x1000, 0⟩], 0⟩
    let frame : Frame := ⟨0x9000, 0x1000, 0x1010, .fh3 tables⟩
    callsMade plainProgram 0x100 frame funcletMemory = some [⟨0x30, 0x9000⟩] ∧
      ∃ u, unwinding plainProgram 0x100 frame funcletMemory = some u ∧
        ([⟨0x30, 0x9000⟩] = calls u.primaryFramePtr u.pending ↔ frame.framePtr = u.primaryFramePtr ∨
            ∀ p ∈ u.pending, p.Indifferent frame.framePtr u.primaryFramePtr) := by
  intro tables frame
  have hmade : callsMade plainProgram 0x100 frame funcletMemory = some [⟨0x30, 0x9000⟩] := by
    decide +kernel
  exact ⟨hmade, given_primary_iff hmade⟩

/-- In a catch funclet both handlers call the cleanup on the funclet's frame. -/
theorem funclet_cleanup_on_own_frame :
    let older : Frame := ⟨0x5000, 0x2000, 0x2010, .fh3 olderTables⟩
    let compressed : Frame := ⟨0x5000, 0x2000, 0x2010, .fh4 0x140001000⟩
    (∀ frame ∈ [older, compressed], callsMade plainProgram 0x100 frame funcletMemory = some [⟨0x30, 0x5000⟩] ∧
      (unwinding plainProgram 0x100 frame funcletMemory).map
        (fun u => (u.primaryFramePtr, calls u.primaryFramePtr u.pending)) = some (0x9000, [⟨0x30, 0x9000⟩])) := by
  decide +kernel

end Ktl.PrimaryFrame
