import Ktl.FrameHandler4

/-!
`__cxx_dispatch_exception` along a call stack, the frame nearest to the throw first. Every
frame is handled by the format its function has tables in.
-/
namespace Ktl.ExceptionDispatch

open ByteMemory CatchBlocks FrameHandler3

inductive Tables where
  /-- `__CxxFrameHandler3` -/
  | fh3 (info : FunctionEhInfo)
  /-- `__CxxFrameHandler4`, with the address of the compressed data -/
  | fh4 (data : BitVec 64)
  /-- `__cxx_call_catch_frame_handler` -/
  | callCatch
  /-- no handler, or none that takes part in unwinding C++ frames -/
  | other
  deriving DecidableEq

structure Frame where
  framePtr : BitVec 64
  fnBegin : BitVec 32
  pc : BitVec 32
  tables : Tables
  deriving DecidableEq

def Frame.call (frame : Frame) (ci : BitVec 64) : Call := ⟨frame.framePtr, frame.fnBegin, frame.pc, ci⟩

inductive FrameResult where
  | stop (stop : Stop)
  | caught (mem : Memory) (handler : BitVec 64)
  | unwound (mem : Memory)

def FrameResult.ofHandler (mem : Memory) : Option (BitVec 64) → FrameResult
  | some handler => .caught mem handler
  | none => .unwound mem

def frameCatchInfo (framePtr : BitVec 64) : BitVec 64 := offset framePtr 72

/-- `execute_handler` -/
def handleFrame (prog : Program) (ci : BitVec 64) (frame : Frame) (mem : Memory) : FrameResult :=
  match frame.tables with
  | .fh3 info =>
    match FrameHandler3.frameHandler prog info (frame.call ci) mem with
    | .error stop => .stop stop
    | .ok result =>
      .ofHandler (result.cleanups.foldl (fun mem fn => prog.call fn frame.framePtr mem) result.mem) result.handler
  | .fh4 data =>
    match FrameHandler4.frameHandler prog data (frame.call ci) mem with
    | .error stop => .stop stop
    | .ok result => .ofHandler result.mem result.handler
  | .callCatch => .unwound (unwindCatchFrame prog mem ci (frameCatchInfo frame.framePtr))
  | .other => .unwound mem

inductive Ending where
  | stop (stop : Stop)
  | caught (mem : Memory) (handler : BitVec 64)

structure Outcome where
  unwound : Nat
  ending : Ending

/-- `__cxx_dispatch_exception`. Behind the last frame the walk leaves the image. -/
def dispatch (prog : Program) (ci : BitVec 64) : List Frame → Memory → Outcome
  | [], _ => ⟨0, .stop (.terminate .noMatchingExceptionHandler)⟩
  | frame :: below, mem =>
    match handleFrame prog ci frame mem with
    | .stop stop => ⟨0, .stop stop⟩
    | .caught mem handler => ⟨0, .caught mem handler⟩
    | .unwound mem =>
      let outcome := dispatch prog ci below mem
      ⟨outcome.unwound + 1, outcome.ending⟩

def unwindAll (prog : Program) (ci : BitVec 64) : List Frame → Memory → Option Memory
  | [], mem => some mem
  | frame :: below, mem =>
    match handleFrame prog ci frame mem with
    | .unwound mem => unwindAll prog ci below mem
    | _ => none

/-! ## Functions marked `noexcept` -/

def Frame.isNoexcept (frame : Frame) (mem : Memory) : Bool :=
  match frame.tables with
  | .fh3 info => hasAnyOf info.ehFlags FrameHandler3.isNoexcept
  | .fh4 data => hasAnyOf (mem data) FrameHandler4.isNoexcept
  | .callCatch | .other => false

/-- The frame is the function's own, and none of the function's clauses takes the exception. -/
def Escapes (prog : Program) (ci : BitVec 64) (frame : Frame) (mem : Memory) : Prop :=
  let call := frame.call ci
  match frame.tables with
  | .fh3 info => ∃ state home mem', FrameHandler3.locate info call mem = .ok (state, home)
      ∧ home.homeBlockIndex = -1 ∧ FrameHandler3.select prog info call state home mem = .ok (mem', none)
  | .fh4 data =>
      let info := FrameHandler4.loadExceptionInfo prog mem call.fnBegin data
      let located := FrameHandler4.locate prog info call mem
      hasAnyOf info.flags FrameHandler4.isCatchFunclet = false
        ∧ ∃ mem', FrameHandler4.select prog info call located.1 located.2 mem = .ok (mem', none)
  | .callCatch | .other => True

theorem dispatch_append (habove : unwindAll prog ci above mem = some mem') (rest : List Frame) :
    dispatch prog ci (above ++ rest) mem
      = ⟨(dispatch prog ci rest mem').unwound + above.length, (dispatch prog ci rest mem').ending⟩ := by
  induction above generalizing mem with
  | nil =>
    obtain rfl := Option.some.inj habove
    rfl
  | cons frame above ih =>
    unfold unwindAll at habove
    split at habove
    · rename_i mem₁ hframe
      simp only [List.cons_append, dispatch, hframe, ih habove, List.length_cons]
      congr 1
    · cases habove

theorem handleFrame_fh3 (htables : frame.tables = .fh3 info) (hnoexcept : frame.isNoexcept mem = true)
    (hescapes : Escapes prog ci frame mem) :
    handleFrame prog ci frame mem = .stop (.terminate .noexceptViolation) := by
  simp only [Escapes, htables] at hescapes
  obtain ⟨state, home, mem', hlocate, hhome, hselect⟩ := hescapes
  simp only [Frame.isNoexcept, htables] at hnoexcept
  have hhandler : FrameHandler3.frameHandler prog info (frame.call ci) mem
      = .error (.terminate .noexceptViolation) := by
    simp [FrameHandler3.frameHandler, hlocate, hselect, bind, Except.bind, hhome, hnoexcept, ↓reduceIte]
  simp [handleFrame, htables, hhandler]

theorem destroyEdges_error (h : FrameHandler4.destroyEdges prog framePtr lastEdge fuel mem currentEdge = .error stop) :
    stop = .terminate .corruptedEhUnwindData := by
  induction fuel generalizing mem currentEdge with
  | zero => cases h
  | succ fuel ih =>
    simp only [FrameHandler4.destroyEdges] at h
    split at h
    · cases h
      rfl
    · split at h
      · cases h
      · cases hrest : FrameHandler4.destroyEdges prog framePtr lastEdge fuel _ _ with
        | error stop' =>
          rw [hrest] at h
          cases h
          exact ih hrest
        | ok rest =>
          rw [hrest] at h
          cases h

theorem destroyObjects_error
    (h : FrameHandler4.destroyObjects prog mem graph framePtr initialState finalState = .error stop) :
    stop = .terminate .corruptedEhUnwindData := by
  simp only [FrameHandler4.destroyObjects] at h
  split at h
  · cases h
    rfl
  · exact destroyEdges_error h

theorem handleFrame_fh4 (htables : frame.tables = .fh4 data) (hescapes : Escapes prog ci frame mem) :
    handleFrame prog ci frame mem = .stop (.terminate .corruptedEhUnwindData)
      ∨ ∃ mem', handleFrame prog ci frame mem = .unwound mem' := by
  simp only [Escapes, htables] at hescapes
  obtain ⟨-, mem', hselect⟩ := hescapes
  cases hhandler : FrameHandler4.frameHandler prog data (frame.call ci) mem with
  | error stop =>
    left
    have hreason : stop = .terminate .corruptedEhUnwindData := by
      simp only [FrameHandler4.frameHandler, hselect, bind, Except.bind] at hhandler
      split at hhandler
      · split at hhandler
        · rename_i hdestroy
          cases hhandler
          exact destroyObjects_error hdestroy
        · cases hhandler
      · cases hhandler
    simp [handleFrame, htables, hhandler, hreason]
  | ok result =>
    right
    have hnone : result.handler = none := by
      simp only [FrameHandler4.frameHandler, hselect, bind, Except.bind] at hhandler
      split at hhandler
      · split at hhandler
        · cases hhandler
        · cases hhandler
          rfl
      · cases hhandler
        rfl
    exact ⟨result.mem, by simp only [handleFrame, htables, hhandler, hnone, FrameResult.ofHandler]⟩

/-- An exception that is not caught in a `noexcept` function or above it ends in `terminate` when
the function's handler runs exactly if the function has the older tables. -/
theorem noexcept_terminates_iff {above below : List Frame} {frame : Frame} {mem mem' : Memory}
    (habove : unwindAll prog ci above mem = some mem') (hnoexcept : frame.isNoexcept mem' = true)
    (hescapes : Escapes prog ci frame mem') :
    dispatch prog ci (above ++ frame :: below) mem = ⟨above.length, .stop (.terminate .noexceptViolation)⟩
      ↔ ∃ info, frame.tables = .fh3 info := by
  rw [dispatch_append habove]
  cases htables : frame.tables with
  | fh3 info =>
    have hframe := handleFrame_fh3 htables hnoexcept hescapes
    simp [dispatch, hframe]
  | fh4 data =>
    rcases handleFrame_fh4 htables hescapes with hframe | ⟨mem'', hframe⟩
    · simp [dispatch, hframe]
    · simp [dispatch, hframe]
  | callCatch | other => simp [Frame.isNoexcept, htables] at hnoexcept

/-! ## A `noexcept` function in either format -/

def noexceptFh3 : Frame := ⟨0x8000, 0x1000, 0x1010, .fh3 ⟨[], [], [⟨0x1000, -1⟩], 4⟩⟩

def noexceptFh4 : Frame := ⟨0x8000, 0x1000, 0x1010, .fh4 0x140002000⟩

def catchAll : Frame :=
  ⟨0x9000, 0x3000, 0x3010, .fh3 ⟨[⟨-1, 0⟩], [⟨0, 0, 1, [⟨0x40, 0, 0, 0x3100, 0⟩]⟩], [⟨0x3000, 0⟩], 0⟩⟩

/-- An exception at `0x9800` has been thrown, and the compressed tables are at
`0x140002000`. -/
def thrownMemory : Memory :=
  Function.update (store64 (store64 (fun _ => 0) (linkField 0x7000) 0x9800)
    (throwInfoField 0x7000) 0x140004000) 0x140002000 0x40

theorem noexcept_terminates_fh3 : (unwindAll plainProgram 0x7000 [] thrownMemory = some thrownMemory
      ∧ noexceptFh3.isNoexcept thrownMemory = true)
      ∧ (dispatch plainProgram 0x7000 ([] ++ noexceptFh3 :: [catchAll]) thrownMemory
          = ⟨0, .stop (.terminate .noexceptViolation)⟩
        ↔ ∃ info, noexceptFh3.tables = .fh3 info) := by
  refine ⟨⟨rfl, by decide⟩, noexcept_terminates_iff rfl (by decide) ?_⟩
  exact ⟨-1, ⟨-1, -1, 0x8000⟩, thrownMemory, by decide +kernel, rfl, rfl⟩

def Ending.handler : Ending → Option (BitVec 64)
  | .caught _ handler => some handler
  | .stop _ => none

/-- With the compressed tables the `noexcept` function is unwound, and its caller catches. -/
theorem noexcept_unwound : noexceptFh4.isNoexcept thrownMemory = true
      ∧ (dispatch plainProgram 0x7000 [noexceptFh4, catchAll] thrownMemory).unwound = 1
      ∧ (dispatch plainProgram 0x7000 [noexceptFh4, catchAll] thrownMemory).ending.handler = some 0x140003100 := by
  decide +kernel

end Ktl.ExceptionDispatch
