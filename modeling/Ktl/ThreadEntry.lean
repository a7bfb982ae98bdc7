import Mathlib.Data.BitVec

/-!
The entry function of a kernel thread. The routine is called through `accessor::make_call`;
which `make_call` that is depends on the class whose constructor creates the thread, not on
the class of the object that is built.
-/
namespace Ktl.ThreadEntry

abbrev NtStatus := BitVec 32

def statusSuccess : NtStatus := 0x00000000
def statusUnhandledException : NtStatus := 0xC0000144

/-- An object derived from `exception`, seen through its `code()`, or any other object. -/
inductive Thrown where
  | exception (code : NtStatus)
  | other
  deriving DecidableEq

abbrev Routine := Except Thrown Unit

inductive ThreadClass where
  | systemThread
  | guardedSystemThread
  | ioThread
  deriving DecidableEq

/-! ## `make_call` -/

/-- `worker_thread::make_call` -/
def workerMakeCall (routine : Routine) : Except Thrown Unit := routine

/-- `system_thread::make_call` -/
def systemMakeCall (routine : Routine) : Except Thrown NtStatus := do
  workerMakeCall routine
  return statusSuccess

/-- `guarded_system_thread::make_call` -/
def guardedMakeCall (routine : Routine) : Except Thrown NtStatus :=
  match systemMakeCall routine with
  | .ok _ => .ok statusSuccess
  | .error (.exception code) => .ok code
  | .error .other => .ok statusUnhandledException

/-- `accessor::make_call` over the given class; no status where it returns `void`. -/
def makeCall : ThreadClass → Routine → Except Thrown (Option NtStatus)
  | .systemThread, routine => some <$> systemMakeCall routine
  | .guardedSystemThread, routine => some <$> guardedMakeCall routine
  | .ioThread, routine => (fun _ => none) <$> workerMakeCall routine

/-! ## From the constructor to the entry function -/

/-- `guarded_system_thread` takes over the constructors of `system_thread`. -/
def constructorsOf : ThreadClass → ThreadClass
  | .systemThread => .systemThread
  | .guardedSystemThread => .systemThread
  | .ioThread => .ioThread

/-- The parameter of `worker_thread`. -/
def concreteThread : ThreadClass → ThreadClass
  | .systemThread => .systemThread
  | .guardedSystemThread => .systemThread
  | .ioThread => .ioThread

/-- How a thread ends: through `before_exit`, which passes a status to `PsTerminateSystemThread` for
a `system_thread`, or because an exception met a `noexcept` function. -/
inductive ThreadEnd where
  | beforeExit (status : Option NtStatus)
  | terminate
  deriving DecidableEq

/-- `invoke_in_thread` with the `noexcept` call of `invoke_with_unpacked_args` in it. -/
def invokeInThread (concrete : ThreadClass) (routine : Routine) : ThreadEnd :=
  match makeCall concrete routine with
  | .ok status => .beforeExit status
  | .error _ => .terminate

/-- `get_thread_routine` of the `worker_thread` under the class whose constructor runs. -/
def threadRoutine (c : ThreadClass) : Routine → ThreadEnd :=
  invokeInThread (concreteThread (constructorsOf c))

def guardedStatus : Routine → NtStatus
  | .ok _ => statusSuccess
  | .error (.exception code) => code
  | .error .other => statusUnhandledException

theorem threadRoutine_guarded : threadRoutine .guardedSystemThread = threadRoutine .systemThread := rfl

theorem threadRoutine_system (routine : Routine) : threadRoutine .systemThread routine =
      match routine with
      | .ok _ => .beforeExit (some statusSuccess)
      | .error _ => .terminate := by
  cases routine <;> rfl

/-- A guarded thread ends with the documented status exactly when no exception leaves its routine.
-/
theorem guarded_exits_iff (routine : Routine) :
    threadRoutine .guardedSystemThread routine = .beforeExit (some (guardedStatus routine)) ↔ routine.isOk = true := by
  rw [threadRoutine_guarded, threadRoutine_system]
  cases routine with
  | ok => simp [guardedStatus, Except.isOk, Except.toBool]
  | error e => simp [Except.isOk, Except.toBool]

/-- A routine that throws `STATUS_NO_MEMORY` brings the guarded thread to `terminate`. -/
theorem guarded_terminates : threadRoutine .guardedSystemThread (.error (.exception 0xC0000017)) = .terminate ∧
      guardedStatus (.error (.exception 0xC0000017)) = 0xC0000017 := by
  decide

end Ktl.ThreadEntry
