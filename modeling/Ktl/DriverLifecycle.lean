import Mathlib.Data.List.Count
import Mathlib.Data.List.Induction

/-!
Loading and unloading of a driver. `KtlDriverEntry` and `KtlRegisterFilter` put a routine of
their own in the place of the driver's unload routine, so what `DriverEntry` has done before
decides whether the destructors of the global objects run.
-/
namespace Ktl.DriverLifecycle

/-- An unload routine: the driver's own, or `KtlDriverUnload`. -/
inductive Routine where
  | own
  | ktl
  deriving DecidableEq

/-- `DriverUnload` of the driver object, and `driver_ctx.custom_unload`. -/
structure Hooks where
  driverUnload : Option Routine
  customUnload : Option Routine

inductive Event where
  | ownUnload
  /-- `invoke_global_destructors` -/
  | destructors
  deriving DecidableEq

def ntSuccess (status : BitVec 32) : Bool := 0 ≤ status.toInt

/-- What `DriverEntry` does to the unload routines. -/
inductive EntryStep where
  | setDriverUnload (given : Bool)
  | registerFilter

def Hooks.perform (h : Hooks) : EntryStep → Hooks
  | .setDriverUnload given => { h with driverUnload := if given then some .own else none }
  | .registerFilter => ⟨some .ktl, h.driverUnload⟩

def hooksAfter (entry : List EntryStep) : Hooks := entry.foldl Hooks.perform ⟨none, none⟩

structure Driver where
  /-- what `run_all` of the preload initializers returns -/
  initialized : BitVec 32
  entry : List EntryStep
  status : BitVec 32

/-- `KtlDriverEntry`, up to its call of `KtlDriverUnload` if it fails. -/
def ktlDriverEntry (d : Driver) : BitVec 32 × Hooks :=
  if ntSuccess d.initialized then
    let h := hooksAfter d.entry
    if ntSuccess d.status then (0, if h.customUnload = none then ⟨some .ktl, h.driverUnload⟩ else h)
    else (d.status, h)
  else (d.initialized, ⟨none, none⟩)

/-- The call of an unload routine; `KtlDriverUnload` may be its own `custom_unload`. -/
def Hooks.call (h : Hooks) : Nat → Option Routine → Option (List Event)
  | _, none => some []
  | _, some .own => some [.ownUnload]
  | 0, some .ktl => none
  | n + 1, some .ktl => (h.call n h.customUnload).map (· ++ [.destructors])

/-- The driver is loaded and, if that has succeeded, unloaded by the kernel. -/
def life (d : Driver) (n : Nat) : Option (List Event) :=
  let l := ktlDriverEntry d
  l.2.call n (if ntSuccess l.1 then l.2.driverUnload else some .ktl)

/-- The destructors of the global objects run once, after everything else. -/
def Destroys (d : Driver) : Prop :=
  ∃ n events, life d n = some events ∧ events.count .destructors = 1 ∧ events.getLast? = some .destructors

theorem Hooks.call_loops (h : Hooks) (hloop : h.customUnload = some .ktl) (n : Nat) : h.call n (some .ktl) = none := by
  induction n with
  | zero => rfl
  | succ n ih => rw [Hooks.call, hloop, ih, Option.map_none]

/-- The destructors run at the end of `KtlDriverUnload`, unless that calls itself for ever. -/
theorem Hooks.call_iff (h : Hooks) (r : Option Routine) :
    ((∃ n events, h.call n r = some events ∧ events.count .destructors = 1 ∧ events.getLast? = some .destructors) ↔
      h.customUnload ≠ some .ktl ∧ r = some .ktl) ∧
    ((∀ n, h.call n r = none) ↔ h.customUnload = some .ktl ∧ r = some .ktl) := by
  rcases r with _ | _ | _
  · simp [Hooks.call]
  · simp [Hooks.call]
  · have hends : h.customUnload ≠ some .ktl → ∃ events, h.call 1 (some .ktl) = some (events ++ [.destructors]) ∧
        events.count .destructors = 0 := by
      rcases hcustom : h.customUnload with _ | _ | _
      · exact fun _ => ⟨[], by rw [Hooks.call, hcustom]; rfl, rfl⟩
      · exact fun _ => ⟨[.ownUnload], by rw [Hooks.call, hcustom]; rfl, rfl⟩
      · exact fun hne => absurd rfl hne
    by_cases hloop : h.customUnload = some .ktl
    · simp [h.call_loops hloop, hloop]
    · obtain ⟨events, hcall, hcount⟩ := hends hloop
      refine ⟨iff_of_true ⟨1, _, hcall, by simp [hcount], by simp⟩ ⟨hloop, rfl⟩, iff_of_false ?_ fun h => hloop h.1⟩
      intro hnone
      rw [hnone 1] at hcall
      cases hcall

theorem hooksAfter_concat (entry : List EntryStep) (step : EntryStep) :
    hooksAfter (entry ++ [step]) = (hooksAfter entry).perform step := by
  rw [hooksAfter, List.foldl_append]
  rfl

theorem hooksAfter_plain {entry : List EntryStep} (hplain : .registerFilter ∉ entry) :
    (hooksAfter entry).customUnload = none ∧ (hooksAfter entry).driverUnload ≠ some .ktl := by
  induction entry using List.reverseRecOn with
  | nil => exact ⟨rfl, by simp [hooksAfter]⟩
  | append_singleton rest step ih =>
    rw [List.mem_append, not_or] at hplain
    rw [hooksAfter_concat]
    cases step with
    | setDriverUnload given => exact ⟨(ih hplain.1).1, by cases given <;> simp [Hooks.perform]⟩
    | registerFilter => simp at hplain

/-- What comes after the last filter only sets `DriverUnload`. -/
theorem hooksAfter_filter (before : List EntryStep) {after : List EntryStep} (hplain : .registerFilter ∉ after) :
    (hooksAfter (before ++ .registerFilter :: after)).customUnload = (hooksAfter before).driverUnload ∧
      ((hooksAfter (before ++ .registerFilter :: after)).driverUnload = some .ktl ↔ after = []) := by
  induction after using List.reverseRecOn with
  | nil =>
    rw [hooksAfter_concat]
    simp [Hooks.perform]
  | append_singleton rest step ih =>
    rw [List.mem_append, not_or] at hplain
    rw [← List.cons_append, ← List.append_assoc, hooksAfter_concat]
    cases step with
    | setDriverUnload given => exact ⟨(ih hplain.1).1, by cases given <;> simp [Hooks.perform]⟩
    | registerFilter => simp at hplain

/-- The global objects are destroyed once, at the end, if the driver registers no filter or its
initializers fail. If it registers filters, what `DriverUnload` was before the last one decides
whether they are, or whether `KtlDriverUnload` calls itself for ever. -/
theorem destructors_run (d : Driver) :
    (.registerFilter ∉ d.entry ∨ ntSuccess d.initialized = false → Destroys d) ∧
    ∀ before after, d.entry = before ++ .registerFilter :: after → .registerFilter ∉ after → ntSuccess d.initialized →
      (ntSuccess d.status →
        (Destroys d ↔ after = [] ∧ (hooksAfter before).driverUnload = some .own ∨
          after ≠ [] ∧ (hooksAfter before).driverUnload = none) ∧
        ((∀ n, life d n = none) ↔ after = [] ∧ (hooksAfter before).driverUnload ≠ some .own)) ∧
      (ntSuccess d.status = false →
        (Destroys d ↔ (hooksAfter before).driverUnload ≠ some .ktl) ∧
        ((∀ n, life d n = none) ↔ (hooksAfter before).driverUnload = some .ktl)) := by
  obtain ⟨hdestroys, hloops⟩ :
      (Destroys d ↔ _) ∧ ((∀ n, life d n = none) ↔ _) := Hooks.call_iff _ _
  constructor
  · intro hplain
    rw [hdestroys, ktlDriverEntry]
    cases hinit : ntSuccess d.initialized with
    | false => simp [hinit]
    | true =>
      obtain ⟨hcustom, hdriver⟩ := hooksAfter_plain (hplain.resolve_right (by simp [hinit]))
      cases hstatus : ntSuccess d.status <;> simp [hstatus, hcustom, hdriver]
  · intro before after hentry hplain hinit
    obtain ⟨hcustom, hdriver⟩ := hooksAfter_filter before hplain
    rw [hdestroys, hloops, ktlDriverEntry, if_pos hinit, hentry]
    generalize hooksAfter (before ++ .registerFilter :: after) = hooks at hcustom hdriver ⊢
    constructor
    · intro hstatus
      have hzero : ntSuccess 0#32 = true := rfl
      rcases hbefore : (hooksAfter before).driverUnload with _ | _ | _ <;> rw [hbefore] at hcustom <;>
        simp [hstatus, hzero, hcustom, hdriver]
    · intro hstatus
      simp [hstatus, hcustom]

/-- A filter that is registered after `DriverUnload` was set, and one that is registered alone. -/
theorem destructors_run_one_filter : Destroys ⟨0, [.setDriverUnload true, .registerFilter], 0⟩ ∧
    ∀ n, life ⟨0, [.registerFilter], 0⟩ n = none := by
  have hset := ((destructors_run ⟨0, [.setDriverUnload true, .registerFilter], 0⟩).2 [.setDriverUnload true] [] rfl
    (by simp) rfl).1 rfl
  have hnone := ((destructors_run ⟨0, [.registerFilter], 0⟩).2 [] [] rfl (by simp) rfl).1 rfl
  exact ⟨hset.1.mpr (.inl ⟨rfl, rfl⟩), hnone.2.mpr ⟨rfl, by simp [hooksAfter]⟩⟩

end Ktl.DriverLifecycle
