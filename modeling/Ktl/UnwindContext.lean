import Ktl.FrameHandler3
import Ktl.Runs

/-!
The state that the handler of the older table format leaves for itself. When it has chosen a
catch clause it stores the state and the try block in `unwind_context` of the `catch_info`; if
an exception leaves the catch handler, `__cxx_call_catch_frame_handler` copies the field to
the new throw frame, and the handler of the same function reads it. Between these steps the
program writes where it likes, except over the field itself.
-/
namespace Ktl.UnwindContext

open Runs ByteMemory CatchBlocks FrameHandler3

structure FunctionContext where
  state : BitVec 32
  homeBlockIndex : BitVec 32
  deriving DecidableEq

/-- The eight bytes of the pair as one number. -/
def FunctionContext.word (context : FunctionContext) : BitVec 64 :=
  BitVec.ofNat 64 (context.state.toNat + 2 ^ 32 * context.homeBlockIndex.toNat)

/-- Nothing, a catch handler with its context, an exception that has left it, or a context that was
read. -/
inductive Phase where
  | idle
  | handling (ci : BitVec 64) (stored : FunctionContext)
  | leaving (ci : BitVec 64) (stored : FunctionContext)
  | returned (read : Int × Int) (stored : FunctionContext)
  deriving DecidableEq

/-- The context that is to be read back. -/
def Phase.stored : Phase → Option FunctionContext
  | .handling _ stored | .leaving _ stored => some stored
  | .idle | .returned .. => none

structure State where
  mem : Memory
  phase : Phase

def State.initial (mem : Memory) : State := ⟨mem, .idle⟩

/-- The clause that the handler chooses, with the memory after the clause's
variable has been set. -/
def selection (prog : Program) (info : FunctionEhInfo) (call : Call) (mem : Memory) :
    Option (Memory × Home × Selected) :=
  match locate info call mem with
  | .error _ => none
  | .ok (state, home) =>
    match select prog info call state home mem with
    | .ok (mem', some selected) => some (mem', home, selected)
    | _ => none

def contextOf (home : Home) (selected : Selected) : FunctionContext :=
  ⟨BitVec.ofInt 32 (selected.tryLow - 1), BitVec.ofInt 32 home.homeBlockIndex⟩

abbrev SameField (mem mem' : Memory) (ci : BitVec 64) : Prop :=
  ∀ i < 8, mem (offset (unwindContextField ci) i) = mem' (offset (unwindContextField ci) i)

abbrev Apart (ci ci' : BitVec 64) : Prop := 48 ≤ (ci - ci').toNat ∧ 48 ≤ (ci' - ci).toNat

inductive Action where
  /-- the handler of a function runs and chooses a clause -/
  | select (info : FunctionEhInfo) (call : Call)
  /-- the program writes a byte -/
  | write (a : BitVec 64) (byte : BitVec 8)
  /-- an exception with a throw frame of its own leaves the catch handler -/
  | leave (ci : BitVec 64)
  /-- the handler of the same function runs for that exception -/
  | readBack (info : FunctionEhInfo) (call : Call)
  deriving DecidableEq

/-- A catch variable is no part of the throw frame, nor does a destructor write to a catch frame. -/
def step (prog : Program) (s : State) : Action → Option State
  | .select info call =>
    match frameHandler prog info call s.mem, selection prog info call s.mem with
    | .ok result, some (mem, home, selected) =>
      if SameField mem s.mem call.ci then
        some ⟨result.mem, .handling call.ci (contextOf home selected)⟩
      else none
    | _, _ => none
  | .write a byte =>
    match s.phase with
    | .handling ci _ | .leaving ci _ =>
      if 8 ≤ (a - unwindContextField ci).toNat then
        some { s with mem := Function.update s.mem a byte }
      else none
    | .idle | .returned .. => some { s with mem := Function.update s.mem a byte }
  | .leave ci =>
    match s.phase with
    | .handling frameCi stored =>
      if Apart ci frameCi ∧ SameField (destroyException prog s.mem frameCi) s.mem frameCi then
        some ⟨unwindCatchFrame prog s.mem ci frameCi, .leaving ci stored⟩
      else none
    | _ => none
  | .readBack info call =>
    match s.phase with
    | .leaving ci stored =>
      if call.ci = ci ∧ ¬load64 s.mem (primaryFramePtrField ci) < call.framePtr then
        some { s with phase := .returned (startState info call s.mem) stored }
      else none
    | _ => none

/-! ## What is to hold -/

def Holds (mem : Memory) (ci : BitVec 64) (context : FunctionContext) : Prop :=
  load32 mem (unwindContextField ci) = context.state
    ∧ load32 mem (offset (unwindContextField ci) 4) = context.homeBlockIndex

/-- The field has what was stored, and that is what the handler reads back. -/
def RoundTrip (s : State) : Prop :=
  match s.phase with
  | .idle => True
  | .handling ci stored | .leaving ci stored => Holds s.mem ci stored
  | .returned read stored => read = (stored.state.toInt, stored.homeBlockIndex.toInt)

/-- The bytes of the variable of a clause that takes an exception. -/
def variableSize (throwInfo : ThrowInfo) (clause : CatchHandler) : Nat :=
  if hasAnyOf clause.adjectives isEllipsis then 0
  else if hasAnyOf clause.adjectives isReference then 8
  else ((throwInfo.catchables.find? (·.desc == clause.typeDesc)).map (·.size.toNat)).getD 0

/-- The copy constructors of the program write only to the object that they construct. -/
def CopiesInPlace (prog : Program) : Prop :=
  ∀ throwInfo, ∀ catchable ∈ (prog.throwInfo throwInfo).catchables, ∀ catchVar object virtualBase mem x,
    catchable.size.toNat ≤ (x - catchVar).toNat →
      prog.copyCtor catchable.copyFn catchVar object virtualBase mem x = mem x

/-- Outside of the `catch_info` and of the variable of the chosen clause, a selection leaves the
memory as it was. `linked` is the memory in which the exception is known. -/
def WritesCatchInfo (prog : Program) (s : State) (a : Action) (s' : State) : Prop :=
  match a with
  | .select info call => CopiesInPlace prog →
    ∃ state home, locate info call s.mem = .ok (state, home) ∧
      ∃ block ∈ info.tryBlocks, ∃ clause ∈ block.catchHandlers,
        s'.phase = .handling call.ci (contextOf home ⟨block.tryLow, clause.handler⟩) ∧
        ∃ linked : Memory, (∀ x, 48 ≤ (x - call.ci).toNat → linked x = s.mem x) ∧
          ∀ x, 48 ≤ (x - call.ci).toNat →
            variableSize (prog.throwInfo (getThrowInfo linked call.ci)) clause ≤
              (x - (home.primaryFramePtr + clause.catchObjectOffset.setWidth 64)).toNat → s'.mem x = s.mem x
  | _ => True

abbrev SameWord (mem mem' : Memory) (a : BitVec 64) : Prop := ∀ i < 8, mem' (offset a i) = mem (offset a i)

/-- When the pointer that `unwind_context` is taken for leads to the right context. The field has
its own address when a clause is chosen. Then it has the context, which is taken for an address when
it is read: there, too, the context has to stand, and no step until it is read writes there. -/
def SelfReferring (prog : Program) (s : State) (a : Action) : Prop :=
  match a with
  | .select _ call => load64 s.mem (unwindContextField call.ci) = unwindContextField call.ci ∧
    ∀ s' ∈ step prog s a, ∀ context ∈ s'.phase.stored,
      load64 s.mem context.word = context.word ∧ SameWord s.mem s'.mem context.word
  | .write .. | .leave _ =>
    ∀ s' ∈ step prog s a, ∀ context ∈ s'.phase.stored, SameWord s.mem s'.mem context.word
  | .readBack .. => True

instance (prog : Program) (s : State) (a : Action) : Decidable (SelfReferring prog s a) :=
  match a with
  | .select .. => inferInstanceAs (Decidable (_ ∧ _))
  | .write .. | .leave _ =>
    inferInstanceAs (Decidable (∀ s' ∈ step prog s _, ∀ context ∈ s'.phase.stored, SameWord s.mem s'.mem context.word))
  | .readBack .. => isTrue trivial

/-! ## Steps -/

theorem frameHandler_mem (hres : frameHandler prog info call mem = .ok result)
    (hselection : selection prog info call mem = some (mem', home, selected)) :
    result.mem = storeSelected call (load64 mem (unwindContextField call.ci)) home mem' selected := by
  unfold selection at hselection
  unfold frameHandler at hres
  cases hlocate : locate info call mem with
  | error stop => simp [hlocate] at hselection
  | ok located =>
    simp only [hlocate, bind, Except.bind] at hselection hres
    cases hselect : select prog info call located.1 located.2 mem with
    | error stop => simp [hselect] at hselection
    | ok chosen =>
      obtain ⟨mem₁, selected₁⟩ := chosen
      simp only [hselect] at hselection hres
      cases selected₁ with
      | none => simp at hselection
      | some selected₁ =>
        simp only [Option.some.injEq, Prod.mk.injEq] at hselection
        grind

theorem holds_storeSelected (call : Call) (home : Home) (selected : Selected) :
    Holds (storeSelected call (unwindContextField call.ci) home mem selected) call.ci (contextOf home selected) := by
  constructor
  · exact load32_store32 ..
  · have hapart : ∀ i < 4, 4 ≤ (offset (offset (unwindContextField call.ci) 4) i
        - unwindContextField call.ci).toNat := by
      intro i hi
      rw [offset_offset, offset_sub_toNat _ (by omega)]
      omega
    simp only [storeSelected]
    rw [load32, store32, load_store_of_disjoint hapart]
    exact load32_store32 ..

theorem storeSelected_outside (hx : 48 ≤ (x - call.ci).toNat) (home : Home) (selected : Selected) :
    storeSelected call (unwindContextField call.ci) home mem selected x = mem x := by
  simp only [storeSelected, store32, store64, unwindContextField, primaryFramePtrField, offset_offset]
  simp (disch := omega) only [store_offset_of_outside]

theorem Holds.congr (h : Holds mem ci context) (hsame : SameField mem mem' ci) : Holds mem' ci context := by
  have hlow : load mem (unwindContextField ci) 4 = load mem' (unwindContextField ci) 4 :=
    load_congr fun i hi => hsame i (by omega)
  have hhigh : load mem (offset (unwindContextField ci) 4) 4 = load mem' (offset (unwindContextField ci) 4) 4 := by
    apply load_congr
    intro i hi
    rw [offset_offset]
    exact hsame (4 + i) (by omega)
  simpa only [Holds, load32, hlow, hhigh] using h

theorem field_outside (hapart : Apart ci frameCi) (hi : i < 8) :
    48 ≤ (offset (unwindContextField frameCi) i - ci).toNat := by
  obtain ⟨hbelow, habove⟩ := hapart
  simp only [unwindContextField, offset_offset]
  unfold offset
  bv_omega

theorem sameField_unwind (hapart : Apart ci frameCi)
    (hkept : SameField (destroyException prog mem frameCi) mem frameCi) (value value' value'' : BitVec 64) :
    SameField (store64 (store64 (store64 mem (linkField ci) value) (throwInfoField ci) value')
        (primaryFramePtrField ci) value'') mem frameCi
      ∧ SameField (store64 (destroyException prog mem frameCi) (primaryFramePtrField ci) value'')
        mem frameCi := by
  constructor
  · intro i hi
    have hout := field_outside hapart hi
    simp only [store64, linkField, throwInfoField, primaryFramePtrField]
    simp (disch := omega) only [store_offset_of_outside]
  · intro i hi
    have hout := field_outside hapart hi
    simp only [store64, primaryFramePtrField]
    rw [store_offset_of_outside (by omega)]
    exact hkept i hi

theorem holds_unwindCatchFrame (h : Holds mem frameCi context) (hapart : Apart ci frameCi)
    (hkept : SameField (destroyException prog mem frameCi) mem frameCi) :
    Holds (unwindCatchFrame prog mem ci frameCi) ci context := by
  obtain ⟨mem₁, hsame, hcopied⟩ : ∃ mem₁, SameField mem₁ mem frameCi ∧ unwindCatchFrame prog mem ci frameCi
        = store64 mem₁ (unwindContextField ci) (load64 mem₁ (unwindContextField frameCi)) := by
    refine ⟨_, ?_, rfl⟩
    split
    · exact (sameField_unwind hapart hkept _ _ _).1
    · exact (sameField_unwind hapart hkept 0 0 _).2
  rw [hcopied]
  have hword := load64_store64 mem₁ (unwindContextField ci) (load64 mem₁ (unwindContextField frameCi))
  have hhalves := halves_of_load64_eq hword
  have hframe := h.congr fun i hi => (hsame i hi).symm
  exact ⟨hhalves.1.trans hframe.1, hhalves.2.trans hframe.2⟩

theorem load64_eq_word_iff (context : FunctionContext) : load64 mem a = context.word ↔
    load32 mem a = context.state ∧ load32 mem (offset a 4) = context.homeBlockIndex := by
  have hlow := load_lt mem a 4
  have hhigh := load_lt mem (offset a 4) 4
  have hstate := context.state.isLt
  have hhome := context.homeBlockIndex.isLt
  simp only [load64, load32, FunctionContext.word, load_add _ _ 4 4, ← BitVec.toNat_inj, BitVec.toNat_ofNat]
  omega

/-- The handler reads the context, if it also stands at the address that it makes. -/
theorem startState_of_holds (h : Holds mem call.ci context)
    (hprimary : ¬load64 mem (primaryFramePtrField call.ci) < call.framePtr)
    (hmirror : load64 mem context.word = context.word) :
    startState info call mem = (context.state.toInt, context.homeBlockIndex.toInt) := by
  have hword := (load64_eq_word_iff context).mpr h
  obtain ⟨hstate, hhome⟩ := (load64_eq_word_iff context).mp hmirror
  rw [startState, if_neg hprimary, contextState, contextHomeBlockIndex, hword, hstate, hhome]

/-- The context that is to be read back stands in the field and at the address that it makes. -/
def Kept (s : State) : Prop :=
  RoundTrip s ∧ ∀ context ∈ s.phase.stored, load64 s.mem context.word = context.word

theorem load64_of_sameWord (h : load64 mem a = word) (hsame : SameWord mem mem' a) : load64 mem' a = word := by
  rw [← h, load64, load64, load_congr hsame]

theorem select_eq (hstep : step prog s (.select info call) = some s') :
    ∃ result mem home selected, frameHandler prog info call s.mem = .ok result ∧
      selection prog info call s.mem = some (mem, home, selected) ∧
      s' = ⟨result.mem, .handling call.ci (contextOf home selected)⟩ := by
  simp only [step] at hstep
  split at hstep
  · rename_i result mem home selected hres hselection
    obtain ⟨-, rfl⟩ := guarded hstep
    exact ⟨result, mem, home, selected, hres, hselection, rfl⟩
  · cases hstep

theorem write_eq (hstep : step prog s (.write a byte) = some s') :
    s' = { s with mem := Function.update s.mem a byte } ∧ ∀ ci stored,
      s.phase = .handling ci stored ∨ s.phase = .leaving ci stored → 8 ≤ (a - unwindContextField ci).toNat := by
  obtain ⟨mem, phase⟩ := s
  cases phase with
  | idle | returned =>
    cases hstep
    exact ⟨rfl, by simp⟩
  | handling ci stored | leaving ci stored =>
    obtain ⟨hout, rfl⟩ := guarded hstep
    refine ⟨rfl, fun ci' stored' hphase => ?_⟩
    simp only [Phase.handling.injEq, Phase.leaving.injEq, reduceCtorEq, or_false, false_or] at hphase
    rwa [← hphase.1]

theorem sameField_update (byte : BitVec 8) (hout : 8 ≤ (a - unwindContextField ci).toNat) :
    SameField mem (Function.update mem a byte) ci := by
  intro i hi
  have hne : offset (unwindContextField ci) i ≠ a := by
    rintro rfl
    rw [offset_sub_toNat _ (by omega)] at hout
    omega
  rw [Function.update_of_ne hne]

theorem step_kept (h : Kept s) (hself : SelfReferring prog s a) (hstep : step prog s a = some s') : Kept s' := by
  obtain ⟨htrip, hmirror⟩ := h
  cases a with
  | select info call =>
    obtain ⟨hfield, hwords⟩ := hself
    obtain ⟨result, mem, home, selected, hres, hselection, rfl⟩ := select_eq hstep
    refine ⟨?_, fun context hcontext => ?_⟩
    · simp only [RoundTrip, frameHandler_mem hres hselection, hfield]
      exact holds_storeSelected call home selected
    · obtain ⟨hword, hsame⟩ := hwords _ hstep context hcontext
      exact load64_of_sameWord hword hsame
  | write a byte =>
    obtain ⟨rfl, hout⟩ := write_eq hstep
    refine ⟨?_, fun context hcontext => ?_⟩
    · cases hphase : s.phase with
      | idle => simp only [RoundTrip]
      | handling ci stored =>
        simp only [RoundTrip, hphase] at htrip ⊢
        exact htrip.congr (sameField_update byte (hout ci stored (.inl hphase)))
      | leaving ci stored =>
        simp only [RoundTrip, hphase] at htrip ⊢
        exact htrip.congr (sameField_update byte (hout ci stored (.inr hphase)))
      | returned read stored => simpa only [RoundTrip, hphase] using htrip
    · exact load64_of_sameWord (hmirror context hcontext) (hself _ hstep context hcontext)
  | leave ci =>
    cases hphase : s.phase with
    | handling frameCi stored =>
      have hstep' := hstep
      simp only [step, hphase] at hstep
      obtain ⟨⟨hapart, hkept⟩, rfl⟩ := guarded hstep
      simp only [RoundTrip, hphase] at htrip
      refine ⟨holds_unwindCatchFrame htrip hapart hkept, fun context hcontext => ?_⟩
      exact load64_of_sameWord (hmirror context (by rwa [hphase])) (hself _ hstep' context hcontext)
    | idle | leaving | returned => simp [step, hphase] at hstep
  | readBack info call =>
    cases hphase : s.phase with
    | leaving ci stored =>
      simp only [step, hphase, Option.ite_none_right_eq_some, Option.some.injEq] at hstep
      obtain ⟨⟨rfl, hprimary⟩, rfl⟩ := hstep
      simp only [RoundTrip, hphase] at htrip
      exact ⟨startState_of_holds htrip hprimary (hmirror stored (by rw [hphase]; rfl)), nofun⟩
    | idle | handling | returned => simp [step, hphase] at hstep

/-! ## What a selection writes -/

theorem processCatchBlock_outside (hcopies : CopiesInPlace prog) {clause : CatchHandler} {throwInfo : BitVec 64}
    (hprocess : processCatchBlock prog mem clause.adjectives clause.typeDesc catchVar object
      (prog.throwInfo throwInfo) = some mem')
    (hx : variableSize (prog.throwInfo throwInfo) clause ≤ (x - catchVar).toNat) : mem' x = mem x := by
  rw [processCatchBlock] at hprocess
  split at hprocess
  · cases hprocess
    rfl
  · rename_i hellipsis
    rw [variableSize, if_neg hellipsis] at hx
    split at hprocess
    · cases hprocess
    · obtain ⟨catchable, hfind, rfl⟩ := Option.map_eq_some_iff.mp hprocess
      have hmem := List.mem_of_find?_eq_some hfind
      rw [hfind, Option.map_some, Option.getD_some] at hx
      rw [transferToCatchBlock]
      split
      · split_ifs with hvalue
        · rw [if_neg (by simpa using hvalue)] at hx
          rw [copyToCatchBlock]
          split
          · exact if_neg hx.not_gt
          · split
            · exact if_neg hx.not_gt
            · exact hcopies throwInfo catchable hmem _ _ _ _ _ hx
        · rw [if_pos (by simpa using hvalue)] at hx
          exact if_neg hx.not_gt
      · rfl

theorem selectHandler_eq_some (h : selectHandler prog call home mem block clauses = some (mem', selected)) :
    ∃ clause ∈ clauses, selected = ⟨block.tryLow, clause.handler⟩ ∧
      processCatchBlock prog mem clause.adjectives clause.typeDesc
        (home.primaryFramePtr + clause.catchObjectOffset.setWidth 64)
        (getExceptionObject mem call.ci) (prog.throwInfo (getThrowInfo mem call.ci)) = some mem' := by
  induction clauses with
  | nil => cases h
  | cons clause rest ih =>
    rw [selectHandler] at h
    split at h
    · rename_i mem₁ hprocess
      obtain ⟨rfl, rfl⟩ := Prod.mk.inj (Option.some.inj h)
      exact ⟨clause, List.mem_cons_self, rfl, hprocess⟩
    · obtain ⟨clause', hmem, hrest⟩ := ih h
      exact ⟨clause', List.mem_cons_of_mem _ hmem, hrest⟩

theorem resolve_outside (h : resolve prog mem ci = .ok mem') (hx : 48 ≤ (x - ci).toNat) : mem' x = mem x := by
  rw [resolve] at h
  split at h
  · split at h
    · cases h
      rw [store64, linkField, store_offset_of_outside (by omega)]
    · cases h
  · cases h
    rfl

theorem selectBlock_eq_some (h : selectBlock prog call state home mem blocks = .ok (mem', some selected)) :
    ∃ block ∈ blocks, ∃ clause ∈ block.catchHandlers, selected = ⟨block.tryLow, clause.handler⟩ ∧
      ∃ linked : Memory, (∀ x, 48 ≤ (x - call.ci).toNat → linked x = mem x) ∧
        processCatchBlock prog linked clause.adjectives clause.typeDesc
          (home.primaryFramePtr + clause.catchObjectOffset.setWidth 64)
          (getExceptionObject linked call.ci) (prog.throwInfo (getThrowInfo linked call.ci)) = some mem' := by
  induction blocks generalizing mem with
  | nil => cases h
  | cons block rest ih =>
    rw [selectBlock] at h
    split at h
    · cases hresolve : resolve prog mem call.ci with
      | error stop =>
        rw [hresolve] at h
        cases h
      | ok linked =>
        have hlinked : ∀ x, 48 ≤ (x - call.ci).toNat → linked x = mem x := fun x hx => resolve_outside hresolve hx
        rw [hresolve] at h
        simp only [Except.bind] at h
        split at h
        · rename_i mem₁ selected₁ hselect
          cases h
          obtain ⟨clause, hmem, hselected, hprocess⟩ := selectHandler_eq_some hselect
          exact ⟨block, List.mem_cons_self, clause, hmem, hselected, linked, hlinked, hprocess⟩
        · obtain ⟨block', hblock, clause, hclause, hselected, linked', hlinked', hprocess⟩ := ih h
          exact ⟨block', List.mem_cons_of_mem _ hblock, clause, hclause, hselected, linked',
            fun x hx => (hlinked' x hx).trans (hlinked x hx), hprocess⟩
    · obtain ⟨block', hblock, hrest⟩ := ih h
      exact ⟨block', List.mem_cons_of_mem _ hblock, hrest⟩

theorem step_writesCatchInfo (hself : SelfReferring prog s a) (hstep : step prog s a = some s') :
    WritesCatchInfo prog s a s' := by
  cases a with
  | select info call =>
    intro hcopies
    obtain ⟨result, mem, home, selected, hres, hselection, rfl⟩ := select_eq hstep
    have hfinal := frameHandler_mem hres hselection
    rw [hself.1] at hfinal
    unfold selection at hselection
    split at hselection
    · cases hselection
    · rename_i state home' hlocate
      split at hselection
      · rename_i mem₁ selected₁ hselect
        cases hselection
        obtain ⟨block, hblock, clause, hclause, rfl, linked, hlinked, hprocess⟩ := selectBlock_eq_some hselect
        refine ⟨state, home, hlocate, block, List.mem_of_mem_drop hblock, clause, hclause, rfl, linked, hlinked, ?_⟩
        intro x hx hvariable
        simp only [hfinal]
        rw [storeSelected_outside hx, processCatchBlock_outside hcopies hprocess hvariable, hlinked x hx]
      · cases hselection
  | write | leave | readBack => trivial

def catchAll : FunctionEhInfo :=
  ⟨[⟨-1, 0⟩, ⟨0, 0⟩], [⟨1, 1, 2, [⟨0x40, 0, 0, 0x1100, 0⟩]⟩], [⟨0x1000, 1⟩], 0⟩

/-- An exception at `0x9800`, and a `catch_info` at `0x7000` with `ctx` in its `unwind_context`. -/
def thrownMemory (ctx : BitVec 64) : Memory :=
  store64 (store64 (store64 (fun _ => 0) (linkField 0x7000) 0x9800) (throwInfoField 0x7000) 0x140004000)
    (unwindContextField 0x7000) ctx

/-- The same, where the memory at the address made of the context has that word. -/
def selfReferringMemory : Memory :=
  store64 (thrownMemory (unwindContextField 0x7000)) 0xffffffff00000000 0xffffffff00000000

/-- The clause is chosen, the handler throws, and the function is reached again. -/
def throwFromHandler : List Action :=
  [.select catchAll ⟨0x8000, 0x1000, 0x1010, 0x7000⟩, .write 0x6000 1, .leave 0x5000,
    .readBack catchAll ⟨0x8000, 0x1000, 0x1010, 0x5000⟩]

end Ktl.UnwindContext
