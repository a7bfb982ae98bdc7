import Ktl.FrameHandler4

/-!
What a catch clause binds its variable to. The exception object may be of a class derived
from the caught one: a reference is to the base, a copy is made from it, and a pointer that
was thrown is displaced. A clause is bound right only if it is for all copy constructors.
-/
namespace Ktl.CatchBinding

open ByteMemory CatchBlocks

structure CatchClause where
  adjectives : BitVec 32
  matchType : BitVec 32
  catchVar : Option (BitVec 32)
  deriving DecidableEq

/-- The address that the frame handlers pass for the variable: an offset of zero
stands for none. -/
def CatchClause.address (clause : CatchClause) (primaryFramePtr : BitVec 64) : BitVec 64 :=
  primaryFramePtr + (clause.catchVar.getD 0).setWidth 64

def CatchClause.ofHandler (handler : FrameHandler3.CatchHandler) : CatchClause :=
  ⟨handler.adjectives, handler.typeDesc,
    if handler.catchObjectOffset = 0 then none else some handler.catchObjectOffset⟩

theorem CatchClause.address_ofHandler (handler : FrameHandler3.CatchHandler) (primaryFramePtr : BitVec 64) :
    (ofHandler handler).address primaryFramePtr = primaryFramePtr + handler.catchObjectOffset.setWidth 64 := by
  unfold ofHandler address
  split_ifs with hzero
  · simp [hzero]
  · rfl

def CatchClause.ofCompressed (flags : BitVec 8) (clause : FrameHandler4.Clause) : CatchClause :=
  ⟨clause.adjectives, clause.type,
    if hasAnyOf flags FrameHandler4.hasCatchVar then some clause.catchVar else none⟩

theorem CatchClause.address_ofCompressed (prog : Program) (call : FrameHandler3.Call) (mem : Memory)
    (data primaryFramePtr : BitVec 64) :
    let clause := (FrameHandler4.readClause prog call mem data).1
    (ofCompressed (mem data) clause).address primaryFramePtr = primaryFramePtr + clause.catchVar.setWidth 64 := by
  intro clause
  unfold ofCompressed address
  split_ifs with hnone
  · rfl
  · have hzero : clause.catchVar = 0 := by
      simp [clause, FrameHandler4.readClause, FrameHandler4.readIf, hnone]
    simp [hzero]

/-! ## The meaning of a clause -/

/-- Every qualifier of the throw (const, volatile, unaligned) is one of the
clause. -/
def Includes (throwInfo : ThrowInfo) (adjectives : BitVec 32) : Prop :=
  ∀ i < 3, throwInfo.attributes.getLsbD i = true → adjectives.getLsbD i = true

def adjustPointer (mem : Memory) (displacement : MemberPtr) (ptr : BitVec 64) : BitVec 64 :=
  if ptr = 0 then 0 else displacement.apply mem ptr

/-- The copy that a clause without `&` gets. A simple type of eight bytes is a pointer, or has no
displacement. -/
def bindCopy (prog : Program) (mem : Memory) (catchable : CatchableType) (var object : BitVec 64) :
    Memory :=
  let base := catchable.offset.apply mem object
  if hasAnyOf catchable.properties isSimpleType then
    if catchable.size = 8 then
      store64 mem var (adjustPointer mem catchable.offset (load64 mem object))
    else copy mem var object catchable.size.toNat
  else if catchable.copyFn = 0 then copy mem var base catchable.size.toNat
  else prog.copyCtor catchable.copyFn var base (hasAnyOf catchable.properties hasVirtualBase) mem

/-- The memory after a clause has bound its variable. -/
def bind (prog : Program) (mem : Memory) (clause : CatchClause) (catchable : CatchableType)
    (primaryFramePtr object : BitVec 64) : Memory :=
  match clause.catchVar with
  | none => mem
  | some catchVar =>
    let var := primaryFramePtr + catchVar.setWidth 64
    if hasAnyOf clause.adjectives isReference then
      store64 mem var (catchable.offset.apply mem object)
    else if hasAnyOf catchable.properties byReferenceOnly then mem
    else bindCopy prog mem catchable var object

def matching (clause : CatchClause) (throwInfo : ThrowInfo) : Option CatchableType :=
  if throwInfo.attributes &&& throwQualifiers &&& ~~~clause.adjectives ≠ 0 then none
  else throwInfo.catchables.find? (·.desc == clause.matchType)

def expected (prog : Program) (mem : Memory) (clause : CatchClause) (primaryFramePtr object : BitVec 64)
    (throwInfo : ThrowInfo) : Option Memory :=
  if hasAnyOf clause.adjectives isEllipsis then some mem
  else (matching clause throwInfo).map fun catchable =>
    bind prog mem clause catchable primaryFramePtr object

/-! ## Where the code agrees -/

def Unmoved (mem : Memory) (catchable : CatchableType) (object : BitVec 64) : Prop :=
  catchable.offset.apply mem object = object

def DeclaredRight (mem : Memory) (adjectives : BitVec 32) (catchable : CatchableType) (object : BitVec 64) : Prop :=
  if hasAnyOf adjectives isReference then Unmoved mem catchable object
  else if hasAnyOf catchable.properties byReferenceOnly then True
  else if hasAnyOf catchable.properties isSimpleType then
    catchable.size = 8 → load64 mem object = 0 ∨ Unmoved mem catchable (load64 mem object)
  else catchable.copyFn = 0 ∨ Unmoved mem catchable object

/-- What is written to the first bytes of the frame of a clause without a variable was there before.
-/
def UndeclaredRight (mem : Memory) (adjectives : BitVec 32) (catchable : CatchableType)
    (primaryFramePtr object : BitVec 64) : Prop :=
  if hasAnyOf adjectives isReference then load64 mem primaryFramePtr = object
  else if hasAnyOf catchable.properties byReferenceOnly then True
  else if hasAnyOf catchable.properties isSimpleType then
    ∀ i < catchable.size.toNat, mem (offset primaryFramePtr i) = mem (offset object i)
  else catchable.copyFn = 0 ∧ ∀ i < catchable.size.toNat,
    mem (offset primaryFramePtr i) = mem (offset (catchable.offset.apply mem object) i)

def BoundRight (mem : Memory) (clause : CatchClause) (primaryFramePtr object : BitVec 64)
    (catchable : CatchableType) : Prop :=
  match clause.catchVar with
  | some _ => DeclaredRight mem clause.adjectives catchable object
  | none => UndeclaredRight mem clause.adjectives catchable primaryFramePtr object

def withCopyCtor (prog : Program) (copyCtor : BitVec 32 → BitVec 64 → BitVec 64 → Bool → Memory → Memory) : Program :=
  { prog with copyCtor }

def Binds (prog : Program) (mem : Memory) (clause : CatchClause) (catchable : CatchableType)
    (primaryFramePtr object : BitVec 64) : Prop :=
  ∀ copyCtor, transferToCatchBlock (withCopyCtor prog copyCtor) mem clause.adjectives catchable
        (clause.address primaryFramePtr) object
      = bind (withCopyCtor prog copyCtor) mem clause catchable primaryFramePtr object

theorem size_le (catchable : CatchableType) : catchable.size.toNat ≤ 2 ^ 64 := by
  omega

theorem pointer_copied_iff :
    copy mem var object 8 = store64 mem var (adjustPointer mem displacement (load64 mem object)) ↔
      load64 mem object = 0 ∨ displacement.apply mem (load64 mem object) = load64 mem object := by
  rw [copy_eq_store64, store64_inj, adjustPointer]
  split_ifs with hnull
  · simp [hnull]
  · rw [or_iff_right hnull, eq_comm]

theorem copyCtor_same_iff : (∀ copyCtor : BitVec 32 → BitVec 64 → BitVec 64 → Bool → Memory → Memory,
      copyCtor fn var object virtualBase mem = copyCtor fn var base virtualBase mem) ↔ base = object := by
  constructor
  · intro hall
    exact (store64_inj.mp (hall fun _ dst src _ mem => store64 mem dst src)).symm
  · rintro rfl _
    rfl

theorem copyCtor_changes : ¬ ∀ copyCtor : BitVec 32 → BitVec 64 → BitVec 64 → Bool → Memory → Memory,
      copyCtor fn var object virtualBase mem = mem := by
  intro hall
  have hvalue := hall fun _ dst _ _ mem => store64 mem dst (load64 mem dst + 1)
  rw [store64_eq_self_iff] at hvalue
  bv_omega

theorem transfer_declared_iff (hvar : clause.catchVar = some catchVar) :
    Binds prog mem clause catchable primaryFramePtr object ↔ DeclaredRight mem clause.adjectives catchable object := by
  have haddress : clause.address primaryFramePtr = primaryFramePtr + catchVar.setWidth 64 := by
    rw [CatchClause.address, hvar, Option.getD_some]
  simp only [Binds, haddress, transferToCatchBlock, bind, hvar, DeclaredRight, Unmoved]
  by_cases href : hasAnyOf clause.adjectives isReference
  · simp [href, store64_inj, eq_comm]
  by_cases honly : hasAnyOf catchable.properties byReferenceOnly
  · simp [href, honly]
  by_cases hsimple : hasAnyOf catchable.properties isSimpleType
  · simp only [href, honly, hsimple, copyToCatchBlock, bindCopy, Bool.not_false, Bool.true_or, if_true,
      Bool.false_eq_true, if_false, forall_const]
    by_cases hsize : catchable.size = 8
    · simp only [hsize, if_true, forall_const]
      exact pointer_copied_iff
    · simp only [hsize, if_false, false_imp_iff]
  by_cases hfn : catchable.copyFn = 0
  · simp [href, honly, hsimple, hfn, copyToCatchBlock, bindCopy]
  · simp only [href, honly, hsimple, hfn, copyToCatchBlock, bindCopy, Bool.not_false, Bool.true_or, if_true,
      Bool.false_eq_true, if_false, false_or]
    exact copyCtor_same_iff

theorem transfer_undeclared_iff (hvar : clause.catchVar = none) :
    Binds prog mem clause catchable primaryFramePtr object ↔
      UndeclaredRight mem clause.adjectives catchable primaryFramePtr object := by
  have haddress : clause.address primaryFramePtr = primaryFramePtr := by
    simp [CatchClause.address, hvar]
  simp only [Binds, haddress, transferToCatchBlock, bind, hvar, UndeclaredRight]
  by_cases href : hasAnyOf clause.adjectives isReference
  · simp [href, store64_eq_self_iff]
  by_cases honly : hasAnyOf catchable.properties byReferenceOnly
  · simp [href, honly]
  simp only [href, honly, copyToCatchBlock, Bool.not_false, Bool.true_or, if_true, Bool.false_eq_true, if_false]
  by_cases hsimple : hasAnyOf catchable.properties isSimpleType
  · simp only [hsimple, if_true, forall_const]
    exact copy_eq_self_iff (size_le catchable)
  by_cases hfn : catchable.copyFn = 0
  · simp only [hsimple, hfn, Bool.false_eq_true, if_false, if_true, forall_const, true_and]
    exact copy_eq_self_iff (size_le catchable)
  · simp only [hsimple, hfn, Bool.false_eq_true, if_false, false_and, iff_false]
    exact copyCtor_changes

theorem transfer_iff : Binds prog mem clause catchable primaryFramePtr object ↔
      BoundRight mem clause primaryFramePtr object catchable := by
  unfold BoundRight
  cases hvar : clause.catchVar with
  | none => exact transfer_undeclared_iff hvar
  | some catchVar => exact transfer_declared_iff hvar

/-! ## Which clauses take an exception -/

theorem includes_iff (throwInfo : ThrowInfo) (adjectives : BitVec 32) :
    Includes throwInfo adjectives ↔ throwInfo.attributes &&& throwQualifiers &&& ~~~adjectives = 0 := by
  have hmask : ∀ i < 32, throwQualifiers.getLsbD i = decide (i < 3) := by decide
  have hbit : ∀ i < 32, (throwInfo.attributes &&& throwQualifiers &&& ~~~adjectives).getLsbD i
      = (throwInfo.attributes.getLsbD i && decide (i < 3) && !adjectives.getLsbD i) := by
    intro i hi
    simp only [BitVec.getLsbD_and, BitVec.getLsbD_not, hmask i hi, hi, decide_true, Bool.true_and]
  constructor
  · intro hincludes
    apply BitVec.eq_of_getLsbD_eq
    intro i hi
    rw [hbit i hi, BitVec.ofNat_eq_ofNat, BitVec.getLsbD_zero]
    by_cases hqualifier : i < 3
    · cases hset : throwInfo.attributes.getLsbD i with
      | false => rfl
      | true => simp [hincludes i hqualifier hset]
    · simp [hqualifier]
  · intro hzero i hi hset
    have hclear := hbit i (by omega)
    rw [hzero, hset, BitVec.ofNat_eq_ofNat, BitVec.getLsbD_zero, decide_eq_true hi] at hclear
    simpa using hclear

theorem isSome_matching_iff (clause : CatchClause) (throwInfo : ThrowInfo) : (matching clause throwInfo).isSome ↔
      Includes throwInfo clause.adjectives ∧ ∃ catchable ∈ throwInfo.catchables, catchable.desc = clause.matchType := by
  rw [includes_iff, matching]
  split_ifs with hmissing
  · simp only [Option.isSome_none, Bool.false_eq_true, hmissing, false_and]
  · simp [not_not.mp hmissing]

theorem processCatchBlock_eq (prog : Program) (mem : Memory) (clause : CatchClause)
    (catchVar object : BitVec 64) (throwInfo : ThrowInfo) :
    processCatchBlock prog mem clause.adjectives clause.matchType catchVar object throwInfo =
      if hasAnyOf clause.adjectives isEllipsis then some mem
      else (matching clause throwInfo).map fun catchable =>
        transferToCatchBlock prog mem clause.adjectives catchable catchVar object := by
  unfold processCatchBlock matching
  split
  · rfl
  · split <;> rfl

/-- A clause is taken exactly when it should be, and its variable is right exactly in the cases of
`BoundRight`. -/
theorem catch_block_bound_iff (prog : Program) (mem : Memory) (clause : CatchClause)
    (primaryFramePtr object : BitVec 64) (throwInfo : ThrowInfo) :
    ((processCatchBlock prog mem clause.adjectives clause.matchType (clause.address primaryFramePtr)
        object throwInfo).isSome ↔
      hasAnyOf clause.adjectives isEllipsis ∨ Includes throwInfo clause.adjectives ∧
          ∃ catchable ∈ throwInfo.catchables, catchable.desc = clause.matchType) ∧
    ((∀ copyCtor, processCatchBlock (withCopyCtor prog copyCtor) mem clause.adjectives clause.matchType
          (clause.address primaryFramePtr) object throwInfo
        = expected (withCopyCtor prog copyCtor) mem clause primaryFramePtr object throwInfo) ↔
      hasAnyOf clause.adjectives isEllipsis ∨ ∀ catchable ∈ matching clause throwInfo,
          BoundRight mem clause primaryFramePtr object catchable) := by
  simp only [processCatchBlock_eq, expected]
  by_cases hellipsis : hasAnyOf clause.adjectives isEllipsis
  · simp [hellipsis]
  simp only [hellipsis, Bool.false_eq_true, if_false, false_or, Option.isSome_map]
  refine ⟨isSome_matching_iff clause throwInfo, ?_⟩
  cases matching clause throwInfo with
  | none => simp
  | some catchable =>
    simp only [Option.map_some, Option.some.injEq, Option.mem_some_iff, forall_eq']
    exact transfer_iff

def baseAtEight (properties copyFn : BitVec 32) : ThrowInfo :=
  ⟨0, 0, [⟨properties, 0x500, ⟨0, 0, 8⟩, 8, copyFn⟩]⟩

def tracingProgram : Program :=
  withCopyCtor plainProgram fun _ dst src _ mem => store64 mem dst src

/-- The word at an address after a clause was processed, and the word that should be there. -/
def caughtWord (clause : CatchClause) (throwInfo : ThrowInfo) (address : BitVec 64) :
    Option (BitVec 64) × Option (BitVec 64) :=
  let mem := store64 (fun _ => 0) 0x1000 0x3000
  ((processCatchBlock tracingProgram mem clause.adjectives clause.matchType (clause.address 0x2000)
      0x1000 throwInfo).map (load64 · address),
    (expected tracingProgram mem clause 0x2000 0x1000 throwInfo).map (load64 · address))

/-- A reference to a base is to the whole object, a class is copied from it, a pointer to a derived
class stays as it is, and a reference without a name overwrites the frame. -/
theorem base_not_adjusted : caughtWord ⟨isReference, 0x500, some 0x20⟩ (baseAtEight 0 0) 0x2020
      = (some 0x1000, some 0x1008) ∧
    caughtWord ⟨0, 0x500, some 0x20⟩ (baseAtEight 0 0x700) 0x2020 = (some 0x1000, some 0x1008) ∧
    caughtWord ⟨0, 0x500, some 0x20⟩ (baseAtEight isSimpleType 0) 0x2020 = (some 0x3000, some 0x3008) ∧
    caughtWord ⟨isReference, 0x500, none⟩ (baseAtEight 0 0) 0x2000 = (some 0x1000, some 0) := by
  decide +kernel

end Ktl.CatchBinding
