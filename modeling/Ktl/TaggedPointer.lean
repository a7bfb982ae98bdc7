import Mathlib.Data.BitVec

/-!
The 64-bit tagged pointer of the lock-free containers: 48 address bits and a 16-bit tag. A
kernel address has its upper sixteen bits set, so they can be dropped and put back.
-/
namespace Ktl.TaggedPointer

open BitVec

abbrev Ptr := BitVec 64

structure CompressedPointer where
  address : BitVec 48
  tag : BitVec 16
  deriving DecidableEq

def kernelModeAddressMask : BitVec 64 := 0xFFFF000000000000#64

def pointerMask : BitVec 64 := (1#64 <<< 48) - 1#64

def fromNumber (number : BitVec 64) : CompressedPointer :=
  ⟨(number &&& pointerMask).setWidth 48, (number >>> 48).setWidth 16⟩

def packPtr (addr : Ptr) (tag : BitVec 16) : CompressedPointer :=
  ⟨addr.setWidth 48, tag⟩

def extractPtr (ptr : CompressedPointer) : Ptr :=
  ptr.address.setWidth 64 ||| kernelModeAddressMask

def getNextTag (ptr : CompressedPointer) : BitVec 16 :=
  (ptr.tag.setWidth 64 + 1#64).setWidth 16

/-- `operator bool`, negated. -/
def isNull (ptr : CompressedPointer) : Bool := ptr.address == 0#48

/-- `operator==`: the tags are not compared. -/
def samePointer (lhs rhs : CompressedPointer) : Bool :=
  extractPtr lhs == extractPtr rhs

structure KernelAddress (p : Ptr) : Prop where
  high : p &&& kernelModeAddressMask = kernelModeAddressMask
  nonnull : p.setWidth 48 ≠ 0#48

instance (p : Ptr) : Decidable (KernelAddress p) :=
  decidable_of_iff (p &&& kernelModeAddressMask = kernelModeAddressMask ∧
    p.setWidth 48 ≠ 0#48) ⟨fun h => ⟨h.1, h.2⟩, fun h => ⟨h.high, h.nonnull⟩⟩

theorem kernelModeAddressMask_getLsbD : ∀ i < 64, kernelModeAddressMask.getLsbD i = decide (48 ≤ i) := by decide
@[simp] theorem packPtr_tag (p : Ptr) (tag : BitVec 16) : (packPtr p tag).tag = tag := rfl

section
variable (ptr : CompressedPointer) (tag : BitVec 16)
include ptr tag

theorem packPtr_extractPtr : packPtr (extractPtr ptr) tag = ⟨ptr.address, tag⟩ := by
  simp only [packPtr, extractPtr, CompressedPointer.mk.injEq, and_true]
  apply eq_of_getLsbD_eq
  intro i hi
  have hm := kernelModeAddressMask_getLsbD i (by omega)
  have h64 : i < 64 := by omega
  have hlow : ¬48 ≤ i := by omega
  simp only [getLsbD_setWidth, getLsbD_or, hm]
  simp [hi, h64, hlow]

@[simp] theorem isNull_packPtr_extractPtr : isNull (packPtr (extractPtr ptr) tag) = isNull ptr := by
  simp [packPtr_extractPtr, isNull]

@[simp] theorem extractPtr_packPtr_extractPtr : extractPtr (packPtr (extractPtr ptr) tag) = extractPtr ptr := by
  rw [packPtr_extractPtr]
  rfl

end

def target (ptr : CompressedPointer) : Option Ptr :=
  if isNull ptr then none else some (extractPtr ptr)

@[simp] theorem target_packPtr_extractPtr (ptr : CompressedPointer) (tag : BitVec 16) :
    target (packPtr (extractPtr ptr) tag) = target ptr := by
  simp [target]

section

variable (p : Ptr) (tag : BitVec 16) (h : KernelAddress p)

include p tag h

theorem extractPtr_packPtr : extractPtr (packPtr p tag) = p := by
  apply eq_of_getLsbD_eq
  intro i hi
  have hm := kernelModeAddressMask_getLsbD i hi
  have hb := congrArg (fun v => getLsbD v i) h.high
  simp only [getLsbD_and, hm] at hb
  simp only [extractPtr, packPtr, getLsbD_or, getLsbD_setWidth, hm]
  by_cases hlow : i < 48
  · simp [hi, hlow]
  · simp_all

theorem isNull_packPtr : isNull (packPtr p tag) = false := by
  simp [isNull, packPtr, h.nonnull]
theorem target_packPtr : target (packPtr p tag) = some p := by
  simp [target, isNull_packPtr p tag h, extractPtr_packPtr p tag h]

end

theorem getNextTag_eq (ptr : CompressedPointer) : getNextTag ptr = ptr.tag + 1#16 := by
  apply eq_of_toNat_eq
  simp [getNextTag, toNat_add]

theorem ofNat_tag_inj (hle : m ≤ n) (hwin : n - m < 2 ^ 16) (h : BitVec.ofNat 16 m = BitVec.ofNat 16 n) : m = n := by
  have ht := congrArg BitVec.toNat h
  simp only [toNat_ofNat] at ht
  omega

end Ktl.TaggedPointer
