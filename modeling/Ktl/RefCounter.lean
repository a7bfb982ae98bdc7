import Ktl.Word32

/-!
The control block of `shared_ptr` and `weak_ptr`: two 32-bit counters. The object is destroyed
when the strong one falls to zero, the block deleted when the weak one does.
-/
namespace Ktl.RefCounter

open Word32

/-- The counters of `ref_counter_base`, and how often the object was destroyed
and the block deleted. -/
structure ControlBlock where
  strong : Nat
  weak : Nat
  destroyed : Nat
  deleted : Nat
  deriving DecidableEq

def initial : ControlBlock := ⟨1, 1, 0, 0⟩

def incStrongRefs (rc : ControlBlock) : ControlBlock := { rc with strong := increment rc.strong }
def incWeakRefs (rc : ControlBlock) : ControlBlock := { rc with weak := increment rc.weak }
def decStrongRefs (rc : ControlBlock) : ControlBlock := { rc with strong := decrement rc.strong }
def decWeakRefs (rc : ControlBlock) : ControlBlock := { rc with weak := decrement rc.weak }
def destroyObject (rc : ControlBlock) : ControlBlock := { rc with destroyed := rc.destroyed + 1 }
def deleteThis (rc : ControlBlock) : ControlBlock := { rc with deleted := rc.deleted + 1 }

def acquire (rc : ControlBlock) : ControlBlock := incStrongRefs rc

def follow (rc : ControlBlock) : ControlBlock := incWeakRefs rc

def unfollow (rc : ControlBlock) : ControlBlock :=
  let rc := decWeakRefs rc
  if rc.weak = 0 then deleteThis rc else rc

def release (rc : ControlBlock) : ControlBlock :=
  let rc := decStrongRefs rc
  if rc.strong = 0 then unfollow (destroyObject rc) else rc

def weakRefs (strong weak : Nat) : Nat := weak + if 0 < strong then 1 else 0

/-- The counters count `n` strong and `m` weak handles; the object was destroyed once if no strong
handle is left, and the block deleted once if no handle is left. -/
structure Counts (rc : ControlBlock) (n m : Nat) : Prop where
  strong : rc.strong = n
  weak : rc.weak = weakRefs n m
  destroyed : rc.destroyed = if n = 0 then 1 else 0
  deleted : rc.deleted = if n = 0 ∧ m = 0 then 1 else 0
  strongBound : n < 2 ^ 32
  weakBound : weakRefs n m < 2 ^ 32

theorem initial_counts : Counts initial 1 0 := by
  constructor <;> decide

theorem Counts.acquire (h : Counts rc n m) (hpos : 0 < n) (hb : n + 1 < 2 ^ 32) : Counts (acquire rc) (n + 1) m := by
  have hweak : weakRefs (n + 1) m = weakRefs n m := by simp [weakRefs, hpos]
  constructor
  · simp [RefCounter.acquire, incStrongRefs, h.strong, increment_of_lt hb]
  · simp [RefCounter.acquire, incStrongRefs, h.weak, hweak]
  · simp [RefCounter.acquire, incStrongRefs, h.destroyed, Nat.ne_of_gt hpos]
  · simp [RefCounter.acquire, incStrongRefs, h.deleted, Nat.ne_of_gt hpos]
  · exact hb
  · rw [hweak]
    exact h.weakBound

theorem Counts.follow (h : Counts rc n m) (hpos : 0 < n ∨ 0 < m)
    (hb : weakRefs n m + 1 < 2 ^ 32) : Counts (follow rc) n (m + 1) := by
  have hweak : weakRefs n (m + 1) = weakRefs n m + 1 := by
    simp only [weakRefs]
    omega
  constructor
  · exact h.strong
  · simp [RefCounter.follow, incWeakRefs, h.weak, increment_of_lt hb, hweak]
  · exact h.destroyed
  · have hnot : ¬(n = 0 ∧ m = 0) := by omega
    simp [RefCounter.follow, incWeakRefs, h.deleted, hnot]
  · exact h.strongBound
  · rw [hweak]
    exact hb

theorem Counts.unfollow (h : Counts rc n (m + 1)) : Counts (unfollow rc) n m := by
  have hweak : weakRefs n (m + 1) = weakRefs n m + 1 := by
    simp only [weakRefs]
    omega
  have hb := h.weakBound
  rw [hweak] at hb
  have hdec : (decWeakRefs rc).weak = weakRefs n m := by
    simp [decWeakRefs, h.weak, hweak, decrement_succ]
  have hzero : weakRefs n m = 0 ↔ n = 0 ∧ m = 0 := by
    unfold weakRefs
    split <;> omega
  have hdel : rc.deleted = 0 := by
    simpa using h.deleted
  simp only [RefCounter.unfollow, hdec, hzero]
  split_ifs with hlast
  · constructor
    · exact h.strong
    · rw [← hdec]
      rfl
    · exact h.destroyed
    · simp [deleteThis, decWeakRefs, hdel, hlast]
    · exact h.strongBound
    · omega
  · constructor
    · exact h.strong
    · exact hdec
    · exact h.destroyed
    · simp [decWeakRefs, hdel, hlast]
    · exact h.strongBound
    · omega

theorem Counts.release (h : Counts rc (n + 1) m) : Counts (release rc) n m := by
  have hdec : (decStrongRefs rc).strong = n := by
    simp [decStrongRefs, h.strong, decrement_succ]
  have hb := h.strongBound
  simp only [RefCounter.release, hdec]
  split_ifs with hlast
  · -- the last strong handle also gives up the weak reference of its kind
    subst hlast
    have hstep : Counts (destroyObject (decStrongRefs rc)) 0 (m + 1) := by
      have hw := h.weak
      have hwb := h.weakBound
      simp only [weakRefs] at hw hwb
      constructor
      · exact hdec
      · simpa [destroyObject, decStrongRefs, weakRefs] using hw
      · simp [destroyObject, decStrongRefs, h.destroyed]
      · simp [destroyObject, decStrongRefs, h.deleted]
      · omega
      · simpa [weakRefs] using hwb
    exact hstep.unfollow
  · have hpos : 0 < n := Nat.pos_of_ne_zero hlast
    constructor
    · exact hdec
    · have hw := h.weak
      simpa [decStrongRefs, weakRefs, hpos] using hw
    · simp [decStrongRefs, h.destroyed, hlast]
    · simp [decStrongRefs, h.deleted, hlast]
    · omega
    · have hwb := h.weakBound
      simpa [weakRefs, hpos] using hwb

end Ktl.RefCounter
