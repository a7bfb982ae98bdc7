import Ktl.Runs

/-!
The lifetime of the values inside `optional` objects of several value types. Every operation
carries whether the constructor or assignment that it calls throws; an exception that would
leave a `noexcept` function ends the program.
-/
namespace Ktl.Optional

open Runs

structure Storage where
  ty : Nat
  /-- the type selects `trivial_optional_base` -/
  trivial : Bool
  /-- `m_initialized` -/
  initialized : Bool
  /-- the union holds a live value -/
  live : Bool
  /-- uses and destructions of a value that is not alive, and values given up -/
  misuse : Nat
  deriving DecidableEq

namespace Storage

def empty (ty : Nat) (trivial : Bool) : Storage := ⟨ty, trivial, false, false, 0⟩

def blame (o : Storage) (wrong : Bool) : Storage :=
  { o with misuse := o.misuse + if wrong then 1 else 0 }

def use (o : Storage) : Storage := o.blame !o.live

/-- `construct_at` on the storage. A trivially destructible value may be overwritten; a constructor
that throws leaves no value. -/
def constructAt (o : Storage) (throws : Bool) : Storage :=
  { o.blame (o.live && !o.trivial) with live := !throws }

def destroyAt (o : Storage) : Storage := { o.blame !o.live with live := false }

/-- `m_value = value`. A trivial assignment begins the life of a union member. -/
def assignAt (o : Storage) : Storage :=
  { o.blame (!o.live && !o.trivial) with live := o.live || o.trivial }

def hasValue (o : Storage) : Bool := o.initialized

/-- `construct_from_value`: the value is converted (which may throw) and assigned. -/
def constructFromValue (o : Storage) (throws : Bool) : Storage :=
  if throws then o else { o.assignAt with initialized := true }

def constructFromArgs (o : Storage) (throws : Bool) : Storage :=
  if throws then o.constructAt true else { o.constructAt false with initialized := true }

def resetIfNeeded (o : Storage) : Storage := if o.hasValue then o.destroyAt else o

/-- A trivially destructible value ends with the flag. -/
def reset (o : Storage) : Storage :=
  if o.trivial then { o with initialized := false, live := false }
  else { o.resetIfNeeded with initialized := false }

def emplace (o : Storage) (throws : Bool) : Storage :=
  if o.trivial then o.constructFromArgs throws else o.resetIfNeeded.constructFromArgs throws

def assignOrEmplace (o : Storage) (throws : Bool) : Option Storage :=
  if throws then none
  else if o.hasValue then some o.assignAt else some (o.constructFromArgs false)

def assignValue (o : Storage) (throws : Bool) : Option Storage :=
  if o.trivial then some (o.constructFromValue throws) else o.assignOrEmplace throws

/-- `~optional_storage` -/
def destruct (o : Storage) : Storage :=
  if o.trivial then o else o.resetIfNeeded.blame o.resetIfNeeded.live

end Storage

structure World where
  object : Nat → Option Storage
  /-- misuse of the optionals that have been destroyed -/
  misuse : Nat

def World.set (w : World) (i : Nat) (o : Storage) : World :=
  { w with object := Function.update w.object i (some o) }

@[simp] def World.remove (w : World) (i : Nat) (misuse : Nat) : World :=
  ⟨Function.update w.object i none, w.misuse + misuse⟩

/-- The copy and the move constructor. If the value throws, no optional is made. -/
def copyConstruct (w : World) (i j : Nat) (other : Storage) (throws : Bool) : World :=
  if other.trivial then w.set i { other with misuse := 0 }
  else if other.hasValue then
    let w := w.set j other.use
    let this := (Storage.empty other.ty false).constructFromArgs throws
    if throws then { w with misuse := w.misuse + this.misuse } else w.set i this
  else w.set i (.empty other.ty false)

/-- Construction from an optional of another type. -/
def convertConstruct (w : World) (i ty j : Nat) (other : Storage) (throws : Bool) : World :=
  if other.hasValue then
    let w := w.set j other.use
    let this := (Storage.empty ty false).constructFromValue throws
    if throws then { w with misuse := w.misuse + this.misuse } else w.set i this
  else w.set i (.empty ty false)

def copyAssign (w : World) (i j : Nat) (this other : Storage) (throws : Bool) : Option World :=
  if i = j then some w
  else if this.trivial then
    some (w.set i { this with initialized := other.initialized, live := other.live })
  else if other.hasValue then
    (this.assignOrEmplace throws).map fun this => (w.set j other.use).set i this
  else some (w.set i this.reset)

/-- Assignment from an optional of another type, which only the trivial base
class can compile. -/
def convertAssign (w : World) (i j : Nat) (this other : Storage) (throws : Bool) : World :=
  if other.hasValue then (w.set j other.use).set i (this.constructFromValue throws)
  else w.set i this.reset

def swap (w : World) (i j : Nat) (lhs rhs : Storage) (throws : Bool) : World :=
  if lhs.hasValue == rhs.hasValue then
    -- the values are swapped, and stay alive if that throws
    if lhs.hasValue then (w.set i lhs.use).set j rhs.use else w
  else if lhs.hasValue then
    let w := (w.set i lhs.use).set j (rhs.emplace throws)
    if throws then w else w.set i lhs.use.reset
  else
    let w := (w.set j rhs.use).set i (lhs.emplace throws)
    if throws then w else w.set j rhs.use.reset

inductive Operation where
  | construct (i ty : Nat) (trivial : Bool)
  | constructValue (i ty : Nat) (trivial throws : Bool)
  | copyConstruct (i j : Nat) (throws : Bool)
  | convertConstruct (i ty j : Nat) (throws : Bool)
  | copyAssign (i j : Nat) (throws : Bool)
  | convertAssign (i j : Nat) (throws : Bool)
  | assignValue (i : Nat) (throws : Bool)
  | emplace (i : Nat) (throws : Bool)
  | reset (i : Nat)
  | swap (i j : Nat) (throws : Bool)
  | destruct (i : Nat)
  deriving DecidableEq

/-- One operation, run to its end or to the exception that leaves it. `none` if it ends the program,
or if the program could not contain it. -/
def step (w : World) : Operation → Option World
  | .construct i ty trivial =>
    if w.object i = none then some (w.set i (.empty ty trivial)) else none
  | .constructValue i ty trivial throws =>
    if w.object i = none then
      some (if throws then w else w.set i ((Storage.empty ty trivial).constructFromArgs false))
    else none
  | .copyConstruct i j throws => do
    let other ← w.object j
    if w.object i = none then some (Optional.copyConstruct w i j other throws) else none
  | .convertConstruct i ty j throws => do
    let other ← w.object j
    if w.object i = none ∧ other.ty ≠ ty ∧ other.trivial = false then
      some (Optional.convertConstruct w i ty j other throws)
    else none
  | .copyAssign i j throws => do
    let this ← w.object i
    let other ← w.object j
    if this.ty = other.ty ∧ this.trivial = other.trivial then
      Optional.copyAssign w i j this other throws
    else none
  | .convertAssign i j throws => do
    let this ← w.object i
    let other ← w.object j
    if this.ty ≠ other.ty ∧ this.trivial = true ∧ other.trivial = true then
      some (Optional.convertAssign w i j this other throws)
    else none
  | .assignValue i throws => do
    let this ← w.object i
    (this.assignValue throws).map (w.set i)
  | .emplace i throws => do
    let this ← w.object i
    some (w.set i (this.emplace throws))
  | .reset i => do
    let this ← w.object i
    some (w.set i this.reset)
  | .swap i j throws => do
    let lhs ← w.object i
    let rhs ← w.object j
    if lhs.ty = rhs.ty ∧ lhs.trivial = rhs.trivial then
      some (Optional.swap w i j lhs rhs throws)
    else none
  | .destruct i => do
    let this ← w.object i
    some (w.remove i this.destruct.misuse)

def World.empty : World := ⟨fun _ => none, 0⟩

/-- The flag tells whether the value is alive, and no rule of its life was broken. -/
structure Storage.Valid (o : Storage) : Prop where
  flag : o.hasValue = o.live
  misuse : o.misuse = 0

structure Valid (w : World) : Prop where
  objects : ∀ i o, w.object i = some o → o.Valid
  misuse : w.misuse = 0

/-- No `emplace` throws on an optional with a value, and no optional of another type with a value is
converted. -/
def Supported (w : World) : Operation → Prop
  | .emplace i throws => ∀ this ∈ w.object i, this.hasValue = true → throws = false
  | .convertConstruct _ _ j throws => ∀ other ∈ w.object j, other.hasValue = true → throws = true
  | _ => True

section

variable {o : Storage}

theorem valid_empty (ty : Nat) (trivial : Bool) : (Storage.empty ty trivial).Valid := ⟨rfl, rfl⟩

section
variable (h : o.Valid)
include h

theorem Storage.Valid.use (hv : o.hasValue = true) : o.use.Valid := by
  have hlive : o.live = true := h.flag ▸ hv
  constructor
  · exact h.flag
  · simp [Storage.use, Storage.blame, hlive, h.misuse]

theorem Storage.Valid.constructFromArgs (hfree : o.hasValue = false ∨ o.trivial = true)
    (hthrow : throws = true → o.hasValue = false) : (o.constructFromArgs throws).Valid := by
  have hblame : (o.live && !o.trivial) = false := by
    obtain hnone | htrivial := hfree
    · rw [← h.flag, hnone, Bool.false_and]
    · rw [htrivial, Bool.not_true, Bool.and_false]
  cases throws with
  | true =>
    constructor
    · exact hthrow rfl
    · simp [Storage.constructFromArgs, Storage.constructAt, Storage.blame, hblame, h.misuse]
  | false =>
    constructor
    · rfl
    · simp [Storage.constructFromArgs, Storage.constructAt, Storage.blame, hblame, h.misuse]

theorem Storage.Valid.assignAt (hv : o.hasValue = true ∨ o.trivial = true) :
    o.assignAt.misuse = 0 ∧ o.assignAt.live = true := by
  have hlive : o.live = true ∨ o.trivial = true := by rwa [← h.flag]
  obtain hl | ht := hlive
  · simp [Storage.assignAt, Storage.blame, hl, h.misuse]
  · simp [Storage.assignAt, Storage.blame, ht, h.misuse]

theorem Storage.Valid.constructFromValue (ht : o.trivial = true) : (o.constructFromValue throws).Valid := by
  unfold Storage.constructFromValue
  split
  · exact h
  · obtain ⟨hmisuse, hlive⟩ := h.assignAt (.inr ht)
    exact ⟨hlive.symm, hmisuse⟩

theorem Storage.Valid.resetIfNeeded : o.resetIfNeeded.live = false ∧ o.resetIfNeeded.misuse = 0 := by
  unfold Storage.resetIfNeeded
  split_ifs with hv
  · have hlive : o.live = true := h.flag ▸ hv
    simp [Storage.destroyAt, Storage.blame, hlive, h.misuse]
  · have hlive : o.live = false := by simpa [h.flag] using hv
    exact ⟨hlive, h.misuse⟩

theorem Storage.Valid.reset : o.reset.Valid := by
  unfold Storage.reset
  split
  · exact ⟨rfl, h.misuse⟩
  · exact ⟨h.resetIfNeeded.1.symm, h.resetIfNeeded.2⟩

theorem Storage.Valid.emplace (throws : Bool) (hthrow : o.hasValue = true → throws = false) :
    (o.emplace throws).Valid := by
  unfold Storage.emplace
  split_ifs with ht
  · apply h.constructFromArgs (.inr ht)
    intro hthrows
    cases hv : o.hasValue with
    | true => simp [hthrow hv] at hthrows
    | false => rfl
  · -- the flag is still set when the new value is constructed
    cases hv : o.hasValue with
    | true =>
      obtain ⟨hlive, hmisuse⟩ := h.resetIfNeeded
      rw [hthrow hv]
      constructor
      · rfl
      · simp [Storage.constructFromArgs, Storage.constructAt, Storage.blame, hlive, hmisuse]
    | false =>
      have hsame : o.resetIfNeeded = o := by simp [Storage.resetIfNeeded, hv]
      rw [hsame]
      exact h.constructFromArgs (.inl hv) (fun _ => hv)

theorem Storage.Valid.assignOrEmplace (ho : o.assignOrEmplace throws = some o') : o'.Valid := by
  unfold Storage.assignOrEmplace at ho
  split at ho
  · cases ho
  · split_ifs at ho with hv
    · cases ho
      obtain ⟨hmisuse, hlive⟩ := h.assignAt (.inl hv)
      exact ⟨hv.trans hlive.symm, hmisuse⟩
    · cases ho
      exact h.constructFromArgs (.inl (by simpa using hv)) (by simp)

theorem Storage.Valid.assignValue (ho : o.assignValue throws = some o') : o'.Valid := by
  unfold Storage.assignValue at ho
  split_ifs at ho with ht
  · cases ho
    exact h.constructFromValue ht
  · exact h.assignOrEmplace ho

theorem Storage.Valid.destruct : o.destruct.misuse = 0 := by
  unfold Storage.destruct
  split
  · exact h.misuse
  · simp [Storage.blame, h.resetIfNeeded]

end

end

section

theorem Valid.set (hw : Valid w) (ho : o.Valid) : Valid (w.set i o) := by
  constructor
  · intro k p hk
    by_cases he : k = i
    · subst he
      obtain rfl : o = p := by simpa [World.set] using hk
      exact ho
    · exact hw.objects k p (by simpa [World.set, he] using hk)
  · exact hw.misuse

section

variable (hw : Valid w)

include hw

theorem Valid.copyConstruct (ho : other.Valid) : Valid (copyConstruct w i j other throws) := by
  unfold Optional.copyConstruct
  split
  · exact hw.set ⟨ho.flag, rfl⟩
  · split
    · rename_i hv
      have hused := hw.set (i := j) (ho.use hv)
      cases throws with
      | true => exact ⟨hused.objects, hused.misuse⟩
      | false => exact hused.set ((valid_empty other.ty false).constructFromArgs (.inl rfl) (by simp))
    · exact hw.set (valid_empty other.ty false)

theorem Valid.convertConstruct (ho : other.Valid) (hthrow : other.hasValue = true → throws = true) :
    Valid (convertConstruct w i ty j other throws) := by
  unfold Optional.convertConstruct
  split
  · rename_i hv
    have hused := hw.set (i := j) (ho.use hv)
    rw [hthrow hv]
    exact ⟨hused.objects, hused.misuse⟩
  · exact hw.set (valid_empty ty false)

theorem Valid.copyAssign (ht : this.Valid) (ho : other.Valid)
    (hres : copyAssign w i j this other throws = some w') : Valid w' := by
  unfold Optional.copyAssign at hres
  split at hres
  · cases hres
    exact hw
  · split at hres
    · cases hres
      exact hw.set ⟨ho.flag, ht.misuse⟩
    · split_ifs at hres with hv
      · obtain ⟨this', hthis', rfl⟩ := Option.map_eq_some_iff.mp hres
        exact (hw.set (ho.use hv)).set (ht.assignOrEmplace hthis')
      · cases hres
        exact hw.set ht.reset

theorem Valid.convertAssign (ht : this.Valid) (ho : other.Valid) (htrivial : this.trivial = true) :
    Valid (convertAssign w i j this other throws) := by
  unfold Optional.convertAssign
  split_ifs with hv
  · exact (hw.set (ho.use hv)).set (ht.constructFromValue htrivial)
  · exact hw.set ht.reset

theorem Valid.swap (hl : lhs.Valid) (hr : rhs.Valid) : Valid (swap w i j lhs rhs throws) := by
  unfold Optional.swap
  split
  · rename_i hsame
    split_ifs with hv
    · have hv' : rhs.hasValue = true := by
        rw [← hv]
        exact (beq_iff_eq.mp hsame).symm
      exact (hw.set (hl.use hv)).set (hr.use hv')
    · exact hw
  · rename_i hdiff
    split
    · rename_i hv
      have hnone : rhs.hasValue = false := by simpa [hv] using hdiff
      have hmoved := (hw.set (i := i) (hl.use hv)).set (i := j) (hr.emplace throws (by simp [hnone]))
      split
      · exact hmoved
      · exact hmoved.set (hl.use hv).reset
    · rename_i hv
      have hv' : rhs.hasValue = true := by simpa [hv] using hdiff
      have hmoved := (hw.set (i := j) (hr.use hv')).set (i := i) (hl.emplace throws (by simp [hv]))
      split
      · exact hmoved
      · exact hmoved.set (hr.use hv').reset

theorem Valid.bind {f : Storage → Option World} (h : (w.object i).bind f = some w') :
    ∃ o, w.object i = some o ∧ o.Valid ∧ f o = some w' := by
  obtain ⟨o, ho, h⟩ := Option.bind_eq_some_iff.mp h
  exact ⟨o, ho, hw.objects i o ho, h⟩

theorem Valid.step (hok : Supported w op) (hstep : step w op = some w') : Valid w' := by
  cases op with
  | construct i ty trivial =>
    obtain ⟨_, rfl⟩ := guarded hstep
    exact hw.set (valid_empty ty trivial)
  | constructValue i ty trivial throws =>
    obtain ⟨_, rfl⟩ := guarded hstep
    split
    · exact hw
    · exact hw.set ((valid_empty ty trivial).constructFromArgs (.inl rfl) (by simp))
  | copyConstruct i j throws =>
    obtain ⟨other, _, ho, hstep⟩ := hw.bind hstep
    obtain ⟨_, rfl⟩ := by simpa using hstep
    exact hw.copyConstruct ho
  | convertConstruct i ty j throws =>
    obtain ⟨other, hother, ho, hstep⟩ := hw.bind hstep
    obtain ⟨_, rfl⟩ := by simpa using hstep
    exact hw.convertConstruct ho (hok other hother)
  | copyAssign i j throws =>
    obtain ⟨this, _, ht, hstep⟩ := hw.bind hstep
    obtain ⟨other, _, ho, hstep⟩ := hw.bind hstep
    obtain ⟨_, hres⟩ := Option.ite_none_right_eq_some.mp hstep
    exact hw.copyAssign ht ho hres
  | convertAssign i j throws =>
    obtain ⟨this, _, ht, hstep⟩ := hw.bind hstep
    obtain ⟨other, _, ho, hstep⟩ := hw.bind hstep
    obtain ⟨⟨_, htrivial, _⟩, rfl⟩ := by simpa using hstep
    exact hw.convertAssign ht ho htrivial
  | assignValue i throws =>
    obtain ⟨this, hthis, ht, hstep⟩ := hw.bind hstep
    obtain ⟨this', hthis', rfl⟩ := Option.map_eq_some_iff.mp hstep
    exact hw.set (ht.assignValue hthis')
  | emplace i throws =>
    obtain ⟨this, hthis, ht, hstep⟩ := hw.bind hstep
    cases hstep
    exact hw.set (ht.emplace _ (hok this hthis))
  | reset i =>
    obtain ⟨this, _, ht, hstep⟩ := hw.bind hstep
    cases hstep
    exact hw.set ht.reset
  | swap i j throws =>
    obtain ⟨lhs, _, hl, hstep⟩ := hw.bind hstep
    obtain ⟨rhs, _, hr, hstep⟩ := hw.bind hstep
    obtain ⟨_, rfl⟩ := by simpa using hstep
    exact hw.swap hl hr
  | destruct i =>
    obtain ⟨this, _, ht, hstep⟩ := hw.bind hstep
    cases hstep
    constructor
    · intro k o hk
      by_cases he : k = i
      · subst he
        simp at hk
      · exact hw.objects k o (by simpa [he] using hk)
    · simp [hw.misuse, ht.destruct]

end

/-- The flag of each optional tells whether its value is alive, and every value is destroyed exactly
once. -/
theorem valid_of_supported {ops : List Operation} (hrun : Run step Supported World.empty ops w) :
    Valid w := by
  apply hrun.invariant (fun _ _ _ hw hok hst => hw.step hok hst)
  constructor
  · intro i o ho
    cases ho
  · rfl

instance (w : World) (op : Operation) : Decidable (Supported w op) :=
  match op with
  | .emplace _ _ | .convertConstruct _ _ _ _ => inferInstanceAs (Decidable (∀ _ ∈ _, _))
  | .construct _ _ _ | .constructValue _ _ _ _ | .copyConstruct _ _ _ | .copyAssign _ _ _
  | .convertAssign _ _ _ | .assignValue _ _ | .reset _ | .swap _ _ _ | .destruct _ =>
    inferInstanceAs (Decidable True)

/-- A value is moved between optionals, with constructors that throw where this is supported. -/
def swapAndThrow : List Operation :=
  [.constructValue 0 7 false false, .construct 1 7 false, .emplace 1 true, .swap 0 1 true,
    .swap 0 1 false, .copyConstruct 2 1 true, .copyConstruct 2 1 false, .emplace 2 false,
    .destruct 0, .destruct 1]

theorem valid_of_supported_swapAndThrow : ∃ w, Run Optional.step Supported World.empty swapAndThrow w ∧
    (w.object 2 = some ⟨7, false, true, true, 0⟩) ∧ Valid w := by
  have hsome : (exec Optional.step Supported World.empty swapAndThrow).map (fun w => w.object 2) =
      some (some ⟨7, false, true, true, 0⟩) := by
    decide +kernel
  obtain ⟨w, hrun, hobj⟩ := run_of_exec_map hsome
  exact ⟨w, hrun, hobj, valid_of_supported hrun⟩

def emplaceThrows : List Operation := [.constructValue 0 7 false false, .emplace 0 true]

def convertFull : List Operation := [.constructValue 0 7 false false, .convertConstruct 1 8 0 false]

/-- The flag is set without a value; and the conversion assigns to a value that was never made. -/
theorem optional_breaks : (∃ w o, Run Optional.step (fun _ _ => True) World.empty emplaceThrows w ∧
      w.object 0 = some o ∧ o.hasValue = true ∧ o.live = false) ∧
    (∃ w, Run Optional.step (fun _ _ => True) World.empty (emplaceThrows ++ [.destruct 0]) w ∧ w.misuse = 1) ∧
    ∃ w o, Run Optional.step (fun _ _ => True) World.empty convertFull w ∧ w.object 1 = some o ∧ o.misuse = 1 := by
  have hflag : (exec Optional.step (fun _ _ => True) World.empty emplaceThrows).map
      (fun w => w.object 0) = some (some ⟨7, false, true, false, 0⟩) := by
    decide +kernel
  have htwice : (exec Optional.step (fun _ _ => True) World.empty
      (emplaceThrows ++ [.destruct 0])).map World.misuse = some 1 := by
    decide +kernel
  have hraw : (exec Optional.step (fun _ _ => True) World.empty convertFull).map
      (fun w => w.object 1) = some (some ⟨8, false, true, false, 1⟩) := by
    decide +kernel
  obtain ⟨u, hu, hflag⟩ := run_of_exec_map hflag
  obtain ⟨x, hx, hraw⟩ := run_of_exec_map hraw
  exact ⟨⟨u, _, hu, hflag, rfl, rfl⟩, run_of_exec_map htwice, x, _, hx, hraw, rfl⟩

end

end Ktl.Optional
