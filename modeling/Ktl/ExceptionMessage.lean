import Mathlib.Data.BitVec
import Ktl.HandleTable
import Ktl.Runs

/-!
The message of an exception: `exception_base` keeps one pointer, to a text that outlives the
exception or to a block of the exception allocator with a reference counter and a text. The
lowest bit tells the two apart. The allocator's answers, the addresses of the literals and
the system's conversion to multi-byte text are parameters.
-/
namespace Ktl.ExceptionMessage

open Runs HandleTable Function List Option BitVec

abbrev Address := BitVec 64
abbrev Byte := BitVec 8

def unicodeConversionFailed : List Byte :=
  "(unable to convert provided Unicode description to ANSI)".toList.map fun c => BitVec.ofNat 8 c.toNat

/-- The texts that outlive every exception, without their terminators, and the conversion of the
system's code page. -/
structure Environment where
  text : Address → Option (List Byte)
  empty : Address
  conversionFailed : Address
  toMultiByte : List (BitVec 16) → List Byte
  text_empty : text empty = some []
  text_conversionFailed : text conversionFailed = some unicodeConversionFailed

/-- `shared_data` with the characters behind it; a character not written yet
is `none`. -/
structure SharedData where
  description : Address
  refCounter : BitVec 64
  chars : List (Option Byte)
  deriving DecidableEq

/-- `objects` has `m_data` of every exception. `misuse` counts accesses outside of blocks. -/
structure State where
  objects : HandleTable Address Address
  blocks : Address → Option SharedData
  allocated : List Address
  returned : List Address
  misuse : Nat

def State.initial : State := ⟨⟨[], fun _ => 0⟩, fun _ => none, [], [], 0⟩

abbrev State.ids (s : State) : List Address := s.objects.ids

abbrev State.data (s : State) (h : Address) : Address := s.objects.value h

def sharedDataMask : Address := 1

def isShared (data : Address) : Bool := data &&& sharedDataMask == 1

def mask (ptr : Address) : Address := ptr ||| sharedDataMask

def unmask (data : Address) : Address := data &&& ~~~sharedDataMask

def sizeofSharedData : Address := 16

def dispatchLevel : Nat := 2

/-! ## The operations -/

/-- `construct_header`: the terminator, then the header. The object's pointer is stored by the
constructor that called it. -/
def constructHeader (s : State) (this buffer : Address) (chars : List (Option Byte)) (msgLength : Nat) : State :=
  { s with
    objects := s.objects.emplace this (mask buffer)
    blocks := update s.blocks buffer (some ⟨buffer + sizeofSharedData, 1, chars.set msgLength (some 0)⟩)
    allocated := buffer :: s.allocated
    misuse := s.misuse + (decide (chars.length ≤ msgLength)).toNat }

/-- `make_shared_data` for characters: the block has room for the message and
a terminator. -/
def makeSharedData (s : State) (this buffer : Address) (msg : List Byte) : State :=
  constructHeader s this buffer (msg.map some ++ [none]) msg.length

def srcLengthInBytes (msg : List (BitVec 16)) : Nat := msg.length * 2 % 2 ^ 32

/-- `make_shared_data` for wide characters: the header is given the length of the source. -/
def makeSharedDataWide (env : Environment) (s : State) (this buffer : Address) (msg : List (BitVec 16)) : State :=
  let converted := env.toMultiByte (msg.take (srcLengthInBytes msg / 2))
  let descriptionLength := converted.length % 2 ^ 32
  constructHeader s this buffer ((converted.take descriptionLength).map some ++ [none]) (srcLengthInBytes msg)

def storeText (s : State) (this ptr : Address) : State :=
  { s with objects := s.objects.emplace this ptr }

def addRef (s : State) (data : Address) : State :=
  if isShared data then
    match s.blocks (unmask data) with
    | some block =>
      { s with blocks := update s.blocks (unmask data) (some { block with refCounter := block.refCounter + 1 }) }
    | none => { s with misuse := s.misuse + 1 }
  else s

def release (s : State) (data : Address) : State :=
  if isShared data then
    match s.blocks (unmask data) with
    | some block =>
      if block.refCounter - 1 = 0 then
        { s with
          blocks := update s.blocks (unmask data) none
          returned := unmask data :: s.returned }
      else
        { s with blocks := update s.blocks (unmask data) (some { block with refCounter := block.refCounter - 1 }) }
    | none => { s with misuse := s.misuse + 1 }
  else s

def copyConstruct (s : State) (this other : Address) : State :=
  { addRef s (s.data other) with objects := s.objects.emplace this (s.data other) }

def moveConstruct (env : Environment) (s : State) (this other : Address) : State :=
  { s with objects := (s.objects.emplace this (s.data other)).assign other env.empty }

def swap (s : State) (this other : Address) : State :=
  { s with objects := s.objects.swap this other }

/-- `~exception_base` -/
def destroy (s : State) (this : Address) : State :=
  { release s (s.data this) with objects := s.objects.erase this }

def copyAssign (s : State) (this other tmp : Address) : State :=
  if this = other then s else destroy (swap (copyConstruct s tmp other) this tmp) tmp

def moveAssign (env : Environment) (s : State) (this other tmp : Address) : State :=
  if this = other then s else destroy (swap (moveConstruct env s tmp other) this tmp) tmp

def getMessage (s : State) (h : Address) : Option Address :=
  if isShared (s.data h) then (s.blocks (unmask (s.data h))).map (·.description)
  else some (s.data h)

def charsAt (env : Environment) (s : State) (ptr : Address) : List (Option Byte) :=
  match env.text ptr with
  | some text => (text ++ [0]).map some
  | none => ((s.blocks (ptr - sizeofSharedData)).map (·.chars)).getD []

/-- `buffer` is what the allocator returns, `none` if it throws, `tmp` where an assignment keeps its
temporary. -/
inductive Action where
  | constructDefault (this : Address)
  /-- from a literal or a persistent message -/
  | constructText (this ptr : Address)
  | constructShared (this : Address) (msg : List Byte) (buffer : Option Address)
  | constructWide (this : Address) (msg : List (BitVec 16)) (irql : Nat) (buffer : Option Address)
  | copyConstruct (this other : Address)
  | moveConstruct (this other : Address)
  | copyAssign (this other tmp : Address)
  | moveAssign (this other tmp : Address)
  | destroy (this : Address)
  deriving DecidableEq

abbrev State.Free (s : State) (this : Address) : Prop := this ∉ s.ids ∧ this ≠ 0

/-- What the allocator may return: an aligned block that is not in use, without texts. -/
abbrev State.Fresh (env : Environment) (s : State) (buffer : Address) : Prop :=
  s.blocks buffer = none ∧ isShared buffer = false ∧ env.text (buffer + sizeofSharedData) = none

def step (env : Environment) (s : State) : Action → Option State
  | .constructDefault this => if s.Free this then some (storeText s this env.empty) else none
  | .constructText this ptr =>
    if s.Free this ∧ (env.text ptr).isSome then some (storeText s this ptr) else none
  | .constructShared this msg buffer =>
    if s.Free this then
      match buffer with
      | some buffer => if s.Fresh env buffer then some (makeSharedData s this buffer msg) else none
      | none => some s
    else none
  | .constructWide this msg irql buffer =>
    if s.Free this then
      if dispatchLevel ≤ irql then some (storeText s this env.conversionFailed)
      else
        match buffer with
        | some buffer =>
          if s.Fresh env buffer then some (makeSharedDataWide env s this buffer msg) else none
        | none => some s
    else none
  | .copyConstruct this other =>
    if s.Free this ∧ other ∈ s.ids then some (copyConstruct s this other) else none
  | .moveConstruct this other =>
    if s.Free this ∧ other ∈ s.ids then some (moveConstruct env s this other) else none
  | .copyAssign this other tmp =>
    if s.Free tmp ∧ this ∈ s.ids ∧ other ∈ s.ids then some (copyAssign s this other tmp) else none
  | .moveAssign this other tmp =>
    if s.Free tmp ∧ this ∈ s.ids ∧ other ∈ s.ids then some (moveAssign env s this other tmp)
    else none
  | .destroy this => if this ∈ s.ids then some (destroy s this) else none

/-! ## What is to hold -/

def expect (env : Environment) (message : Address → List Byte) : Action → Address → List Byte
  | .constructDefault this => update message this []
  | .constructText this ptr => update message this ((env.text ptr).getD [])
  | .constructShared this msg buffer =>
    if buffer.isSome then update message this msg else message
  | .constructWide this msg irql buffer =>
    if dispatchLevel ≤ irql then update message this unicodeConversionFailed
    else if buffer.isSome then update message this (env.toMultiByte msg) else message
  | .copyConstruct this other | .copyAssign this other _ =>
    update message this (message other)
  | .moveConstruct this other =>
    update (update message this (message other)) other []
  | .moveAssign this other _ =>
    if this = other then message
    else update (update message this (message other)) other []
  | .destroy _ => message

def State.referring (s : State) (a : Address) : Nat := s.objects.count (· == mask a)

/-- Every exception shows its message, every block is counted and in use, and what was allocated was
returned once unless it is in use. -/
structure Sound (env : Environment) (s : State) (message : Address → List Byte) : Prop where
  shown : ∀ h ∈ s.ids, ∃ ptr, getMessage s h = some ptr ∧ charsAt env s ptr = (message h ++ [0]).map some
  counted : ∀ a block, s.blocks a = some block → block.refCounter.toNat = s.referring a ∧ 0 < s.referring a
  returned : ∀ a, s.allocated.count a = s.returned.count a + (s.blocks a).isSome.toNat
  noMisuse : s.misuse = 0

/-- The pointers stored as they are are even, and every wide character becomes two bytes. -/
def Representable (env : Environment) (_ : State) : Action → Prop
  | .constructDefault _ | .moveConstruct .. | .moveAssign .. => isShared env.empty = false
  | .constructText _ ptr => isShared ptr = false
  | .constructWide _ msg irql _ =>
    if dispatchLevel ≤ irql then isShared env.conversionFailed = false
    else msg.length * 2 < 2 ^ 32 ∧ (env.toMultiByte msg).length = msg.length * 2
  | _ => True

instance (env : Environment) (s : State) (a : Action) : Decidable (Representable env s a) :=
  match a with
  | .constructDefault _ | .moveConstruct .. | .moveAssign .. | .constructText .. =>
    inferInstanceAs (Decidable (_ = false))
  | .constructWide .. => inferInstanceAs (Decidable (ite ..))
  | .constructShared .. | .copyConstruct .. | .copyAssign .. | .destroy _ => isTrue trivial

/-! ## The lowest bit -/

theorem isShared_eq (data : Address) : isShared data = data.getLsbD 0 := by
  rw [Bool.eq_iff_iff, isShared, beq_iff_eq]
  constructor
  · intro h
    have := congrArg (·.getLsbD 0) h
    simpa [sharedDataMask] using this
  · intro h
    apply eq_of_getLsbD_eq
    intro i hi
    cases i with
    | zero => simpa [sharedDataMask] using h
    | succ i => simp [sharedDataMask]

theorem isShared_mask (a : Address) : isShared (mask a) = true := by
  simp [isShared_eq, mask, sharedDataMask]
theorem sharedDataMask_getLsbD : ∀ i < 64, sharedDataMask.getLsbD i = decide (i = 0) := by decide

theorem unmask_mask (heven : isShared a = false) : unmask (mask a) = a := by
  rw [isShared_eq] at heven
  apply eq_of_getLsbD_eq
  intro i hi
  have hbit := sharedDataMask_getLsbD i hi
  cases i with
  | zero => simp [unmask, getLsbD_and, getLsbD_not, hbit, heven, -getLsbD_eq_getElem]
  | succ i => simp [unmask, mask, getLsbD_and, getLsbD_or, getLsbD_not, hbit, hi,
      -getLsbD_eq_getElem]

theorem mask_unmask (hshared : isShared data = true) : mask (unmask data) = data := by
  rw [isShared_eq] at hshared
  apply eq_of_getLsbD_eq
  intro i hi
  have hbit := sharedDataMask_getLsbD i hi
  cases i with
  | zero => simp only [mask, getLsbD_or, hbit, hshared, decide_true, Bool.or_true]
  | succ i => simp [unmask, mask, getLsbD_and, getLsbD_or, getLsbD_not, hbit, hi,
      -getLsbD_eq_getElem]

/-! ## The invariant -/

def Represents (env : Environment) (s : State) (data : Address) (msg : List Byte) : Prop :=
  if isShared data then
    ∃ block, s.blocks (unmask data) = some block ∧ block.chars = (msg ++ [0]).map some
  else env.text data = some msg

structure Held (env : Environment) (s : State) (a : Address) (block : SharedData) : Prop where
  even : isShared a = false
  apart : env.text (a + sizeofSharedData) = none
  description : block.description = a + sizeofSharedData
  counted : block.refCounter.toNat = s.referring a
  referred : 0 < s.referring a

structure Inv (env : Environment) (s : State) (message : Address → List Byte) : Prop where
  nodup : (0 :: s.ids).Nodup
  represents : ∀ h ∈ s.ids, Represents env s (s.data h) (message h)
  held : ∀ a block, s.blocks a = some block → Held env s a block
  returned : ∀ a, s.allocated.count a = s.returned.count a + (s.blocks a).isSome.toNat
  noMisuse : s.misuse = 0

variable {env : Environment} {s : State} {message : Address → List Byte}

theorem initial_inv (env : Environment) (message : Address → List Byte) : Inv env State.initial message where
  nodup := nodup_singleton 0
  represents := fun _ hh => absurd hh not_mem_nil
  held := fun _ _ hblock => absurd hblock (by simp [State.initial])
  returned := fun _ => rfl
  noMisuse := rfl

theorem referring_lt (hnodup : (0 :: s.ids).Nodup) (a : Address) : s.referring a < 2 ^ 64 := by
  have hwords := hnodup.map fun _ _ heq => toFin_inj.mp heq
  have hlen := hwords.length_le_card
  have hcount : s.referring a ≤ s.ids.length := countP_le_length
  simp only [length_map, length_cons, Fintype.card_fin] at hlen
  omega

theorem Represents.of_text (heven : isShared data = false) (htext : env.text data = some msg) :
    Represents env s data msg := by
  simp [Represents, heven, htext]

theorem Represents.mono (hrep : Represents env s data msg)
    (hblocks : ∀ block, isShared data → s.blocks (unmask data) = some block →
      ∃ block', s'.blocks (unmask data) = some block' ∧ block'.chars = block.chars) :
    Represents env s' data msg := by
  unfold Represents at hrep ⊢
  split_ifs at hrep with hshared
  · obtain ⟨block, hblock, hchars⟩ := hrep
    obtain ⟨block', hblock', hsame⟩ := hblocks block hshared hblock
    rw [if_pos hshared]
    exact ⟨block', hblock', hsame.trans hchars⟩
  · rwa [if_neg hshared]

theorem ne_mask_of_even (heven : isShared data = false) (a : Address) : (data == mask a) = false := by
  rw [beq_eq_false_iff_ne]
  rintro rfl
  rw [isShared_mask] at heven
  exact absurd heven (by decide)

theorem mask_inj (ha : isShared a = false) (hb : isShared b = false) (heq : mask a = mask b) : a = b := by
  rw [← unmask_mask ha, heq, unmask_mask hb]

theorem State.Free.nodup (hfree : s.Free this) (hnodup : (0 :: s.ids).Nodup) : (0 :: this :: s.ids).Nodup := by
  have hnodup := nodup_cons.mp hnodup
  refine nodup_cons.mpr ⟨?_, nodup_cons.mpr ⟨hfree.1, hnodup.2⟩⟩
  rintro (_ | hmem)
  · exact hfree.2 rfl
  · exact hnodup.1 ‹_›

theorem represents_update {value : Address → Address} (hnew : Represents env s data msg)
    (hold : i ≠ this → Represents env s (value i) (message i)) :
    Represents env s (update value this data i) (update message this msg i) := by
  by_cases hi : i = this
  · subst hi
    rwa [update_self, update_self]
  · rw [update_of_ne hi, update_of_ne hi]
    exact hold hi

theorem represents_emplace (this : Address) {s' : State} (hthis : Represents env s' data msg)
    (hold : ∀ h ∈ s.ids, Represents env s' (s.data h) (message h)) :
    ∀ h ∈ (s.objects.emplace this data).ids,
      Represents env s' ((s.objects.emplace this data).value h) (update message this msg h) :=
  fun h hh => represents_update hthis fun hne => hold h ((mem_cons.mp hh).resolve_left hne)

theorem Held.congr (hheld : Held env s a block) (hsame : s'.referring a = s.referring a) : Held env s' a block :=
  ⟨hheld.even, hheld.apart, hheld.description, hheld.counted.trans hsame.symm, hheld.referred.trans_eq hsame.symm⟩

section
variable (h : Inv env s message)
include h

theorem Inv.sound : Sound env s message where
  shown := by
    intro this hthis
    have hrep := h.represents this hthis
    unfold Represents at hrep
    unfold getMessage
    split at hrep
    · obtain ⟨block, hblock, hchars⟩ := hrep
      have hheld := h.held _ _ hblock
      refine ⟨block.description, ?_, ?_⟩
      · simp_all
      · have hback : block.description - sizeofSharedData = unmask (s.data this) := by
          rw [hheld.description, BitVec.add_sub_cancel]
        rw [charsAt, hheld.description, hheld.apart, ← hheld.description, hback, hblock, ← hchars]
        rfl
    · refine ⟨s.data this, ?_, ?_⟩
      · simp_all
      · rw [charsAt, hrep]
  counted := fun a block hblock => ⟨(h.held a block hblock).counted, (h.held a block hblock).referred⟩
  returned := h.returned
  noMisuse := h.noMisuse

theorem Inv.congr (heq : ∀ this ∈ s.ids, message' this = message this) : Inv env s message' :=
  { h with represents := fun this hthis => heq this hthis ▸ h.represents this hthis }

theorem Inv.referring_zero (heven : isShared a = false) (hnone : s.blocks a = none) : s.referring a = 0 := by
  refine countP_eq_zero.mpr fun this hthis hdata => ?_
  have hrep := h.represents this hthis
  rw [State.data, eq_of_beq hdata, Represents, isShared_mask, if_pos rfl, unmask_mask heven, hnone] at hrep
  obtain ⟨block, hblock, -⟩ := hrep
  exact absurd hblock (by simp)

theorem Inv.rearrange (hnodup : (0 :: objects.ids).Nodup) (hcount : ∀ a, objects.count (· == mask a) = s.referring a)
    (hrep : ∀ this ∈ objects.ids, Represents env s (objects.value this) (message' this)) :
    Inv env { s with objects := objects } message' where
  nodup := hnodup
  represents := hrep
  held := fun a block hblock => (h.held a block hblock).congr (hcount a)
  returned := h.returned
  noMisuse := h.noMisuse

theorem Inv.storeText (hfree : s.Free this) (heven : isShared ptr = false) (htext : env.text ptr = some msg) :
    Inv env (storeText s this ptr) (update message this msg) := by
  apply h.rearrange
  · exact hfree.nodup h.nodup
  · intro a
    rw [count_emplace hfree.1, ne_mask_of_even heven]
    rfl
  · exact represents_emplace this (.of_text heven htext) h.represents

theorem Inv.constructHeader {this buffer : Address} {chars : List (Option Byte)} {msg : List Byte} {n : Nat}
    (hfree : s.Free this) (hfresh : s.Fresh env buffer) (hlen : n < chars.length)
    (hchars : chars.set n (some 0) = (msg ++ [0]).map some) :
    Inv env (constructHeader s this buffer chars n) (update message this msg) := by
  obtain ⟨hnone, heven, hapart⟩ := hfresh
  constructor
  · exact hfree.nodup h.nodup
  · apply represents_emplace
    · rw [Represents, isShared_mask, if_pos rfl, unmask_mask heven]
      exact ⟨_, update_self .., hchars⟩
    · intro other hother
      refine (h.represents other hother).mono fun block _ hblock => ⟨block, ?_, rfl⟩
      have hne : unmask (s.data other) ≠ buffer := fun he => by simp [he, hnone] at hblock
      exact (update_of_ne hne ..).trans hblock
  · intro a block hblock
    have hcount : (ExceptionMessage.constructHeader s this buffer chars n).referring a
        = s.referring a + (mask buffer == mask a).toNat := count_emplace hfree.1 ..
    by_cases he : a = buffer
    · subst he
      simp only [ExceptionMessage.constructHeader, update_self, some.injEq] at hblock
      subst hblock
      have hone : (ExceptionMessage.constructHeader s this a chars n).referring a = 1 := by
        rw [hcount, h.referring_zero heven hnone, beq_self_eq_true]
        rfl
      exact ⟨heven, hapart, rfl, hone.symm, by omega⟩
    · have hheld := h.held a block ((update_of_ne he ..).symm.trans hblock)
      have hne := beq_eq_false_iff_ne.mpr fun heq => he (mask_inj heven hheld.even heq).symm
      rw [hne] at hcount
      exact hheld.congr hcount
  · intro a
    have hbefore := h.returned a
    simp only [ExceptionMessage.constructHeader, count_cons]
    by_cases he : a = buffer
    · subst he
      simp [hnone] at hbefore ⊢
      omega
    · have hne := beq_eq_false_iff_ne.mpr (Ne.symm he)
      rw [update_of_ne he, hne]
      exact hbefore
  · simp [ExceptionMessage.constructHeader, h.noMisuse, hlen]

theorem Inv.makeSharedData {this buffer : Address} (msg : List Byte) (hfree : s.Free this)
    (hfresh : s.Fresh env buffer) :
    Inv env (makeSharedData s this buffer msg) (update message this msg) := by
  apply h.constructHeader hfree hfresh
  · simp
  · simp

end

theorem makeSharedDataWide_eq {msg : List (BitVec 16)} (hsmall : msg.length * 2 < 2 ^ 32)
    (hlen : (env.toMultiByte msg).length = msg.length * 2) (this buffer : Address) :
    makeSharedDataWide env s this buffer msg = makeSharedData s this buffer (env.toMultiByte msg) := by
  have hsrc : srcLengthInBytes msg = msg.length * 2 := Nat.mod_eq_of_lt hsmall
  have hall : msg.take (msg.length * 2 / 2) = msg := by
    rw [Nat.mul_div_cancel _ (by decide), take_length]
  have htake : (env.toMultiByte msg).take (msg.length * 2 % 2 ^ 32) = env.toMultiByte msg := by
    rw [Nat.mod_eq_of_lt hsmall, ← hlen, take_length]
  simp only [makeSharedDataWide, makeSharedData, hsrc, hall, hlen, htake]

theorem beq_mask_of_ne (heven : isShared a = false) (hne : a ≠ unmask data) : (data == mask a) = false := by
  rw [beq_eq_false_iff_ne]
  rintro rfl
  exact hne (unmask_mask heven).symm

section
variable (h : Inv env s message)
include h

theorem Inv.recount (hblock : s.blocks a = some block) (hnodup : (0 :: objects.ids).Nodup)
    (hcounted : refCounter.toNat = objects.count (· == mask a)) (hpos : 0 < refCounter.toNat)
    (hcount : ∀ b, isShared b = false → b ≠ a → objects.count (· == mask b) = s.referring b)
    (hrep : ∀ this ∈ objects.ids, Represents env s (objects.value this) (message' this)) :
    Inv env { s with
      objects := objects
      blocks := update s.blocks a (some { block with refCounter := refCounter }) }
      message' where
  nodup := hnodup
  represents := by
    intro this hthis
    refine (hrep this hthis).mono fun block' _ hblock' => ?_
    by_cases he : unmask (objects.value this) = a
    · rw [he] at hblock' ⊢
      obtain rfl := some.inj (hblock.symm.trans hblock')
      exact ⟨_, update_self .., rfl⟩
    · exact ⟨block', (update_of_ne he ..).trans hblock', rfl⟩
  held := by
    intro b block' hblock'
    by_cases he : b = a
    · subst he
      obtain ⟨heven, hapart, hdescription, -, -⟩ := h.held b block hblock
      simp only [update_self, some.injEq] at hblock'
      subst hblock'
      exact ⟨heven, hapart, hdescription, hcounted, hpos.trans_eq hcounted⟩
    · simp only [update_of_ne he] at hblock'
      have hheld := h.held b block' hblock'
      exact hheld.congr (hcount b hheld.even he)
  returned := by
    intro b
    by_cases he : b = a
    · subst he
      simpa only [update_self, hblock, isSome_some] using h.returned b
    · simpa only [update_of_ne he] using h.returned b
  noMisuse := h.noMisuse

theorem Inv.block_of_shared (hthis : this ∈ s.ids) (hshared : isShared (s.data this) = true) :
    ∃ block, s.blocks (unmask (s.data this)) = some block := by
  have hrep := h.represents this hthis
  rw [Represents, if_pos hshared] at hrep
  exact hrep.imp fun _ hblock => hblock.1

theorem Inv.text_of_even (hthis : this ∈ s.ids) (heven : isShared (s.data this) = false) :
    env.text (s.data this) = some (message this) := by
  have hrep := h.represents this hthis
  rwa [Represents, heven, if_neg Bool.false_ne_true] at hrep

theorem Inv.copyConstruct (hfree : s.Free this) (hother : other ∈ s.ids) :
    Inv env (copyConstruct s this other) (update message this (message other)) := by
  have hrep := represents_emplace this (h.represents other hother) h.represents
  cases hshared : isShared (s.data other) with
  | false =>
    have hsame : ExceptionMessage.copyConstruct s this other = ExceptionMessage.storeText s this (s.data other) := by
      simp [ExceptionMessage.copyConstruct, ExceptionMessage.storeText, addRef, hshared]
    rw [hsame]
    exact h.storeText hfree hshared (h.text_of_even hother hshared)
  | true =>
    obtain ⟨block, hblock⟩ := h.block_of_shared hother hshared
    have hheld := h.held _ _ hblock
    have hnodup := hfree.nodup h.nodup
    have hcount : (s.objects.emplace this (s.data other)).count (· == mask (unmask (s.data other)))
        = s.referring (unmask (s.data other)) + 1 := by
      rw [count_emplace hfree.1, mask_unmask hshared, beq_self_eq_true]
      simp [State.referring, mask_unmask hshared]
    have hlt := referring_lt (s := { s with objects := s.objects.emplace this (s.data other) }) hnodup
      (unmask (s.data other))
    have hnext : (block.refCounter + 1).toNat
        = (s.objects.emplace this (s.data other)).count (· == mask (unmask (s.data other))) := by
      have hbefore := hheld.counted
      simp only [State.referring] at hlt hbefore hcount
      rw [toNat_add, hcount, Nat.mod_eq_of_lt] <;> simp <;> omega
    have hstep : ExceptionMessage.copyConstruct s this other = { s with
        objects := s.objects.emplace this (s.data other)
        blocks := update s.blocks (unmask (s.data other))
          (some { block with refCounter := block.refCounter + 1 }) } := by
      simp [ExceptionMessage.copyConstruct, addRef, hshared, hblock]
    rw [hstep]
    refine h.recount hblock hnodup hnext (by omega) ?_ hrep
    intro b heven hne
    rw [count_emplace hfree.1, beq_mask_of_ne heven hne]
    rfl

theorem Inv.moveConstruct {this other : Address} (hfree : s.Free this) (hother : other ∈ s.ids)
    (heven : isShared env.empty = false) :
    Inv env (moveConstruct env s this other) (update (update message this (message other)) other []) := by
  have hne : other ≠ this := fun he => hfree.1 (he ▸ hother)
  have hnodup := hfree.nodup h.nodup
  have hrep := represents_emplace this (h.represents other hother) h.represents
  apply h.rearrange
  · exact hnodup
  · intro a
    have hfirst := count_emplace hfree.1 (s.data other) (· == mask a)
    have hsecond := count_assign (t := s.objects.emplace this (s.data other)) (nodup_cons.mp hnodup).2
      (mem_cons_of_mem this hother) env.empty (· == mask a)
    rw [value_emplace_of_ne hne, ne_mask_of_even heven a] at hsecond
    simp only [State.referring, State.data, Bool.toNat_false] at *
    omega
  · exact fun h' hmem => represents_update (.of_text heven env.text_empty) fun _ => hrep h' hmem

theorem Inv.swap {this other : Address} (hthis : this ∈ s.ids) (hother : other ∈ s.ids) : Inv env (swap s this other)
      (update (update message this (message other)) other (message this)) := by
  apply h.rearrange
  · exact h.nodup
  · exact fun a => count_swap (nodup_cons.mp h.nodup).2 hthis hother _
  · intro h' hmem
    refine represents_update (h.represents this hthis) fun _ => ?_
    exact represents_update (h.represents other hother) fun _ => h.represents h' hmem

theorem Inv.returnBlock (hthis : this ∈ s.ids) (hshared : isShared (s.data this) = true)
    (hlast : s.referring (unmask (s.data this)) = 1) (hblock : s.blocks (unmask (s.data this)) = some block) :
    Inv env { s with
      objects := s.objects.erase this
      blocks := update s.blocks (unmask (s.data this)) none
      returned := unmask (s.data this) :: s.returned } message := by
  have hcount : ∀ a, (s.objects.erase this).count (· == mask a) + (s.data this == mask a).toNat
      = s.referring a := fun a => count_erase hthis _
  have hgone : ∀ other ∈ s.ids.erase this, isShared (s.data other) → unmask (s.data other) ≠ unmask (s.data this) := by
    intro other hother hshared' heq
    have hsame : s.data other = s.data this := by
      rw [← mask_unmask hshared', heq, mask_unmask hshared]
    have hpos : 0 < (s.objects.erase this).count (· == mask (unmask (s.data this))) := by
      apply count_pos (h := other) hother
      rw [mask_unmask hshared]
      exact beq_iff_eq.mpr hsame
    have hbefore := hcount (unmask (s.data this))
    rw [hlast, mask_unmask hshared, beq_self_eq_true, Bool.toNat_true] at hbefore
    rw [mask_unmask hshared] at hpos
    omega
  constructor
  · exact h.nodup.sublist ((erase_sublist).cons_cons 0)
  · intro other hother
    have hmem := mem_of_mem_erase hother
    refine (h.represents other hmem).mono fun block' hshared' hblock' => ⟨block', ?_, rfl⟩
    exact (update_of_ne (hgone other hother hshared') ..).trans hblock'
  · intro a block' hblock'
    have hne : a ≠ unmask (s.data this) := by
      rintro rfl
      simp at hblock'
    simp only [update_of_ne hne] at hblock'
    have hheld := h.held a block' hblock'
    have hsame := hcount a
    rw [beq_mask_of_ne hheld.even hne] at hsame
    exact hheld.congr hsame
  · intro a
    have hbefore := h.returned a
    simp only [count_cons]
    by_cases he : a = unmask (s.data this)
    · subst he
      simpa [hblock] using hbefore
    · have hne := beq_eq_false_iff_ne.mpr (Ne.symm he)
      rw [update_of_ne he, hne]
      exact hbefore
  · exact h.noMisuse

theorem Inv.destroy (hthis : this ∈ s.ids) : Inv env (destroy s this) message := by
  have hnodup : (0 :: s.ids.erase this).Nodup := h.nodup.sublist ((erase_sublist).cons_cons 0)
  have hcount : ∀ a, (s.objects.erase this).count (· == mask a) + (s.data this == mask a).toNat
      = s.referring a := fun a => count_erase hthis _
  have hrep : ∀ other ∈ s.ids.erase this, Represents env s (s.data other) (message other) :=
    fun other hother => h.represents other (mem_of_mem_erase hother)
  cases hshared : isShared (s.data this) with
  | false =>
    have hstep : ExceptionMessage.destroy s this = { s with objects := s.objects.erase this } := by
      simp [ExceptionMessage.destroy, release, hshared]
    rw [hstep]
    refine h.rearrange hnodup (fun a => ?_) hrep
    rw [← hcount a, ne_mask_of_even hshared]
    rfl
  | true =>
    obtain ⟨block, hblock⟩ := h.block_of_shared hthis hshared
    have hcounted := (h.held _ _ hblock).counted
    by_cases hlast : block.refCounter - 1 = 0
    · have hstep : ExceptionMessage.destroy s this = { s with
          objects := s.objects.erase this
          blocks := update s.blocks (unmask (s.data this)) none
          returned := unmask (s.data this) :: s.returned } := by
        simp only [ExceptionMessage.destroy, release, hshared, hblock, hlast, ↓reduceIte]
      rw [hstep]
      have hone : block.refCounter = 1 := by simpa using BitVec.sub_eq_iff_eq_add.mp hlast
      refine h.returnBlock hthis hshared ?_ hblock
      rw [← hcounted, hone]
      rfl
    · have hstep : ExceptionMessage.destroy s this = { s with
          objects := s.objects.erase this
          blocks := update s.blocks (unmask (s.data this))
            (some { block with refCounter := block.refCounter - 1 }) } := by
        simp only [ExceptionMessage.destroy, release, hshared, hblock, hlast, ↓reduceIte]
      rw [hstep]
      have hself := hcount (unmask (s.data this))
      rw [mask_unmask hshared, beq_self_eq_true, Bool.toNat_true] at hself
      have hprev : (block.refCounter - 1).toNat = block.refCounter.toNat - 1 := by
        rw [toNat_sub_of_le]
        · rfl
        · rw [le_def]
          simp
          omega
      have hpos : (block.refCounter - 1).toNat ≠ 0 := fun hzero =>
        hlast (eq_of_toNat_eq hzero)
      refine h.recount hblock hnodup ?_ (by omega) (fun b heven hne => ?_) hrep
      · rw [mask_unmask hshared]
        omega
      · rw [← hcount b, beq_mask_of_ne heven hne]
        rfl

end

/-! ## Assignments -/

section
variable (h : Inv env s message)
include h

theorem Inv.swapInto {ids : List Address} (hids : s.ids = tmp :: ids) (hthis : this ∈ ids)
    (hmessage : ∀ i ∈ ids, i ≠ tmp → message' i = if i = this then message tmp else message i) :
    Inv env (ExceptionMessage.destroy (ExceptionMessage.swap s this tmp) tmp) message' := by
  have hnew : tmp ∉ ids := by
    have hnodup := h.nodup.of_cons
    rw [hids] at hnodup
    exact (nodup_cons.mp hnodup).1
  have hown : tmp ∈ s.ids := hids ▸ mem_cons_self
  have hin : this ∈ s.ids := hids ▸ mem_cons_of_mem tmp hthis
  refine ((h.swap hin hown).destroy hown).congr fun i hi => ?_
  replace hi : i ∈ s.ids.erase tmp := hi
  rw [hids, erase_cons_head] at hi
  have hne : i ≠ tmp := fun he => hnew (he ▸ hi)
  rw [update_of_ne hne, hmessage i hi hne, update_apply]

theorem Inv.copyAssign (hfree : s.Free tmp) (hthis : this ∈ s.ids)
    (hother : other ∈ s.ids) : Inv env (copyAssign s this other tmp) (update message this (message other)) := by
  unfold ExceptionMessage.copyAssign
  split_ifs with hsame
  · rwa [← hsame, update_eq_self]
  · refine (h.copyConstruct hfree hother).swapInto rfl hthis fun i _ hne => ?_
    rw [update_self, update_of_ne hne, update_apply]

theorem Inv.moveAssign (hfree : s.Free tmp) (hthis : this ∈ s.ids)
    (hother : other ∈ s.ids) (heven : isShared env.empty = false) :
    Inv env (moveAssign env s this other tmp) (if this = other then message
        else update (update message this (message other)) other []) := by
  unfold ExceptionMessage.moveAssign
  split_ifs with hdistinct
  · exact h
  · have htmp : tmp ≠ other := fun he => hfree.1 (he ▸ hother)
    refine (h.moveConstruct hfree hother heven).swapInto rfl hthis fun i _ hne => ?_
    by_cases ho : i = other
    · subst ho
      rw [update_self, update_self, if_neg (Ne.symm hdistinct)]
    · rw [update_of_ne ho, update_of_ne htmp, update_self, update_of_ne ho, update_of_ne hne, update_apply]

/-! ## Runs -/

/-- Every representable call keeps the invariant. -/
theorem Inv.step {s' : State} {a : Action} (hok : Representable env s a)
    (hstep : step env s a = some s') : Inv env s' (expect env message a) := by
  cases a with
  | constructDefault this =>
    obtain ⟨hfree, rfl⟩ := guarded hstep
    exact h.storeText hfree hok env.text_empty
  | constructText this ptr =>
    obtain ⟨⟨hfree, htext⟩, rfl⟩ := guarded hstep
    obtain ⟨msg, hmsg⟩ := isSome_iff_exists.mp htext
    simpa only [expect, hmsg, getD_some] using h.storeText hfree hok hmsg
  | constructShared this msg buffer =>
    obtain ⟨hfree, hmade⟩ := ite_none_right_eq_some.mp hstep
    cases buffer with
    | none =>
      obtain rfl := some.inj hmade
      exact h
    | some buffer =>
      obtain ⟨hfresh, rfl⟩ := guarded hmade
      exact h.makeSharedData msg hfree hfresh
  | constructWide this msg irql buffer =>
    obtain ⟨hfree, hmade⟩ := ite_none_right_eq_some.mp hstep
    by_cases hirql : dispatchLevel ≤ irql
    · simp only [hirql, ↓reduceIte, some.injEq, Representable, expect] at hmade hok ⊢
      rw [← hmade]
      exact h.storeText hfree hok env.text_conversionFailed
    · simp only [hirql, ↓reduceIte, Representable, expect] at hmade hok ⊢
      cases buffer with
      | none =>
        obtain rfl := some.inj hmade
        exact h
      | some buffer =>
        obtain ⟨hfresh, rfl⟩ := guarded hmade
        rw [makeSharedDataWide_eq hok.1 hok.2]
        exact h.makeSharedData _ hfree hfresh
  | copyConstruct this other =>
    obtain ⟨⟨hfree, hother⟩, rfl⟩ := guarded hstep
    exact h.copyConstruct hfree hother
  | moveConstruct this other =>
    obtain ⟨⟨hfree, hother⟩, rfl⟩ := guarded hstep
    exact h.moveConstruct hfree hother hok
  | copyAssign this other tmp =>
    obtain ⟨⟨hfree, hthis, hother⟩, rfl⟩ := guarded hstep
    exact h.copyAssign hfree hthis hother
  | moveAssign this other tmp =>
    obtain ⟨⟨hfree, hthis, hother⟩, rfl⟩ := guarded hstep
    exact h.moveAssign hfree hthis hother hok
  | destroy this =>
    obtain ⟨hthis, rfl⟩ := guarded hstep
    exact h.destroy hthis

end

/-- In every run whose stored pointers are even and whose wide messages become two bytes a
character, every exception shows its message and every block is counted and returned once. -/
theorem sound_of_representable (env : Environment) {actions : List Action} {s : State}
    (hrun : Run (step env) (Representable env) State.initial actions s) :
    Sound env s (actions.foldl (expect env) fun _ => []) := by
  have hinv : Inv env s (actions.foldl (expect env) fun _ => []) :=
    hrun.simulation (R := Inv env) (fun _ _ _ _ h hok hstep => h.step hok hstep) (initial_inv env _)
  exact hinv.sound

/-- Three literals, one at an odd address; each wide character becomes one byte. -/
def asciiProgram : Environment where
  text a := if a = 0x1000 then some [] else if a = 0x1002 then some unicodeConversionFailed
    else if a = 0x1041 then some [0x78] else none
  empty := 0x1000
  conversionFailed := 0x1002
  toMultiByte msg := msg.map (·.setWidth 8)
  text_empty := rfl
  text_conversionFailed := rfl

def copyAndMove : List Action :=
  [.constructShared 8 [0x61, 0x62] (some 0x2000), .copyConstruct 16 8, .moveConstruct 24 16,
    .copyAssign 16 24 32, .moveAssign 8 16 32, .destroy 24, .destroy 16]

theorem sound_of_copyAndMove : ∃ s, Run (step asciiProgram) (Representable asciiProgram) State.initial copyAndMove s
      ∧ (s.ids = [8] ∧ s.blocks 0x2000 = some ⟨0x2010, 1, [some 0x61, some 0x62, some 0]⟩)
      ∧ Sound asciiProgram s (copyAndMove.foldl (expect asciiProgram) fun _ => []) := by
  obtain ⟨s, hrun, hs⟩ : ∃ s, Run (step asciiProgram) (Representable asciiProgram) State.initial
      copyAndMove s ∧ (s.ids, s.blocks 0x2000) = ([8], some ⟨0x2010, 1, [some 0x61, some 0x62, some 0]⟩) :=
    run_of_exec_map (by decide +kernel)
  exact ⟨s, hrun, Prod.mk.inj hs, sound_of_representable asciiProgram hrun⟩

def oddLiteral : List Action := [.constructText 8 0x1041]

def wideCharacter : List Action := [.constructWide 8 [0x61] 0 (some 0x2000)]

/-- A literal at an odd address is taken for a block. A wide message of one
character becomes one byte, and its terminator is written behind the block. -/
theorem message_lost : (∃ s, Run (step asciiProgram) (fun _ _ => True) State.initial oddLiteral s
      ∧ getMessage s 8 = none
      ∧ ¬Sound asciiProgram s (oddLiteral.foldl (expect asciiProgram) fun _ => []))
    ∧ ∃ s, Run (step asciiProgram) (fun _ _ => True) State.initial wideCharacter s
      ∧ s.blocks 0x2000 = some ⟨0x2010, 1, [some 0x61, none]⟩
      ∧ ¬Sound asciiProgram s (wideCharacter.foldl (expect asciiProgram) fun _ => []) := by
  constructor
  · obtain ⟨s, hrun, hs⟩ : ∃ s, Run (step asciiProgram) (fun _ _ => True) State.initial oddLiteral s
        ∧ (s.ids, getMessage s 8) = ([8], none) := run_of_exec_map (by decide +kernel)
    obtain ⟨hids, hmessage⟩ := Prod.mk.inj hs
    refine ⟨s, hrun, hmessage, fun hsound => ?_⟩
    obtain ⟨ptr, hptr, -⟩ := hsound.shown 8 (by simp [hids])
    exact absurd (hmessage.symm.trans hptr) (by simp)
  · obtain ⟨s, hrun, hs⟩ : ∃ s, Run (step asciiProgram) (fun _ _ => True) State.initial wideCharacter s
        ∧ (s.blocks 0x2000, s.misuse) = (some ⟨0x2010, 1, [some 0x61, none]⟩, 1) :=
      run_of_exec_map (by decide +kernel)
    obtain ⟨hblock, hmisuse⟩ := Prod.mk.inj hs
    exact ⟨s, hrun, hblock, fun hsound => absurd (hmisuse.symm.trans hsound.noMisuse) (by decide)⟩

/-! ## One wide message -/

def Shows (env : Environment) (s : State) (h : Address) (msg : List Byte) : Prop :=
  ∃ ptr, getMessage s h = some ptr ∧ charsAt env s ptr = (msg ++ [0]).map some

theorem shows_constructHeader_iff {this buffer : Address}
    (hfresh : s.Fresh env buffer) (chars : List (Option Byte)) (msgLength : Nat) (msg : List Byte) :
    Shows env (constructHeader s this buffer chars msgLength) this msg
      ↔ chars.set msgLength (some 0) = (msg ++ [0]).map some := by
  obtain ⟨-, heven, hapart⟩ := hfresh
  have hdata : (constructHeader s this buffer chars msgLength).data this = mask buffer := by
    simp [constructHeader, State.data, HandleTable.emplace]
  have hback : buffer + sizeofSharedData - sizeofSharedData = buffer := BitVec.add_sub_cancel _ _
  have hmessage : getMessage (constructHeader s this buffer chars msgLength) this
      = some (buffer + sizeofSharedData) := by
    rw [getMessage, hdata, if_pos (isShared_mask buffer), unmask_mask heven]
    simp [constructHeader]
  have hchars : charsAt env (constructHeader s this buffer chars msgLength) (buffer + sizeofSharedData)
      = chars.set msgLength (some 0) := by
    simp [charsAt, hapart, hback, constructHeader]
  simp [Shows, hmessage, hchars]

theorem set_terminator_iff {chars msg : List Byte} {k : Nat} :
    (chars.map some ++ [none]).set k (some 0) = (msg ++ [0]).map some ↔ chars = msg ∧ k = msg.length := by
  constructor
  · intro h
    have hlen : chars.length = msg.length := by simpa using congrArg length h
    have hk : k = chars.length := by
      by_contra hne
      have hlast : ((chars.map some ++ [none]).set k (some 0))[chars.length]? = some none := by
        rw [getElem?_set_ne hne]
        simp
      rw [h] at hlast
      simp [hlen] at hlast
    subst hk
    have hset : (chars.map some ++ [none]).set chars.length (some 0) = chars.map some ++ [some 0] := by
      simp
    rw [hset, map_append] at h
    have hsame := append_inj_left h (by simp [hlen])
    exact ⟨map_injective_iff.mpr (some_injective _) hsame, hlen⟩
  · rintro ⟨rfl, rfl⟩
    simp

/-- A message of `n` wide characters that becomes `m` bytes, `m` between `n` and `2 * n`: below
`DISPATCH_LEVEL` everything is written inside the block and `what` shows the bytes exactly when `m`
is `2 * n`. -/
theorem wideMessage_shown_iff {this buffer : Address} {msg : List (BitVec 16)} {irql : Nat} {s' : State}
    (hstep : step env s (.constructWide this msg irql (some buffer)) = some s')
    (hirql : irql < dispatchLevel) (hsize : (env.toMultiByte msg).length < 2 ^ 32)
    (hlow : msg.length ≤ (env.toMultiByte msg).length) (hhigh : (env.toMultiByte msg).length ≤ 2 * msg.length) :
    (s'.misuse = s.misuse ∧ Shows env s' this (env.toMultiByte msg))
      ↔ (env.toMultiByte msg).length = 2 * msg.length := by
  simp only [step, hirql.not_ge, if_false, ite_none_right_eq_some, some.injEq] at hstep
  obtain ⟨-, hfresh, rfl⟩ := hstep
  constructor
  · rintro ⟨-, hshows⟩
    rw [makeSharedDataWide, shows_constructHeader_iff hfresh, set_terminator_iff] at hshows
    have hsrc := hshows.2
    unfold srcLengthInBytes at hsrc
    omega
  · intro hlen
    rw [makeSharedDataWide_eq (by omega) (by omega), makeSharedData]
    constructor
    · simp [constructHeader]
    · rw [shows_constructHeader_iff hfresh, set_terminator_iff]
      exact ⟨rfl, rfl⟩

def doubleByteProgram : Environment :=
  { asciiProgram with toMultiByte := fun msg => msg.flatMap fun c => [c.extractLsb' 8 8, c.setWidth 8] }

theorem wideMessage_shown_two :
    ∃ s', step doubleByteProgram State.initial (.constructWide 8 [0x82a0, 0x82a2] 0 (some 0x2000)) = some s' ∧
      (s'.misuse = State.initial.misuse ∧ Shows doubleByteProgram s' 8 [0x82, 0xa0, 0x82, 0xa2]) := by
  obtain ⟨s', hstep⟩ : ∃ s', step doubleByteProgram State.initial
      (.constructWide 8 [0x82a0, 0x82a2] 0 (some 0x2000)) = some s' :=
    isSome_iff_exists.mp (by decide +kernel)
  exact ⟨s', hstep, (wideMessage_shown_iff hstep (by decide) (by decide) (by decide) (by decide)).mpr (by decide)⟩

/-- One character that becomes one byte: the terminator is written behind the block. -/
theorem wide_terminator_outside :
    ∃ s', step asciiProgram State.initial (.constructWide 8 [0x61] 0 (some 0x2000)) = some s' ∧
      s'.misuse = 1 ∧ s'.blocks 0x2000 = some ⟨0x2010, 1, [some 0x61, none]⟩ ∧
      ¬Shows asciiProgram s' 8 [0x61] := by
  refine ⟨makeSharedDataWide asciiProgram State.initial 8 0x2000 [0x61], rfl, by decide +kernel, by decide +kernel, ?_⟩
  rw [makeSharedDataWide, shows_constructHeader_iff (by decide +kernel)]
  decide +kernel

end Ktl.ExceptionMessage
