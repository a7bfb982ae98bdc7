import Ktl.StringBuffers

/-!
How `append`, `push_back`, `+=` and `assign` deal with results that are longer than a string
may be. The length that is checked is a sum of 16 bits; and `assign` clears the string before
the check.
-/
namespace Ktl.StringLengths

open TextMemory WinntString StringOwnership StringBuffers Outcome

variable {α : Type}

inductive Argument (α : Type) where
  | outside (vs : List α)
  | own (offset count : Nat)

namespace Argument

def source (s : State α) : Argument α → Source α
  | .outside vs => .external vs
  | .own offset _ => .pointer s.str.buffer offset

def length : Argument α → Nat
  | .outside vs => vs.length
  | .own _ count => count

def chars (s : State α) : Argument α → List (Option α)
  | .outside vs => vs.map some
  | .own offset count => s.memory.load s.str.buffer offset count

end Argument

inductive Request (α : Type) where
  /-- `append` and `+=` of characters, with a count or up to a null character -/
  | append (a : Argument α)
  /-- `append(count, ch)` -/
  | appendFill (count : Nat) (ch : α)
  /-- `push_back` and `+=` of a character -/
  | pushBack (ch : α)
  /-- `assign(count, ch)` -/
  | assignFill (count : Nat) (ch : α)
  /-- `assign` of a native string, a string or a view -/
  | assignNative (a : Argument α)
  /-- `assign(str, count)` and `assign` up to a null character -/
  | assignChars (a : Argument α)
  /-- `assign` of a range of pointers -/
  | assignRange (a : Argument α)
  /-- `assign` of a range of other iterators -/
  | assignEach (vs : List α)
  /-- `assign` of the string number `j`, which is moved from -/
  | assignString (j : Nat) (other : Native)
  /-- `assign(other, pos, count)` of another string -/
  | assignPart (other : Native) (pos count : Nat)
  /-- `assign(*this, pos, count)` -/
  | assignOwnPart (pos count : Nat)

namespace Request

variable (f : Format) (s : State α)

def call : Request α → Result α
  | .append a => s.append f (a.source s) a.length
  | .appendFill count ch => s.appendFill f count ch
  | .pushBack ch => s.pushBack f ch
  | .assignFill count ch => s.assignFill f count ch
  | .assignNative a => s.assignNative f (a.source s) a.length
  | .assignChars a => s.assignChars f (a.source s) a.length
  | .assignRange a => s.assignRange f (a.source s) a.length
  | .assignEach vs => s.assignEach f vs
  | .assignString j other => .returned (s.moveAssign f j other).1
  | .assignPart other pos count => s.assignPart f other pos count
  -- the string has been cleared when its size is asked for
  | .assignOwnPart pos count => s.assignPart f (s.clear f).str pos count

def result : Request α → List (Option α)
  | .append a => s.content f ++ a.chars s
  | .appendFill count ch => s.content f ++ List.replicate count (some ch)
  | .pushBack ch => s.content f ++ [some ch]
  | .assignFill count ch => List.replicate count (some ch)
  | .assignNative a | .assignChars a | .assignRange a => a.chars s
  | .assignEach vs => vs.map some
  | .assignString _ other => s.memory.load other.buffer 0 (other.size f)
  | .assignPart other pos count => s.memory.load other.buffer pos (min (other.size f - pos) count)
  | .assignOwnPart pos count => s.memory.load s.str.buffer pos (min (s.size f - pos) count)

/-- Counts are of 16 bits, own characters are characters of the string, a string that is moved from
is another one, and a part starts within its string. -/
def Proper : Request α → Prop
  | .append a | .assignNative a | .assignChars a | .assignRange a =>
    match a with
    | .outside _ => True
    | .own offset count => offset + count ≤ s.size f
  | .appendFill count _ | .assignFill count _ => count < 2 ^ 16
  | .pushBack _ | .assignEach _ => True
  | .assignString j other =>
    j ≠ s.home ∧ Owns f s.memory j other ∧ ∀ q, held other = some q → held s.str ≠ some q
  | .assignPart other pos _ =>
    Foreign s other.buffer ∧ other.size f ≤ s.memory.room other.buffer ∧ other.size f < 2 ^ 16 ∧ pos ≤ other.size f
  | .assignOwnPart pos _ => pos ≤ s.size f

end Request

/-- The call throws exactly if the result is too long, and then the string is as it was; otherwise
it has the expected characters. -/
def Right (f : Format) (s : State α) (expected : List (Option α)) : Result α → Prop
  | .returned t =>
    expected.length ≤ f.maxSize ∧ t.content f = expected ∧ t.memory.misuse = s.memory.misuse
  | .threw .lengthError t =>
    f.maxSize < expected.length ∧ t.content f = s.content f ∧ t.capacity f = s.capacity f ∧
      t.memory.misuse = s.memory.misuse
  | .threw _ _ => False

section

variable (f : Format) (s : State α)

/-- The length passes, or it is too long and still seen to be after wrapping. -/
def Seen (capacity n : Nat) : Prop :=
  n ≤ f.maxSize ∨ capacity < n % 2 ^ 16 ∧ f.maxSize < n % 2 ^ 16

def Argument.Survives (n : Nat) : Argument α → Prop
  | .outside _ => True
  | .own _ _ => n ≤ f.maxSize → n ≤ s.capacity f ∨ s.capacity f ≤ f.sso

def Argument.Apart : Argument α → Prop
  | .outside _ => True
  | .own offset count => offset = 0 ∨ count ≤ offset

/-- After one more character the buffer is larger, or the check sees that it
cannot be. -/
def PushGrows (capacity : Nat) : Prop :=
  capacity = f.maxSize ∨ 0 < capacity ∧ capacity < 2 ^ 15 ∨ capacity = 0 ∧ 0 < f.sso

def PushesGrow (size capacity : Nat) : Nat → Prop
  | 0 => True
  | n + 1 =>
    if size = capacity then
      (0 < capacity ∧ capacity < 2 ^ 15) ∧ PushesGrow (size + 1) (calcGrowth f capacity) n
    else PushesGrow (size + 1) capacity n

def Request.Serves : Request α → Prop
  | .append a => Seen f (s.capacity f) (s.size f + a.length) ∧ a.Survives f s (s.size f + a.length)
  | .appendFill count _ => Seen f (s.capacity f) (s.size f + count)
  | .pushBack _ =>
    if s.capacity f = s.size f then PushGrows f (s.capacity f) else s.size f < f.maxSize
  | .assignFill count _ => count ≤ f.maxSize ∨ s.size f = 0 ∧ Seen f (s.capacity f) count
  | .assignNative a | .assignRange a =>
    a.length ≤ f.maxSize ∧ a.Apart ∨ s.size f = 0 ∧ Seen f (s.capacity f) a.length
  | .assignChars a => a.length ≤ f.maxSize ∨ s.size f = 0 ∧ Seen f (s.capacity f) a.length
  | .assignEach vs =>
    if vs.length ≤ f.maxSize then
      s.capacity f = 0 ∧ 0 < f.sso ∨ PushesGrow f 0 (s.capacity f) vs.length
    -- the exception leaves the first characters of the range, which may be the old ones
    else s.capacity f = f.maxSize ∧ s.content f = (vs.take f.maxSize).map some
  | .assignString _ other => other.size f ≤ f.maxSize
  | .assignPart other pos count =>
    min (other.size f - pos) count ≤ f.maxSize ∨
      s.size f = 0 ∧ Seen f (s.capacity f) (min (other.size f - pos) count)
  | .assignOwnPart pos count => pos = 0 ∧ (s.size f = 0 ∨ count = 0)

end

structure Usable (f : Format) (s : State α) : Prop where
  owns : Owns f s.memory s.home s.str
  fresh : Fresh s.memory
  served : ∀ q, s.memory.fails q = false

variable {f : Format} {s : State α}

theorem Usable.size_le (h : Usable f s) : s.size f ≤ s.capacity f := h.owns.size_le

theorem Usable.becomes (h : Usable f s) (hb : Becomes f s xs t) : Usable f t := by
  constructor
  · exact hb.owns
  · exact hb.evolves.fresh
  · rw [hb.evolves.fails]
    exact h.served

theorem Usable.not_refused (h : Usable f s) : ¬ Refused s r := by
  rintro ⟨hfail, _⟩
  rw [h.served] at hfail
  cases hfail

theorem right_of_becomes (hb : Becomes f s expected t) (hmax : expected.length ≤ f.maxSize) :
    Right f s expected (.returned t) :=
  ⟨hmax, hb.content, hb.evolves.misuse⟩

theorem not_right_of_returned (hlong : f.maxSize < expected.length) :
    ¬ Right f s expected (.returned t) := fun h => hlong.not_ge h.1

theorem not_right_of_misuse (hmisuse : s.memory.misuse < r.state.memory.misuse) : ¬ Right f s expected r := by
  intro h
  cases r with
  | returned t => exact hmisuse.ne' h.2.2
  | threw err t =>
    cases err with
    | lengthError => exact hmisuse.ne' h.2.2.2
    | outOfRange => exact h
    | badAlloc => exact h

section

variable {reallocator : State α → Nat → Result α}

theorem growUnchecked_returns (hserved : ∀ q, s.memory.fails q = false) :
    ∃ t, s.growUnchecked f newCapacity transfer = .returned t := by
  by_cases hsmall : newCapacity ≤ f.sso
  · exact ⟨_, growUnchecked_of_small hsmall⟩
  · exact ⟨_, growUnchecked_of_heap (not_le.mp hsmall) (hserved _) rfl⟩

structure Reallocates (f : Format) (s : State α) (reallocator : State α → Nat → Result α) : Prop where
  threw : ∀ n, s.capacity f < n → f.maxSize < n → reallocator s n = .threw .lengthError s
  returns : ∀ n, ¬ (s.capacity f < n ∧ f.maxSize < n) → ∃ t, reallocator s n = .returned t

theorem reallocates_optimal (h : ∀ q, s.memory.fails q = false) :
    Reallocates f s fun s required => s.growOptimally f required := by
  constructor
  · intro n hless hmax
    have hlarge : ¬ calcOptimalGrowth f (s.capacity f) n ≤ f.maxSize :=
      (hmax.trans_le (Nat.le_max_right _ _)).not_ge
    simp [State.growOptimally, if_pos hless, State.grow, if_neg hlarge]
  · intro n hnot
    by_cases hless : s.capacity f < n
    · have hle := calcOptimalGrowth_le hless (not_lt.mp fun hmax => hnot ⟨hless, hmax⟩)
      simp only [State.growOptimally, if_pos hless, State.grow, if_pos hle]
      exact growUnchecked_returns h
    · simp only [State.growOptimally, if_neg hless]
      exact ⟨s, rfl⟩

theorem reallocates_ifNeeded (transfer : Transfer α) (h : ∀ q, s.memory.fails q = false) :
    Reallocates f s fun s required => s.growIfNeeded f required transfer := by
  constructor
  · intro n hless hmax
    simp [State.growIfNeeded, if_pos hless, State.grow, if_neg hmax.not_ge]
  · intro n hnot
    by_cases hless : s.capacity f < n
    · have hle : n ≤ f.maxSize := not_lt.mp fun hmax => hnot ⟨hless, hmax⟩
      simp only [State.growIfNeeded, if_pos hless, State.grow, if_pos hle]
      exact growUnchecked_returns h
    · simp only [State.growIfNeeded, if_neg hless]
      exact ⟨s, rfl⟩

theorem long_cases (hr : Reallocates f s reallocator) (hlong : f.maxSize < n) (g : State α → State α) :
    (Seen f (s.capacity f) n ∧ (reallocator s (n % 2 ^ 16)).map g = .threw .lengthError s) ∨
    (¬ Seen f (s.capacity f) n ∧ ∃ t, (reallocator s (n % 2 ^ 16)).map g = .returned t) := by
  by_cases hseen : s.capacity f < n % 2 ^ 16 ∧ f.maxSize < n % 2 ^ 16
  · left
    rw [hr.threw _ hseen.1 hseen.2]
    exact ⟨.inr hseen, rfl⟩
  · right
    obtain ⟨t, ht⟩ := hr.returns _ hseen
    rw [ht]
    constructor
    · rintro (hle | hseen')
      · omega
      · exact hseen hseen'
    · exact ⟨_, rfl⟩

theorem concatImpl_long (hr : Reallocates f s reallocator) (hmod : (s.size f + count) % 2 ^ 16 = n % 2 ^ 16)
    (hlong : f.maxSize < n) :
    (Seen f (s.capacity f) n ∧ s.concatImpl f reallocator handler count = .threw .lengthError s) ∨
    (¬ Seen f (s.capacity f) n ∧ ∃ t, s.concatImpl f reallocator handler count = .returned t) := by
  simp only [State.concatImpl, hmod]
  exact long_cases hr hlong _

end

section

variable {a : Argument α}

theorem length_chars : (a.chars s).length = a.length := by
  cases a with
  | outside vs | own offset count => simp [Argument.chars, Argument.length]

theorem right_long_iff (hlong : f.maxSize < expected.length)
    (hr : (P ∧ r = .threw .lengthError s) ∨ (¬ P ∧ ∃ t, r = .returned t)) : Right f s expected r ↔ P := by
  rcases hr with ⟨hP, rfl⟩ | ⟨hP, t, rfl⟩
  · exact iff_of_true ⟨hlong, rfl, rfl, rfl⟩ hP
  · exact iff_of_false (not_right_of_returned hlong) hP

section

variable (h : Usable f s)

include h

theorem own_kept (ht : Prepared f s required (s.content f) t)
    (hstay : required ≤ s.capacity f ∨ s.capacity f ≤ f.sso) (hown : offset + count ≤ s.size f) :
    t.memory.load s.str.buffer offset count = s.memory.load s.str.buffer offset count ∧
      offset + count ≤ t.memory.room s.str.buffer := by
  rcases ht.same with rfl | ⟨hless, _⟩
  · exact ⟨rfl, hown.trans (h.owns.size_le.trans h.owns.capacity_le_room)⟩
  · have hsmall := hstay.resolve_left hless.not_ge
    have hbuf := placed_small h.owns.placed hsmall
    have hroom : offset + count ≤ t.memory.room s.str.buffer := by
      have hsize := h.owns.size_le
      rw [hbuf]
      change offset + count ≤ t.memory.small
      rw [ht.becomes.evolves.small, h.owns.small]
      exact hown.trans (hsize.trans hsmall)
    refine ⟨?_, hroom⟩
    by_cases hsame : t.str.buffer = s.str.buffer
    · have hcontent := ht.becomes.content
      rw [State.content, ht.becomes.size, length_content, hsame] at hcontent
      exact load_part hcontent hown
    · apply load_congr
      intro k _ _
      rw [ht.kept s.str.buffer (Ne.symm hsame) fun q hq => by rw [hbuf]; simp]

theorem append_outside (vs : List α) (hmax : s.size f + vs.length ≤ f.maxSize) :
    ∃ t, s.append f (.external vs) vs.length = .returned t ∧ Becomes f s (s.content f ++ vs.map some) t := by
  have hcount := mod_of_le (Nat.le_of_add_left_le hmax)
  obtain ⟨t, ht, _, rfl, hb⟩ := (concatImpl_ends (fun s n => s.growOptimally f n) (copyHelper (.external vs))
    (optimal_prepared h.owns h.fresh (Nat.le_add_right _ _) hmax) hmax length_content
    fun t ht => ⟨_, rfl, puts_external_all (ht.room_le le_rfl)⟩).resolve_right h.not_refused
  rw [State.append, hcount]
  exact ⟨t, ht, hb⟩

theorem append_own (hown : offset + count ≤ s.size f) (hmax : s.size f + count ≤ f.maxSize)
    (hstay : s.size f + count ≤ s.capacity f ∨ s.capacity f ≤ f.sso) :
    ∃ t, s.append f (.pointer s.str.buffer offset) count = .returned t ∧
      Becomes f s (s.content f ++ s.memory.load s.str.buffer offset count) t := by
  have hcount := mod_of_le (Nat.le_of_add_left_le hmax)
  obtain ⟨t, ht, _, rfl, hb⟩ := (concatImpl_ends (fun s n => s.growOptimally f n)
    (copyHelper (.pointer s.str.buffer offset)) (optimal_prepared h.owns h.fresh (Nat.le_add_right _ _) hmax)
    hmax length_content (by
      intro t ht
      obtain ⟨hload, hroom⟩ := own_kept h ht hstay hown
      have hover : ¬ Memory.Overlap t.str.buffer (s.size f) s.str.buffer offset count := by
        rintro ⟨_, _, hless, _⟩
        omega
      have hputs := puts_pointer (t := t) (i := s.size f) (ht.room_le le_rfl) hroom hover
      rw [hload] at hputs
      exact ⟨_, rfl, hputs⟩)).resolve_right h.not_refused
  rw [State.append, hcount]
  exact ⟨t, ht, hb⟩

theorem append_own_misuse (hmax : s.size f + count ≤ f.maxSize) (hless : s.capacity f < s.size f + count)
    (hlarge : f.sso < s.capacity f) :
    s.memory.misuse < (s.append f (.pointer s.str.buffer offset) count).state.memory.misuse := by
  have hsize := h.size_le
  have hcount := mod_of_le (Nat.le_of_add_left_le hmax)
  have hmod := mod_of_le hmax
  obtain ⟨q, hq, _⟩ := placed_heap h.owns.placed hlarge
  obtain ⟨t, ht, hprep⟩ :=
    (optimal_prepared h.owns h.fresh (Nat.le_add_right _ _) hmax).resolve_right h.not_refused
  have hmoved : held t.str ≠ some q := by
    rcases hprep.same with rfl | ⟨_, hmoved⟩
    · exact absurd hprep.room hless.not_ge
    · exact hmoved q (held_heap hq)
  have hgone := hprep.becomes.evolves.released q (held_heap hq) hmoved
  have hroom : t.memory.room s.str.buffer < offset + count := by
    rw [hq]
    simp only [Memory.room, hgone, Option.map_none, Option.getD_none]
    omega
  simp only [State.append, hcount, State.concatWithOptimalGrowth, State.concatImpl, hmod, ht,
    map_returned, state_returned]
  have hmisuse := copy_misuse t.str.buffer (s.size f) (n := count) (by omega) hroom
  rw [← hprep.becomes.evolves.misuse]
  exact hmisuse

theorem right_append_iff (hproper : (Request.append a).Proper f s) :
    Right f s (s.content f ++ a.chars s) (s.append f (a.source s) a.length) ↔
      Seen f (s.capacity f) (s.size f + a.length) ∧ a.Survives f s (s.size f + a.length) := by
  have hlen : (s.content f ++ a.chars s).length = s.size f + a.length := by
    rw [List.length_append, length_content, length_chars]
  by_cases hmax : s.size f + a.length ≤ f.maxSize
  · have hseen : Seen f (s.capacity f) (s.size f + a.length) := .inl hmax
    rw [← hlen] at hmax
    cases a with
    | outside vs =>
      obtain ⟨t, ht, hb⟩ := append_outside h vs (by rwa [hlen] at hmax)
      simp only [Argument.source, Argument.length, ht]
      exact iff_of_true (right_of_becomes hb hmax) ⟨hseen, trivial⟩
    | own offset count =>
      rw [hlen] at hmax
      by_cases hstay : s.size f + count ≤ s.capacity f ∨ s.capacity f ≤ f.sso
      · obtain ⟨t, ht, hb⟩ := append_own h hproper hmax hstay
        simp only [Argument.source, Argument.length, ht]
        exact iff_of_true (right_of_becomes hb (by rwa [hlen])) ⟨hseen, fun _ => hstay⟩
      · obtain ⟨hless, hlarge⟩ := not_or.mp hstay
        apply iff_of_false
        · exact not_right_of_misuse (append_own_misuse h hmax (not_le.mp hless) (not_le.mp hlarge))
        · rintro ⟨_, hsurvives⟩
          exact hstay (hsurvives hmax)
  · have hlong := not_le.mp hmax
    have hsurvives : a.Survives f s (s.size f + a.length) := by
      cases a with
      | outside vs => trivial
      | own offset count => exact fun hle => absurd hle hmax
    rw [and_iff_left hsurvives]
    apply right_long_iff (by rwa [hlen])
    exact concatImpl_long (reallocates_optimal h.served) (Nat.add_mod_mod _ _ _) hlong

end

end

theorem resize_becomes (ch : α) (h : Usable f s) (hsize : s.size f ≤ n) (hmax : n ≤ f.maxSize) :
    ∃ t, s.resize f n ch = .returned t ∧ Becomes f s (s.content f ++ List.replicate (n - s.size f) (some ch)) t :=
  (resize_cases h.owns h.fresh ch hsize hmax).resolve_right h.not_refused

theorem right_appendFill_iff (h : Usable f s) :
    Right f s (s.content f ++ List.replicate count (some ch)) (s.appendFill f count ch) ↔
      Seen f (s.capacity f) (s.size f + count) := by
  have hlen : (s.content f ++ List.replicate count (some ch)).length = s.size f + count := by
    rw [List.length_append, length_content, List.length_replicate]
  by_cases hmax : s.size f + count ≤ f.maxSize
  · obtain ⟨t, ht, hb⟩ := resize_becomes ch h (Nat.le_add_right _ count) hmax
    rw [Nat.add_sub_cancel_left] at hb
    rw [State.appendFill, mod_of_le hmax, ht]
    exact iff_of_true (right_of_becomes hb (by rwa [hlen])) (.inl hmax)
  · apply right_long_iff (by rw [hlen]; exact not_le.mp hmax)
    exact long_cases (reallocates_ifNeeded _ h.served) (not_le.mp hmax) _

section

variable {a : Argument α} {reallocator : State α → Nat → Result α}

theorem Usable.clear (h : Usable f s) : Usable f (s.clear f) := h.becomes (clear_becomes h.owns h.fresh)

theorem right_cleared_long_iff (hlong : f.maxSize < expected.length)
    (hr : (P ∧ r = .threw .lengthError (s.clear f)) ∨ (¬ P ∧ ∃ t, r = .returned t)) :
    Right f s expected r ↔ s.size f = 0 ∧ P := by
  have hnil : (s.clear f).content f = [] := content_eq_nil.mpr size_clear
  rcases hr with ⟨hP, rfl⟩ | ⟨hP, t, rfl⟩
  · rw [and_iff_left hP, ← content_eq_nil]
    constructor
    · rintro ⟨_, hcontent, _⟩
      rw [← hcontent, hnil]
    · intro hempty
      exact ⟨hlong, hnil.trans hempty.symm, rfl, rfl⟩
  · exact iff_of_false (not_right_of_returned hlong) fun h => hP h.2

theorem right_assignFill_iff (h : Usable f s) (hcount : count < 2 ^ 16) :
    Right f s (List.replicate count (some ch)) (s.assignFill f count ch) ↔
      count ≤ f.maxSize ∨ s.size f = 0 ∧ Seen f (s.capacity f) count := by
  have hlen : (List.replicate count (some ch)).length = count := List.length_replicate
  by_cases hmax : count ≤ f.maxSize
  · obtain ⟨t, ht, hb⟩ := resize_becomes ch h.clear (by rw [size_clear]; omega) hmax
    rw [content_eq_nil.mpr size_clear, size_clear, List.nil_append, Nat.sub_zero] at hb
    rw [State.assignFill, ht]
    exact iff_of_true (right_of_becomes ((clear_becomes h.owns h.fresh).trans hb) (by rwa [hlen])) (.inl hmax)
  · have hlong := not_le.mp hmax
    rw [or_iff_right hmax]
    apply right_cleared_long_iff (by rwa [hlen])
    have hcases := long_cases (reallocates_ifNeeded transferWithoutShift
      (s := s.clear f) h.clear.served) hlong fun t => (t.withMemory
        (if t.size f < count then fillHelper ch t.memory t.str.buffer (t.size f) (count - t.size f)
          else t.memory)).withStr (t.str.setSize f count)
    rw [Nat.mod_eq_of_lt hcount] at hcases
    exact hcases

theorem right_assign_iff (handler : Handler α) (h : Usable f s) (good : Prop) (hlen : xs.length = n)
    (hr : Reallocates f (s.clear f) reallocator) (hre : Clears f s reallocator)
    (hgood : good → ∀ t, Prepared f (s.clear f) n [] t → Puts handler t 0 n xs)
    (hbad : ¬ good → s.size f ≠ 0 ∧ ∀ t, Prepared f (s.clear f) n [] t →
      t.memory.misuse < (handler t.memory t.str.buffer 0 n).misuse) :
    Right f s xs ((s.clear f).concatImpl f reallocator handler (n % 2 ^ 16)) ↔
      n ≤ f.maxSize ∧ good ∨ s.size f = 0 ∧ Seen f (s.capacity f) n := by
  by_cases hmax : n ≤ f.maxSize
  · have hzero : (s.clear f).size f + n = n := by rw [size_clear, Nat.zero_add]
    have hre' := hre _ hmax
    by_cases hg : good
    · obtain ⟨t, ht, _, rfl, hb⟩ := (concatImpl_ends (s := s.clear f) reallocator handler
        (by rwa [hzero]) (by rwa [hzero]) (show [].length = (s.clear f).size f from size_clear.symm)
        (by rw [hzero, size_clear]; exact fun t ht => ⟨xs, rfl, hgood hg t ht⟩)).resolve_right h.clear.not_refused
      rw [List.nil_append] at hb
      rw [mod_of_le hmax, ht]
      exact iff_of_true (right_of_becomes ((clear_becomes h.owns h.fresh).trans hb) (by rwa [hlen]))
        (.inl ⟨hmax, hg⟩)
    · obtain ⟨hsize, hmisuse⟩ := hbad hg
      obtain ⟨t, ht, hprep⟩ := hre'.resolve_right h.clear.not_refused
      apply iff_of_false
      · apply not_right_of_misuse
        simp only [State.concatImpl, mod_of_le hmax, size_clear, Nat.zero_add, ht,
          map_returned, state_returned]
        have hsame : t.memory.misuse = s.memory.misuse := hprep.becomes.evolves.misuse
        rw [← hsame]
        exact hmisuse t hprep
      · rintro (⟨_, hg'⟩ | ⟨hsize', _⟩)
        · exact hg hg'
        · exact hsize hsize'
  · have hlong : f.maxSize < n := not_le.mp hmax
    rw [or_iff_right fun hand => hmax hand.1]
    apply right_cleared_long_iff (by rwa [hlen])
    exact concatImpl_long hr (by rw [size_clear, Nat.zero_add, Nat.mod_mod]) hlong

theorem own_fits (h : Usable f s) (hown : offset + count ≤ s.size f) : count ≤ s.capacity f :=
  ((Nat.le_add_left _ _).trans hown).trans h.size_le

section
variable (h : Usable f s) (hproper : (Request.assignNative a).Proper f s)
include h hproper

theorem right_assign_copy_iff (hr : Reallocates f (s.clear f) reallocator) (hre : Clears f s reallocator) :
    Right f s (a.chars s) ((s.clear f).concatImpl f reallocator (copyHelper (a.source s)) (a.length % 2 ^ 16)) ↔
      a.length ≤ f.maxSize ∧ a.Apart ∨ s.size f = 0 ∧ Seen f (s.capacity f) a.length := by
  apply right_assign_iff _ h a.Apart length_chars hr hre
  · intro hapart t ht
    cases a with
    | outside vs => exact puts_external_all (by rw [Nat.zero_add]; exact ht.room_le le_rfl)
    | own offset count =>
      have hroom := ht.room_le le_rfl
      obtain rfl := prepared_own (own_fits h hproper) ht
      apply puts_pointer (by rwa [Nat.zero_add])
      · exact hproper.trans (h.owns.size_le.trans h.owns.capacity_le_room)
      · rintro ⟨_, hne, _, hless⟩
        change offset < 0 + count at hless
        rcases hapart with hzero | hle <;> omega
  · intro hapart
    cases a with
    | outside vs => exact absurd trivial hapart
    | own offset count =>
      simp only [Argument.Apart, not_or] at hapart
      simp only [Request.Proper] at hproper
      constructor
      · omega
      · intro t ht
        obtain rfl := prepared_own (own_fits h hproper) ht
        have hover : Memory.Overlap s.str.buffer 0 s.str.buffer offset count :=
          ⟨rfl, by omega, by omega, by omega⟩
        change s.memory.misuse < (s.memory.copy s.str.buffer 0 s.str.buffer offset count).misuse
        rw [Memory.copy, if_pos hover]
        exact Nat.lt_succ_self _

theorem right_assignNative_iff : Right f s (a.chars s) (s.assignNative f (a.source s) a.length) ↔
      a.length ≤ f.maxSize ∧ a.Apart ∨ s.size f = 0 ∧ Seen f (s.capacity f) a.length :=
  right_assign_copy_iff h hproper (reallocates_ifNeeded _ h.clear.served) (clears_dummy h.owns h.fresh)

theorem right_assignRange_iff : Right f s (a.chars s) (s.assignRange f (a.source s) a.length) ↔
      a.length ≤ f.maxSize ∧ a.Apart ∨ s.size f = 0 ∧ Seen f (s.capacity f) a.length :=
  right_assign_copy_iff h hproper (reallocates_ifNeeded _ h.clear.served) (clears_reserve h.owns h.fresh)

theorem right_assignChars_iff : Right f s (a.chars s) (s.assignChars f (a.source s) a.length) ↔
      a.length ≤ f.maxSize ∨ s.size f = 0 ∧ Seen f (s.capacity f) a.length := by
  have hiff := right_assign_iff (moveHelper (a.source s)) h True (length_chars (a := a) (s := s))
    (reallocates_ifNeeded _ h.clear.served) (clears_dummy h.owns h.fresh)
    (by
      intro _ t ht
      cases a with
      | outside vs => exact puts_external_all (by rw [Nat.zero_add]; exact ht.room_le le_rfl)
      | own offset count =>
        have hroom := ht.room_le le_rfl
        obtain rfl := prepared_own (own_fits h hproper) ht
        apply puts_pointer_move (by rwa [Nat.zero_add])
        exact hproper.trans (h.owns.size_le.trans h.owns.capacity_le_room))
    (fun hnot => absurd trivial hnot)
  rwa [and_true] at hiff

end

/-- The characters of another string are where they were after the string has grown. -/
theorem right_assignPart_iff (h : Usable f s) (hproper : (Request.assignPart other pos count).Proper f s) :
    Right f s (s.memory.load other.buffer pos (min (other.size f - pos) count)) (s.assignPart f other pos count) ↔
      min (other.size f - pos) count ≤ f.maxSize ∨
        s.size f = 0 ∧ Seen f (s.capacity f) (min (other.size f - pos) count) := by
  obtain ⟨hforeign, hroom, hfits, hpos⟩ := hproper
  rw [State.assignPart, State.withPart, if_neg hpos.not_gt]
  have hle : pos + min (other.size f - pos) count ≤ s.memory.room other.buffer := by omega
  have hlt : min (other.size f - pos) count < 2 ^ 16 := by omega
  generalize min (other.size f - pos) count = length at hle hlt ⊢
  have hiff := right_assign_iff (copyHelper (.pointer other.buffer pos)) h True
    (length_load (m := s.memory) (p := other.buffer) (i := pos) (n := length))
    (reallocates_ifNeeded _ h.clear.served) (clears_dummy h.owns h.fresh)
    (by
      intro _ t ht
      obtain ⟨hne, hsame, _⟩ := Foreign.keeps (s := s.clear f) hforeign (keeps_becomes ht.becomes)
      have hkept : t.memory.cell other.buffer = s.memory.cell other.buffer := by
        apply ht.kept other.buffer hne.symm
        rintro q hq hbuf
        rw [hbuf] at hforeign
        exact hforeign.2 hq
      have hload : t.memory.load other.buffer pos length = s.memory.load other.buffer pos length :=
        load_congr fun k _ _ => by rw [hkept]
      rw [← hload]
      apply puts_pointer
      · rw [Nat.zero_add]
        exact ht.room_le le_rfl
      · rw [hsame]
        exact hle
      · exact fun hover => hne hover.1)
    (fun hnot => absurd trivial hnot)
  rwa [Nat.mod_eq_of_lt hlt, and_true] at hiff

/-- A call that is right for no characters is so for no others. -/
theorem right_iff_nil (hright : Right f s [] r) : expected = [] ↔ Right f s expected r := by
  constructor
  · rintro rfl
    exact hright
  · intro h
    cases r with
    | returned t => exact h.2.1.symm.trans hright.2.1
    | threw err t =>
      cases err with
      | lengthError => exact absurd hright.1 (Nat.not_lt_zero _)
      | outOfRange => exact hright.elim
      | badAlloc => exact hright.elim

/-- A string is empty before a part of it is assigned to it. -/
theorem right_assignOwnPart_iff (h : Usable f s) (hproper : pos ≤ s.size f) :
    Right f s (s.memory.load s.str.buffer pos (min (s.size f - pos) count)) (s.assignPart f (s.clear f).str pos count) ↔
      pos = 0 ∧ (s.size f = 0 ∨ count = 0) := by
  have hempty : (s.clear f).str.size f = 0 := size_clear
  rw [State.assignPart, State.withPart, hempty]
  by_cases hpos : pos = 0
  · subst hpos
    -- nothing is copied, which is right for no characters
    have hnone := right_assign_iff (copyHelper (.pointer s.str.buffer 0)) h True
      (List.length_nil (α := Option α)) (reallocates_ifNeeded _ h.clear.served) (clears_dummy h.owns h.fresh)
      (fun _ t ht => puts_pointer (ht.room_le le_rfl) (Nat.zero_le _) fun hover => absurd hover.2.2.1 (by omega))
      (fun hnot => absurd trivial hnot)
    have hright := hnone.mpr (.inl ⟨Nat.zero_le _, trivial⟩)
    rw [if_neg (Nat.lt_irrefl 0), Nat.sub_zero, Nat.sub_zero, Nat.zero_min, and_iff_right rfl,
      ← Nat.min_eq_zero_iff]
    refine (right_iff_nil hright).symm.trans ?_
    rw [← List.length_eq_zero_iff, length_load]
  · rw [if_pos (Nat.pos_of_ne_zero hpos)]
    exact iff_of_false id fun hserves => hpos hserves.1

end

theorem pushBack_becomes (ch : α) (h : Usable f s) (hmax : s.size f < f.maxSize)
    (hgrows : s.capacity f = s.size f → 0 < s.capacity f ∧ s.capacity f < 2 ^ 15) :
    ∃ t, s.pushBack f ch = .returned t ∧ Pushed f s ch t :=
  (pushBack_cases h.owns h.fresh ch hmax hgrows).resolve_right fun hand => h.not_refused hand.1

structure Wide (f : Format) (s : State α) : Prop where
  buffer : s.str.buffer = .inside s.home
  length : s.str.length = s.size f * f.charSize
  capacity : s.capacity f = 0
  small : s.memory.small = f.sso
  room : f.maxSize ≤ f.sso

theorem Usable.wide (h : Usable f s) (hcap : s.capacity f = 0) (hsso : 0 < f.sso) : Wide f s := by
  constructor
  · exact placed_small h.owns.placed (hcap.le.trans (Nat.zero_le _))
  · exact h.owns.length
  · exact hcap
  · exact h.owns.small
  · have hbase : smallCapacity f ≤ s.capacity f := h.owns.base
    have hlt := f.sso_lt
    rw [hcap] at hbase
    unfold smallCapacity Format.toChars Format.toBytes at hbase
    rw [maxSize_eq]
    rcases f.charSize_eq with hone | htwo
    · rw [hone] at hbase
      omega
    · rw [htwo] at hbase
      rw [htwo, if_neg (by decide)]
      omega

theorem Wide.pushBack (h : Wide f s) (ch : α) (hmax : s.size f < f.maxSize) :
    ∃ t, s.pushBack f ch = .returned t ∧ Wide f t ∧ t.content f = s.content f ++ [some ch] ∧
      t.memory.misuse = s.memory.misuse := by
  have hfits := fits_of_le hmax
  -- growing to no capacity at all changes nothing
  obtain ⟨t, ht, hmemory, hhome, hbuf, hlen, hcapacity⟩ : ∃ t : State α,
      (if s.capacity f = s.size f then s.grow f (calcGrowth f (s.capacity f)) transferWithoutShift
        else .returned s) = .returned t ∧ t.memory = s.memory ∧ t.home = s.home ∧
      t.str.buffer = .inside s.home ∧ t.str.length = s.size f * f.charSize ∧ t.capacity f = 0 := by
    by_cases hfull : s.capacity f = s.size f
    · have hzero : s.size f = 0 := hfull.symm.trans h.capacity
      have hgrowth : calcGrowth f 0 = 0 := by
        rw [calcGrowth, if_neg (by omega), calcGrowthUnchecked]
        omega
      have hcopy : transferWithoutShift s.memory (.inside s.home) 0 s.str.buffer = (s.memory, 0) := by
        simp [transferWithoutShift, Memory.copy, Memory.Overlap, Memory.move]
      rw [if_pos hfull, h.capacity, hgrowth, State.grow, if_pos (Nat.zero_le _),
        growUnchecked_of_small (Nat.zero_le _), hzero, hcopy]
      refine ⟨_, rfl, ?_, rfl, rfl, ?_, ?_⟩
      · exact if_pos (h.capacity.le.trans (Nat.zero_le _))
      · simp [Format.toBytes]
      · simp [State.capacity, Native.capacity, Format.toBytes, Format.toChars]
    · rw [if_neg hfull]
      exact ⟨s, rfl, rfl, rfl, h.buffer, h.length, h.capacity⟩
  obtain ⟨hw, hcell⟩ := writes_write s.memory (.inside s.home) (s.size f) [some ch] (by
      have hroom := h.room
      have hsmall := h.small
      change s.size f + 1 ≤ s.memory.small
      omega)
  have hbytes : (t.str.length + f.toBytes 1) % 2 ^ 16 = (s.size f + 1) * f.charSize := by
    rw [hlen, (hfits.le (Nat.le_add_left _ _)).toBytes, ← Nat.add_mul]
    exact Nat.mod_eq_of_lt hfits
  have hsize : f.toChars ((t.str.length + f.toBytes 1) % 2 ^ 16) = s.size f + 1 := by
    rw [hbytes, toChars_mul]
  simp only [State.pushBack, ht, map_returned]
  rw [hmemory, hbuf]
  refine ⟨_, rfl, ?_, ?_, hw.clean⟩
  · constructor
    · rw [← hhome] at hbuf
      exact hbuf
    · change (t.str.length + f.toBytes 1) % 2 ^ 16 = f.toChars ((t.str.length + f.toBytes 1) % 2 ^ 16) * f.charSize
      rw [hsize, hbytes]
    · exact hcapacity
    · exact hw.small.trans h.small
    · exact h.room
  · have htext := load_overwrite hcell
    change (s.memory.write (.inside s.home) (s.size f) [some ch]).load t.str.buffer 0
      (f.toChars ((t.str.length + f.toBytes 1) % 2 ^ 16)) = _
    rw [hsize, hbuf, State.content, h.buffer]
    exact htext

theorem growUnchecked_room (newCapacity : Nat) (h : Usable f s) :
    ∃ t, s.growUnchecked f newCapacity transferWithoutShift = .returned t ∧
      t.memory.room t.str.buffer ≤ max f.sso newCapacity ∧ s.memory.misuse ≤ t.memory.misuse := by
  by_cases hsmall : newCapacity ≤ f.sso
  · have htame : Tame s.memory (transferWithoutShift s.memory (.inside s.home) (s.size f) s.str.buffer).1 := tame_copy
    have hown := h.owns.of_count htame.small fun q _ => htame.count q
    obtain ⟨_, _, hsame, _, _, hmisuse, _⟩ := Owns.destroy (s := s.withMemory _) hown
    refine ⟨_, growUnchecked_of_small hsmall, ?_, ?_⟩
    · exact (hsame.trans (htame.small.trans h.owns.small)).le.trans (Nat.le_max_left _ _)
    · exact htame.misuse.trans hmisuse.symm.le
  · have htame : Tame (s.memory.allocated newCapacity) (transferWithoutShift
        (s.memory.allocated newCapacity) (.heap s.memory.next) (s.size f) s.str.buffer).1 := tame_copy
    have hnew : held s.str ≠ some s.memory.next := fun hq => h.owns.block_ne hq (h.fresh _ le_rfl)
    have hown := h.owns.of_count htame.small fun q hq => by
      have hne : q ≠ s.memory.next := by
        rintro rfl
        exact hnew hq
      rw [htame.count]
      simp [Memory.allocated, hne]
    obtain ⟨_, hkept, _, _, _, hmisuse, _⟩ := Owns.destroy (s := s.withMemory _) hown
    refine ⟨_, growUnchecked_of_heap (not_le.mp hsmall) (h.served _) rfl, ?_, ?_⟩
    · have hcount := (congrArg (Option.map Block.count) (hkept _ hnew)).trans (htame.count _)
      have hroom := congrArg (fun c => c.getD 0) hcount
      exact (hroom.trans room_allocated).le.trans (Nat.le_max_right _ _)
    · exact htame.misuse.trans hmisuse.symm.le

theorem calcGrowth_le (h : c ≠ f.maxSize) : calcGrowth f c ≤ f.maxSize := by
  rw [calcGrowth, if_neg h]
  exact Nat.min_le_left _ _

theorem pushBack_misuse (ch : α) (h : Usable f s) (hfull : s.capacity f = s.size f)
    (hmax : s.capacity f ≠ f.maxSize) (hbad : s.capacity f = 0 ∧ f.sso = 0 ∨ 2 ^ 15 ≤ s.capacity f) :
    s.memory.misuse < (s.pushBack f ch).state.memory.misuse := by
  have hcapacity : s.capacity f * f.charSize < 2 ^ 16 := h.owns.fits
  have hsso : f.sso ≤ s.size f := by
    rcases hbad with ⟨_, hzero⟩ | hlarge
    · omega
    · have hbase : smallCapacity f ≤ s.capacity f := h.owns.base
      have hlt := f.sso_lt
      unfold smallCapacity Format.toChars Format.toBytes at hbase
      rcases f.charSize_eq with hone | htwo
      · rw [hone] at hbase
        omega
      · rw [htwo] at hcapacity
        omega
  have hgrowth : calcGrowth f (s.capacity f) ≤ s.size f := by
    rw [calcGrowth, if_neg hmax, calcGrowthUnchecked]
    have hlt := h.owns.fits.lt
    change s.capacity f < 2 ^ 16 at hlt
    omega
  obtain ⟨t, ht, hroom, hmisuse⟩ := growUnchecked_room (calcGrowth f (s.capacity f)) h
  simp only [State.pushBack, if_pos hfull, State.grow, if_pos (calcGrowth_le hmax), ht, map_returned]
  apply Nat.lt_of_le_of_lt hmisuse
  apply write_misuse (by simp)
  exact Nat.lt_succ_of_le (hroom.trans (Nat.max_le.mpr ⟨hsso, hgrowth⟩))

theorem maxSize_lt_npos : f.maxSize < npos := by
  rw [maxSize_eq]
  split <;> decide

theorem pushBack_full (hfull : s.capacity f = s.size f) (hmax : s.capacity f = f.maxSize) :
    s.pushBack f ch = .threw .lengthError s := by
  simp [State.pushBack, if_pos hfull, State.grow, calcGrowth, if_pos hmax, if_neg maxSize_lt_npos.not_ge,
    map_threw]

theorem right_pushBack_iff (h : Usable f s) : Right f s (s.content f ++ [some ch]) (s.pushBack f ch) ↔
      if s.capacity f = s.size f then PushGrows f (s.capacity f) else s.size f < f.maxSize := by
  have hlen : (s.content f ++ [some ch]).length = s.size f + 1 := by
    rw [List.length_append, length_content, List.length_singleton]
  split
  · rename_i hfull
    by_cases hend : s.capacity f = f.maxSize
    · rw [pushBack_full hfull hend]
      exact iff_of_true ⟨by rw [hlen]; omega, rfl, rfl, rfl⟩ (.inl hend)
    · have hlt : s.capacity f < 2 ^ 15 → s.capacity f < f.maxSize := by
        intro hless
        have hmax := maxSize_eq (f := f)
        split at hmax <;> omega
      by_cases hgrows : 0 < s.capacity f ∧ s.capacity f < 2 ^ 15
      · have hmax := hlt hgrows.2
        obtain ⟨t, ht, hpushed⟩ := pushBack_becomes ch h (by omega) fun _ => hgrows
        rw [ht]
        exact iff_of_true (right_of_becomes hpushed.becomes (by rw [hlen]; omega)) (.inr (.inl hgrows))
      · by_cases hwide : s.capacity f = 0 ∧ 0 < f.sso
        · have hmax := hlt (by omega)
          obtain ⟨t, ht, _, hcontent, hmisuse⟩ := (h.wide hwide.1 hwide.2).pushBack ch (by omega)
          rw [ht]
          exact iff_of_true ⟨by rw [hlen]; omega, hcontent, hmisuse⟩ (.inr (.inr hwide))
        · apply iff_of_false (not_right_of_misuse (pushBack_misuse ch h hfull hend (by omega)))
          rintro (hmax | hgrows' | hwide')
          · exact hend hmax
          · exact hgrows hgrows'
          · exact hwide hwide'
  · rename_i hroom
    by_cases hmax : s.size f < f.maxSize
    · obtain ⟨t, ht, hpushed⟩ := pushBack_becomes ch h hmax fun hfull => absurd hfull hroom
      rw [ht]
      exact iff_of_true (right_of_becomes hpushed.becomes (by rw [hlen]; omega)) hmax
    · apply iff_of_false _ hmax
      simp only [State.pushBack, if_neg hroom, map_returned]
      exact not_right_of_returned (by rw [hlen]; omega)

theorem destroy_misuse_le : s.memory.misuse ≤ (s.destroy f).misuse := by
  unfold State.destroy
  split
  · exact le_rfl
  · exact deallocate_misuse _

theorem growUnchecked_misuse :
    s.memory.misuse ≤ (s.growUnchecked f newCapacity transferWithoutShift).state.memory.misuse := by
  have hcopy : ∀ (m : Memory α) p, m.misuse ≤
      ((s.withMemory (transferWithoutShift m p (s.size f) s.str.buffer).1).destroy f).misuse := by
    intro m p
    exact Nat.le_trans (tame_copy (m := m)).misuse (destroy_misuse_le (s := s.withMemory _))
  by_cases hsmall : newCapacity ≤ f.sso
  · rw [growUnchecked_of_small hsmall]
    exact hcopy _ _
  · cases hfail : s.memory.fails s.memory.next with
    | true =>
      rw [growUnchecked_of_fails (not_le.mp hsmall) hfail]
      exact le_rfl
    | false =>
      rw [growUnchecked_of_heap (not_le.mp hsmall) hfail rfl]
      exact hcopy (s.memory.allocated newCapacity) _

theorem pushBack_misuse_le (f : Format) (s : State α) (ch : α) :
    s.memory.misuse ≤ (s.pushBack f ch).state.memory.misuse := by
  refine le_state_andThen (fun s : State α => s.memory.misuse) ?_ fun t => tame_write.misuse
  split
  · unfold State.grow
    split
    · exact growUnchecked_misuse
    · exact le_rfl
  · exact le_rfl

theorem pushEach_misuse_le (vs : List α) (s : State α) : s.memory.misuse ≤ (pushEach f s vs).state.memory.misuse := by
  induction vs generalizing s with
  | nil => exact le_rfl
  | cons ch vs ih => exact le_state_andThen (fun s : State α => s.memory.misuse) (pushBack_misuse_le f s ch) ih

theorem pushBack_threw (h : s.pushBack f ch = .threw .lengthError t) : t.capacity f = f.maxSize := by
  simp only [State.pushBack] at h
  split at h
  · by_cases hmax : s.capacity f = f.maxSize
    · simp only [State.grow, calcGrowth, if_pos hmax, if_neg maxSize_lt_npos.not_ge,
        map_threw, threw.injEq, true_and] at h
      rw [← h]
      exact hmax
    · simp only [State.grow, if_pos (calcGrowth_le hmax)] at h
      unfold State.growUnchecked at h
      split at h
      · simp at h
      · simp at h
  · simp at h

theorem pushEach_threw (h : pushEach f s vs = .threw .lengthError t) : t.capacity f = f.maxSize := by
  induction vs generalizing s with
  | nil => cases h
  | cons ch vs ih =>
    rw [pushEach] at h
    cases hpush : s.pushBack f ch with
    | returned u =>
      rw [hpush] at h
      exact ih h
    | threw err u =>
      rw [hpush] at h
      cases h
      exact pushBack_threw hpush

theorem pushEach_becomes (h : Usable f s) (hmax : s.size f + vs.length ≤ f.maxSize)
    (hgrow : PushesGrow f (s.size f) (s.capacity f) vs.length) :
    ∃ t, pushEach f s vs = .returned t ∧ Becomes f s (s.content f ++ vs.map some) t := by
  induction vs generalizing s with
  | nil => exact ⟨s, rfl, by simpa using becomes_self h.owns h.fresh⟩
  | cons ch vs ih =>
    simp only [List.length_cons] at hmax hgrow
    rw [PushesGrow] at hgrow
    obtain ⟨t, ht, hpushed⟩ := pushBack_becomes ch h (by omega) (by
      intro hfull
      rw [if_pos hfull.symm] at hgrow
      exact hgrow.1)
    have hb := hpushed.becomes
    have hsize := hpushed.size
    have hnext : PushesGrow f (t.size f) (t.capacity f) vs.length := by
      rw [hsize, hpushed.capacity]
      split_ifs with hfull
      · rw [if_pos hfull] at hgrow
        exact hgrow.2
      · rwa [if_neg hfull] at hgrow
    obtain ⟨u, hu, hb'⟩ := ih (h.becomes hb) (by omega) hnext
    rw [hb.content, List.append_assoc] at hb'
    refine ⟨u, ?_, hb.trans hb'⟩
    rw [pushEach, ht, andThen_returned, hu]

theorem pushEach_misuse (h : Usable f s) (hmax : s.size f + vs.length ≤ f.maxSize)
    (hwide : ¬ (s.capacity f = 0 ∧ 0 < f.sso)) (hgrow : ¬ PushesGrow f (s.size f) (s.capacity f) vs.length) :
    s.memory.misuse < (pushEach f s vs).state.memory.misuse := by
  induction vs generalizing s with
  | nil => exact absurd trivial hgrow
  | cons ch vs ih =>
    simp only [List.length_cons] at hmax hgrow
    rw [PushesGrow] at hgrow
    by_cases hgood : s.capacity f = s.size f → 0 < s.capacity f ∧ s.capacity f < 2 ^ 15
    · obtain ⟨t, ht, hpushed⟩ := pushBack_becomes ch h (by omega) hgood
      have hb := hpushed.becomes
      have hsize := hpushed.size
      have hpos : ¬ (t.capacity f = 0 ∧ 0 < f.sso) := by
        have hpos := hpushed.capacity_pos
        omega
      have hnext : ¬ PushesGrow f (t.size f) (t.capacity f) vs.length := by
        rw [hsize, hpushed.capacity]
        split_ifs with hfull
        · rw [if_pos hfull] at hgrow
          exact fun hnext => hgrow ⟨hgood hfull.symm, hnext⟩
        · rwa [if_neg hfull] at hgrow
      have hlater := ih (h.becomes hb) (by omega) hpos hnext
      rw [hb.evolves.misuse] at hlater
      rwa [pushEach, ht]
    · obtain ⟨hfull, hbad⟩ := Classical.not_imp.mp hgood
      exact le_state_andThen (fun s : State α => s.memory.misuse)
        (pushBack_misuse ch h hfull (by omega) (by omega))
        (pushEach_misuse_le vs)

theorem Wide.pushEach (h : Wide f s) (hmax : s.size f + vs.length ≤ f.maxSize) :
    ∃ t, pushEach f s vs = .returned t ∧ t.content f = s.content f ++ vs.map some ∧
      t.memory.misuse = s.memory.misuse := by
  induction vs generalizing s with
  | nil => exact ⟨s, rfl, by simp, rfl⟩
  | cons ch vs ih =>
    simp only [List.length_cons] at hmax
    obtain ⟨t, ht, hwide, hcontent, hmisuse⟩ := h.pushBack ch (by omega)
    have hsize : t.size f = s.size f + 1 := by
      rw [← length_content, hcontent, List.length_append, length_content, List.length_singleton]
    obtain ⟨u, hu, hcontent', hmisuse'⟩ := ih hwide (by omega)
    refine ⟨u, ?_, ?_, hmisuse'.trans hmisuse⟩
    · rw [WinntString.pushEach, ht, andThen_returned, hu]
    · rw [hcontent', hcontent, List.append_assoc]
      rfl

theorem pushEach_full (vs : List α) (h : Usable f s) (hcap : s.capacity f = f.maxSize)
    (hlong : f.maxSize < s.size f + vs.length) :
    ∃ t, pushEach f s vs = .threw .lengthError t ∧ t.capacity f = f.maxSize ∧
      Becomes f s (s.content f ++ (vs.take (f.maxSize - s.size f)).map some) t := by
  induction vs generalizing s with
  | nil =>
    have hsize := h.size_le
    rw [List.length_nil] at hlong
    omega
  | cons ch vs ih =>
    have hsize := h.size_le
    simp only [List.length_cons] at hlong
    by_cases hfull : s.size f = f.maxSize
    · refine ⟨s, ?_, hcap, ?_⟩
      · rw [pushEach, pushBack_full (by omega) hcap, andThen_threw]
      · rw [hfull, Nat.sub_self, List.take_zero, List.map_nil, List.append_nil]
        exact becomes_self h.owns h.fresh
    · obtain ⟨t, ht, hpushed⟩ := pushBack_becomes ch h (by omega) fun hfull' => by omega
      have hb := hpushed.becomes
      have hcap' := hpushed.capacity
      rw [if_neg (by omega)] at hcap'
      have hsize' := hpushed.size
      obtain ⟨u, hu, hcapu, hb'⟩ := ih (h.becomes hb) (hcap'.trans hcap) (by omega)
      have htake : f.maxSize - s.size f = (f.maxSize - t.size f) + 1 := by omega
      rw [hb.content, List.append_assoc] at hb'
      refine ⟨u, ?_, hcapu, ?_⟩
      · rw [pushEach, ht, andThen_returned, hu]
      · rw [htake]
        exact hb.trans hb'

theorem right_assignEach_iff (h : Usable f s) : Right f s (vs.map some) (s.assignEach f vs) ↔
      if vs.length ≤ f.maxSize then
        s.capacity f = 0 ∧ 0 < f.sso ∨ PushesGrow f 0 (s.capacity f) vs.length
      else s.capacity f = f.maxSize ∧ s.content f = (vs.take f.maxSize).map some := by
  have hcap : (s.clear f).capacity f = s.capacity f := rfl
  have hnil : (s.clear f).content f = [] := content_eq_nil.mpr size_clear
  have hlen : (vs.map some).length = vs.length := List.length_map _
  split_ifs with hmax
  · have hmax' : (s.clear f).size f + vs.length ≤ f.maxSize := by rwa [size_clear, Nat.zero_add]
    by_cases hwide : s.capacity f = 0 ∧ 0 < f.sso
    · obtain ⟨t, ht, hcontent, hmisuse⟩ := (h.clear.wide hwide.1 hwide.2).pushEach hmax'
      rw [hnil, List.nil_append] at hcontent
      rw [State.assignEach, ht]
      exact iff_of_true ⟨by rwa [hlen], hcontent, hmisuse⟩ (.inl hwide)
    · rw [or_iff_right hwide]
      by_cases hgrow : PushesGrow f 0 (s.capacity f) vs.length
      · obtain ⟨t, ht, hb⟩ := pushEach_becomes h.clear hmax' (by rwa [size_clear])
        rw [hnil, List.nil_append] at hb
        rw [State.assignEach, ht]
        exact iff_of_true (right_of_becomes ((clear_becomes h.owns h.fresh).trans hb) (by rwa [hlen])) hgrow
      · apply iff_of_false _ hgrow
        exact not_right_of_misuse (pushEach_misuse h.clear hmax' hwide (by rwa [size_clear]))
  · have hlong := not_le.mp hmax
    have hthrows : s.capacity f = f.maxSize → ∃ t, s.assignEach f vs = .threw .lengthError t ∧
        t.capacity f = f.maxSize ∧ Becomes f s ((vs.take f.maxSize).map some) t := by
      intro hfull
      obtain ⟨t, ht, hcapt, hb⟩ := pushEach_full vs h.clear (hcap.trans hfull) (by
        rwa [size_clear, Nat.zero_add])
      rw [hnil, size_clear, List.nil_append, Nat.sub_zero] at hb
      exact ⟨t, ht, hcapt, (clear_becomes h.owns h.fresh).trans hb⟩
    constructor
    · intro hright
      cases hcall : s.assignEach f vs with
      | returned t =>
        rw [hcall] at hright
        exact absurd hright (not_right_of_returned (by rwa [hlen]))
      | threw err t =>
        rw [hcall] at hright
        cases err with
        | outOfRange => exact absurd hright id
        | badAlloc => exact absurd hright id
        | lengthError =>
          obtain ⟨_, hcontent, hcapacity, _⟩ := hright
          have hfull := hcapacity.symm.trans (pushEach_threw hcall)
          obtain ⟨u, hu, _, hb⟩ := hthrows hfull
          rw [hcall] at hu
          cases hu
          exact ⟨hfull, hcontent.symm.trans hb.content⟩
    · rintro ⟨hfull, hcontent⟩
      obtain ⟨t, ht, hcapt, hb⟩ := hthrows hfull
      rw [ht]
      exact ⟨by rwa [hlen], hb.content.trans hcontent.symm, hcapt.trans hfull.symm, hb.evolves.misuse⟩

section
variable (h : Usable f s) (hproper : (Request.assignString j other).Proper f s)
include h hproper

theorem moveAssign_content : (s.moveAssign f j other).1.content f = s.memory.load other.buffer 0 (other.size f) ∧
      (s.moveAssign f j other).1.memory.misuse = s.memory.misuse := by
  obtain ⟨hj, hother, halone⟩ := hproper
  obtain ⟨_, hkept, hsmall, _, _, hmisuse, hinside⟩ := Owns.destroy h.owns
  unfold State.moveAssign
  split_ifs with hcap
  · have hbuf := placed_small hother.placed hcap
    have hroom : other.size f ≤ (s.destroy f).small := by
      rw [hsmall, h.owns.small]
      exact hother.size_le.trans hcap
    have hover : ¬ Memory.Overlap (.inside s.home) 0 (.inside j) 0 (other.size f) := by
      simp [Memory.Overlap]
    obtain ⟨hw, hcell⟩ := writes_copy (s.destroy f) (.inside s.home) 0 (.inside j) 0
      (other.size f) (by simpa [Memory.room]) (by simpa [Memory.room]) hover
    have htext := load_overwrite hcell
    rw [length_load, load_zero, List.nil_append, Nat.zero_add] at htext
    have hsize := (hother.fits.le hother.size_le).toChars
    constructor
    · change Memory.load _ _ 0 (f.toChars (f.toBytes (other.size f))) = _
      rw [hsize, hbuf]
      refine htext.trans ?_
      apply load_congr
      intro k _ _
      simp [Memory.cell, hinside]
    · rw [hbuf]
      exact hw.clean.trans hmisuse
  · obtain ⟨q, hq, _⟩ := placed_heap hother.placed (not_le.mp hcap)
    constructor
    · apply load_congr
      intro k _ _
      rw [hq]
      simp only [Memory.cell]
      rw [hkept q (halone q (held_heap hq))]
    · exact hmisuse

theorem right_assignString_iff :
    Right f s (s.memory.load other.buffer 0 (other.size f)) (.returned (s.moveAssign f j other).1) ↔
      other.size f ≤ f.maxSize := by
  obtain ⟨hcontent, hmisuse⟩ := moveAssign_content h hproper
  simp [Right, length_load, hcontent, hmisuse]

end

/-- Which calls of `append`, `push_back`, `+=` and `assign` throw `length_error`
exactly for results that are too long, and then leave the string as it was. -/
theorem right_iff_serves {r : Request α} (h : Usable f s) (hproper : r.Proper f s) :
    Right f s (r.result f s) (r.call f s) ↔ r.Serves f s := by
  cases r with
  | append a => exact right_append_iff h hproper
  | appendFill count ch => exact right_appendFill_iff h
  | pushBack ch => exact right_pushBack_iff h
  | assignFill count ch => exact right_assignFill_iff h hproper
  | assignNative a => exact right_assignNative_iff h hproper
  | assignChars a => exact right_assignChars_iff h hproper
  | assignRange a => exact right_assignRange_iff h hproper
  | assignEach vs => exact right_assignEach_iff h
  | assignString j other => exact right_assignString_iff h hproper
  | assignPart other pos count => exact right_assignPart_iff h hproper
  | assignOwnPart pos count => exact right_assignOwnPart_iff h hproper

def unicode : Format := ⟨2, 16, wideChar_size, by decide⟩

def single : State Nat :=
  ⟨(Memory.empty 16 fun _ => false).store (.inside 0) 0 [some 97], 0, ⟨.inside 0, 2, 32⟩⟩

theorem usable_single : Usable unicode single := by
  constructor
  · exact ⟨rfl, rfl, rfl, by unfold Fits; decide, by decide, by decide, rfl⟩
  · exact fun _ _ => rfl
  · exact fun _ => rfl

theorem right_iff_serves_single : Usable unicode single ∧ (Request.append (.outside [98, 99])).Proper unicode single ∧
      Right unicode single ((Request.append (.outside [98, 99])).result unicode single)
        ((Request.append (.outside [98, 99])).call unicode single) := by
  have hserves : (Request.append (.outside [98, 99])).Serves unicode single :=
    ⟨.inl (by decide), trivial⟩
  exact ⟨usable_single, trivial,
    (right_iff_serves (r := .append (.outside [98, 99])) usable_single trivial).mpr hserves⟩

/-- Together with 65535 appended characters there are `2 ^ 16`, and the string becomes empty. -/
theorem appendFill_wraps :
    (∃ t, (Request.appendFill 65535 98).call unicode single = .returned t ∧ t.content unicode = []) ∧
    ¬ Right unicode single ((Request.appendFill 65535 98).result unicode single)
      ((Request.appendFill 65535 98).call unicode single) := by
  have hcall : (Request.appendFill 65535 98).call unicode single =
      .returned (single.withStr (single.str.setSize unicode 0)) := by
    have hsum : (single.size unicode + 65535) % 2 ^ 16 = 0 := by decide +kernel
    rw [Request.call, State.appendFill, hsum]
    rfl
  constructor
  · exact ⟨_, hcall, rfl⟩
  · rw [hcall]
    apply not_right_of_returned
    simp only [Request.result, List.length_append, List.length_replicate]
    have hmax : unicode.maxSize = 32767 := rfl
    omega

end Ktl.StringLengths
