import Ktl.StringView
import Mathlib.Algebra.GroupWithZero.Nat

/-!
Views of null-terminated strings. The length is cut to 16 bits, multiplied by the size of a
character and divided by it again, so that a view shows only a first part of a long string.
-/
namespace Ktl.StringViewLengths

open StringView TextOrder WinntString

variable {α : Type} [LinearOrder α] [Zero α]

structure NullTerminated (α : Type) [Zero α] where
  chars : List α
  not_zero : ∀ ch ∈ chars, ch ≠ 0

def NullTerminated.buffer (s : NullTerminated α) : List α := s.chars ++ [0]

def length : List α → Nat
  | [] => 0
  | ch :: str => if ch ≠ 0 then length str + 1 else 0

/-- The size that a view of `length` characters shows: `set_size`, then `get_size`. -/
def shownSize (f : Format) (length : Nat) : Nat := f.toChars (f.toBytes length)

theorem shownSize_fits (f : Format) (length : Nat) : shownSize f length * f.charSize < 2 ^ 16 :=
  (Nat.div_mul_le_self _ _).trans_lt (Nat.mod_lt _ (by decide))

def makeNativeStr (f : Format) (str : List α) (length : Nat) : View f α :=
  ⟨str.take (shownSize f length),
    (Nat.mul_le_mul_right _ (List.length_take_le _ _)).trans_lt (shownSize_fits f length)⟩

/-- The view of a null-terminated string. -/
def ofChars (f : Format) (nullTerminatedStr : List α) : View f α :=
  makeNativeStr f nullTerminatedStr (length nullTerminatedStr % 2 ^ 16)

/-- `operator==` -/
def equal {f : Format} (lhs rhs : View f α) : Bool := lhs.compare rhs = 0

def NullTerminated.view (f : Format) (s : NullTerminated α) : View f α := ofChars f s.buffer

theorem length_buffer (s : NullTerminated α) : length s.buffer = s.chars.length := by
  obtain ⟨chars, hzero⟩ := s
  change length (chars ++ [0]) = chars.length
  induction chars with
  | nil => simp [length]
  | cons ch chars ih =>
    obtain ⟨hch, hrest⟩ := List.forall_mem_cons.mp hzero
    simp [length, hch, ih hrest]

theorem shownSize_eq (f : Format) (n : Nat) : shownSize f (n % 2 ^ 16) = n % (2 ^ 16 / f.charSize) := by
  rw [shownSize, Format.toChars, Format.toBytes]
  rcases f.charSize_eq with h | h
  · rw [h]
    omega
  · rw [h]
    omega

theorem shownSize_eq_self_iff (f : Format) (n : Nat) : n % (2 ^ 16 / f.charSize) = n ↔ n * f.charSize < 2 ^ 16 := by
  rcases f.charSize_eq with h | h
  · rw [h]
    omega
  · rw [h]
    omega

section

variable (f : Format) (s : NullTerminated α)

theorem chars_view : (s.view f).chars = s.chars.take (s.chars.length % (2 ^ 16 / f.charSize)) := by
  change s.buffer.take (shownSize f (length s.buffer % 2 ^ 16)) = _
  rw [length_buffer, shownSize_eq, NullTerminated.buffer, List.take_append_of_le_length (Nat.mod_le _ _)]

theorem size_view : (s.view f).size = s.chars.length % (2 ^ 16 / f.charSize) := by
  rw [View.size, chars_view, List.length_take]
  exact Nat.min_eq_left (Nat.mod_le _ _)

end

omit [Zero α] in
theorem equal_iff_chars (v w : View f α) : equal v w = true ↔ v.chars = w.chars := by
  rw [equal, decide_eq_true_iff, compare_eq_sign, sign_eq_zero]

/-- The views of two strings show their sizes, and are equal as the strings are. -/
structure Faithful (f : Format) (a b : NullTerminated α) : Prop where
  left_size : (a.view f).size = a.chars.length
  right_size : (b.view f).size = b.chars.length
  equal_iff : equal (a.view f) (b.view f) = true ↔ a.chars = b.chars

/-- Views stand for their strings exactly when both have less than 2^16 bytes. -/
theorem faithful_iff (f : Format) (a b : NullTerminated α) : Faithful f a b ↔
      a.chars.length * f.charSize < 2 ^ 16 ∧ b.chars.length * f.charSize < 2 ^ 16 := by
  rw [← shownSize_eq_self_iff, ← shownSize_eq_self_iff]
  constructor
  · intro h
    exact ⟨(size_view f a).symm.trans h.left_size, (size_view f b).symm.trans h.right_size⟩
  · rintro ⟨ha, hb⟩
    refine ⟨(size_view f a).trans ha, (size_view f b).trans hb, ?_⟩
    rw [equal_iff_chars, chars_view, chars_view, ha, hb, List.take_length, List.take_length]

def letters (count : Nat) : NullTerminated Nat :=
  ⟨List.replicate count 97, fun ch hch => by rw [List.eq_of_mem_replicate hch]; decide⟩

/-- A string of 65536 characters is shown as the empty one. -/
theorem long_string_shown_empty :
    ((letters (2 ^ 16)).view ansi).size = 0 ∧ equal ((letters (2 ^ 16)).view ansi) ((letters 0).view ansi) = true ∧
    (letters (2 ^ 16)).chars ≠ (letters 0).chars := by
  have hlen (n : Nat) : (letters n).chars.length = n := List.length_replicate
  have hsize : ((letters (2 ^ 16)).view ansi).size = 0 := by
    rw [size_view, hlen]
    rfl
  refine ⟨hsize, ?_, ?_⟩
  · rw [equal_iff_chars, List.eq_nil_of_length_eq_zero hsize]
    rfl
  · intro heq
    have hcount := congrArg List.length heq
    rw [hlen, hlen] at hcount
    cases hcount

end Ktl.StringViewLengths
