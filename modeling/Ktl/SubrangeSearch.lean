import Ktl.Loops
import Ktl.StringView

/-!
`find_subrange`, and `find` and `contains` of strings and views. After a partial match the
search goes on behind the character that differs.
-/
namespace Ktl.SubrangeSearch

open Loops WinntString StringView List

variable {α : Type}

section

/-- `count_matches_at_begin`, or nothing if a character behind the range is read. -/
@[simp] def countMatchesAtBegin (comp : α → α → Bool) : List α → List α → Option Nat
  | _, [] => some 0
  | [], _ :: _ => none
  | a :: range, b :: subrange =>
    if comp a b then (countMatchesAtBegin comp range subrange).map (· + 1) else some 0

structure Search where
  first : Nat
  /-- a number of 64 bits -/
  rangeLength : Nat
  deriving DecidableEq

/-- A pass of `find_subrange`, which returns a position of the range or its end. -/
def pass (comp : α → α → Bool) (range subrange : List α) (s : Search) : Pass Search (Option Nat) :=
  if s.rangeLength < subrange.length then .leave (some range.length)
  else
    match countMatchesAtBegin comp (range.drop s.first) subrange with
    | none => .leave none
    | some matchesCount =>
      if matchesCount = subrange.length then .leave (some s.first)
      else .again ⟨s.first + matchesCount + 1, (s.rangeLength + 2 ^ 64 - (matchesCount + 1)) % 2 ^ 64⟩

/-- `find_subrange` -/
def FindsSubrange (comp : α → α → Bool) (range : List α) (first : Nat) (subrange : List α)
    (found : Option Nat) : Prop :=
  Ends (pass comp range subrange) ⟨first, (range.length + 2 ^ 64 - first) % 2 ^ 64⟩ found

/-- The iterator as a position, or `npos`. -/
def position (strLength found : Nat) : Nat := if found ≠ strLength then found % 2 ^ 16 else npos

variable {f g : Format} [DecidableEq α]

/-- `make_ch_comparator` -/
abbrev same (lhs rhs : α) : Bool := lhs = rhs

/-- `find_substr` -/
def Finds (v : View f α) (other : View g α) (myPos : UInt16) (result : Option Nat) : Prop :=
  if other.size > v.size then result = some npos
  else ∃ found, FindsSubrange same v.chars myPos.toNat other.chars found ∧ result = found.map (position v.size)

def Contains (v : View f α) (other : View g α) (b : Bool) : Prop :=
  ∃ result, Finds v other 0 (some result) ∧ b = decide (result ≠ npos)

end

def OccursAt (str needle : List α) (i : Nat) : Prop :=
  i + needle.length ≤ str.length ∧ (str.drop i).take needle.length = needle

structure First (str needle : List α) (pos i : Nat) : Prop where
  le : pos ≤ i
  occurs : OccursAt str needle i
  least : ∀ j, pos ≤ j → OccursAt str needle j → i ≤ j

structure PartialMatch (str needle : List α) (i k : Nat) : Prop where
  inside : i + k < str.length
  short : k < needle.length
  same : (str.drop i).take k = needle.take k
  differs : str[i + k]? ≠ needle[k]?

/-- The places reached by passing over partial matches with the character that differs. -/
inductive Visits (str needle : List α) : Nat → Nat → Prop
  | here (i : Nat) : Visits str needle i i
  | skip {i j k : Nat} (hmatch : PartialMatch str needle i k) (hrest : Visits str needle (i + k + 1) j) :
      Visits str needle i j

variable {needle : List α}

theorem PartialMatch.unique (h : PartialMatch str needle i k) (h' : PartialMatch str needle i k') : k = k' := by
  have key {k k' : Nat} (h : PartialMatch str needle i k) (h' : PartialMatch str needle i k') : ¬ k < k' := by
    intro hless
    apply h.differs
    have hsame := congrArg (fun l => l[k]?) h'.same
    simpa [getElem?_take, hless, getElem?_drop] using hsame
  have h1 := key h h'
  have h2 := key h' h
  omega

theorem OccursAt.getElem? (h : OccursAt str needle i) (hk : k < needle.length) : str[i + k]? = needle[k]? := by
  have hsame := congrArg (fun l => l[k]?) h.2
  simpa [getElem?_take, hk, getElem?_drop] using hsame

theorem PartialMatch.not_occurs (h : PartialMatch str needle i k) : ¬ OccursAt str needle i :=
  fun hoccurs => h.differs (hoccurs.getElem? h.short)

theorem partialMatch_drop (h : PartialMatch (str.drop i) needle 0 k) : PartialMatch str needle i k := by
  obtain ⟨hinside, hshort, hsame, hdiffers⟩ := h
  rw [Nat.zero_add, length_drop] at hinside
  rw [Nat.zero_add, getElem?_drop] at hdiffers
  exact ⟨by omega, hshort, hsame, hdiffers⟩

theorem Visits.le (h : Visits str needle i j) : i ≤ j := by
  induction h with
  | here i => exact Nat.le_refl i
  | skip _ _ ih => omega

theorem Visits.unique (h : Visits str needle i j) (hoccurs : OccursAt str needle j)
    (h' : Visits str needle i j') (hoccurs' : OccursAt str needle j') : j = j' := by
  induction h with
  | here i =>
    cases h' with
    | here => rfl
    | skip hmatch _ => exact absurd hoccurs hmatch.not_occurs
  | skip hmatch _ ih =>
    cases h' with
    | here => exact absurd hoccurs' hmatch.not_occurs
    | skip hmatch' hrest' =>
      cases hmatch.unique hmatch'
      exact ih hoccurs hrest'

theorem First.unique (h : First str needle pos i) (h' : First str needle pos i') : i = i' :=
  (h.least i' h'.le h'.occurs).antisymm (h'.least i h.le h.occurs)

theorem exists_first (hle : pos ≤ i) (h : OccursAt str needle i) : ∃ j, First str needle pos j := by
  classical
  have hexists : ∃ j, pos ≤ j ∧ OccursAt str needle j := ⟨i, hle, h⟩
  refine ⟨Nat.find hexists, (Nat.find_spec hexists).1, (Nat.find_spec hexists).2, ?_⟩
  exact fun j hj hoccurs => Nat.find_min' hexists ⟨hj, hoccurs⟩

section

variable [DecidableEq α] {range : List α}

theorem countMatchesAtBegin_cons_self : countMatchesAtBegin same (a :: range) (a :: subrange) =
      (countMatchesAtBegin same range subrange).map (· + 1) := by
  simp

theorem countMatchesAtBegin_cons_ne (h : a ≠ b) : countMatchesAtBegin same (a :: range) (b :: subrange) = some 0 := by
  simp [h]

theorem countMatchesAtBegin_spec (h : countMatchesAtBegin same range subrange = some k) :
    (k = subrange.length ∧ range.take k = subrange) ∨ PartialMatch range subrange 0 k := by
  induction subrange generalizing range k with
  | nil =>
    have hk : k = 0 := by simpa [eq_comm] using h
    exact .inl ⟨hk, by rw [hk, take_zero]⟩
  | cons b subrange ih =>
    cases range with
    | nil => cases h
    | cons a range =>
      by_cases hab : a = b
      · subst hab
        rw [countMatchesAtBegin_cons_self] at h
        obtain ⟨k, hk, rfl⟩ := Option.map_eq_some_iff.mp h
        cases ih hk with
        | inl hall => exact .inl ⟨by simp [hall.1], by simp [hall.2]⟩
        | inr hpart =>
          obtain ⟨hinside, hshort, hsame, hdiffers⟩ := hpart
          rw [Nat.zero_add] at hinside hdiffers
          exact .inr ⟨by simpa using hinside, by simpa using hshort, by simpa using hsame, by simpa using hdiffers⟩
      · rw [countMatchesAtBegin_cons_ne hab] at h
        cases h
        exact .inr ⟨by simp, by simp, by simp, by simpa using hab⟩

theorem countMatchesAtBegin_isSome (h : subrange.length ≤ range.length) :
    ∃ k, countMatchesAtBegin same range subrange = some k := by
  induction subrange generalizing range with
  | nil => exact ⟨0, by simp⟩
  | cons b subrange ih =>
    cases range with
    | nil => simp at h
    | cons a range =>
      by_cases hab : a = b
      · subst hab
        obtain ⟨k, hk⟩ := ih (Nat.le_of_succ_le_succ h)
        exact ⟨k + 1, by rw [countMatchesAtBegin_cons_self, hk, Option.map_some]⟩
      · exact ⟨0, countMatchesAtBegin_cons_ne hab⟩

theorem occurs_or_partialMatch (hroom : i + needle.length ≤ str.length) :
    OccursAt str needle i ∧ countMatchesAtBegin same (str.drop i) needle = some needle.length ∨
      ∃ k, PartialMatch str needle i k ∧ countMatchesAtBegin same (str.drop i) needle = some k := by
  obtain ⟨k, hk⟩ := countMatchesAtBegin_isSome
    (show needle.length ≤ (str.drop i).length by rw [length_drop]; omega)
  cases countMatchesAtBegin_spec hk with
  | inl hall =>
    obtain ⟨rfl, htake⟩ := hall
    exact .inl ⟨⟨hroom, htake⟩, hk⟩
  | inr hpart => exact .inr ⟨k, partialMatch_drop hpart, hk⟩

end

section

variable [DecidableEq α]

theorem pass_cases (hlength : str.length < 2 ^ 64) (hroom : i + needle.length ≤ str.length) :
    (OccursAt str needle i ∧ pass same str needle ⟨i, str.length - i⟩ = .leave (some i)) ∨
      ∃ k, PartialMatch str needle i k ∧
        pass same str needle ⟨i, str.length - i⟩ = .again ⟨i + k + 1, str.length - (i + k + 1)⟩ := by
  have henough : ¬ str.length - i < needle.length := by omega
  obtain ⟨hoccurs, hcount⟩ | ⟨k, hmatch, hcount⟩ := occurs_or_partialMatch hroom
  · exact .inl ⟨hoccurs, by simp only [pass, if_neg henough, hcount, if_true]⟩
  · have hinside := hmatch.inside
    have hlen : (str.length - i + 2 ^ 64 - (k + 1)) % 2 ^ 64 = str.length - (i + k + 1) := by omega
    refine .inr ⟨k, hmatch, ?_⟩
    simp only [pass, if_neg henough, hcount, if_neg hmatch.short.ne, hlen]

theorem ends_search (hlength : str.length < 2 ^ 64) (hi : i ≤ str.length) :
    (∃ j, Visits str needle i j ∧ OccursAt str needle j ∧ Ends (pass same str needle) ⟨i, str.length - i⟩ (some j)) ∨
      (∀ j, Visits str needle i j → ¬ OccursAt str needle j) ∧
        Ends (pass same str needle) ⟨i, str.length - i⟩ (some str.length) := by
  induction hrest : str.length - i using Nat.strong_induction_on generalizing i with
  | _ rest ih =>
    subst hrest
    by_cases hroom : i + needle.length ≤ str.length
    · obtain ⟨hoccurs, hpass⟩ | ⟨k, hmatch, hpass⟩ := pass_cases hlength hroom
      · exact .inl ⟨i, .here i, hoccurs, (ends_leave_iff hpass).mpr rfl⟩
      · have hinside := hmatch.inside
        obtain ⟨j, hvisits, hoccurs, hends⟩ | ⟨hnone, hends⟩ := ih _ (by omega) (i := i + k + 1) hinside rfl
        · exact .inl ⟨j, .skip hmatch hvisits, hoccurs, (ends_again_iff hpass).mpr hends⟩
        · refine .inr ⟨?_, (ends_again_iff hpass).mpr hends⟩
          intro j hvisits
          cases hvisits with
          | here => exact hmatch.not_occurs
          | skip hmatch' hrest =>
            cases hmatch.unique hmatch'
            exact hnone j hrest
    · have hpass : pass same str needle ⟨i, str.length - i⟩ = .leave (some str.length) := by
        have hshort : str.length - i < needle.length := by omega
        simp [pass, if_pos hshort]
      refine .inr ⟨?_, (ends_leave_iff hpass).mpr rfl⟩
      intro j hvisits hoccurs
      have hle := hvisits.le
      have hfits := hoccurs.1
      omega

end

section

theorem eq_of_take_cons (h : (a :: l).take l.length = l) : ∀ x ∈ l, x = a := by
  induction l generalizing a with
  | nil => exact fun x hx => absurd hx not_mem_nil
  | cons b l ih =>
    rw [length_cons, take_succ_cons] at h
    obtain ⟨rfl, htail⟩ := cons.inj h
    intro x hx
    cases mem_cons.mp hx with
    | inl heq => exact heq
    | inr hmem => exact ih htail x hmem

theorem PartialMatch.passes (hequal : ∀ a ∈ needle, ∀ b ∈ needle, a = b) (hmatch : PartialMatch str needle i k)
    (hoccurs : OccursAt str needle j) (hij : i < j) : i + k + 1 ≤ j := by
  by_contra hnot
  have hshort := hmatch.short
  have hd : i + k - j < needle.length := by omega
  apply hmatch.differs
  have hat := hoccurs.getElem? hd
  rw [show j + (i + k - j) = i + k by omega] at hat
  rw [hat, getElem?_eq_getElem hd, getElem?_eq_getElem hshort]
  rw [hequal _ (getElem_mem hd) _ (getElem_mem hshort)]

/-- Behind one more copy of its first character, a needle is found only if its characters are the
same. -/
theorem equal_of_visits (hvisits : Visits (a :: a :: needle) (a :: needle) 0 j)
    (hoccurs : OccursAt (a :: a :: needle) (a :: needle) j) : ∀ x ∈ a :: needle, ∀ y ∈ a :: needle, x = y := by
  have hj : j = 0 := by
    cases hvisits with
    | here => rfl
    | @skip _ _ k hmatch hrest =>
      have hle := hrest.le
      have hfits := hoccurs.1
      simp only [length_cons] at hfits
      obtain rfl : k = 0 := by omega
      exact absurd rfl hmatch.differs
  subst hj
  have hequal := eq_of_take_cons hoccurs.2
  exact fun x hx y hy => (hequal x hx).trans (hequal y hy).symm

variable [DecidableEq α]

theorem visits_first (hequal : ∀ a ∈ needle, ∀ b ∈ needle, a = b) (hfirst : First str needle pos i) :
    Visits str needle pos i := by
  induction hd : i - pos using Nat.strong_induction_on generalizing pos with
  | _ d ih =>
    have hle := hfirst.le
    have hfits := hfirst.occurs.1
    obtain ⟨hoccurs, -⟩ | ⟨k, hmatch, -⟩ := occurs_or_partialMatch (show pos + needle.length ≤ str.length by omega)
    · rw [hle.antisymm (hfirst.least pos le_rfl hoccurs)]
      exact .here i
    · have hless : pos < i := by
        apply Nat.lt_of_le_of_ne hle
        rintro rfl
        exact hmatch.not_occurs hfirst.occurs
      have hpast := hmatch.passes hequal hfirst.occurs hless
      refine .skip hmatch (ih _ ?_ ⟨hpast, hfirst.occurs, ?_⟩ rfl)
      · omega
      · exact fun j hj => hfirst.least j (by omega)

end

section

variable {f g : Format} {v : View f α} {w : View g α}

theorem position_of_occurs (hneedle : 0 < w.size) (hoccurs : OccursAt v.chars w.chars j) :
    position v.size j = j ∧ j ≠ npos := by
  have hfits : j + w.size ≤ v.size := hoccurs.1
  have hlt := size_lt v
  rw [position, if_pos (by omega)]
  exact ⟨Nat.mod_eq_of_lt (by omega), by unfold npos; omega⟩

variable [DecidableEq α]

theorem finds_inside (myPos : UInt16) (hsize : w.size ≤ v.size) (hpos : myPos.toNat ≤ v.size) :
    (∃ j, Visits v.chars w.chars myPos.toNat j ∧ OccursAt v.chars w.chars j ∧
        Finds v w myPos (some (position v.size j))) ∨
      (∀ j, Visits v.chars w.chars myPos.toNat j → ¬ OccursAt v.chars w.chars j) ∧ Finds v w myPos (some npos) := by
  have hlt : v.chars.length < 2 ^ 16 := size_lt v
  have hrest : (v.chars.length + 2 ^ 64 - myPos.toNat) % 2 ^ 64 = v.chars.length - myPos.toNat := by
    change myPos.toNat ≤ v.chars.length at hpos
    omega
  have hfinds {found : Nat}
      (hends : Ends (pass same v.chars w.chars) ⟨myPos.toNat, v.chars.length - myPos.toNat⟩ (some found)) :
      Finds v w myPos (some (position v.size found)) := by
    rw [Finds, if_neg hsize.not_gt]
    refine ⟨some found, ?_, rfl⟩
    rw [FindsSubrange, hrest]
    exact hends
  obtain ⟨j, hvisits, hoccurs, hends⟩ | ⟨hnone, hends⟩ := ends_search (hlt.trans (by decide)) hpos
  · exact .inl ⟨j, hvisits, hoccurs, hfinds hends⟩
  · refine .inr ⟨hnone, ?_⟩
    have hend := hfinds hends
    rwa [position, if_neg (fun hne => hne rfl)] at hend

theorem Finds.unique (h : Finds v w myPos result) (h' : Finds v w myPos result') : result = result' := by
  unfold Finds at h h'
  split_ifs at h with hlong
  · rw [if_pos hlong] at h'
    rw [h, h']
  · rw [if_neg hlong] at h'
    obtain ⟨found, hends, rfl⟩ := h
    obtain ⟨found', hends', rfl⟩ := h'
    rw [hends.unique hends']

theorem finds_empty (hempty : w.size = 0) : Finds v w myPos (some (position v.size myPos.toNat)) := by
  have hnil : w.chars = [] := length_eq_zero_iff.mp hempty
  rw [Finds, if_neg (by omega)]
  refine ⟨some myPos.toNat, ?_, rfl⟩
  rw [FindsSubrange, ends_leave_iff]
  simp [pass, hnil]

theorem finds_behind (hsize : w.size ≤ v.size) (hneedle : 0 < w.size) (hpos : v.size < myPos.toNat) :
    Finds v w myPos none := by
  obtain ⟨b, needle, hw⟩ := exists_cons_of_length_pos hneedle
  have hmyPos := myPos.toNat_lt
  have hlt := size_lt v
  have hlong : ¬ (v.chars.length + 2 ^ 64 - myPos.toNat) % 2 ^ 64 < w.chars.length := by
    change v.chars.length < myPos.toNat at hpos
    change w.chars.length ≤ v.chars.length at hsize
    change v.chars.length < 2 ^ 16 at hlt
    omega
  have hdrop := drop_eq_nil_iff.mpr hpos.le
  rw [Finds, if_neg hsize.not_gt]
  refine ⟨none, ?_, rfl⟩
  rw [FindsSubrange, ends_leave_iff]
  rw [pass, if_neg hlong]
  simp [hdrop, hw, countMatchesAtBegin]

/-- `find` returns the first place from `myPos` on at which the needle stands, or `npos`. -/
def Right (v : View f α) (w : View g α) (myPos : UInt16) : Prop :=
  ∃ result, Finds v w myPos (some result) ∧ (First v.chars w.chars myPos.toNat result ∨
      result = npos ∧ ∀ i, myPos.toNat ≤ i → ¬ OccursAt v.chars w.chars i)

def ContainsRight (v : View f α) (w : View g α) : Prop :=
  ∃ b, Contains v w b ∧ (b = true ↔ ∃ i, OccursAt v.chars w.chars i)

/-- The first match is on the way of the search, and an empty needle is looked for before the end.
-/
def Found (v : View f α) (w : View g α) (pos : Nat) : Prop :=
  if w.size = 0 then pos < v.size ∨ pos = npos
  else v.size < w.size ∨ pos ≤ v.size ∧ ∀ i, First v.chars w.chars pos i → Visits v.chars w.chars pos i

def ContainsFound (v : View f α) (w : View g α) : Prop :=
  if w.size = 0 then 0 < v.size
  else ∀ i, OccursAt v.chars w.chars i → ∃ j, Visits v.chars w.chars 0 j ∧ OccursAt v.chars w.chars j

theorem right_iff_of_finds (h : Finds v w myPos (some r)) : Right v w myPos ↔ First v.chars w.chars myPos.toNat r ∨
      r = npos ∧ ∀ i, myPos.toNat ≤ i → ¬ OccursAt v.chars w.chars i := by
  constructor
  · rintro ⟨result, hfinds, hright⟩
    cases h.unique hfinds
    exact hright
  · exact fun hright => ⟨r, h, hright⟩

theorem containsRight_iff_of_finds (h : Finds v w 0 (some r)) :
    ContainsRight v w ↔ (r ≠ npos ↔ ∃ i, OccursAt v.chars w.chars i) := by
  constructor
  · rintro ⟨b, ⟨result, hfinds, rfl⟩, hright⟩
    cases h.unique hfinds
    rwa [decide_eq_true_iff] at hright
  · exact fun hiff => ⟨_, ⟨r, h, rfl⟩, decide_eq_true_iff.trans hiff⟩

theorem right_iff_of_inside (hsize : w.size ≤ v.size) (hneedle : 0 < w.size) (hpos : myPos.toNat ≤ v.size) :
    Right v w myPos ↔ ∀ i, First v.chars w.chars myPos.toNat i → Visits v.chars w.chars myPos.toNat i := by
  obtain ⟨j, hvisits, hoccurs, hfinds⟩ | ⟨hnone, hfinds⟩ := finds_inside myPos hsize hpos
  · obtain ⟨hposition, hnpos⟩ := position_of_occurs hneedle hoccurs
    rw [hposition] at hfinds
    rw [right_iff_of_finds hfinds]
    simp only [hnpos, false_and, or_false]
    constructor
    · intro hfirst i hfirst'
      rwa [← hfirst.unique hfirst']
    · intro hall
      obtain ⟨i, hfirst⟩ := exists_first hvisits.le hoccurs
      rwa [hvisits.unique hoccurs (hall i hfirst) hfirst.occurs]
  · rw [right_iff_of_finds hfinds]
    constructor
    · rintro (hfirst | ⟨-, hnowhere⟩) i hfirst'
      · exact absurd rfl (position_of_occurs hneedle hfirst.occurs).2
      · exact absurd hfirst'.occurs (hnowhere i hfirst'.le)
    · intro hall
      refine .inr ⟨rfl, fun i hi hoccurs => ?_⟩
      obtain ⟨j, hfirst⟩ := exists_first hi hoccurs
      exact hnone j (hall j hfirst) hfirst.occurs

theorem right_iff_of_empty (hempty : w.size = 0) : Right v w myPos ↔ myPos.toNat < v.size ∨ myPos.toNat = npos := by
  have hnil : w.chars = [] := length_eq_zero_iff.mp hempty
  have hoccurs (i : Nat) : OccursAt v.chars w.chars i ↔ i ≤ v.size := by
    simp [OccursAt, hnil, View.size]
  have hmyPos := Nat.mod_eq_of_lt myPos.toNat_lt
  rw [right_iff_of_finds (finds_empty hempty)]
  simp only [hoccurs, position, hmyPos]
  constructor
  · rintro (hfirst | ⟨hr, hnone⟩)
    · by_cases hend : myPos.toNat = v.size
      · rw [if_neg (fun hne => hne hend)] at hfirst
        have hle := hfirst.least myPos.toNat le_rfl ((hoccurs _).mpr hend.le)
        exact .inr (hfirst.le.antisymm hle)
      · rw [if_pos hend] at hfirst
        exact .inl (Nat.lt_of_le_of_ne ((hoccurs _).mp hfirst.occurs) hend)
    · have hself := hnone myPos.toNat le_rfl
      rw [if_pos (by omega)] at hr
      exact .inr hr
  · rintro (hless | hnpos)
    · rw [if_pos hless.ne]
      exact .inl ⟨le_rfl, (hoccurs _).mpr hless.le, fun j hj _ => hj⟩
    · have hr : (if myPos.toNat ≠ v.size then myPos.toNat else npos) = npos := by
        split
        · exact hnpos
        · rfl
      rw [hr]
      by_cases hin : npos ≤ v.size
      · exact .inl ⟨hnpos.le, (hoccurs _).mpr hin, fun j hj _ => hnpos ▸ hj⟩
      · exact .inr ⟨rfl, fun i hi => by omega⟩

theorem finds_long (myPos : UInt16) (hsize : v.size < w.size) :
    Finds v w myPos (some npos) ∧ ∀ i, ¬ OccursAt v.chars w.chars i := by
  refine ⟨by rw [Finds, if_pos hsize], ?_⟩
  rintro i ⟨hfits, -⟩
  change v.chars.length < w.chars.length at hsize
  omega

theorem right_iff_found : Right v w myPos ↔ Found v w myPos.toNat := by
  unfold Found
  split_ifs with hempty
  · exact right_iff_of_empty hempty
  · have hneedle' : 0 < w.size := Nat.pos_of_ne_zero hempty
    by_cases hlong : v.size < w.size
    · obtain ⟨hfinds, hnowhere⟩ := finds_long myPos hlong
      rw [right_iff_of_finds hfinds]
      exact iff_of_true (.inr ⟨rfl, fun i _ => hnowhere i⟩) (.inl hlong)
    · have hsize := not_lt.mp hlong
      by_cases hpos : myPos.toNat ≤ v.size
      · rw [right_iff_of_inside hsize hneedle' hpos]
        simp [hlong, hpos]
      · refine iff_of_false ?_ (by simp only [hlong, hpos, false_or, false_and, not_false_eq_true])
        rintro ⟨result, hfinds, -⟩
        cases hfinds.unique (finds_behind hsize hneedle' (not_le.mp hpos))

theorem containsRight_iff_found : ContainsRight v w ↔ ContainsFound v w := by
  unfold ContainsFound
  split_ifs with hempty
  · have hnil : w.chars = [] := length_eq_zero_iff.mp hempty
    have hoccurs : ∃ i, OccursAt v.chars w.chars i := ⟨0, by simp [OccursAt, hnil]⟩
    rw [containsRight_iff_of_finds (finds_empty hempty)]
    simp only [hoccurs, iff_true]
    change position v.size 0 ≠ npos ↔ 0 < v.size
    cases v.size with
    | zero => simp [position]
    | succ n => simp [position, npos]
  · have hneedle' : 0 < w.size := Nat.pos_of_ne_zero hempty
    by_cases hlong : v.size < w.size
    · obtain ⟨hfinds, hnowhere⟩ := finds_long 0 hlong
      rw [containsRight_iff_of_finds hfinds]
      simp [hnowhere]
    · obtain ⟨j, hvisits, hoccurs, hfinds⟩ | ⟨hnone, hfinds⟩ :=
        finds_inside 0 (not_lt.mp hlong) (Nat.zero_le _)
      · obtain ⟨hposition, hnpos⟩ := position_of_occurs hneedle' hoccurs
        rw [hposition] at hfinds
        rw [containsRight_iff_of_finds hfinds]
        exact iff_of_true (iff_of_true hnpos ⟨j, hoccurs⟩) fun _ _ => ⟨j, hvisits, hoccurs⟩
      · rw [containsRight_iff_of_finds hfinds]
        constructor
        · intro hiff i hoccurs
          exact absurd rfl (hiff.mpr ⟨i, hoccurs⟩)
        · intro hall
          refine iff_of_false (fun hne => hne rfl) ?_
          rintro ⟨i, hoccurs⟩
          obtain ⟨j, hvisits, hoccurs'⟩ := hall i hoccurs
          exact hnone j hvisits hoccurs'

/-- `find` and `contains` are right exactly if the match is not passed over with a partial match,
and the empty needle has a place to stand before the end. -/
theorem searches_iff_found (v : View f α) (w : View g α) (myPos : UInt16) :
    (Right v w myPos ↔ Found v w myPos.toNat) ∧ (ContainsRight v w ↔ ContainsFound v w) :=
  ⟨right_iff_found, containsRight_iff_found⟩

/-- If a needle is found behind its first character, its characters are all the same. -/
theorem equal_of_right (text : View f α) (hw : w.chars = a :: needle) (htext : text.chars = a :: w.chars) :
    (Right text w 0 → ∀ x ∈ w.chars, ∀ y ∈ w.chars, x = y) ∧
      ((¬ ∀ x ∈ w.chars, ∀ y ∈ w.chars, x = y) → First text.chars w.chars 0 1) := by
  have hbehind : OccursAt text.chars w.chars 1 := by simp [OccursAt, htext, Nat.add_comm]
  constructor
  · intro hright
    have hsize : w.size ≤ text.size := by rw [View.size, View.size, htext]; exact Nat.le_succ _
    obtain ⟨i, hfirst⟩ := exists_first (Nat.zero_le 1) hbehind
    rw [right_iff_of_inside hsize (by rw [View.size, hw]; exact Nat.succ_pos _) (Nat.zero_le _)] at hright
    have hvisits := hright i hfirst
    have hoccurs := hfirst.occurs
    rw [htext, hw] at hvisits hoccurs
    rw [hw]
    exact equal_of_visits hvisits hoccurs
  · intro hdiffer
    refine ⟨Nat.zero_le 1, hbehind, fun j _ hoccurs => Nat.pos_of_ne_zero ?_⟩
    rintro rfl
    rw [htext, hw] at hoccurs
    rw [hw] at hdiffer
    exact hdiffer (equal_of_visits (.here 0) hoccurs)

end

/-- `"ab"` stands in `"aab"` at 1, but `find` does not find it. -/
theorem find_passes_over :
    Finds (⟨[97, 97, 98], by decide⟩ : View ansi Nat) (⟨[97, 98], by decide⟩ : View ansi Nat) 0 (some npos) ∧
      OccursAt [97, 97, 98] [97, 98] 1 := by
  refine ⟨?_, by decide, by decide⟩
  rw [Finds, if_neg (by decide)]
  exact ⟨some 3, ⟨2, by decide⟩, by decide⟩

end Ktl.SubrangeSearch
