import Ktl.StringGrowth
import Ktl.StringInsertion

/-!
`operator+` of strings, null-terminated strings and characters. Every overload
extends one of its operands, or a copy of one, and some of them extend the wrong one.
-/
namespace Ktl.StringConcatenation

open TextMemory WinntString StringOwnership StringBuffers StringLengths StringInsertion StringGrowth

variable {α : Type}

structure Text (α : Type) where
  src : Source α
  length : Nat

/-- The overloads that can be instantiated. A string that is moved from is given by its number. -/
inductive Call (α : Type) where
  /-- two strings, with the sizes of their internal buffers -/
  | constConst (lhs rhs : Text α) (lhsBufferSize rhsBufferSize : Nat)
  | constChars (lhs nullTerminatedStr : Text α)
  | constChar (lhs : Text α) (ch : α)
  | rvalueChars (j : Nat) (lhs : Native) (nullTerminatedStr : Text α)
  | rvalueChar (j : Nat) (lhs : Native) (ch : α)
  | charsConst (nullTerminatedStr rhs : Text α)
  | charConst (ch : α) (rhs : Text α)
  | charsRvalue (nullTerminatedStr : Text α) (j : Nat) (rhs : Native)
  | rvalueConst (j : Nat) (lhs : Native) (rhs : Text α)
  | constRvalue (lhs : Text α) (j : Nat) (rhs : Native)
  | rvalues (j : Nat) (lhs : Native) (k : Nat) (rhs : Native)

section

variable (f : Format) (m : Memory α) (i : Nat)

def copyConstruct (other : Text α) : Result α :=
  (blank f m i).concatWithoutTransferOldData f (copyHelper other.src) (other.length % 2 ^ 16)

def moved (s : State α) : State α := (moveConstruct f s.memory i s.home s.str).1

def extend (s : State α) (a : Text α) : Result α := s.append f a.src a.length

def ofNative (v : Native) : Text α := ⟨.pointer v.buffer 0, v.size f⟩

def call : Call α → Result α
  | .constConst lhs rhs lhsBufferSize rhsBufferSize =>
    if lhsBufferSize ≥ rhsBufferSize then (copyConstruct f m i lhs).andThen fun str => extend f str rhs
    else (copyConstruct f m i rhs).andThen fun str => extend f str lhs
  | .constChars lhs nullTerminatedStr =>
    (copyConstruct f m i lhs).andThen fun str => extend f str nullTerminatedStr
  | .constChar lhs ch => (copyConstruct f m i lhs).andThen fun str => str.pushBack f ch
  | .rvalueChars j lhs nullTerminatedStr => (extend f ⟨m, j, lhs⟩ nullTerminatedStr).map (moved f i)
  | .rvalueChar j lhs ch => (moveConstruct f m i j lhs).1.pushBack f ch
  | .charsConst nullTerminatedStr rhs =>
    (copyConstruct f m i rhs).andThen fun str => extend f str nullTerminatedStr
  | .charConst ch rhs => (copyConstruct f m i rhs).andThen fun str => str.pushBack f ch
  | .charsRvalue nullTerminatedStr j rhs =>
    (State.insert f ⟨m, j, rhs⟩ 0 nullTerminatedStr.src nullTerminatedStr.length).map (moved f i)
  | .rvalueConst j lhs rhs => (extend f ⟨m, j, lhs⟩ rhs).map (moved f i)
  | .constRvalue lhs j rhs => (State.insert f ⟨m, j, rhs⟩ 0 lhs.src lhs.length).map (moved f i)
  | .rvalues j lhs k rhs =>
    if lhs.size f + rhs.size f ≤ lhs.capacity f then
      (extend f ⟨m, j, lhs⟩ (ofNative f rhs)).map (moved f i)
    else if lhs.size f + rhs.size f ≤ rhs.capacity f then
      (extend f ⟨m, k, rhs⟩ (ofNative f lhs)).map (moved f i)
    else
      ((blank f m i).reserve f ((lhs.size f + rhs.size f) % 2 ^ 16)).andThen fun str =>
        (extend f str (ofNative f lhs)).andThen fun str => extend f str (ofNative f rhs)

end

section

variable (f : Format) (m : Memory α)

def Text.chars (a : Text α) : List (Option α) := StringInsertion.chars m a.length a.src

def contentOf (v : Native) : List (Option α) := m.load v.buffer 0 (v.size f)

def left : Call α → List (Option α)
  | .constConst lhs _ _ _ | .constChars lhs _ | .constChar lhs _ | .constRvalue lhs _ _ => lhs.chars m
  | .rvalueChars _ lhs _ | .rvalueChar _ lhs _ | .rvalueConst _ lhs _ | .rvalues _ lhs _ _ => contentOf f m lhs
  | .charsConst str _ | .charsRvalue str _ _ => str.chars m
  | .charConst ch _ => [some ch]

def right : Call α → List (Option α)
  | .constConst _ rhs _ _ | .charsConst _ rhs | .charConst _ rhs | .rvalueConst _ _ rhs => rhs.chars m
  | .charsRvalue _ _ rhs | .constRvalue _ _ rhs | .rvalues _ _ _ rhs => contentOf f m rhs
  | .constChars _ str | .rvalueChars _ _ str => str.chars m
  | .constChar _ ch | .rvalueChar _ _ ch => [some ch]

def Text.Valid (s : State α) (a : Text α) : Prop := Outside f s a.length a.src

def Valid (i : Nat) : Call α → Prop
  | .constConst lhs rhs lhsBufferSize rhsBufferSize =>
    Usable f (blank f m i) ∧ lhs.Valid f (blank f m i) ∧ rhs.Valid f (blank f m i) ∧
      f.sso = max lhsBufferSize rhsBufferSize
  | .constChars a b | .charsConst a b =>
    Usable f (blank f m i) ∧ a.Valid f (blank f m i) ∧ b.Valid f (blank f m i)
  | .constChar a _ | .charConst _ a => Usable f (blank f m i) ∧ a.Valid f (blank f m i)
  | .rvalueChars j v a | .rvalueConst j v a | .charsRvalue a j v | .constRvalue a j v =>
    Usable f ⟨m, j, v⟩ ∧ a.Valid f ⟨m, j, v⟩ ∧ i ≠ j
  | .rvalueChar j v _ => Usable f ⟨m, j, v⟩ ∧ i ≠ j
  | .rvalues j lhs k rhs =>
    Usable f ⟨m, j, lhs⟩ ∧ Usable f ⟨m, k, rhs⟩ ∧ i ≠ j ∧ i ≠ k ∧ j ≠ k ∧ ∀ q, held lhs = some q → held rhs ≠ some q

def Pushes (size capacity : Nat) : Prop :=
  capacity = size → 0 < capacity ∧ capacity < 2 ^ 15 ∨ capacity = 0 ∧ 0 < f.sso

def Prepends (size capacity count : Nat) : Prop := size = 0 ∨ Opens f size capacity 0 count

def Commute (c : Call α) : Prop := right f m c ++ left f m c = left f m c ++ right f m c

/-- The calls that give the characters of the first operand and then those of the
second. -/
def Sound (c : Call α) : Prop :=
  match c with
  | .constConst _ _ lhsBufferSize rhsBufferSize => lhsBufferSize ≥ rhsBufferSize ∨ Commute f m c
  | .constChars _ _ | .rvalueChars _ _ _ | .rvalueConst _ _ _ => True
  | .constChar lhs _ => Pushes f lhs.length (max (smallCapacity f) lhs.length)
  | .rvalueChar _ lhs _ => Pushes f (lhs.size f) (lhs.capacity f)
  | .charsConst _ _ => Commute f m c
  | .charConst _ rhs => Pushes f rhs.length (max (smallCapacity f) rhs.length) ∧ Commute f m c
  | .charsRvalue a _ v | .constRvalue a _ v => Prepends f (v.size f) (v.capacity f) a.length
  | .rvalues _ lhs _ rhs =>
    lhs.size f + rhs.size f ≤ lhs.capacity f ∨ rhs.capacity f < lhs.size f + rhs.size f ∨ Commute f m c

end

variable    {s : State α} {a : Text α} {r : Result α}
   {P : Prop}

def Gives (f : Format) (m : Memory α) (xs : List (Option α)) (r : Result α) : Prop :=
  ∃ t, r = .returned t ∧ t.content f = xs ∧ t.memory.misuse = m.misuse

/-- What is known about a call: it gives `xs` if `P` holds, and breaks a rule otherwise. -/
def Yields (f : Format) (m : Memory α) (P : Prop) (xs : List (Option α)) (r : Result α) : Prop :=
  P ∧ Gives f m xs r ∨ ¬ P ∧ m.misuse < r.state.memory.misuse

theorem Yields.gives_iff (h : Yields f m P xs r) : Gives f m ys r ↔ P ∧ xs = ys := by
  obtain ⟨hP, t, rfl, hcontent, hmisuse⟩ | ⟨hP, hless⟩ := h
  · constructor
    · rintro ⟨u, hu, hcontent', _⟩
      cases hu
      exact ⟨hP, hcontent.symm.trans hcontent'⟩
    · rintro ⟨_, rfl⟩
      exact ⟨t, rfl, hcontent, hmisuse⟩
  · refine iff_of_false ?_ fun hand => hP hand.1
    rintro ⟨t, rfl, _, hmisuse⟩
    exact hless.ne' hmisuse

theorem yields_of_becomes (hb : Becomes f s xs t) (hr : r = .returned t) : Yields f s.memory True xs r :=
  .inl ⟨trivial, t, hr, hb.content, hb.evolves.misuse⟩

theorem Outside.later (hsrc : Outside f s n src) (hk : Keeps f s (.returned t)) : Outside f t n src := by
  cases src with
  | external vs => exact hsrc
  | pointer p offset =>
    obtain ⟨hp, hread⟩ | ⟨_, _, hno⟩ := hsrc
    · obtain ⟨_, hsame, hp'⟩ := hp.keeps hk
      exact .inl ⟨hp', by rwa [hsame]⟩
    · exact hno.elim

theorem Text.Valid.later (ha : a.Valid f s) (hk : Keeps f s (.returned t)) : a.Valid f t := Outside.later ha hk
theorem Text.Valid.chars_eq (ha : a.Valid f s) (hapart : Apart s t) : a.chars t.memory = a.chars s.memory :=
  chars_apart ha hapart

theorem length_chars_valid (hm : s.memory = m) (ha : a.Valid f s) : (a.chars m).length = a.length := by
  subst hm
  exact length_outside ha

theorem size_blank : (blank f m i).size f = 0 := (fits_of_le (Nat.zero_le _)).toChars

theorem copyConstruct_becomes (h : Usable f (blank f m i)) (ha : a.Valid f (blank f m i))
    (hmax : a.length ≤ f.maxSize) :
    ∃ t, copyConstruct f m i a = .returned t ∧ Becomes f (blank f m i) (a.chars m) t ∧
      Apart (blank f m i) t ∧ t.capacity f = max (smallCapacity f) a.length := by
  have hsum : (blank f m i).size f + a.length = a.length := by rw [size_blank, Nat.zero_add]
  have hcap : (blank f m i).capacity f = smallCapacity f := rfl
  obtain ⟨t, ht, hb, hapart, hcapacity⟩ : ∃ t, (blank f m i).growIfNeeded f a.length dummyTransfer = .returned t ∧
      Becomes f (blank f m i) [] t ∧ Apart (blank f m i) t ∧ t.capacity f = max (smallCapacity f) a.length := by
    by_cases hless : (blank f m i).capacity f < a.length
    · obtain ⟨t, ht, hgrown⟩ := (growUnchecked_cases h.owns h.fresh hless.le (fits_of_le hmax)
        (Nat.zero_le _) (transfers_dummy size_blank)).resolve_right h.not_refused
      rw [State.growIfNeeded, if_pos hless, State.grow, if_pos hmax]
      refine ⟨t, ht, hgrown.becomes, Grown.apart hgrown, ?_⟩
      rw [hgrown.capacity]
      omega
    · have hself := becomes_self h.owns h.fresh
      rw [content_eq_nil.mpr size_blank] at hself
      rw [State.growIfNeeded, if_neg hless]
      exact ⟨_, rfl, hself, fun _ _ => rfl, by omega⟩
  rw [← hsum] at ht
  obtain ⟨u, hu, hb', hapart', hcap', _⟩ := concatImpl_outside
    (fun s required => s.growIfNeeded f required dummyTransfer) ht hb size_blank.symm hapart
    (by rw [hsum]; omega) (by rwa [hsum]) ha
  rw [List.nil_append] at hb'
  rw [copyConstruct, mod_of_le hmax]
  exact ⟨u, hu, hb', hapart', hcap'.trans hcapacity⟩

theorem extend_becomes (h : Usable f s) (ha : a.Valid f s) (hmax : s.size f + a.length ≤ f.maxSize) :
    ∃ t, extend f s a = .returned t ∧ Becomes f s (s.content f ++ a.chars s.memory) t ∧ Apart s t := by
  obtain ⟨t, ht, hb, hapart, _⟩ := append_cases h hmax ha
  exact ⟨t, ht, hb, hapart⟩

theorem copied_yields (h : Usable f (blank f m i)) (ha : a.Valid f (blank f m i)) (hb : b.Valid f (blank f m i))
    (hmax : a.length + b.length ≤ f.maxSize) :
    Yields f m True (a.chars m ++ b.chars m) ((copyConstruct f m i a).andThen fun str => extend f str b) := by
  obtain ⟨t, ht, hbecomes, hapart, _⟩ := copyConstruct_becomes h ha (Nat.le_of_add_right_le hmax)
  have hsize := hbecomes.size.trans (length_chars_valid rfl ha)
  obtain ⟨u, hu, hbecomes', _⟩ := extend_becomes (h.becomes hbecomes) (hb.later (keeps_becomes hbecomes))
    (by rwa [hsize])
  rw [hbecomes.content, hb.chars_eq hapart] at hbecomes'
  exact yields_of_becomes (s := blank f m i) (hbecomes.trans hbecomes') (by rw [ht]; exact hu)

theorem pushBack_yields (ch : α) (h : Usable f s) (hmax : s.size f < f.maxSize) :
    Yields f s.memory (Pushes f (s.size f) (s.capacity f)) (s.content f ++ [some ch]) (s.pushBack f ch) := by
  by_cases hgrows : s.capacity f = s.size f → 0 < s.capacity f ∧ s.capacity f < 2 ^ 15
  · obtain ⟨t, ht, hpushed⟩ := pushBack_becomes ch h hmax hgrows
    exact .inl ⟨fun hfull => .inl (hgrows hfull), t, ht, hpushed.becomes.content, hpushed.becomes.evolves.misuse⟩
  · obtain ⟨hfull, hgrows⟩ := Classical.not_imp.mp hgrows
    by_cases hwide : s.capacity f = 0 ∧ 0 < f.sso
    · obtain ⟨t, ht, _, hcontent, hmisuse⟩ := (h.wide hwide.1 hwide.2).pushBack ch hmax
      exact .inl ⟨fun _ => .inr hwide, t, ht, hcontent, hmisuse⟩
    · refine .inr ⟨fun hpushes => (hpushes hfull).elim hgrows hwide, ?_⟩
      exact pushBack_misuse ch h hfull (by omega) (by omega)

theorem Yields.of_becomes (hb : Becomes f s ys t) (h : Yields f t.memory P xs r) : Yields f s.memory P xs r := by
  rwa [Yields, Gives, ← hb.evolves.misuse]

theorem copied_push_yields (ch : α) (h : Usable f (blank f m i)) (ha : a.Valid f (blank f m i))
    (hmax : a.length + 1 ≤ f.maxSize) :
    Yields f m (Pushes f a.length (max (smallCapacity f) a.length)) (a.chars m ++ [some ch])
      ((copyConstruct f m i a).andThen fun str => str.pushBack f ch) := by
  obtain ⟨t, ht, hbecomes, _, hcapacity⟩ := copyConstruct_becomes h ha (Nat.le_of_succ_le hmax)
  have hsize := hbecomes.size.trans (length_chars_valid rfl ha)
  have hpush := pushBack_yields ch (h.becomes hbecomes) (by rwa [hsize])
  rw [hsize, hcapacity, hbecomes.content] at hpush
  rw [ht]
  exact Yields.of_becomes (s := blank f m i) hbecomes hpush

theorem owns_other (h : Owns f m j v) (hlarge : f.sso < v.capacity f) : Owns f m i v := by
  refine ⟨h.small, h.length, h.maximum, h.fits, h.size_le, h.base, ?_⟩
  rw [Placed, if_neg hlarge.not_ge]
  exact placed_heap h.placed hlarge

theorem moved_same (i : Nat) (h : Usable f s) :
    Usable f (moved f i s) ∧ (moved f i s).size f = s.size f ∧ (moved f i s).capacity f = s.capacity f ∧
      (moved f i s).content f = s.content f ∧ (moved f i s).memory.misuse = s.memory.misuse := by
  by_cases hsmall : s.str.capacity f ≤ f.sso
  · have hmoved : moved f i s = ⟨s.memory.copy (.inside i) 0 s.str.buffer 0 (s.size f), i,
        { s.str with buffer := .inside i }⟩ := by
      rw [moved, moveConstruct, if_pos hsmall]
      rfl
    have hsize := h.size_le.trans hsmall
    have hinside := placed_small h.owns.placed hsmall
    have hroom (p : Nat) : s.size f ≤ s.memory.room (.inside p) := hsize.trans h.owns.small.symm.le
    obtain ⟨hw, hcell⟩ := writes_copy s.memory (.inside i) 0 s.str.buffer 0 (s.size f)
      (by rw [Nat.zero_add]; exact hroom i) (by rw [Nat.zero_add, hinside]; exact hroom _) (by simp [Memory.Overlap])
    have htext := load_written hcell
    rw [length_load] at htext
    have hev : Evolves f i s.memory (.small f i 0) _ _ := moveConstruct_small rfl h.fresh h.owns.small h.owns hsmall
    rw [hmoved]
    refine ⟨⟨hev.owns, hev.fresh, ?_⟩, rfl, rfl, htext, hw.clean⟩
    intro q
    exact (congrFun hev.fails q).trans (h.served q)
  · have hmoved : moved f i s = ⟨s.memory, i, s.str⟩ := by rw [moved, moveConstruct, if_neg hsmall]
    rw [hmoved]
    exact ⟨⟨owns_other h.owns (not_le.mp hsmall), h.fresh, h.served⟩, rfl, rfl, rfl, rfl⟩

theorem moved_misuse_le : s.memory.misuse ≤ (moved f i s).memory.misuse := by
  unfold moved moveConstruct
  split
  · exact tame_copy.misuse
  · exact le_rfl

theorem moved_yields (h : Usable f s) (hb : Becomes f s xs t) (hr : r = .returned t) :
    Yields f s.memory True xs (r.map (moved f i)) := by
  obtain ⟨_, _, _, hcontent, hmisuse⟩ := moved_same i (h.becomes hb)
  rw [hr]
  exact .inl ⟨trivial, _, rfl, hcontent.trans hb.content, hmisuse.trans hb.evolves.misuse⟩

section
variable (h : Usable f s) (ha : a.Valid f s) (hmax : s.size f + a.length ≤ f.maxSize)
include h ha hmax

theorem extend_moved_yields :
    Yields f s.memory True (s.content f ++ a.chars s.memory) ((extend f s a).map (moved f i)) := by
  obtain ⟨t, ht, hb, _⟩ := extend_becomes h ha hmax
  exact moved_yields h hb ht

theorem insert_moved_yields :
    Yields f s.memory (Prepends f (s.size f) (s.capacity f) a.length) (a.chars s.memory ++ s.content f)
      ((s.insert f 0 a.src a.length).map (moved f i)) := by
  by_cases hempty : s.size f = 0
  · obtain ⟨t, ht, hb, _⟩ := append_cases h hmax ha
    rw [content_eq_nil.mpr hempty, List.nil_append] at hb
    rw [content_eq_nil.mpr hempty, List.append_nil, State.insert, if_neg (Nat.not_lt_zero _), if_pos hempty.symm]
    exact .inl ⟨.inl hempty, ((moved_yields h hb ht).gives_iff).mpr ⟨trivial, rfl⟩⟩
  · rw [State.insert, if_neg (Nat.not_lt_zero _), if_neg (Ne.symm hempty), mod_of_le (Nat.le_of_add_left_le hmax),
      insertImpl_eq]
    obtain ⟨t, ht, ⟨hopens, hgap⟩ | ⟨hopens, hmisuse⟩⟩ := opened_first h hmax
    · have hb := hgap.becomes (Nat.zero_le _) (ha.puts hgap.keeps hgap.apart (hgap.room (Nat.zero_le _)))
      rw [ht]
      exact .inl ⟨.inr hopens, ((moved_yields h hb rfl).gives_iff).mpr ⟨trivial, rfl⟩⟩
    · rw [ht]
      exact .inr ⟨fun hprepends => hprepends.elim hempty hopens,
        (hmisuse.trans_le tame_copyHelper.misuse).trans_le (moved_misuse_le (s := t.withMemory _))⟩

end

section

theorem valid_ofNative (hm : s.memory = m) (h : Owns f m k rhs) (hk : k ≠ s.home)
    (halone : ∀ q, held rhs = some q → held s.str ≠ some q) : (ofNative f rhs).Valid f s := by
  subst hm
  refine .inl ⟨?_, ?_⟩
  · by_cases hsmall : rhs.capacity f ≤ f.sso
    · rw [placed_small h.placed hsmall]
      exact hk
    · obtain ⟨q, hq, _⟩ := placed_heap h.placed (not_le.mp hsmall)
      rw [hq]
      exact ⟨h.block_ne (held_heap hq), halone q (held_heap hq)⟩
  · rw [Nat.zero_add]
    exact h.size_le.trans h.capacity_le_room

theorem rvalues_yields (h : Usable f ⟨m, j, lhs⟩) (h' : Usable f ⟨m, k, rhs⟩) (hij : i ≠ j) (hik : i ≠ k)
    (hjk : j ≠ k) (halone : ∀ q, held lhs = some q → held rhs ≠ some q) (hmax : lhs.size f + rhs.size f ≤ f.maxSize) :
    (lhs.size f + rhs.size f ≤ lhs.capacity f ∨ rhs.capacity f < lhs.size f + rhs.size f) ∧
      Yields f m True (contentOf f m lhs ++ contentOf f m rhs) (call f m i (.rvalues j lhs k rhs)) ∨
    ¬ (lhs.size f + rhs.size f ≤ lhs.capacity f ∨ rhs.capacity f < lhs.size f + rhs.size f) ∧
      Yields f m True (contentOf f m rhs ++ contentOf f m lhs) (call f m i (.rvalues j lhs k rhs)) := by
  by_cases hleft : lhs.size f + rhs.size f ≤ lhs.capacity f
  · refine .inl ⟨.inl hleft, ?_⟩
    rw [call, if_pos hleft]
    exact extend_moved_yields h (valid_ofNative rfl h'.owns hjk.symm fun q hq hq' => halone q hq' hq) hmax
  · by_cases hright : lhs.size f + rhs.size f ≤ rhs.capacity f
    · refine .inr ⟨not_or.mpr ⟨hleft, hright.not_gt⟩, ?_⟩
      rw [call, if_neg hleft, if_pos hright]
      exact extend_moved_yields h' (valid_ofNative rfl h.owns hjk halone)
        ((Nat.add_comm _ _).le.trans hmax)
    · -- both are copied into a new string
      refine .inl ⟨.inr (not_le.mp hright), ?_⟩
      have hblank : Usable f (blank f m i) := usable_blank h.owns.small h.fresh h.served
      have hnone (q : Nat) : held (blank f m i).str ≠ some q := nofun
      have hl := valid_ofNative (s := blank f m i) rfl h.owns hij.symm fun q _ => hnone q
      have hr := valid_ofNative (s := blank f m i) rfl h'.owns hik.symm fun q _ => hnone q
      obtain ⟨t, ht, hprep⟩ := (reserve_prepared hblank.owns hblank.fresh hmax).resolve_right hblank.not_refused
      have hb := hprep.becomes
      have hapart := apart_of_kept (keeps_becomes hb) hprep.kept
      have hsize : t.size f = 0 := hb.size.trans (length_content.trans size_blank)
      have hnil := content_eq_nil.mpr hsize
      obtain ⟨u, hu, hbu, hapartu⟩ := extend_becomes (hblank.becomes hb) (hl.later (keeps_becomes hb))
        (by rw [hsize, Nat.zero_add]; exact Nat.le_of_add_right_le hmax)
      rw [hnil, List.nil_append, hl.chars_eq hapart] at hbu
      have hsizeu := hbu.size.trans (length_chars_valid rfl hl)
      have hrt := hr.later (keeps_becomes hb)
      obtain ⟨w, hw, hbw, _⟩ := extend_becomes ((hblank.becomes hb).becomes hbu) (hrt.later (keeps_becomes hbu))
        (by rw [hsizeu]; exact hmax)
      rw [hbu.content, hrt.chars_eq hapartu, hr.chars_eq hapart] at hbw
      rw [call, if_neg hleft, if_neg hright, mod_of_le hmax]
      refine yields_of_becomes (s := blank f m i) ((hb.trans hbu).trans hbw) ?_
      rw [ht, Outcome.andThen_returned, hu, Outcome.andThen_returned, hw]

end

/-- `a + b` has the characters of `a` and then those of `b`, exactly for the sound calls. -/
theorem gives_iff_sound {c : Call α} (hvalid : Valid f m i c)
    (hmax : (left f m c).length + (right f m c).length ≤ f.maxSize) :
    Gives f m (left f m c ++ right f m c) (call f m i c) ↔ Sound f m c := by
  cases c with
  | constConst lhs rhs lhsBufferSize rhsBufferSize =>
    obtain ⟨h, hl, hr, _⟩ := hvalid
    have hsum : lhs.length + rhs.length ≤ f.maxSize := by
      rwa [left, right, length_chars_valid (m := m) rfl hl, length_chars_valid (m := m) rfl hr] at hmax
    rw [call, Sound]
    by_cases hsizes : lhsBufferSize ≥ rhsBufferSize
    · rw [if_pos hsizes, (copied_yields h hl hr hsum).gives_iff]
      exact iff_of_true ⟨trivial, rfl⟩ (.inl hsizes)
    · rw [if_neg hsizes, (copied_yields h hr hl (by omega)).gives_iff, or_iff_right hsizes]
      exact and_iff_right trivial
  | constChars lhs str =>
    obtain ⟨h, hl, hr⟩ := hvalid
    rw [left, right, length_chars_valid (m := m) rfl hl, length_chars_valid (m := m) rfl hr] at hmax
    exact (copied_yields h hl hr hmax).gives_iff.trans (iff_of_true ⟨trivial, rfl⟩ trivial)
  | constChar lhs ch =>
    obtain ⟨h, hl⟩ := hvalid
    rw [left, right, length_chars_valid (m := m) rfl hl] at hmax
    exact (copied_push_yields ch h hl hmax).gives_iff.trans (and_iff_left rfl)
  | rvalueChars j lhs str | rvalueConst j lhs rhs =>
    obtain ⟨h, hr, _⟩ := hvalid
    rw [left, right, length_chars_valid (m := m) rfl hr, contentOf, length_load] at hmax
    exact (extend_moved_yields h hr hmax).gives_iff.trans (iff_of_true ⟨trivial, rfl⟩ trivial)
  | rvalueChar j lhs ch =>
    obtain ⟨h, _⟩ := hvalid
    rw [left, right, contentOf, length_load] at hmax
    obtain ⟨husable, hsize, hcapacity, hcontent, hmisuse⟩ := moved_same i h
    have hpush := pushBack_yields ch husable (by rw [hsize]; exact hmax)
    rw [hsize, hcapacity, hcontent, Yields, Gives, hmisuse] at hpush
    exact (Yields.gives_iff hpush).trans (and_iff_left rfl)
  | charsConst str rhs =>
    obtain ⟨h, hl, hr⟩ := hvalid
    rw [left, right, length_chars_valid (m := m) rfl hl, length_chars_valid (m := m) rfl hr] at hmax
    exact (copied_yields h hr hl (by omega)).gives_iff.trans (and_iff_right trivial)
  | charConst ch rhs =>
    obtain ⟨h, hr⟩ := hvalid
    rw [left, right, length_chars_valid (m := m) rfl hr, List.length_singleton] at hmax
    exact (copied_push_yields ch h hr (by omega)).gives_iff
  | charsRvalue str j rhs | constRvalue lhs j rhs =>
    obtain ⟨h, hl, _⟩ := hvalid
    rw [left, right, length_chars_valid (m := m) rfl hl, contentOf, length_load] at hmax
    exact (insert_moved_yields h hl (by rw [Nat.add_comm]; exact hmax)).gives_iff.trans (and_iff_left rfl)
  | rvalues j lhs k rhs =>
    obtain ⟨h, h', hij, hik, hjk, halone⟩ := hvalid
    rw [left, right, contentOf, contentOf, length_load, length_load] at hmax
    rw [Sound, ← or_assoc]
    obtain ⟨hfirst, hyields⟩ | ⟨hsecond, hyields⟩ := rvalues_yields h h' hij hik hjk halone hmax
    · exact hyields.gives_iff.trans (iff_of_true ⟨trivial, rfl⟩ (.inl hfirst))
    · exact hyields.gives_iff.trans ((and_iff_right trivial).trans (or_iff_right hsecond).symm)

/-- The string "a" that is moved from, and "b". -/
theorem gives_iff_sound_single : Valid unicode single.memory 1 (.rvalueChars 0 single.str ⟨.external [98], 1⟩) ∧
      Gives unicode single.memory [some 97, some 98]
        (call unicode single.memory 1 (.rvalueChars 0 single.str ⟨.external [98], 1⟩)) := by
  have hvalid : Valid unicode single.memory 1 (.rvalueChars 0 single.str ⟨.external [98], 1⟩) :=
    ⟨usable_single, Nat.le_refl 1, by decide⟩
  have hmax : (left unicode single.memory (.rvalueChars 0 single.str ⟨.external [98], 1⟩)).length + 1 ≤
      unicode.maxSize := by decide +kernel
  have hleft : left unicode single.memory (.rvalueChars 0 single.str ⟨.external [98], 1⟩) = [some 97] := by
    decide +kernel
  have hgives := (gives_iff_sound hvalid hmax).mpr trivial
  rw [hleft] at hgives
  exact ⟨hvalid, hgives⟩

/-- "b" and the string "a" give the string "ab". -/
theorem chars_plus_string_reversed :
    ∃ t, call unicode single.memory 1 (.charsConst ⟨.external [98], 1⟩ (ofNative unicode single.str)) = .returned t ∧
      t.content unicode = [some 97, some 98] ∧
      left unicode single.memory (.charsConst ⟨.external [98], 1⟩ (ofNative unicode single.str)) ++
        right unicode single.memory (.charsConst ⟨.external [98], 1⟩ (ofNative unicode single.str)) =
          [some 98, some 97] :=
  ⟨_, rfl, by decide +kernel, by decide +kernel⟩

end Ktl.StringConcatenation
