import Ktl.ObjectMemory

/-!
What the objects of a block are after the operations on ranges, as functions
from slots to values, and the count of misuse, which never goes down.
-/
namespace Ktl.ObjectValues

open ObjectMemory Function Option

variable {α : Type*} {m m' : Memory α} {cells src : Nat → Option α}

def patch (cells : Nat → Option α) (start n : Nat) (src : Nat → Option α) : Nat → Option α :=
  fun k => if start ≤ k ∧ k < start + n then src (k - start) else cells k

theorem patch_zero : patch cells start 0 src = cells := by
  funext k
  exact if_neg (by omega)

theorem patch_succ (src : Nat → Option α) : patch (update cells start (src 0)) (start + 1) n (fun k => src (k + 1)) =
      patch cells start (n + 1) src := by
  funext k
  by_cases hk : k = start
  · subst hk
    rw [patch, patch, if_neg (by omega), if_pos (by omega), update_self, Nat.sub_self]
  · rw [patch, patch, update_of_ne hk]
    by_cases hin : start + 1 ≤ k ∧ k < start + 1 + n
    · have hindex : k - (start + 1) + 1 = k - start := by omega
      rw [if_pos hin, if_pos (by omega), hindex]
    · rw [if_neg hin, if_neg (by omega)]

theorem patch_ahead (g : Option α → Option α) (i j n k : Nat) (hk : k ≤ i) :
    patch (update cells j (g (src i))) (j + 1) n (fun l => g (update src k y (i + 1 + l))) =
      patch cells j (n + 1) fun l => g (src (i + l)) := by
  have hahead : (fun l => g (update src k y (i + 1 + l))) = fun l => g (src (i + (l + 1))) := by
    funext l
    rw [update_of_ne (by omega), Nat.add_assoc, Nat.add_comm 1]
  rw [hahead]
  exact patch_succ fun l => g (src (i + l))

def relocated (left : α → α) (cells : Nat → Option α) (i j n : Nat) : Nat → Option α :=
  patch (patch cells i n fun k => (cells (i + k)).map left) j n fun k => cells (i + k)

def stepped (left : α → α) (cells : Nat → Option α) (i j : Nat) (v : α) : Nat → Option α :=
  update (update cells i (some (left v))) j (some v)

theorem relocated_zero (left : α → α) : relocated left cells i j 0 = cells := by
  rw [relocated, patch_zero, patch_zero]
theorem patch_inside (src : Nat → Option α) (hk : start ≤ k ∧ k < start + n) :
    patch cells start n src k = src (k - start) := if_pos hk
theorem patch_outside (src : Nat → Option α) (hk : ¬ (start ≤ k ∧ k < start + n)) :
    patch cells start n src k = cells k := if_neg hk

section

variable (left : α → α)

theorem relocated_arrived (hk : j ≤ k ∧ k < j + n) : relocated left cells i j n k = cells (i + (k - j)) :=
  patch_inside _ hk

theorem relocated_left (hk : ¬ (j ≤ k ∧ k < j + n)) (hin : i ≤ k ∧ k < i + n) :
    relocated left cells i j n k = (cells k).map left := by
  rw [relocated, patch_outside _ hk, patch_inside _ hin, Nat.add_sub_cancel' hin.1]

theorem relocated_other (hk : ¬ (j ≤ k ∧ k < j + n)) (hin : ¬ (i ≤ k ∧ k < i + n)) :
    relocated left cells i j n k = cells k := by
  rw [relocated, patch_outside _ hk, patch_outside _ hin]

theorem stepped_other (v : α) (hi : k ≠ i) (hj : k ≠ j) : stepped left cells i j v k = cells k := by
  rw [stepped, update_of_ne hj, update_of_ne hi]
theorem stepped_arrived (v : α) : stepped left cells i j v j = some v := update_self _ _ _
theorem stepped_left (v : α) (hij : i ≠ j) : stepped left cells i j v i = some (left v) := by
  rw [stepped, update_of_ne hij, update_self]

theorem relocated_first (hv : cells i = some v) (hbehind : i + n < j) :
    relocated left (stepped left cells i j v) (i + 1) (j + 1) n = relocated left cells i j (n + 1) := by
  funext k
  by_cases hdst : j + 1 ≤ k ∧ k < j + 1 + n
  · have hindex : i + 1 + (k - (j + 1)) = i + (k - j) := by omega
    simp (disch := omega) only [relocated_arrived left hdst, relocated_arrived, stepped_other, hindex]
  by_cases hj : k = j
  · rw [relocated_other left hdst (by omega), relocated_arrived left (by omega), hj, stepped_arrived, Nat.sub_self,
      Nat.add_zero, hv]
  by_cases hin : i + 1 ≤ k ∧ k < i + 1 + n
  · simp (disch := omega) only [relocated_left left hdst hin, relocated_left, stepped_other]
  by_cases hi : k = i
  · rw [relocated_other left hdst hin, relocated_left left (by omega) (by omega), hi,
      stepped_left left v (by omega), hv, map_some]
  · rw [relocated_other left hdst hin, relocated_other left (by omega) (by omega), stepped_other left v hi hj]

theorem relocated_last (hv : cells (i + n) = some v) (hij : i < j) :
    relocated left (stepped left cells (i + n) (j + n) v) i j n = relocated left cells i j (n + 1) := by
  funext k
  by_cases hdst : j ≤ k ∧ k < j + n
  · simp (disch := omega) only [relocated_arrived left hdst, relocated_arrived, stepped_other]
  by_cases hj : k = j + n
  · have hindex : i + (j + n - j) = i + n := by omega
    rw [hj] at hdst ⊢
    rw [relocated_other left hdst (by omega), relocated_arrived left (by omega), stepped_arrived, hindex, hv]
  by_cases hin : i ≤ k ∧ k < i + n
  · simp (disch := omega) only [relocated_left left hdst hin, relocated_left, stepped_other]
  by_cases hi : k = i + n
  · rw [hi] at hdst hin ⊢
    simp (disch := omega) only [relocated_other left hdst hin, relocated_left, stepped_left, hv, map_some]
  · rw [relocated_other left hdst hin, relocated_other left (by omega) (by omega), stepped_other left v hi hj]

end

theorem patch_exchanged (cells : Nat → Option α) (i n : Nat) :
    patch (update (update cells i (cells (i + n + 1))) (i + n + 1) (cells i)) (i + 1) n
        (fun k => update (update cells i (cells (i + n + 1))) (i + n + 1) (cells i) (i + 1 + (n - 1 - k))) =
      patch cells i (n + 2) fun k => cells (i + (n + 2 - 1 - k)) := by
  funext k
  by_cases hin : i + 1 ≤ k ∧ k < i + 1 + n
  · have hindex : i + 1 + (n - 1 - (k - (i + 1))) = i + (n + 2 - 1 - (k - i)) := by omega
    simp (disch := omega) only [patch_inside, update_of_ne, hindex]
  rw [patch_outside _ hin]
  by_cases hlast : k = i + n + 1
  · have hindex : i + (n + 2 - 1 - (k - i)) = i := by omega
    rw [patch_inside _ (by omega), hindex, hlast, update_self]
  by_cases hfirst : k = i
  · have hindex : i + (n + 2 - 1 - (k - i)) = i + n + 1 := by omega
    rw [patch_inside _ (by omega), hindex, update_of_ne hlast, hfirst, update_self]
  · simp (disch := omega) only [patch_outside, update_of_ne]

theorem read_none (h : Has m q c live) (hraw : ¬ live i) : m.read (some q) i = none := by
  obtain ⟨b, hb, _, _, hcells⟩ := h
  have hempty : b.cells i = none := by simpa [hraw] using hcells i
  simp [Memory.read, hb, hempty]

theorem read_block (hblock : m'.block q = m.block q) : m'.read (some q) = m.read (some q) := by
  funext k
  simp [Memory.read, hblock]

theorem read_only (ho : Only touched m m') (hq : ¬ touched q) : m'.read (some q) = m.read (some q) :=
  read_block (ho.block q hq)

section

variable {b : Block α}

def setCells (m : Memory α) (q : Nat) (b : Block α) (cells : Nat → Option α) : Memory α :=
  { m with block := update m.block q (some { b with cells := cells }) }

theorem setCells_block (m : Memory α) (q : Nat) (b : Block α) (cells : Nat → Option α) :
    (setCells m q b cells).block q = some { b with cells := cells } :=
  update_self _ _ _

theorem setCells_block_ne (m : Memory α) (b : Block α) (cells : Nat → Option α) (hne : q' ≠ q) :
    (setCells m q b cells).block q' = m.block q' :=
  update_of_ne hne _ _

theorem setCells_setCells (m : Memory α) (q : Nat) (b : Block α) (cells cells' : Nat → Option α) :
    setCells (setCells m q b cells) q { b with cells := cells } cells' = setCells m q b cells' := by
  rw [setCells, setCells, setCells, update_idem]

theorem setCells_self (hb : m.block q = some b) : setCells m q b b.cells = m := by
  rw [setCells, ← hb, update_eq_self]

theorem assign_self (hv : m.read (some q) i = some v) : m.assign (some q) i v = m := by
  cases hb : m.block q with
  | none => simp [Memory.read, hb] at hv
  | some b =>
    by_cases hi : i < b.slots
    · have hcell : b.cells i = some v := by simpa [Memory.read, hb, hi] using hv
      have hassign : m.assign (some q) i v = setCells m q b (update b.cells i (some v)) := by
        simp only [Memory.assign, Memory.access, hb, if_pos hi, hcell, isSome_some, if_true]
        rfl
      rw [hassign, ← hcell, update_eq_self, setCells_self hb]
    · simp [Memory.read, hb, hi] at hv

theorem construct_eq (v : α) (hb : m.block q = some b) (hi : i < b.slots) (hraw : b.cells i = none) :
    m.construct (some q) i v = setCells m q b (update b.cells i (some v)) := by
  simp only [Memory.construct, Memory.access, hb, if_pos hi, hraw, isNone_none, if_true]
  rfl

section

variable (hb : m.block q = some b)

include hb

theorem destroy_eq (hi : i < b.slots) (hlive : (b.cells i).isSome) :
    m.destroy (some q) i = setCells m q b (update b.cells i none) := by
  simp only [Memory.destroy, Memory.access, hb, if_pos hi, hlive, if_true]
  rfl

theorem transferN_id_eq (hd : m.block q' = some d) (hne : q ≠ q') (hsrc : i + n ≤ b.slots)
    (hdst : i + n ≤ d.slots) (hlive : ∀ k, InRange i n k → (b.cells k).isSome)
    (hraw : ∀ k, InRange i n k → d.cells k = none) :
    m.transferN id (some q) i (some q') i n = setCells m q' d (patch d.cells i n fun k => b.cells (i + k)) := by
  induction n generalizing m i d with
  | zero =>
    rw [patch_zero, setCells_self hd]
    rfl
  | succ n ih =>
    obtain ⟨v, hv⟩ := isSome_iff_exists.mp (hlive i inRange_first)
    have hread : m.read (some q) i = some v := by
      have hi : i < b.slots := by omega
      simp [Memory.read, hb, hi, hv]
    have hstep : m.take (some q) i id (fun m v => m.construct (some q') i v) =
        setCells m q' d (update d.cells i (some v)) := by
      rw [Memory.take, hread]
      simp only [id_eq, assign_self hread]
      exact construct_eq v hd (by omega) (hraw i inRange_first)
    have hlater : ∀ k, InRange (i + 1) n k → update d.cells i (some v) k = none := by
      intro k hk
      rw [update_of_ne hk.ne]
      exact hraw k hk.later
    have hrest := ih (m := setCells m q' d (update d.cells i (some v))) (i := i + 1)
      (d := { d with cells := update d.cells i (some v) })
      (by rw [setCells_block_ne m d _ hne, hb]) (setCells_block _ _ _ _) (by omega) (by simp only; omega)
      (fun k hk => hlive k hk.later) hlater
    rw [setCells_setCells, ← hv] at hrest
    have hsrc' : (fun k => b.cells (i + 1 + k)) = fun k => b.cells (i + (k + 1)) := by
      funext k
      rw [Nat.add_assoc, Nat.add_comm 1]
    have hfirst : b.cells i = (fun k => b.cells (i + k)) 0 := rfl
    rw [Memory.transferN, hstep, hv.symm, hrest, hsrc', hfirst, patch_succ fun k => b.cells (i + k)]

theorem destroyN_eq (hroom : i + n ≤ b.slots) (hlive : ∀ k, InRange i n k → (b.cells k).isSome) :
    m.destroyN (some q) i n = setCells m q b (patch b.cells i n fun _ => none) := by
  induction n generalizing m i b with
  | zero =>
    rw [patch_zero, setCells_self hb]
    rfl
  | succ n ih =>
    have hlater : ∀ k, InRange (i + 1) n k → (update b.cells i none k).isSome := by
      intro k hk
      rw [update_of_ne hk.ne]
      exact hlive k hk.later
    have hrest := ih (m := setCells m q b (update b.cells i none)) (i := i + 1)
      (b := { b with cells := update b.cells i none }) (setCells_block _ _ _ _) (by simp only; omega) hlater
    rw [Memory.destroyN, destroy_eq hb (by omega) (hlive i inRange_first), hrest, setCells_setCells]
    exact congrArg (setCells m q b) (patch_succ fun _ => none)

theorem destroyN_transferN_id (hd : m.block q' = some d) (hne : q ≠ q') (hsrc : n ≤ b.slots)
    (hdst : n ≤ d.slots) (hlive : ∀ k < n, (b.cells k).isSome) (hraw : ∀ k < n, d.cells k = none) :
    (m.transferN id (some q) 0 (some q') 0 n).destroyN (some q') 0 n = m := by
  have hcopied : ∀ k, InRange 0 n k → (patch d.cells 0 n (fun k => b.cells (0 + k)) k).isSome := by
    intro k hk
    rw [patch_inside _ hk, Nat.sub_zero, Nat.zero_add]
    exact hlive k (hk.lt (by omega))
  have hgone : patch (patch d.cells 0 n fun k => b.cells (0 + k)) 0 n (fun _ => none) = d.cells := by
    funext k
    by_cases hk : k < n
    · rw [patch_inside _ (by omega), hraw k hk]
    · simp (disch := omega) only [patch_outside]
  have hdestroyed := destroyN_eq (setCells_block m q' d (patch d.cells 0 n fun k => b.cells (0 + k)))
    (by simp only; omega) hcopied
  rw [transferN_id_eq hb hd hne (by omega) (by omega) (fun k hk => hlive k (hk.lt (by omega)))
    fun k hk => hraw k (hk.lt (by omega)), hdestroyed, setCells_setCells, hgone, setCells_self hd]

end

end

theorem misuse_le_blame : m.misuse ≤ m.blame.misuse := Nat.le_succ _

theorem misuse_le_access : m.misuse ≤ (m.access p i f).misuse := by
  unfold Memory.access
  split
  · exact misuse_le_blame
  · split
    · exact misuse_le_blame
    · split
      · split
        · exact le_rfl
        · exact misuse_le_blame
      · exact misuse_le_blame

theorem misuse_le_constructList : m.misuse ≤ (m.constructList p start vs).misuse := by
  induction vs generalizing m start with
  | nil => exact le_rfl
  | cons v vs ih => exact misuse_le_access.trans ih

theorem misuse_le_destroyN : m.misuse ≤ (m.destroyN p start n).misuse := by
  induction n generalizing m start with
  | zero => exact le_rfl
  | succ n ih => exact misuse_le_access.trans ih

theorem misuse_le_transferN : m.misuse ≤ (m.transferN left p i dst j n).misuse := by
  induction n generalizing m i j with
  | zero => exact le_rfl
  | succ n ih =>
    have htake : m.misuse ≤ (m.take p i left fun m v => m.construct dst j v).misuse := by
      unfold Memory.take
      split
      · exact misuse_le_access.trans misuse_le_access
      · exact misuse_le_blame
    exact htake.trans ih

theorem misuse_le_deallocate : m.misuse ≤ (m.deallocate p count).misuse := by
  unfold Memory.deallocate
  split
  · exact le_rfl
  · split
    · exact misuse_le_blame
    · exact Nat.le_add_right _ _

theorem misuse_access_beyond (hb : m.block q = some b) (hi : b.slots ≤ i) :
    m.misuse < (m.access (some q) i f).misuse := by
  have hblame : m.access (some q) i f = m.blame := by
    simp [Memory.access, hb, if_neg hi.not_gt]
  rw [hblame]
  exact Nat.lt_succ_self _

theorem misuse_construct_beyond (hb : m.block q = some b) (hi : b.slots ≤ i) :
    m.misuse < (m.construct (some q) i v).misuse :=
  misuse_access_beyond hb hi

theorem slots_of_sameBlocks (h : SameBlocks m m') (hb : m.block q = some b) :
    ∃ b', m'.block q = some b' ∧ b'.slots = b.slots := by
  have hshape := h.shape q
  rw [hb, map_some, map_eq_some_iff] at hshape
  obtain ⟨b', hb', hsame⟩ := hshape
  exact ⟨b', hb', congrArg (·.2.2) hsame⟩

theorem misuse_constructList_beyond (start : Nat) (vs : List α) (hb : m.block q = some b) (hpos : 0 < vs.length)
    (hbeyond : b.slots < start + vs.length) : m.misuse < (m.constructList (some q) start vs).misuse := by
  induction vs generalizing m start b with
  | nil => exact absurd hpos (Nat.lt_irrefl 0)
  | cons v vs ih =>
    rw [List.length_cons] at hbeyond
    by_cases hlast : b.slots ≤ start
    · exact (misuse_construct_beyond hb hlast).trans_le misuse_le_constructList
    · obtain ⟨b', hb', hslots⟩ := slots_of_sameBlocks sameBlocks_access hb
      exact misuse_le_access.trans_lt (ih (start + 1) hb' (by omega) (by omega))

end Ktl.ObjectValues
