import Ktl.ObjectValues

/-!
Which cells of a block hold an object after the operations on its objects, and what is read
there. No other block changes.
-/
namespace Ktl.ObjectMemory

open Memory ObjectValues List

variable {α : Type*} {m : Memory α}  {live live' : Nat → Prop}
  {cells cells' : Nat → Option α}

structure Changes (m : Memory α) (q c : Nat) (m' : Memory α) (live : Nat → Prop) (cells : Nat → Option α) : Prop where
  has : Has m' q c live
  only : Only (· = q) m m'
  reads : m'.read (some q) = cells

theorem Has.unchanged (h : Has m q c live) : Changes m q c m live (m.read (some q)) :=
  ⟨h, Only.refl _ _, rfl⟩

theorem Changes.trans (h : Changes m q c m' live cells) (h' : Changes m' q c m'' live' cells') :
    Changes m q c m'' live' cells' :=
  ⟨h'.has, h.only.trans h'.only, h'.reads⟩

theorem Changes.congr (h : Changes m q c m' live cells) (hlive : ∀ i, live i ↔ live' i)
    (hcells : cells = cells') : Changes m q c m' live' cells' :=
  ⟨h.has.congr hlive, h.only, h.reads.trans hcells⟩

theorem Has.access (f : Option α → Option (Option α)) (h : Has m q c live) (hi : i < c)
    (hy : f (m.read (some q) i) = some y) :
    Changes m q c (m.access (some q) i f) (fun j => if j = i then y.isSome = true else live j)
      (Function.update (m.read (some q)) i y) := by
  obtain ⟨b, hb, hcount, hslots, hcells⟩ := h
  have hin : i < b.slots := hi.trans_le hslots
  have hcell : m.read (some q) i = b.cells i := by simp [Memory.read, hb, hin]
  rw [hcell] at hy
  have heq : m.access (some q) i f = m.setCell q b i y := by
    simp [Memory.access, hb, if_pos hin, hy]
  rw [heq]
  constructor
  · refine ⟨{ b with cells := Function.update b.cells i y }, by simp [setCell], hcount, hslots, fun j => ?_⟩
    by_cases hj : j = i
    · simp [hj]
    · simpa [hj] using hcells j
  · refine ⟨rfl, rfl, rfl, rfl, fun q' hq' => ?_⟩
    simp [setCell, hq']
  · funext k
    by_cases hk : k = i
    · subst hk
      simp [Memory.read, setCell, hin]
    · simp [Memory.read, setCell, hb, hk]

section

variable (h : Has m q c live) (hi : i < c)

include h hi

theorem Has.construct (hraw : ¬ live i) : Changes m q c (m.construct (some q) i v) (fun j => j = i ∨ live j)
      (Function.update (m.read (some q)) i (some v)) := by
  refine (h.access _ (y := some v) hi ?_).congr (fun j => ?_) rfl
  · rw [read_none h hraw]
    rfl
  · by_cases hj : j = i <;> simp [hj]

theorem Has.destroy (hlive : live i) : Changes m q c (m.destroy (some q) i) (fun j => j ≠ i ∧ live j)
      (Function.update (m.read (some q)) i none) := by
  obtain ⟨x, hx⟩ := h.read hi hlive
  refine (h.access _ (y := none) hi ?_).congr (fun j => ?_) rfl
  · rw [hx]
    rfl
  · by_cases hj : j = i <;> simp [hj]

theorem Has.assign (hlive : live i) :
    Changes m q c (m.assign (some q) i v) live (Function.update (m.read (some q)) i (some v)) := by
  obtain ⟨x, hx⟩ := h.read hi hlive
  refine (h.access _ (y := some v) hi ?_).congr (fun j => ?_) rfl
  · rw [hx]
    rfl
  · by_cases hj : j = i <;> simp [hj, hlive]

theorem Has.take (hlive : live i) (left : α → α) (use : Memory α → α → Memory α) :
    ∃ m₁ v, m.take (some q) i left use = use m₁ v ∧ m.read (some q) i = some v ∧
      Changes m q c m₁ live (Function.update (m.read (some q)) i (some (left v))) := by
  obtain ⟨v, hv⟩ := h.read hi hlive
  exact ⟨m.assign (some q) i (left v), v, by simp only [Memory.take, hv], hv, h.assign hi hlive⟩

end

theorem raw_later (hraw : ∀ k, InRange j (n + 1) k → ¬ live k) (k : Nat) (hk : InRange (j + 1) n k) :
    ¬ (k = j ∨ live k) := by
  rintro (rfl | hl)
  · exact hk.ne rfl
  · exact hraw k hk.later hl

theorem filled_succ (k : Nat) : InRange (j + 1) n k ∨ (k = j ∨ live k) ↔ InRange j (n + 1) k ∨ live k := by
  rw [inRange_succ]
  tauto

theorem filled_zero (k : Nat) : live k ↔ InRange j 0 k ∨ live k := by simp [not_inRange_zero]

theorem Has.constructList (start : Nat) (vs : List α) (h : Has m q c live) (hroom : start + vs.length ≤ c)
    (hraw : ∀ i, InRange start vs.length i → ¬ live i) :
    Changes m q c (m.constructList (some q) start vs) (fun i => InRange start vs.length i ∨ live i)
      (patch (m.read (some q)) start vs.length fun k => vs[k]?) := by
  induction vs generalizing m start live with
  | nil => exact h.unchanged.congr filled_zero patch_zero.symm
  | cons v vs ih =>
    simp only [length_cons] at hroom hraw ⊢
    have hfirst := h.construct (v := v) (i := start) (by omega) (hraw start inRange_first)
    have hrest := ih (start + 1) hfirst.has (by omega) (raw_later hraw)
    rw [hfirst.reads] at hrest
    exact (hfirst.trans hrest).congr filled_succ (patch_succ fun k => (v :: vs)[k]?)

theorem Has.destroyN (start n : Nat) (h : Has m q c live) (hroom : start + n ≤ c)
    (hlive : ∀ i, InRange start n i → live i) :
    Changes m q c (m.destroyN (some q) start n) (fun i => live i ∧ ¬ InRange start n i)
      (patch (m.read (some q)) start n fun _ => none) := by
  induction n generalizing m start live with
  | zero => exact h.unchanged.congr (by simp [not_inRange_zero]) patch_zero.symm
  | succ n ih =>
    have hfirst := h.destroy (i := start) (by omega) (hlive start inRange_first)
    have hrest := ih (start + 1) hfirst.has (by omega) fun i hi => ⟨hi.ne, hlive i hi.later⟩
    rw [hfirst.reads] at hrest
    refine (hfirst.trans hrest).congr (fun i => ?_) (patch_succ fun _ => none)
    rw [inRange_succ]
    tauto

theorem Has.assignList (start : Nat) (vs : List α) (h : Has m q c live) (hroom : start + vs.length ≤ c)
    (hlive : ∀ i, InRange start vs.length i → live i) :
    Changes m q c (m.assignList (some q) start vs) live (patch (m.read (some q)) start vs.length fun k => vs[k]?) := by
  induction vs generalizing m start with
  | nil => exact h.unchanged.congr (fun _ => Iff.rfl) patch_zero.symm
  | cons v vs ih =>
    simp only [length_cons] at hroom hlive
    have hfirst := h.assign (v := v) (i := start) (by omega) (hlive start inRange_first)
    have hrest := ih (start + 1) hfirst.has (by omega) fun i hi => hlive i hi.later
    rw [hfirst.reads] at hrest
    exact (hfirst.trans hrest).congr (fun _ => Iff.rfl) (patch_succ fun k => (v :: vs)[k]?)

theorem Has.assignN (h : Has m q c live) (hji : j ≤ i) (hsrc : i + n ≤ c)
    (hlive : ∀ k, InRange i n k → live k) (hlive' : ∀ k, InRange j n k → live k) :
    Changes m q c (m.assignN (some q) i j n) live (patch (m.read (some q)) j n fun k => m.read (some q) (i + k)) := by
  induction n generalizing m i j with
  | zero => exact h.unchanged.congr (fun _ => Iff.rfl) patch_zero.symm
  | succ n ih =>
    obtain ⟨v, hv⟩ := h.read (by omega) (hlive i inRange_first)
    have hfirst := h.assign (v := v) (i := j) (by omega) (hlive' j inRange_first)
    have hrest := ih hfirst.has (i := i + 1) (j := j + 1) (by omega) (by omega)
      (fun k hk => hlive k hk.later) (fun k hk => hlive' k hk.later)
    rw [hfirst.reads, ← hv] at hrest
    simp only [Memory.assignN, hv]
    exact (hfirst.trans hrest).congr (fun _ => Iff.rfl) (patch_ahead id i j n j hji)

theorem Has.copyN (hne : q ≠ q') (h : Has m q c live) (h' : Has m q' c' live') (hsrc : i + n ≤ c)
    (hdst : j + n ≤ c') (hlive : ∀ k, InRange i n k → live k) (hraw : ∀ k, InRange j n k → ¬ live' k) :
    Changes m q' c' (m.copyN (some q) i (some q') j n) (fun k => InRange j n k ∨ live' k)
      (patch (m.read (some q')) j n fun k => m.read (some q) (i + k)) := by
  induction n generalizing m i j live' with
  | zero => exact h'.unchanged.congr filled_zero patch_zero.symm
  | succ n ih =>
    obtain ⟨v, hv⟩ := h.read (by omega) (hlive i inRange_first)
    have hfirst := h'.construct (v := v) (i := j) (by omega) (hraw j inRange_first)
    have hrest := ih (h.frame hfirst.only hne) hfirst.has (i := i + 1) (by omega) (by omega)
      (fun k hk => hlive k hk.later) (raw_later hraw)
    rw [hfirst.reads, read_only hfirst.only hne, ← hv] at hrest
    simp only [Memory.copyN, hv]
    refine (hfirst.trans hrest).congr filled_succ (Eq.trans ?_ (patch_succ fun k => m.read (some q) (i + k)))
    simp [Nat.add_assoc, Nat.add_comm 1]

structure Transfers (m : Memory α) (q c q' c' : Nat) (m' : Memory α) (live live' : Nat → Prop)
    (cells cells' : Nat → Option α) : Prop where
  source : Has m' q c live
  target : Has m' q' c' live'
  only : Only (fun p => p = q ∨ p = q') m m'
  left : m'.read (some q) = cells
  reads : m'.read (some q') = cells'

theorem Has.transferN (left : α → α) (hne : q ≠ q') (h : Has m q c live) (h' : Has m q' c' live')
    (hsrc : i + n ≤ c) (hdst : j + n ≤ c') (hlive : ∀ k, InRange i n k → live k)
    (hraw : ∀ k, InRange j n k → ¬ live' k) :
    Transfers m q c q' c' (m.transferN left (some q) i (some q') j n) live (fun k => InRange j n k ∨ live' k)
      (patch (m.read (some q)) i n fun k => (m.read (some q) (i + k)).map left)
      (patch (m.read (some q')) j n fun k => m.read (some q) (i + k)) := by
  induction n generalizing m i j live' with
  | zero => exact ⟨h, h'.congr filled_zero, Only.refl _ _, patch_zero.symm, patch_zero.symm⟩
  | succ n ih =>
    obtain ⟨m₁, v, htake, hv, hleft⟩ := h.take (by omega) (hlive i inRange_first) left
      (fun m v => m.construct (some q') j v)
    have hnew := (h'.frame hleft.only hne.symm).construct (v := v) (i := j) (by omega) (hraw j inRange_first)
    have hrest := ih (hleft.has.frame hnew.only hne) hnew.has (i := i + 1) (by omega) (by omega)
      (fun k hk => hlive k hk.later) (raw_later hraw)
    have hsource := (read_only hnew.only hne).trans hleft.reads
    simp only [Memory.transferN, htake]
    constructor
    · exact hrest.source
    · exact hrest.target.congr filled_succ
    · exact ((hleft.only.mono fun _ => Or.inl).trans (hnew.only.mono fun _ => Or.inr)).trans hrest.only
    · have hmapped : some (left v) = (m.read (some q) i).map left := by rw [hv, Option.map_some]
      rw [hrest.left, hsource, hmapped]
      exact patch_ahead (·.map left) i i n i (Nat.le_refl i)
    · rw [hrest.reads, hsource, hnew.reads, read_only hleft.only hne.symm, ← hv]
      exact patch_ahead id i j n i (Nat.le_refl i)

theorem Has.transferN_self (left : α → α) (h : Has m q c live) (hbehind : i + n ≤ j) (hdst : j + n ≤ c)
    (hlive : ∀ k, InRange i n k → live k) (hraw : ∀ k, InRange j n k → ¬ live k) :
    Changes m q c (m.transferN left (some q) i (some q) j n) (fun k => InRange j n k ∨ live k)
      (relocated left (m.read (some q)) i j n) := by
  induction n generalizing m i j live with
  | zero => exact h.unchanged.congr filled_zero (relocated_zero left).symm
  | succ n ih =>
    obtain ⟨m₁, v, htake, hv, hleft⟩ := h.take (by omega) (hlive i inRange_first) left
      (fun m v => m.construct (some q) j v)
    have hnew := hleft.has.construct (v := v) (i := j) (by omega) (hraw j inRange_first)
    have hrest := ih hnew.has (i := i + 1) (by omega) (by omega) (fun k hk => .inr (hlive k hk.later)) (raw_later hraw)
    rw [hnew.reads, hleft.reads] at hrest
    simp only [Memory.transferN, htake]
    exact ((hleft.trans hnew).trans hrest).congr filled_succ (relocated_first left hv (by omega))

theorem Has.moveBackwardN (left : α → α) (h : Has m q c live) (hij : i < j) (hdst : j + n ≤ c)
    (hlive : ∀ k, InRange i n k → live k) (hlive' : ∀ k, InRange j n k → live k) :
    Changes m q c (m.moveBackwardN left (some q) i j n) live (relocated left (m.read (some q)) i j n) := by
  induction n generalizing m with
  | zero => exact h.unchanged.congr (fun _ => Iff.rfl) (relocated_zero left).symm
  | succ n ih =>
    obtain ⟨m₁, v, htake, hv, hleft⟩ := h.take (i := i + n) (by omega) (hlive (i + n) inRange_last) left
      (fun m v => m.assign (some q) (j + n) v)
    have hnew := hleft.has.assign (v := v) (i := j + n) (by omega) (hlive' (j + n) inRange_last)
    have hrest := ih hnew.has (by omega) (fun k hk => hlive k hk.earlier) fun k hk => hlive' k hk.earlier
    rw [hnew.reads, hleft.reads] at hrest
    simp only [Memory.moveBackwardN, htake]
    exact ((hleft.trans hnew).trans hrest).congr (fun _ => Iff.rfl) (relocated_last left hv hij)

section
variable (h : Has m q c live) (hroom : i + n ≤ c) (hlive : ∀ k, InRange i n k → live k)
include h hroom hlive

theorem Has.reverse : Changes m q c (m.reverse (some q) i n) live
      (patch (m.read (some q)) i n fun k => m.read (some q) (i + (n - 1 - k))) := by
  induction n using Nat.twoStepInduction generalizing m i with
  | zero => exact h.unchanged.congr (fun _ => Iff.rfl) patch_zero.symm
  | one =>
    refine h.unchanged.congr (fun _ => Iff.rfl) (funext fun k => ?_)
    rw [patch]
    split
    · rw [show i + (1 - 1 - (k - i)) = k by omega]
    · rfl
  | more n ih _ =>
    obtain ⟨v, hv⟩ := h.read (by omega) (hlive i inRange_first)
    obtain ⟨w, hw⟩ := h.read (by omega) (hlive (i + n + 1) inRange_last)
    have hfirst := h.assign (v := w) (i := i) (by omega) (hlive i inRange_first)
    have hlast := hfirst.has.assign (v := v) (i := i + n + 1) (by omega) (hlive (i + n + 1) inRange_last)
    have hrest := ih hlast.has (i := i + 1) (by omega) fun k hk => hlive k hk.later.earlier
    rw [hlast.reads, hfirst.reads, ← hv, ← hw, patch_exchanged] at hrest
    simp only [Memory.reverse, Memory.swap, hv, hw]
    exact ⟨hrest.has, (hfirst.only.trans hlast.only).trans hrest.only, hrest.reads⟩

theorem Has.readN : (m.readN (some q) i n).1 = m ∧
      (m.readN (some q) i n).2.map some = (List.range n).map fun k => m.read (some q) (i + k) := by
  induction n generalizing i with
  | zero => exact ⟨rfl, rfl⟩
  | succ n ih =>
    obtain ⟨v, hv⟩ := h.read (by omega) (hlive i inRange_first)
    obtain ⟨hsame, hrest⟩ := ih (i := i + 1) (by omega) fun k hk => hlive k hk.later
    simp only [Memory.readN, hv]
    refine ⟨hsame, ?_⟩
    rw [range_succ_eq_map, map_cons, map_cons, map_map, hrest, ← hv]
    congr 2
    funext k
    rw [Function.comp_apply, Nat.succ_eq_add_one, Nat.add_assoc, Nat.add_comm 1]

end

theorem Has.append (vs : List α) (h : Has m q c fun i => i < n) (hroom : n + vs.length ≤ c) :
    Changes m q c (m.constructList (some q) n vs) (fun i => i < n + vs.length)
      (patch (m.read (some q)) n vs.length fun k => vs[k]?) := by
  refine (h.constructList n vs hroom fun i hi => hi.not_lt (Nat.le_refl n)).congr (fun i => ?_) rfl
  unfold InRange
  omega

theorem Has.truncate (h : Has m q c fun i => i < n) (hk : k ≤ n) (hn : n ≤ c) :
    Changes m q c (m.destroyN (some q) k (n - k)) (fun i => i < k)
      (patch (m.read (some q)) k (n - k) fun _ => none) := by
  have hend := Nat.add_sub_cancel' hk
  refine (h.destroyN k (n - k) (by omega) fun i hi => hi.lt hend.le).congr (fun i => ?_) rfl
  unfold InRange
  omega

theorem Has.destroyAll (h : Has m q c fun i => i < n) (hn : n ≤ c) :
    Changes m q c (m.destroyN (some q) 0 n) (fun _ => False) (patch (m.read (some q)) 0 n fun _ => none) :=
  (h.truncate (Nat.zero_le n) hn).congr (fun i => iff_of_false (Nat.not_lt_zero i) not_false) rfl

theorem Has.transferBehind (left : α → α) (h : Has m q c fun i => i < n) (hsrc : i + k ≤ n) (hroom : n + k ≤ c) :
    Changes m q c (m.transferN left (some q) i (some q) n k) (fun i => i < n + k)
      (relocated left (m.read (some q)) i n k) := by
  refine (h.transferN_self left hsrc hroom (fun _ hi => hi.lt hsrc) fun _ hi =>
    hi.not_lt (Nat.le_refl n)).congr (fun i => ?_) rfl
  unfold InRange
  omega

theorem Has.overwrite (start : Nat) (vs : List α) (h : Has m q c fun i => i < n) (hend : start + vs.length ≤ n)
    (hn : n ≤ c) :
    Changes m q c (m.assignList (some q) start vs) (fun i => i < n)
      (patch (m.read (some q)) start vs.length fun k => vs[k]?) :=
  h.assignList start vs (hend.trans hn) fun _ hi => hi.lt hend

theorem Has.reverse_part {xs ys zs : List α} (h : Has m q c fun k => k < n) (hn : n ≤ c)
    (hlen : (xs ++ ys ++ zs).length = n) (hreads : m.read (some q) = fun k => (xs ++ ys ++ zs)[k]?) :
    (m.reverse (some q) xs.length ys.length).read (some q) = fun k => (xs ++ ys.reverse ++ zs)[k]? := by
  rw [length_append, length_append] at hlen
  rw [(h.reverse (by omega) fun _ hk => hk.lt (by omega)).reads, hreads]
  funext k
  by_cases hfront : k < xs.length
  · simp (disch := omega) only [patch_outside, append_assoc, getElem?_append_left]
  by_cases hpart : k < xs.length + ys.length
  · have hold : (xs ++ ys ++ zs)[xs.length + (ys.length - 1 - (k - xs.length))]? =
      ys[ys.length - 1 - (k - xs.length)]? := by
      rw [append_assoc, getElem?_append_right (by omega), Nat.add_sub_cancel_left,
        getElem?_append_left (by omega)]
    have hnew : (xs ++ ys.reverse ++ zs)[k]? = ys[ys.length - 1 - (k - xs.length)]? := by
      rw [append_assoc, getElem?_append_right (by omega),
        getElem?_append_left (by rw [length_reverse]; omega), getElem?_reverse (by omega)]
    rw [patch_inside _ (by omega), hnew]
    exact hold
  · have hlen' : (xs ++ ys.reverse).length = (xs ++ ys).length := by
      rw [length_append, length_append, length_reverse]
    have hbehind : (xs ++ ys).length ≤ k := by
      rw [length_append]
      omega
    simp (disch := omega) only [patch_outside, getElem?_append_right, hlen']

end Ktl.ObjectMemory
