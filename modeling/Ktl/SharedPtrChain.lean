import Ktl.RefCounter
import Mathlib.Data.List.Nodup

/-!
`shared_ptr` handles inside the objects that other handles own. Destroying a node runs the
destructor of its member `next`, which may destroy the node after it, and so on. Node `c` is
managed by the control block number `c`. Accesses to a handle of a destroyed node are counted;
they see what the destructor of the handle left.
-/
namespace Ktl.SharedPtrChain

open RefCounter

inductive Place where
  | variable (i : Nat)
  /-- `next` of a node -/
  | member (node : Nat)
  deriving DecidableEq

structure Handle where
  valuePtr : Option Nat
  refCounter : Option Nat
  deriving DecidableEq

def Handle.null : Handle := ⟨none, none⟩

def Handle.owner (c : Nat) : Handle := ⟨some c, some c⟩

structure World where
  counters : Nat → ControlBlock
  handle : Place → Handle
  /-- accesses to handles in destroyed nodes -/
  stale : Nat

namespace World

variable (w : World)

def setCounter (c : Nat) (f : ControlBlock → ControlBlock) : World :=
  { w with counters := Function.update w.counters c (f (w.counters c)) }

def setHandle (place : Place) (x : Handle) : World :=
  { w with handle := Function.update w.handle place x }

def isDestroyed : Place → Bool
  | .variable _ => false
  | .member c => 0 < (w.counters c).destroyed

def access (place : Place) : World :=
  { w with stale := w.stale + if w.isDestroyed place then 1 else 0 }

def useCount (place : Place) : Nat :=
  match (w.handle place).refCounter with
  | some c => (w.counters c).strong
  | none => 0

end World

/-- The end of `Release()`: the node is destroyed, and the block loses a weak reference. -/
def endNode (w : World) (c : Nat) : World :=
  ((w.setHandle (.member c) .null).setCounter c destroyObject).setCounter c unfollow

/-- `Release()`. The destructor of a node is that of its member, `reset()`. -/
def release : Nat → World → Nat → Option World
  | 0, _, _ => none
  | fuel + 1, w, c =>
    let w := w.setCounter c decStrongRefs
    if (w.counters c).strong = 0 then
      let inner :=
        match (w.handle (.member c)).refCounter with
        | some next => release fuel w next
        | none => some w
      inner.map fun w => endNode w c
    else some w

section

variable (fuel : Nat) (w : World) (this other : Place)

def decrefIfNotNull : Option World :=
  match (w.handle this).refCounter with
  | some c => release fuel w c
  | none => some w

def increfIfNotNull : World :=
  match (w.handle this).refCounter with
  | some c => w.setCounter c acquire
  | none => w

def copyConstructFrom : Option World :=
  (decrefIfNotNull fuel w this).map fun w =>
    let w := w.access other
    let w := w.setHandle this ⟨(w.handle other).valuePtr, (w.handle this).refCounter⟩
    let w := w.access other
    let w := w.setHandle this ⟨(w.handle this).valuePtr, (w.handle other).refCounter⟩
    increfIfNotNull w this

def moveConstructFrom : Option World :=
  (decrefIfNotNull fuel w this).map fun w =>
    let w := w.access other
    let valuePtr := (w.handle other).valuePtr
    let w := w.setHandle other ⟨none, (w.handle other).refCounter⟩
    let w := w.setHandle this ⟨valuePtr, (w.handle this).refCounter⟩
    let w := w.access other
    let refCounter := (w.handle other).refCounter
    let w := w.setHandle other ⟨(w.handle other).valuePtr, none⟩
    w.setHandle this ⟨(w.handle this).valuePtr, refCounter⟩

inductive Assignment where
  | copy | move
  deriving DecidableEq

/-- `shared_ptr::operator=` -/
def Assignment.apply : Assignment → Option World
  | .copy => if other ≠ this then copyConstructFrom fuel w this other else some w
  | .move => if other ≠ this then moveConstructFrom fuel w this other else some w

end

def assignNext (op : Assignment) (fuel : Nat) (w : World) (p : Nat) : Option World :=
  match (w.handle (.variable p)).valuePtr with
  | some c => op.apply fuel w (.variable p) (.member c)
  | none => none

def Linked (w : World) : List Nat → Prop
  | [] => True
  | c :: rest => (w.handle (.member c)).refCounter = rest.head? ∧ Linked w rest

/-- The first node is owned by `p` alone. Other nodes may have further owners. -/
structure Chain (w : World) (p head : Nat) (rest : List Nat) : Prop where
  first : w.handle (.variable p) = .owner head
  sole : (w.counters head).strong = 1
  linked : Linked w (head :: rest)
  owned : ∀ c ∈ rest, 0 < (w.counters c).strong
  distinct : (head :: rest).Nodup

/-- What the assignment should do: `p` owns the node after the first, with as many owners as before;
exactly the first node is destroyed; and no handle in a destroyed node is touched. -/
structure NextAssigned (w w' : World) (p head : Nat) (rest : List Nat) : Prop where
  owner : (w'.handle (.variable p)).refCounter = rest.head?
  use_count : ∀ c, rest.head? = some c → w'.useCount (.variable p) = (w.counters c).strong
  destroyed : ∀ c, (w'.counters c).destroyed = (w.counters c).destroyed + if c = head then 1 else 0
  fresh : w'.stale = w.stale

/-- The nodes that lose a reference when the first node of a chain loses one. -/
def released (w : World) : List Nat → List Nat
  | [] => []
  | c :: rest => c :: if (w.counters c).strong = 1 then released w rest else []

def releaseChain (w : World) : List Nat → World
  | [] => w
  | c :: rest =>
    let w := w.setCounter c decStrongRefs
    if (w.counters c).strong = 0 then endNode (releaseChain w rest) c else w

theorem counters_setCounter_ne (w : World) (f : ControlBlock → ControlBlock) (h : d ≠ c) :
    (w.setCounter c f).counters d = w.counters d := Function.update_of_ne h _ _
theorem counters_setCounter_self (w : World) (f : ControlBlock → ControlBlock) :
    (w.setCounter c f).counters c = f (w.counters c) := Function.update_self _ _ _

theorem linked_setCounter (w : World) (c : Nat) (f : ControlBlock → ControlBlock) (chain : List Nat) :
    Linked (w.setCounter c f) chain ↔ Linked w chain := by
  induction chain with
  | nil => exact Iff.rfl
  | cons d rest ih => exact and_congr Iff.rfl ih

theorem release_eq (hlinked : Linked w (c :: rest)) (hfuel : rest.length < fuel) :
    release fuel w c = some (releaseChain w (c :: rest)) := by
  induction rest generalizing fuel w c with
  | nil =>
    obtain ⟨fuel, rfl⟩ : ∃ k, fuel = k + 1 := ⟨fuel - 1, by omega⟩
    have hlast : ((w.setCounter c decStrongRefs).handle (.member c)).refCounter = none := hlinked.1
    simp only [release, releaseChain, hlast]
    split <;> rfl
  | cons next rest ih =>
    obtain ⟨fuel, rfl⟩ : ∃ k, fuel = k + 1 := ⟨fuel - 1, by omega⟩
    have hnext : ((w.setCounter c decStrongRefs).handle (.member c)).refCounter = some next := hlinked.1
    have hinner := ih ((linked_setCounter w c decStrongRefs _).mpr hlinked.2) (Nat.lt_of_succ_lt_succ hfuel)
    simp only [release, hnext, hinner, Option.map_some]
    rw [releaseChain.eq_2 w c (next :: rest)]
    split <;> rfl

theorem stale_releaseChain (w : World) (chain : List Nat) : (releaseChain w chain).stale = w.stale := by
  induction chain generalizing w with
  | nil => rfl
  | cons c rest ih =>
    simp only [releaseChain]
    split
    · exact ih _
    · rfl

theorem counters_releaseChain_of_not_mem (h : d ∉ chain) : (releaseChain w chain).counters d = w.counters d := by
  induction chain generalizing w with
  | nil => rfl
  | cons c rest ih =>
    obtain ⟨hne, hrest⟩ : d ≠ c ∧ d ∉ rest := ⟨List.ne_of_not_mem_cons h, List.not_mem_of_not_mem_cons h⟩
    simp only [releaseChain]
    split
    · rw [endNode, counters_setCounter_ne _ _ hne, counters_setCounter_ne _ _ hne]
      exact (ih hrest).trans (counters_setCounter_ne w _ hne)
    · exact counters_setCounter_ne w _ hne

theorem released_congr (h : ∀ c ∈ chain, w'.counters c = w.counters c) : released w' chain = released w chain := by
  induction chain with
  | nil => rfl
  | cons c rest ih =>
    obtain ⟨hc, hrest⟩ := List.forall_mem_cons.mp h
    simp [released, hc, ih hrest]

theorem strong_unfollow (rc : ControlBlock) : (unfollow rc).strong = rc.strong := by
  simp only [unfollow]
  split <;> rfl

theorem destroyed_unfollow (rc : ControlBlock) : (unfollow rc).destroyed = rc.destroyed := by
  simp only [unfollow]
  split <;> rfl

theorem endNode_counters_self (w : World) (c : Nat) :
    (endNode w c).counters c = unfollow (destroyObject (w.counters c)) := by
  rw [endNode, counters_setCounter_self, counters_setCounter_self]
  rfl

theorem endNode_counters_ne (w : World) (h : d ≠ c) : (endNode w c).counters d = w.counters d := by
  rw [endNode, counters_setCounter_ne _ _ h, counters_setCounter_ne _ _ h]
  rfl

theorem releaseChain_sole (h : (w.counters c).strong = 1) :
    releaseChain w (c :: rest) = endNode (releaseChain (w.setCounter c decStrongRefs) rest) c := by
  have hzero : ((w.setCounter c decStrongRefs).counters c).strong = 0 := by
    rw [counters_setCounter_self, decStrongRefs, h]
    rfl
  rw [releaseChain.eq_2]
  exact if_pos hzero

theorem releaseChain_shared (h : 1 < (w.counters c).strong) :
    releaseChain w (c :: rest) = w.setCounter c decStrongRefs := by
  have hpos : ((w.setCounter c decStrongRefs).counters c).strong ≠ 0 := by
    obtain ⟨n, hn⟩ := Nat.exists_eq_add_of_lt h
    rw [counters_setCounter_self, decStrongRefs, hn, Word32.decrement_succ]
    exact Nat.ne_of_gt (Nat.lt_of_lt_of_le Nat.one_pos (Nat.le_add_right 1 n))
  rw [releaseChain.eq_2]
  exact if_neg hpos

theorem counters_releaseChain (hdistinct : chain.Nodup) (howned : ∀ c ∈ chain, 0 < (w.counters c).strong) (d : Nat) :
    ((releaseChain w chain).counters d).strong = (w.counters d).strong - (if d ∈ released w chain then 1 else 0) ∧
    ((releaseChain w chain).counters d).destroyed =
      (w.counters d).destroyed + if d ∈ released w chain ∧ (w.counters d).strong = 1 then 1 else 0 := by
  induction chain generalizing w with
  | nil => simp [releaseChain, released]
  | cons c rest ih =>
    obtain ⟨hnot, hrestDistinct⟩ := List.nodup_cons.mp hdistinct
    obtain ⟨hc, hrest⟩ := List.forall_mem_cons.mp howned
    have hother {e : Nat} (he : e ∈ rest) : (w.setCounter c decStrongRefs).counters e = w.counters e :=
      counters_setCounter_ne w _ fun heq => hnot (heq ▸ he)
    by_cases hsole : (w.counters c).strong = 1
    · rw [releaseChain_sole hsole]
      have hreleased : released w (c :: rest) = c :: released w rest := by rw [released, if_pos hsole]
      rw [hreleased]
      by_cases hd : d = c
      · subst hd
        rw [endNode_counters_self, strong_unfollow, destroyed_unfollow, counters_releaseChain_of_not_mem hnot,
          counters_setCounter_self]
        simp [destroyObject, decStrongRefs, hsole, Word32.decrement]
      · obtain ⟨hstrong, hgone⟩ := ih (w := w.setCounter c decStrongRefs) hrestDistinct fun e he => by
          rw [hother he]
          exact hrest e he
        rw [released_congr fun e he => hother he, counters_setCounter_ne w _ hd] at hstrong hgone
        rw [endNode_counters_ne _ hd, hstrong, hgone]
        simp [hd]
    · have hshared : 1 < (w.counters c).strong := by omega
      rw [releaseChain_shared hshared]
      have hreleased : released w (c :: rest) = [c] := by rw [released, if_neg hsole]
      rw [hreleased]
      by_cases hd : d = c
      · subst hd
        obtain ⟨n, hn⟩ := Nat.exists_eq_add_of_lt hshared
        rw [counters_setCounter_self, decStrongRefs, hn, Word32.decrement_succ]
        simp
      · rw [counters_setCounter_ne w _ hd]
        simp [hd]

section

theorem apply_stale (op : Assignment) (hdecref : decrefIfNotNull fuel w this = some w₁) (hne : other ≠ this)
    (hgone : w₁.isDestroyed other = true) (hnull : w₁.handle other = .null) :
    ∃ w', op.apply fuel w this other = some w' ∧ w'.counters = w₁.counters ∧ w'.handle this = .null ∧
      w'.stale = w₁.stale + 2 := by
  have hsame (handle : Place → Handle) (stale : Nat) : World.isDestroyed ⟨w₁.counters, handle, stale⟩ other = true := by
    cases other <;> exact hgone
  cases op with
  | copy =>
    refine ⟨_, (if_pos hne).trans (congrArg (Option.map _) hdecref), ?_⟩
    simp [World.setHandle, World.access, increfIfNotNull, hne, hnull, hgone, hsame, Handle.null]
  | move =>
    refine ⟨_, (if_pos hne).trans (congrArg (Option.map _) hdecref), ?_⟩
    simp [World.setHandle, World.access, hne, hne.symm, hnull, hgone, hsame, Handle.null]

/-- Neither assignment ever does what it should: the first node is destroyed before its member is
read. The nodes after it that have no other owner are destroyed with it, and `p` is left null. -/
theorem next_never_assigned (op : Assignment) {w : World} {p head : Nat} {rest : List Nat}
    (h : Chain w p head rest) {fuel : Nat} (hfuel : rest.length < fuel) :
    ∃ w', assignNext op fuel w p = some w' ∧ w'.handle (.variable p) = .null ∧ (∀ c, (w'.counters c).destroyed =
        (w.counters c).destroyed + if c ∈ released w (head :: rest) ∧ (w.counters c).strong = 1 then 1 else 0) ∧
      w'.stale = w.stale + 2 ∧
      ¬ NextAssigned w w' p head rest := by
  have howned := List.forall_mem_cons.mpr ⟨by rw [h.sole]; decide, h.owned⟩
  have hcounts := counters_releaseChain h.distinct howned
  have hdecref : decrefIfNotNull fuel w (.variable p) = some (releaseChain w (head :: rest)) := by
    rw [decrefIfNotNull, h.first]
    exact release_eq h.linked hfuel
  have hgone : (releaseChain w (head :: rest)).isDestroyed (.member head) = true := by
    have hmem : head ∈ released w (head :: rest) := List.mem_cons_self
    rw [World.isDestroyed, (hcounts head).2, if_pos ⟨hmem, h.sole⟩]
    exact decide_eq_true (Nat.succ_pos _)
  have hnull : (releaseChain w (head :: rest)).handle (.member head) = .null := by
    rw [releaseChain_sole h.sole]
    exact Function.update_self _ _ _
  obtain ⟨w', happly, hcounters, hhandle, hstale⟩ := apply_stale op hdecref (by simp) hgone hnull
  rw [stale_releaseChain] at hstale
  refine ⟨w', ?_, hhandle, ?_, hstale, ?_⟩
  · rw [assignNext, h.first]
    exact happly
  · intro c
    rw [hcounters]
    exact (hcounts c).2
  · intro hright
    have hfresh := hright.fresh
    omega

end

def pair : World where
  counters _ := initial
  handle place := if place = .variable 0 then .owner 0 else if place = .member 0 then .owner 1 else .null
  stale := 0

theorem pair_chain : Chain pair 0 0 [1] := by
  refine ⟨rfl, rfl, ⟨rfl, rfl, trivial⟩, ?_, by decide⟩
  intro c _
  exact Nat.one_pos

theorem next_never_assigned_pair :
    Chain pair 0 0 [1] ∧ ∃ w', assignNext .copy 2 pair 0 = some w' ∧ ¬ NextAssigned pair w' 0 0 [1] := by
  obtain ⟨w', hassign, -, -, -, hwrong⟩ := next_never_assigned .copy pair_chain (Nat.lt_succ_self 1)
  exact ⟨pair_chain, w', hassign, hwrong⟩

def observe (w : World) : Nat × Nat × Handle × Nat :=
  ((w.counters 0).destroyed, (w.counters 1).destroyed, w.handle (.variable 0), w.stale)

/-- Both nodes are destroyed, `p` is null, and a member was read after its node was destroyed. -/
theorem pair_destroyed : (assignNext .copy 2 pair 0).map observe = some (1, 1, .null, 2) ∧
    (assignNext .move 2 pair 0).map observe = some (1, 1, .null, 2) := by
  decide

end Ktl.SharedPtrChain
