import Ktl.CompressedTables

/-!
`destroy_objects` on the compressed unwind graph, a list of records of different lengths: a
record says what is to be done when its state is left and how many bytes back the record of
the next state is. `EncodesGraph` relates a forest of states to the bytes. The walk over the
bytes is the path from the initial state towards the root, up to the final state.
-/
namespace Ktl.UnwindGraph

open ByteMemory CatchBlocks CompressedTables FrameHandler4 Option BitVec

/-! ## The forest -/

inductive Action where
  | nothing
  /-- destroy the object at an offset into the frame -/
  | object (fn : BitVec 32) (objectOffset : BitVec 32)
  /-- destroy the object behind the pointer at an offset into the frame -/
  | objectPtr (fn : BitVec 32) (ptrOffset : BitVec 32)
  /-- call a funclet on the frame -/
  | funclet (fn : BitVec 32)
  deriving DecidableEq

structure Node where
  parent : Option Nat
  action : Action
  deriving DecidableEq

def Action.cleanup (action : Action) (mem : Memory) (framePtr : BitVec 64) : Option Cleanup :=
  match action with
  | .nothing => none
  | .object fn objectOffset => some ⟨fn, framePtr + objectOffset.setWidth 64⟩
  | .objectPtr fn ptrOffset => some ⟨fn, load64 mem (framePtr + ptrOffset.setWidth 64)⟩
  | .funclet fn => some ⟨fn, framePtr⟩

def Action.fn : Action → BitVec 32
  | .nothing => 0
  | .object fn _ | .objectPtr fn _ | .funclet fn => fn

/-- `Path nodes final s states`: the states from `s` towards the root that are
greater than `final`. -/
inductive Path (nodes : List Node) (final : Int) : Nat → List Nat → Prop
  | last {s : Nat} {node : Node} (hnode : nodes[s]? = some node)
      (hparent : ∀ p ∈ node.parent, (p : Int) ≤ final) : Path nodes final s [s]
  | next {s p : Nat} {node : Node} {rest : List Nat} (hnode : nodes[s]? = some node)
      (hparent : node.parent = some p) (hfinal : final < p) (hrest : Path nodes final p rest) :
      Path nodes final s (s :: rest)

/-- The actions of some states one after the other: the calls made and the
memory after them. -/
def runStates (prog : Program) (nodes : List Node) (framePtr : BitVec 64) : List Nat → Memory → List Cleanup × Memory
  | [], mem => ([], mem)
  | s :: rest, mem =>
    let cleanup := nodes[s]?.bind fun node => node.action.cleanup mem framePtr
    let (cleanups, mem) := runStates prog nodes framePtr rest (runCleanup prog mem cleanup)
    (cleanup.toList ++ cleanups, mem)

def Forest (nodes : List Node) : Prop :=
  ∀ (s : Nat) (node : Node), nodes[s]? = some node → ∀ p ∈ node.parent, p < s

theorem Forest.exists_path (hforest : Forest nodes) (final : Int) (s : Nat) (hs : s < nodes.length) :
    ∃ states, Path nodes final s states := by
  induction s using Nat.strong_induction_on with
  | _ s ih =>
    have hnode := List.getElem?_eq_getElem hs
    cases hparent : nodes[s].parent with
    | none => exact ⟨[s], .last hnode (by simp [hparent])⟩
    | some p =>
      by_cases hfinal : final < p
      · have hlt := hforest s _ hnode p hparent
        obtain ⟨rest, hrest⟩ := ih p hlt (hlt.trans hs)
        exact ⟨s :: rest, .next hnode hparent hfinal hrest⟩
      · refine ⟨[s], .last hnode ?_⟩
        simpa [hparent] using hfinal

theorem Path.decreasing (hforest : Forest nodes) (h : Path nodes final s states) (hs : final < s) :
    states.Pairwise (· > ·) ∧ (∀ t ∈ states, t ≤ s ∧ final < t) := by
  induction h with
  | last _ _ => exact ⟨List.pairwise_singleton _ _, by simpa using hs⟩
  | @next s p node rest hnode hparent hfinal _ ih =>
    have hlt := hforest s _ hnode p hparent
    obtain ⟨hpairwise, hle⟩ := ih hfinal
    refine ⟨List.pairwise_cons.mpr ⟨fun t ht => ?_, hpairwise⟩, fun t ht => ?_⟩
    · exact (hle t ht).1.trans_lt hlt
    · rcases List.mem_cons.mp ht with rfl | ht
      · exact ⟨le_rfl, hs⟩
      · exact ⟨((hle t ht).1.trans_lt hlt).le, (hle t ht).2⟩

/-! ## The bytes -/

/-- A record: the distance back and the kind in one number, then the function and the object. -/
inductive EncodesNode (mem : Memory) (data : BitVec 64) (target : Nat) : Action → Nat → Prop
  | nothing {l : Nat} (h : Encodes mem data (4 * target) l) : EncodesNode mem data target .nothing l
  | object {l m : Nat} {fn objectOffset : BitVec 32} (h : Encodes mem data (4 * target + 1) l)
      (hfn : load32 mem (offset data l) = fn) (hobj : Encodes mem (offset data (l + 4)) objectOffset.toNat m) :
      EncodesNode mem data target (.object fn objectOffset) (l + 4 + m)
  | objectPtr {l m : Nat} {fn ptrOffset : BitVec 32} (h : Encodes mem data (4 * target + 2) l)
      (hfn : load32 mem (offset data l) = fn) (hobj : Encodes mem (offset data (l + 4)) ptrOffset.toNat m) :
      EncodesNode mem data target (.objectPtr fn ptrOffset) (l + 4 + m)
  | funclet {l : Nat} {fn : BitVec 32} (h : Encodes mem data (4 * target + 3) l)
      (hfn : load32 mem (offset data l) = fn) :
      EncodesNode mem data target (.funclet fn) (l + 4)

/-- The distance from the record of `s` back to its parent's; a root's leads
before the first record. -/
def Leads (position : Nat → Nat) (s : Nat) (target : Nat) : Option Nat → Prop
  | some p => p < s ∧ position p + target = position s
  | none => position s < position 0 + target

instance (position : Nat → Nat) (s target : Nat) : (parent : Option Nat) → Decidable (Leads position s target parent)
  | some _ => inferInstanceAs (Decidable (_ ∧ _))
  | none => inferInstanceAs (Decidable (_ < _))

structure EncodesGraph (mem : Memory) (table : BitVec 64) (nodes : List Node) (position : Nat → Nat) : Prop where
  count : Encodes mem table nodes.length (position 0)
  node : ∀ s node, nodes[s]? = some node → ∃ target length,
    EncodesNode mem (offset table (position s)) target node.action length ∧
    position (s + 1) = position s + length ∧ Leads position s target node.parent

variable {position : Nat → Nat}

theorem EncodesNode.length_bounds (h : EncodesNode mem data target action length) : 0 < length ∧ length ≤ 14 := by
  cases h with
  | nothing h => exact ⟨h.length_pos, by have := h.length_le; omega⟩
  | object h _ hobj | objectPtr h _ hobj =>
    have := h.length_le
    have := hobj.length_le
    omega
  | funclet h _ =>
    have := h.length_le
    omega

def Action.edge (target : Nat) : Action → UnwindEdge
  | .nothing => ⟨target, .trivial, 0, 0⟩
  | .object fn objectOffset => ⟨target, .objectOffset, fn, objectOffset⟩
  | .objectPtr fn ptrOffset => ⟨target, .objectPtrOffset, fn, ptrOffset⟩
  | .funclet fn => ⟨target, .function, fn, 0⟩

@[simp] theorem Action.edge_targetOffset (target : Nat) (action : Action) :
    (action.edge target).targetOffset = target := by
  cases action <;> rfl

@[simp] theorem Action.edge_cleanup (target : Nat) (action : Action) (mem : Memory) (framePtr : BitVec 64) :
    (action.edge target).cleanup mem framePtr = action.cleanup mem framePtr := by
  cases action <;> rfl

theorem split_target (kind : Nat) (hkind : kind < 4) (h : Encodes mem data (4 * target + kind) l) :
    (BitVec.ofNat 32 (4 * target + kind)).toNat / 4 = target ∧
      (BitVec.ofNat 32 (4 * target + kind)).toNat % 4 = kind := by
  rw [toNat_ofNat, Nat.mod_eq_of_lt h.lt]
  omega

theorem EncodesNode.read (h : EncodesNode mem data target action length) :
    UnwindEdge.read mem data = (action.edge target, offset data length) := by
  cases h with
  | nothing h =>
    obtain ⟨htarget, hkind⟩ := split_target 0 (by decide) h
    rw [Nat.add_zero] at htarget hkind
    simp only [UnwindEdge.read, h.readUnsigned, htarget, hkind, EdgeType.decode]
    rfl
  | object h hfn hobj =>
    obtain ⟨htarget, hkind⟩ := split_target 1 (by decide) h
    simp only [UnwindEdge.read, h.readUnsigned, htarget, hkind, EdgeType.decode, readIf, readRva, hfn,
      offset_offset, bne_iff_ne, ne_eq, reduceCtorEq, not_false_eq_true, if_true, beq_self_eq_true,
      Bool.true_or, hobj.readUnsigned, ofNat_toNat, setWidth_eq, Action.edge]
  | objectPtr h hfn hobj =>
    obtain ⟨htarget, hkind⟩ := split_target 2 (by decide) h
    simp only [UnwindEdge.read, h.readUnsigned, htarget, hkind, EdgeType.decode, readIf, readRva, hfn,
      offset_offset, bne_iff_ne, ne_eq, reduceCtorEq, not_false_eq_true, if_true, beq_self_eq_true,
      Bool.or_true, hobj.readUnsigned, ofNat_toNat, setWidth_eq, Action.edge]
  | funclet h hfn =>
    obtain ⟨htarget, hkind⟩ := split_target 3 (by decide) h
    simp only [UnwindEdge.read, h.readUnsigned, htarget, hkind, EdgeType.decode, readIf, readRva, hfn, offset_offset]
    rfl

namespace EncodesGraph

section
variable (h : EncodesGraph mem table nodes position)
include h

theorem forest : Forest nodes := by
  intro s node hnode p hp
  obtain ⟨target, length, -, -, hleads⟩ := h.node s node hnode
  rw [mem_def.mp hp] at hleads
  exact hleads.1

theorem length_lt : nodes.length < 2 ^ 32 := h.count.lt

theorem position_succ (hs : s < nodes.length) : position s < position (s + 1) ∧ position (s + 1) ≤ position s + 14 := by
  obtain ⟨target, length, hrecord, hnext, -⟩ := h.node s _ (List.getElem?_eq_getElem hs)
  have := hrecord.length_bounds
  omega

theorem position_le (hs : s ≤ nodes.length) : position s ≤ 5 + 14 * s := by
  induction s with
  | zero => exact h.count.length_le
  | succ s ih =>
    have := (h.position_succ (s := s) (by omega)).2
    omega

theorem position_lt (hst : s < t) (ht : t ≤ nodes.length) : position s < position t := by
  induction t with
  | zero => omega
  | succ t ih =>
    have hstep := (h.position_succ (s := t) (by omega)).1
    rcases Nat.lt_or_eq_of_le (Nat.le_of_lt_succ hst) with hlt | rfl
    · exact (ih hlt (by omega)).trans hstep
    · exact hstep

theorem position_mono (hst : s ≤ t) (ht : t ≤ nodes.length) : position s ≤ position t := by
  rcases Nat.lt_or_eq_of_le hst with hlt | rfl
  · exact (h.position_lt hlt ht).le
  · exact le_rfl

theorem distance (hts : t ≤ s) (hs : s ≤ nodes.length) :
    (offset table (position s) - offset table (position t)).toNat = position s - position t := by
  have hle := h.position_le hs
  have hlen := h.length_lt
  have horder := h.position_mono hts hs
  have hsub := offset_sub_toNat table (n := position s) (by omega)
  rw [sub_offset_toNat (by omega), hsub]

theorem skipEdges (n : Nat) (hs : s + n ≤ nodes.length) :
    FrameHandler4.skipEdges mem n (offset table (position s)) = offset table (position (s + n)) := by
  induction n generalizing s with
  | zero => rfl
  | succ n ih =>
    have hlt : s < nodes.length := by omega
    obtain ⟨target, length, hrecord, hnext, -⟩ := h.node s _ (List.getElem?_eq_getElem hlt)
    rw [FrameHandler4.skipEdges, hrecord.read, offset_offset, ← hnext, ih (by omega)]
    congr 2
    omega

end

end EncodesGraph

/-! ## The walk -/

theorem destroyEdges_path (hpath : Path nodes final s states) (hfinal : final < s)
    (hencoded : EncodesGraph mem table nodes position)
    (hconst : ∀ fn argument m, EncodesGraph m table nodes position →
      EncodesGraph (prog.call fn argument m) table nodes position)
    (hfuel : position s - position (final + 1).toNat < fuel) :
    destroyEdges prog framePtr (offset table (position (final + 1).toNat)) fuel mem (offset table (position s))
      = .ok (runStates prog nodes framePtr states mem) := by
  induction hpath generalizing mem fuel with
  | @last s node hnode hparent =>
    obtain ⟨fuel, rfl⟩ : ∃ f, fuel = f + 1 := ⟨fuel - 1, by omega⟩
    have hs := (List.getElem?_eq_some_iff.mp hnode).1
    obtain ⟨target, length, hrecord, -, hleads⟩ := hencoded.node s node hnode
    have hdist := hencoded.distance (s := s) (t := (final + 1).toNat) (by omega) (by omega)
    have hlast := hencoded.position_mono (s := (final + 1).toNat) (t := s) (by omega) (by omega)
    -- the record leads before the one behind the final state
    have hstop : position s - position (final + 1).toNat < target := by
      cases hp : node.parent with
      | none =>
        have hroot : position s < position 0 + target := by simpa [hp, Leads] using hleads
        have := hencoded.position_mono (s := 0) (t := (final + 1).toNat) (by omega) (by omega)
        omega
      | some p =>
        have hback : p < s ∧ position p + target = position s := by simpa [hp, Leads] using hleads
        have := hparent p hp
        have := hencoded.position_lt (s := p) (t := (final + 1).toNat) (by omega) (by omega)
        omega
    have hpos : target ≠ 0 := by omega
    simp only [destroyEdges, hrecord.read, Action.edge_targetOffset, Action.edge_cleanup, hpos,
      if_false, hdist, hstop, if_true, runStates, hnode, bind_some, List.append_nil]
  | @next s p node rest hnode hparent hfinalp _ ih =>
    obtain ⟨fuel, rfl⟩ : ∃ f, fuel = f + 1 := ⟨fuel - 1, by omega⟩
    have hs := (List.getElem?_eq_some_iff.mp hnode).1
    obtain ⟨target, length, hrecord, -, hleads⟩ := hencoded.node s node hnode
    obtain ⟨hps, hback⟩ : p < s ∧ position p + target = position s := by
      simpa [hparent, Leads] using hleads
    have hdist := hencoded.distance (s := s) (t := (final + 1).toNat) (by omega) (by omega)
    have hlast := hencoded.position_mono (s := (final + 1).toNat) (t := p) (by omega) (by omega)
    have hpos : target ≠ 0 := by
      have := hencoded.position_lt hps (by omega)
      omega
    have hgoes : ¬position s - position (final + 1).toNat < target := by omega
    have hcurrent : offset table (position s) - BitVec.ofNat 64 target = offset table (position p) := by
      rw [← hback, ← offset_offset]
      exact BitVec.add_sub_cancel _ _
    have hkept : ∀ cleanup, EncodesGraph (runCleanup prog mem cleanup) table nodes position := by
      intro cleanup
      cases cleanup with
      | none => exact hencoded
      | some cleanup => exact hconst _ _ _ hencoded
    have hrest : destroyEdges prog framePtr (offset table (position (final + 1).toNat)) fuel
        (runCleanup prog mem (node.action.cleanup mem framePtr)) (offset table (position p))
        = .ok (runStates prog nodes framePtr rest (runCleanup prog mem (node.action.cleanup mem framePtr))) :=
      ih hfinalp (hkept _) (by omega)
    simp only [destroyEdges, hrecord.read, Action.edge_targetOffset, Action.edge_cleanup, hpos,
      if_false, hdist, hgoes, hcurrent, hrest, runStates, hnode, bind_some]
    rfl

/-! ## Termination -/

/-- The loop `for (;;)` of `destroy_objects` comes to an end from a record on,
with a result. -/
inductive Ends (prog : Program) (framePtr lastEdge : BitVec 64) :
    Memory → BitVec 64 → Except Stop (List Cleanup × Memory) → Prop
  | corrupted {mem : Memory} {currentEdge : BitVec 64} (hzero : (UnwindEdge.read mem currentEdge).1.targetOffset = 0) :
      Ends prog framePtr lastEdge mem currentEdge (.error (.terminate .corruptedEhUnwindData))
  | last {mem : Memory} {currentEdge : BitVec 64} {edge : UnwindEdge} {cleanup : Option Cleanup}
      (hread : (UnwindEdge.read mem currentEdge).1 = edge) (hzero : edge.targetOffset ≠ 0)
      (hcleanup : edge.cleanup mem framePtr = cleanup) (hstop : (currentEdge - lastEdge).toNat < edge.targetOffset) :
      Ends prog framePtr lastEdge mem currentEdge (.ok (cleanup.toList, runCleanup prog mem cleanup))
  | next {mem : Memory} {currentEdge : BitVec 64} {edge : UnwindEdge} {cleanup : Option Cleanup}
      {r : Except Stop (List Cleanup × Memory)}
      (hread : (UnwindEdge.read mem currentEdge).1 = edge) (hzero : edge.targetOffset ≠ 0)
      (hcleanup : edge.cleanup mem framePtr = cleanup) (hgoes : ¬(currentEdge - lastEdge).toNat < edge.targetOffset)
      (hrest : Ends prog framePtr lastEdge (runCleanup prog mem cleanup)
        (currentEdge - BitVec.ofNat 64 edge.targetOffset) r) :
      Ends prog framePtr lastEdge mem currentEdge (r.map fun (rest, mem) => (cleanup.toList ++ rest, mem))

theorem distance_decreases (hfar : target ≤ (currentEdge - lastEdge).toNat) :
    (currentEdge - BitVec.ofNat 64 target - lastEdge).toNat = (currentEdge - lastEdge).toNat - target := by
  have hswap : currentEdge - BitVec.ofNat 64 target - lastEdge
      = currentEdge - lastEdge - BitVec.ofNat 64 target := by bv_omega
  rw [hswap, toNat_sub_of_le]
  · rw [toNat_ofNat, Nat.mod_eq_of_lt (by omega)]
  · rw [le_def, toNat_ofNat, Nat.mod_eq_of_lt (by omega)]
    exact hfar

theorem ends_destroyEdges (prog : Program) (framePtr lastEdge : BitVec 64) (mem : Memory)
    (currentEdge : BitVec 64) (hfuel : (currentEdge - lastEdge).toNat < fuel) :
    Ends prog framePtr lastEdge mem currentEdge (destroyEdges prog framePtr lastEdge fuel mem currentEdge) := by
  induction fuel generalizing mem currentEdge with
  | zero => omega
  | succ fuel ih =>
    simp only [destroyEdges]
    split
    · exact .corrupted ‹_›
    · rename_i hzero
      split_ifs with hgoes
      · exact .last rfl hzero rfl ‹_›
      · refine .next rfl hzero rfl hgoes (ih _ _ ?_)
        rw [distance_decreases (not_lt.mp hgoes)]
        omega

/-! ## The older format -/

/-- The corresponding array of the older format: the next state, and the function
to call or zero. -/
def arrayOf (nodes : List Node) : List FrameHandler3.UnwindGraphEdge :=
  nodes.map fun node => ⟨(node.parent.map Int.ofNat).getD (-1), node.action.fn⟩

theorem Action.cleanup_fn (action : Action) (mem : Memory) (framePtr : BitVec 64) :
    (action.cleanup mem framePtr).toList.map Cleanup.fn = if action = .nothing then [] else [action.fn] := by
  cases action <;> rfl

theorem cleanups_path (hforest : Forest nodes) (hpath : Path nodes final s states) (hfinal : final < s)
    (hlow : -1 ≤ final) (hfuel : s < fuel) (hfn : ∀ node ∈ nodes, node.action ≠ .nothing → node.action.fn ≠ 0)
    (mem : Memory) :
    FrameHandler3.cleanups (arrayOf nodes) final fuel s
      = some ((runStates prog nodes framePtr states mem).1.map Cleanup.fn) := by
  have hentry : ∀ (s : Nat) (node : Node), nodes[s]? = some node →
      (arrayOf nodes).getD s ⟨-1, 0⟩ = ⟨(node.parent.map Int.ofNat).getD (-1), node.action.fn⟩ := by
    intro s node hnode
    simp [arrayOf, List.getD_eq_getElem?_getD, hnode]
  have hcall : ∀ (node : Node) (mem : Memory) (rest : List (BitVec 32)), node ∈ nodes →
      (if node.action.fn ≠ 0 then node.action.fn :: rest else rest)
        = (node.action.cleanup mem framePtr).toList.map Cleanup.fn ++ rest := by
    intro node mem rest hmem
    rw [Action.cleanup_fn]
    by_cases hnothing : node.action = .nothing
    · simp [hnothing, Action.fn]
    · rw [if_neg hnothing, if_pos (hfn node hmem hnothing)]
      rfl
  induction hpath generalizing mem fuel with
  | @last s node hnode hparent =>
    obtain ⟨fuel, rfl⟩ : ∃ f, fuel = f + 1 := ⟨fuel - 1, by omega⟩
    have hends : ¬final < (node.parent.map Int.ofNat).getD (-1) := by
      cases hp : node.parent with
      | none => simpa using hlow
      | some p => simpa using hparent p hp
    have hstop : ∀ f, FrameHandler3.cleanups (arrayOf nodes) final f
        ((node.parent.map Int.ofNat).getD (-1)) = some [] := by
      intro f
      cases f <;> simp [FrameHandler3.cleanups, hends]
    rw [FrameHandler3.cleanups, if_pos hfinal]
    simp only [Int.toNat_natCast, hentry s node hnode, hstop, map_some, runStates, hnode,
      bind_some, List.map_append, List.map_nil]
    rw [hcall node mem [] (List.mem_of_getElem? hnode)]
  | @next s p node rest hnode hparent hfinalp _ ih =>
    obtain ⟨fuel, rfl⟩ : ∃ f, fuel = f + 1 := ⟨fuel - 1, by omega⟩
    have hlt := hforest s node hnode p hparent
    have hrest : FrameHandler3.cleanups (arrayOf nodes) final fuel p = some ((runStates prog nodes framePtr rest
          (runCleanup prog mem (node.action.cleanup mem framePtr))).1.map Cleanup.fn) :=
      ih hfinalp (by omega) _
    rw [FrameHandler3.cleanups, if_pos hfinal]
    simp only [Int.toNat_natCast, hentry s node hnode, hparent, map_some, getD_some,
      runStates, hnode, bind_some, List.map_append]
    rw [show Int.ofNat p = (p : Int) from rfl, hrest, map_some, hcall node mem _ (List.mem_of_getElem? hnode)]

/-! ## The whole function -/

/-- `destroy_objects` comes to an end: it refuses the initial state, or the loop
ends. -/
inductive Finishes (prog : Program) (mem : Memory) (table framePtr : BitVec 64)
    (initialState finalState : Int) : Except Stop (List Cleanup × Memory) → Prop
  | refused (h : initialState < 0 ∨ (readUnsigned mem table).1.toNat ≤ initialState.toNat) :
      Finishes prog mem table framePtr initialState finalState (.error (.terminate .corruptedEhUnwindData))
  | ended {r : Except Stop (List Cleanup × Memory)} {graph : BitVec 64} (hgraph : (readUnsigned mem table).2 = graph)
      (hloop : Ends prog framePtr (skipEdges mem (finalState + 1).toNat graph) mem
        (skipEdges mem initialState.toNat graph) r) :
      Finishes prog mem table framePtr initialState finalState r

theorem finishes_destroyObjects (prog : Program) (mem : Memory) (unwindGraph : BitVec 32)
    (framePtr : BitVec 64) (initialState finalState : Int) :
    Finishes prog mem (prog.imageBase + unwindGraph.setWidth 64) framePtr initialState finalState
      (destroyObjects prog mem unwindGraph framePtr initialState finalState) := by
  simp only [destroyObjects]
  split
  · exact .refused ‹_›
  · exact .ended rfl (ends_destroyEdges _ _ _ _ _ (Nat.lt_succ_self _))

theorem destroyObjects_eq_runStates {finalState : Int}
    (hencoded : EncodesGraph mem (prog.imageBase + unwindGraph.setWidth 64) nodes position)
    (hconst : ∀ fn argument m, EncodesGraph m (prog.imageBase + unwindGraph.setWidth 64) nodes position →
      EncodesGraph (prog.call fn argument m) (prog.imageBase + unwindGraph.setWidth 64) nodes position)
    (hinitial : initialState < nodes.length) (hfinal : finalState < initialState)
    (hpath : Path nodes finalState initialState states) :
    destroyObjects prog mem unwindGraph framePtr initialState finalState
      = .ok (runStates prog nodes framePtr states mem) := by
  have hcount : (BitVec.ofNat 32 nodes.length).toNat = nodes.length := by
    rw [toNat_ofNat, Nat.mod_eq_of_lt hencoded.length_lt]
  have hcurrent := hencoded.skipEdges initialState (s := 0) (by omega)
  have hlast := hencoded.skipEdges (finalState + 1).toNat (s := 0) (by omega)
  rw [Nat.zero_add] at hcurrent hlast
  have haccepted : ¬((initialState : Int) < 0 ∨ nodes.length ≤ initialState) := by omega
  have hdist := hencoded.distance (s := initialState) (t := (finalState + 1).toNat) (by omega) (by omega)
  simp only [destroyObjects, hencoded.count.readUnsigned, hcount, Int.toNat_natCast,
    if_neg haccepted, hlast, hcurrent, hdist]
  exact destroyEdges_path hpath hfinal hencoded hconst (Nat.lt_succ_self _)

/-- `destroy_objects` ends on every memory. Where the bytes encode a forest it makes the calls of
the states on the path from the initial state that are greater than the final one, each once and in
path order, as the loop of the older format does on the corresponding array. -/
theorem destroyObjects_follows_path (prog : Program) (mem : Memory) (unwindGraph : BitVec 32)
    (framePtr : BitVec 64) (initialState finalState : Int) (hstates : finalState < initialState) :
    let table := prog.imageBase + unwindGraph.setWidth 64
    let result := destroyObjects prog mem unwindGraph framePtr initialState finalState
    Finishes prog mem table framePtr initialState finalState result ∧
    ∀ nodes position, EncodesGraph mem table nodes position →
      -- the cleanup functions do not write to the table
      (∀ fn argument m, EncodesGraph m table nodes position →
        EncodesGraph (prog.call fn argument m) table nodes position) →
      0 ≤ initialState → initialState < nodes.length →
      ∃ states, Path nodes finalState initialState.toNat states ∧ states.Pairwise (· > ·) ∧
        result = .ok (runStates prog nodes framePtr states mem) ∧
        (-1 ≤ finalState → (∀ node ∈ nodes, node.action ≠ .nothing → node.action.fn ≠ 0) →
          FrameHandler3.cleanups (arrayOf nodes) finalState nodes.length initialState
            = some ((runStates prog nodes framePtr states mem).1.map Cleanup.fn)) := by
  intro table result
  refine ⟨finishes_destroyObjects _ _ _ _ _ _, ?_⟩
  intro nodes position hencoded hconst hnonneg hinitial
  obtain ⟨s, rfl⟩ := Int.eq_ofNat_of_zero_le hnonneg
  rw [Int.toNat_natCast]
  have hs : s < nodes.length := by omega
  obtain ⟨states, hpath⟩ := hencoded.forest.exists_path finalState s hs
  refine ⟨states, hpath, (hpath.decreasing hencoded.forest hstates).1,
    destroyObjects_eq_runStates hencoded hconst hs hstates hpath, ?_⟩
  intro hlow hfn
  exact cleanups_path hencoded.forest hpath hstates hlow hs hfn mem

/-- Four states: `3` leads to `1` and that to the root `0`; `2` is a root of its
own. -/
theorem destroyObjects_follows_path_four :
    let bytes : List (BitVec 8) := [0x08, 0x0e, 0x10, 0, 0, 0, 0x2a, 0x20, 0, 0, 0, 0x60, 0x60, 0x3c,
      0x40, 0, 0, 0, 0x10]
    let mem : Memory := fun a => bytes.getD (a - 0x140001000).toNat 0
    let nodes : List Node := [⟨none, .funclet 0x10⟩, ⟨some 0, .object 0x20 0x30⟩, ⟨none, .nothing⟩,
      ⟨some 1, .objectPtr 0x40 8⟩]
    EncodesGraph mem 0x140001000 nodes (fun s => [1, 6, 12, 13, 19].getD s 0) ∧ ∃ states, Path nodes (-1) 3 states ∧
        destroyObjects plainProgram mem 0x1000 0x5000 3 (-1)
          = .ok (runStates plainProgram nodes 0x5000 states mem) := by
  intro bytes mem nodes
  have hencoded : EncodesGraph mem 0x140001000 nodes (fun s => [1, 6, 12, 13, 19].getD s 0) := by
    refine ⟨.one (by decide), ?_⟩
    rintro (_ | _ | _ | _ | s) node hnode
    · cases hnode
      exact ⟨1, 5, .funclet (.one (by decide)) (by decide), rfl, by decide⟩
    · cases hnode
      exact ⟨5, 6, .object (.one (by decide)) (by decide) (.one (by decide)), rfl, by decide⟩
    · cases hnode
      exact ⟨12, 1, .nothing (.one (by decide)), rfl, by decide⟩
    · cases hnode
      exact ⟨7, 6, .objectPtr (.one (by decide)) (by decide) (.one (by decide)), rfl, by decide⟩
    · cases hnode
  obtain ⟨states, hpath, -, hres, -⟩ :=
    (destroyObjects_follows_path plainProgram mem 0x1000 0x5000 3 (-1) (by decide)).2 nodes _ hencoded
      (fun _ _ _ h => h) (by decide) (by decide)
  exact ⟨hencoded, states, hpath, hres⟩

end Ktl.UnwindGraph
