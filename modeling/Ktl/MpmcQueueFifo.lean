import Ktl.MpmcQueueInvariant

/-!
When the `mpmc_queue` is a linearizable queue. The tag of `next` starts anew with every node,
so the link may go to a node that is not in the queue any more; and `pop` compares `m_head`
without its tag, so it may take the end of a later queue for the end of the one it looked at.
In the runs without these two steps the queue is first-in first-out.
-/
namespace Ktl.MpmcQueue

open TaggedPointer LinkedList Runs Option

variable {τ α : Type} [DecidableEq τ]

/-! ## Runs -/

/-- The updates of the word of a compare-exchange: now, and when it was loaded. -/
def expected (s : State τ α) : Action τ α → Option (Nat × Nat)
  | .advance t =>
    match s.pc t with
    | .pushLink _ _ tail next => some (s.nextUpdates (extractPtr tail.value), next.updates)
    | .pushSwing _ tail => some (s.tailUpdates, tail.updates)
    | .pushHelp _ _ tail _ => some (s.tailUpdates, tail.updates)
    | .popHelp tail _ => some (s.tailUpdates, tail.updates)
    | .popUnlink head _ _ => some (s.headUpdates, head.updates)
    | _ => none
  | .allocator a _ =>
    (NodeAllocator.expected s.alc a).map fun oldTop => (s.alc.updates, oldTop.updates)
  | _ => none

/-- Fewer than `2 ^ 16` updates lie between a load and the compare-exchange. -/
def Window (s : State τ α) (a : Action τ α) : Prop :=
  (expected s a).all (fun updates => updates.1 - updates.2 < 2 ^ 16) = true
deriving Decidable

/-- The check that the code lacks: the node behind `tail_ptr` is in the queue when its `next` is
exchanged, and a `pop` that returns false has found `m_head` as it was, tag included. -/
def guarded (s : State τ α) : Action τ α → Bool
  | .advance t =>
    match s.pc t with
    | .pushLink _ _ tail next =>
      decide (s.next (extractPtr tail.value) = next.value → s.nodes.contains (extractPtr tail.value))
    | .popCurrentHead head tail next =>
      decide (samePointer head.value s.head → samePointer head.value tail.value → isNull next →
        s.head = head.value ∧ s.headUpdates - head.updates < 2 ^ 16)
    | _ => true
  | _ => true

def Guarded (s : State τ α) (a : Action τ α) : Prop := guarded s a = true
deriving Decidable

/-- The popped values are the first linked ones, in their order, each once; and no `pop` failed on a
queue that was never empty. -/
structure Fifo (s : State τ α) : Prop where
  order : s.popped <+: s.linked
  failed : ∀ sawEmpty ∈ s.failedPops, sawEmpty = true

/-! ## Steps -/

section

variable {s : State τ α}

theorem extractPtr_eq_of_samePointer (h : samePointer lhs rhs = true) : extractPtr lhs = extractPtr rhs := by
  simpa [samePointer] using h
theorem extractPtr_ne_of_not_samePointer (h : ¬samePointer lhs rhs = true) : extractPtr lhs ≠ extractPtr rhs := by
  simpa [samePointer] using h

theorem Inv.advance (h : Inv s L) (hseen : s.isEmpty = true → s.sawEmpty t = true)
    (hw : Window s (.advance t)) (hg : Guarded s (.advance t))
    (hs : MpmcQueue.advance s t = some s') : ∃ L', Inv s' L' := by
  have hthread := h.thread t
  have hagrees := h.agrees t
  simp only [Window, expected] at hw
  simp only [Guarded, guarded] at hg
  simp only [MpmcQueue.advance] at hs
  generalize hpc : s.pc t = pc at hthread hagrees hw hg hs
  have hown : ∀ p, pc.owned = some p → (s.pc t).owned = some p := by simp [hpc]
  cases pc with
  | constructLoad value newNode =>
    cases hs
    exact ⟨L, h.goto hown hagrees hthread⟩
  | constructStore value newNode own =>
    cases hs
    refine ⟨L, h.setNext (hown newNode rfl) rfl hagrees ⟨hthread, ?_⟩⟩
    simp [State.setNext, target, isNull, packPtr]
  | pushTail value newNode =>
    cases hs
    exact ⟨L, h.goto hown hagrees ⟨hthread, h.tail_loaded⟩⟩
  | pushNext value newNode tail =>
    cases hs
    exact ⟨L, h.goto hown hagrees ⟨hthread.1, hthread.2, fun hn _ => target_of_not_null hn⟩⟩
  | pushCurrentTail value newNode tail next =>
    obtain ⟨hfresh, hloaded, hlink⟩ := hthread
    dsimp only at hs
    split at hs
    · split at hs <;> cases hs
      · rename_i hnull
        exact ⟨L, h.goto hown hagrees ⟨hfresh, hloaded, hnull⟩⟩
      · rename_i hnull
        rw [Bool.not_eq_true] at hnull
        exact ⟨L, h.goto hown hagrees ⟨hfresh, hloaded, hlink hnull⟩⟩
    · cases hs
      exact ⟨L, h.goto hown hagrees hfresh⟩
  | pushLink value newNode tail next =>
    dsimp only at hs
    split at hs <;> cases hs
    · rename_i heq
      have hmem := List.contains_iff_mem.mp (of_decide_eq_true hg heq)
      rw [h.nodes_eq] at hmem
      exact ⟨_, h.link hpc hmem heq⟩
    · exact ⟨L, h.goto hown hagrees hthread.1⟩
  | pushSwing newNode tail | popHelp tail next =>
    cases hs
    have hinv := h.casTail hthread.1 hthread.2 fun _ => of_decide_eq_true hw
    exact ⟨L, hinv.goto (by simp [Pc.owned]) (by rw [casTail_alc]; exact hagrees) trivial⟩
  | pushHelp value newNode tail next =>
    cases hs
    have hinv := h.casTail hthread.2.1 hthread.2.2 fun _ => of_decide_eq_true hw
    have hfresh := hinv.thread t
    rw [casTail_pc, hpc] at hfresh
    exact ⟨L, hinv.goto (by simp [casTail_pc, hpc, Pc.owned]) (by rw [casTail_alc]; exact hagrees) hfresh.1⟩
  | popHead =>
    cases hs
    exact ⟨L, h.goto hown hagrees h.head_loaded⟩
  | popTail head =>
    cases hs
    exact ⟨L, h.goto hown hagrees ⟨hthread, h.tail_loaded, fun hne _ => hne.symm⟩⟩
  | popNext head tail =>
    obtain ⟨hloaded, hloaded', hbeyond⟩ := hthread
    cases hs
    refine ⟨L, h.goto hown hagrees ⟨hloaded, hloaded', hbeyond, fun hnull heq => ?_,
      fun hn _ => target_of_not_null hn, fun hn he _ => ?_⟩⟩
    · exact hseen (h.isEmpty_of_null (by rw [hloaded.same heq]; exact hnull))
    · rw [← he]
      exact target_of_not_null hn
  | popCurrentHead head tail next =>
    obtain ⟨hloaded, hloaded', hbeyond, hempty, hlink, hlink'⟩ := hthread
    dsimp only at hs
    split at hs
    · rename_i hcurrent
      split at hs
      · rename_i hsame
        split at hs <;> cases hs
        · rename_i hnull
          -- `pop` returns false
          obtain ⟨heq, hwin⟩ := of_decide_eq_true hg hcurrent hsame hnull
          have hnow := hloaded.current h.headTag hwin heq
          exact ⟨L, h.record hown hagrees trivial (fun _ _ => rfl)
            (List.forall_mem_cons.mpr ⟨hempty hnull hnow, h.failed⟩)⟩
        · rename_i hnull
          rw [Bool.not_eq_true] at hnull
          have hpointer := extractPtr_eq_of_samePointer hsame
          exact ⟨L, h.goto hown hagrees ⟨hloaded', hlink' hnull hpointer⟩⟩
      · rename_i hdiffer
        split at hs <;> cases hs
        · exact ⟨L, h.goto hown hagrees trivial⟩
        · rename_i hnull
          rw [Bool.not_eq_true] at hnull
          have hpointer := extractPtr_ne_of_not_samePointer hdiffer
          exact ⟨L, h.goto hown hagrees ⟨hloaded, hlink hnull, hbeyond hpointer⟩⟩
    · cases hs
      exact ⟨L, h.goto hown hagrees trivial⟩
  | popValue head next =>
    cases hs
    exact ⟨L, h.goto hown hagrees ⟨hthread.1, hthread.2.1, hthread.2.2, fun _ => rfl⟩⟩
  | popUnlink head next value =>
    dsimp only at hs
    split at hs <;> cases hs
    · rename_i heq
      exact ⟨_, h.unlink hpc (of_decide_eq_true hw) heq⟩
    · exact ⟨L, h.goto hown hagrees trivial⟩
  | destroyNode target =>
    obtain ⟨alc, halc, rfl⟩ := map_eq_some_iff.mp hs
    exact ⟨L, h.destroyNode hpc halc⟩
  | _ => cases hs

omit [DecidableEq τ] in
theorem alcWindow_of_window (hw : Window s (.allocator a bytes)) : NodeAllocator.Window s.alc a := by
  rw [Window, expected, all_map] at hw
  exact hw

/-- Every guarded step keeps the invariant. -/
theorem Inv.step (h : Inv s L) (hw : Window s a) (hg : Guarded s a) (hs : step s a = some s') : ∃ L', Inv s' L' := by
  have hinv := h.observe
  rw [MpmcQueue.step] at hs
  cases a with
  | push t value =>
    simp only [act] at hs
    split at hs
    · obtain ⟨alc, halc, rfl⟩ := map_eq_some_iff.mp hs
      exact ⟨L, hinv.callAllocate halc⟩
    · cases hs
  | pop t =>
    simp only [act] at hs
    split at hs <;> cases hs
    rename_i hpc
    have hagrees := hinv.agrees t
    rw [hpc] at hagrees
    exact ⟨L, hinv.record (by simp [Pc.owned]) hagrees trivial
      (fun t' hne => Function.update_of_ne hne _ _) hinv.failed⟩
  | advance t =>
    refine hinv.advance (fun hempty => ?_) hw hg hs
    have hempty' : s.isEmpty = true := hempty
    simp [State.observe, hempty']
  | failWeak t =>
    have hthread := hinv.thread t
    have hagrees := hinv.agrees t
    simp only [act, failWeak] at hs
    split at hs <;> cases hs
    · rename_i value newNode tail next hpc
      rw [hpc] at hthread hagrees
      exact ⟨L, hinv.goto (by simp [hpc, Pc.owned]) hagrees hthread.1⟩
    · rename_i head next value hpc
      rw [hpc] at hagrees
      exact ⟨L, hinv.goto (by simp [Pc.owned]) hagrees trivial⟩
  | construct t word =>
    simp only [act, MpmcQueue.construct] at hs
    split at hs
    · rename_i value newNode hpc
      obtain ⟨alc, halc, rfl⟩ := map_eq_some_iff.mp hs
      exact ⟨L, hinv.construct hpc halc⟩
    · cases hs
  | allocator a bytes =>
    simp only [act] at hs
    split at hs
    · rename_i t ht
      obtain ⟨alc, halc, rfl⟩ := map_eq_some_iff.mp hs
      obtain ⟨F, hF⟩ := hinv.alc
      have halcWindow := alcWindow_of_window hw
      exact ⟨L, hinv.inside (hF.step halcWindow halc) ht halc⟩
    · cases hs

omit [DecidableEq τ] in
theorem Inv.fifo (h : Inv s L) : Fifo s :=
  ⟨h.content ▸ List.prefix_append _ _, h.failed⟩

theorem initialState_inv (halc : NodeAllocator.Inv alc F) (hidle : ∀ t', alc.pc t' = .idle)
    (hinit : initialState next value alc t fresh = some s) :
    ∃ dummy, Inv s [dummy] ∧ s.alc.held = dummy :: alc.held := by
  obtain ⟨alc', hcreate, hinit⟩ := bind_eq_some_iff.mp hinit
  obtain ⟨dummy, hres, rfl⟩ := map_eq_some_iff.mp hinit
  obtain ⟨hF, hidle', hheld⟩ := createEmptyNode_inv halc hidle hcreate hres
  obtain ⟨F', hF'⟩ := hF
  have hmem : dummy ∈ alc'.held := by simp [hheld]
  have htarget := target_packPtr dummy 0#16 (kernel_of_held hF' hmem)
  have hnull : target (fromNumber 0) = none := by decide
  refine ⟨dummy, ⟨⟨?_, by simp, by simpa using hmem, ⟨dummy, by simp, htarget⟩, rfl, rfl, rfl⟩,
    ⟨F', hF'⟩, by simp [Pc.owned], by simp [Pc.owned], hidle', fun _ => trivial, by simp⟩, hheld⟩
  refine linked_cons.mpr ⟨htarget, ?_⟩
  simpa using hnull

/-- In every run without the two steps that break the queue it is first-in first-out. -/
theorem fifo_of_guarded (next nextBlock : Ptr → CompressedPointer) (value : Ptr → α)
    (blocks : List Ptr) (hnodup : blocks.Nodup) (hkernel : ∀ p ∈ blocks, KernelAddress p)
    {fresh : Ptr} {s₀ : State τ α}
    (hinit : initialState next value (NodeAllocator.construct nextBlock blocks) t fresh = some s₀)
    {actions : List (Action τ α)} (hrun : Run step (fun s a => Window s a ∧ Guarded s a) s₀ actions s) : Fifo s := by
  obtain ⟨F, hF⟩ := NodeAllocator.construct_inv (τ := τ) nextBlock blocks hnodup hkernel
  have hinv : ∃ L, Inv s L := by
    obtain ⟨dummy, hdummy, -⟩ :=
      initialState_inv hF (NodeAllocator.construct_idle nextBlock blocks) hinit
    refine hrun.invariant (I := fun s => ∃ L, Inv s L) ?_ ⟨[dummy], hdummy⟩
    rintro s a s' ⟨L, hL⟩ hok hs
    exact hL.step hok.1 hok.2 hs
  obtain ⟨L, hL⟩ := hinv
  exact hL.fifo

end

/-! ## Runs of two threads -/

def emptyQueue : State Nat Nat :=
  (initialState (fun _ => ⟨0, 0⟩) (fun _ => 0) (NodeAllocator.construct (fun _ => ⟨0, 0⟩) []) 0
    0xFFFF800000001000#64).get (by decide +kernel)

def pushFresh (t value : Nat) (fresh : Ptr) : List (Action Nat Nat) :=
  [.push t value, .allocator (.createMemoryBlock t fresh) fun _ => 0, .construct t ⟨0, 0⟩] ++
    List.replicate 7 (.advance t)

/-- The beginning of a `push`, up to the loop, that gets a node that a `pop` removed. -/
def pushRecycled (t value : Nat) : List (Action Nat Nat) :=
  [.push t value, .allocator (.readNext t) fun _ => 0, .allocator (.allocCas t) fun _ => 0,
    .construct t ⟨0, 0⟩] ++ List.replicate 2 (.advance t)

def popOne (t : Nat) : List (Action Nat Nat) :=
  [.pop t] ++ List.replicate 7 (.advance t) ++
    [.allocator (.storeNext t) fun _ => 0, .allocator (.deallocCas t) fun _ => 0]

def pushPopPop : List (Action Nat Nat) :=
  pushFresh 0 5 0xFFFF800000002000#64 ++ popOne 1 ++ [.pop 0] ++ List.replicate 4 (.advance 0)

theorem fifo_of_pushPopPop : ∃ s, Run step (fun s a => Window s a ∧ Guarded s a) emptyQueue pushPopPop s ∧
      s.popped = [5] ∧ s.failedPops = [true] ∧ Fifo s := by
  obtain ⟨s, hrun, hs⟩ : ∃ s, Run step (fun s a => Window s a ∧ Guarded s a) emptyQueue pushPopPop s ∧
      (s.popped, s.failedPops) = ([5], [true]) := run_of_exec_map (by decide +kernel)
  obtain ⟨hpopped, hfailed⟩ := Prod.mk.inj hs
  exact ⟨s, hrun, hpopped, hfailed, fifo_of_guarded _ _ _ [] List.nodup_nil (by simp) (some_get _).symm hrun⟩

/-- Thread 0 loads `m_head`; before it loads `m_tail` and `next`, the dummy node is recycled as the
last node; before it loads `m_head` again, that node is the dummy once more. -/
def headRecycled : List (Action Nat Nat) :=
  pushFresh 1 1 0xFFFF800000002000#64 ++ pushFresh 1 2 0xFFFF800000003000#64 ++
    [.pop 0, .advance 0] ++ popOne 1 ++ pushRecycled 1 3 ++ List.replicate 5 (.advance 1) ++
    [.advance 0, .advance 0] ++ pushFresh 1 4 0xFFFF800000004000#64 ++ popOne 1 ++ popOne 1 ++ [.advance 0]

/-- The last node is recycled by thread 1 and linked to before thread 1 has linked it. -/
def tailRecycled : List (Action Nat Nat) :=
  pushFresh 1 9 0xFFFF800000002000#64 ++ (pushFresh 0 1 0xFFFF800000003000#64).dropLast.dropLast ++
    pushFresh 1 2 0xFFFF800000004000#64 ++ popOne 1 ++ popOne 1 ++ pushRecycled 1 3 ++
    [.advance 0, .advance 0] ++ List.replicate 5 (.advance 1) ++ popOne 0

/-- A `pop` returns false though the queue is never empty, and a value overtakes another. -/
theorem recycled_nodes_break_fifo :
    (∃ s, Run step Window emptyQueue headRecycled s ∧ s.failedPops = [false] ∧ ¬Fifo s) ∧
    ∃ s, Run step Window emptyQueue tailRecycled s ∧ s.linked = [9, 2, 1, 3] ∧ s.popped = [9, 2, 3] ∧ ¬Fifo s := by
  constructor
  · obtain ⟨s, hrun, hs⟩ : ∃ s, Run step Window emptyQueue headRecycled s ∧
        s.failedPops = [false] := run_of_exec_map (by decide +kernel)
    refine ⟨s, hrun, hs, fun hfifo => ?_⟩
    have hfailed := hfifo.failed false (by simp [hs])
    cases hfailed
  · obtain ⟨s, hrun, hs⟩ : ∃ s, Run step Window emptyQueue tailRecycled s ∧
        (s.linked, s.popped) = ([9, 2, 1, 3], [9, 2, 3]) := run_of_exec_map (by decide +kernel)
    obtain ⟨hlinked, hpopped⟩ := Prod.mk.inj hs
    refine ⟨s, hrun, hlinked, hpopped, fun hfifo => ?_⟩
    have horder := hfifo.order
    rw [hlinked, hpopped] at horder
    exact absurd horder (by decide)

end Ktl.MpmcQueue
