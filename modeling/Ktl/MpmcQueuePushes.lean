import Ktl.MpmcQueueInvariant

/-!
Concurrent calls of `push` alone. No node leaves the queue and no block comes back to the
allocator, so a word that a compare-exchange finds as it was loaded was not updated since,
whatever the tag has missed: `m_tail` only moves forward along the nodes, and the top of the
free list only to blocks further down.
-/
namespace Ktl.MpmcQueue

open TaggedPointer LinkedList Runs Function

variable {τ α : Type} [DecidableEq τ]

def Action.isPush : Action τ α → Bool
  | .pop _ => false
  | _ => true

def Pc.pushes : Pc α → Bool
  | .idle | .allocate _ | .construct _ _ | .constructLoad _ _ | .constructStore _ _ _
  | .pushTail _ _ | .pushNext _ _ _ | .pushCurrentTail _ _ _ _ | .pushLink _ _ _ _
  | .pushSwing _ _ | .pushHelp _ _ _ _ => true
  | _ => false

def Pc.loadedTail : Pc α → Option Snapshot
  | .pushNext _ _ tail => some tail
  | .pushCurrentTail _ _ tail _ => some tail
  | .pushLink _ _ tail _ => some tail
  | .pushSwing _ tail => some tail
  | .pushHelp _ _ tail _ => some tail
  | _ => none

def loadedTop : NodeAllocator.Pc → Option NodeAllocator.Snapshot
  | .allocLoop oldTop => some oldTop
  | .allocCas oldTop _ => some oldTop
  | _ => none

/-! ## The free list -/

structure Taking (alc : NodeAllocator.State τ) (F : List Ptr) : Prop where
  inv : NodeAllocator.Inv alc F
  tops : ∀ t oldTop, loadedTop (alc.pc t) = some oldTop → extractPtr oldTop.value ∈ F → oldTop = alc.snapshot

section

variable {t : τ}

theorem Taking.moved (h : Taking alc F) (hinv : NodeAllocator.Inv alc' F')
    (hpc : alc'.pc = update alc.pc t pc) (hsub : ∀ p ∈ F', p ∈ F)
    (hsame : extractPtr alc.head ∈ F' → alc'.snapshot = alc.snapshot)
    (hown : ∀ oldTop, loadedTop pc = some oldTop →
      loadedTop (alc.pc t) = some oldTop ∨ oldTop = alc.snapshot) : Taking alc' F' := by
  refine ⟨hinv, fun t' oldTop htop hmem => ?_⟩
  have hloaded : oldTop = alc.snapshot := by
    rw [hpc] at htop
    by_cases ht : t' = t
    · rw [ht, update_self] at htop
      exact (hown oldTop htop).elim (fun htop => h.tops t oldTop htop (hsub _ hmem)) id
    · rw [update_of_ne ht] at htop
      exact h.tops t' oldTop htop (hsub _ hmem)
  rw [hsame (by rwa [hloaded] at hmem), hloaded]

theorem Taking.load (h : Taking alc F) (t : τ) : Taking (alc.goto t (.allocLoop alc.snapshot)) F :=
  h.moved h.inv.load rfl (fun _ hp => hp) (fun _ => rfl) fun _ htop => .inr (Option.some.inj htop).symm

theorem Taking.step (h : Taking alc F) (ht : inside a = some t) (hpc : deallocating (alc.pc t) = false)
    (hs : NodeAllocator.step alc a = some alc') : ∃ F', Taking alc' F' := by
  cases NodeAllocator.stepped hs with
  | callAllocate | callDeallocate | write => cases ht
  | createMemoryBlock _ hc =>
    exact ⟨F, h.moved (h.inv.create hc.2.1 hc.2.2) rfl (fun _ hp => hp) (fun _ => rfl) (fun _ htop => by cases htop)⟩
  | createFails =>
    exact ⟨F, h.moved h.inv.createFails rfl (fun _ hp => hp) (fun _ => rfl) (fun _ htop => by cases htop)⟩
  | readNext hpc' hnull =>
    refine ⟨F, h.moved (h.inv.readNext hpc' (by simpa using hnull)) rfl (fun _ hp => hp)
      (fun _ => rfl) fun top htop => .inl ?_⟩
    rw [hpc']
    exact htop
  | @taken t oldTop _ hpc' heq =>
    have hown := h.inv.thread t
    rw [hpc'] at hown
    obtain ⟨F', rfl⟩ := h.inv.cons_of_head hown.2.1 heq
    -- the expected top is free, so it was not updated since the load
    have hnow := h.tops t oldTop (by rw [hpc']; rfl) (by simp)
    have hwin : alc.updates - oldTop.updates < 2 ^ 16 := by simp [hnow, NodeAllocator.State.snapshot]
    have hnot := (List.nodup_cons.mp (List.nodup_append.mp h.inv.parts_nodup).1).1
    exact ⟨F', h.moved (h.inv.allocCas hpc' hwin heq) rfl (fun _ hp => List.mem_cons_of_mem _ hp)
      (fun hmem => absurd (heq ▸ hmem) hnot) fun _ htop => by cases htop⟩
  | reloaded => exact ⟨F, h.load _⟩
  | storeNext hpc' | put hpc' | delayed hpc' =>
    cases ht
    simp_all [deallocating]

end

/-! ## The queue -/

/-- The memory after a step of the allocator; `bytes` is what its blocks hold. -/
def State.withMemory (s : State τ α) (alc : NodeAllocator.State τ) (bytes : Ptr → α) : State τ α :=
  { s with alc := alc, value := fun p => if alc.held.contains p then s.value p else bytes p }

/-- Every block in use is in the queue or with the thread that is about to link it. -/
def Placed (s : State τ α) (L : List Ptr) : Prop :=
  ∀ p ∈ s.alc.held, p ∈ L ∨ ∃ t, (s.pc t).owned = some p

/-- `m_tail` stands after the nodes `A`; a loaded value of it is the one now or one of these. -/
structure Passed (s : State τ α) (L A B : List Ptr) : Prop where
  split : L = A ++ extractPtr s.tail :: B
  tails : ∀ t tail, (s.pc t).loadedTail = some tail → extractPtr tail.value ∈ A ∨ tail = s.tailSnapshot

structure Pushing (s : State τ α) (L : List Ptr) : Prop extends Inv s L where
  taking : ∃ F, Taking s.alc F
  passed : ∃ A B, Passed s L A B
  placed : Placed s L
  pushes : ∀ t, (s.pc t).pushes = true

section

variable {s s' : State τ α}

theorem Passed.moved (h : Passed s L A B) (hpc : s'.pc = update s.pc t pc)
    (htail : s'.tailSnapshot = s.tailSnapshot) (hsplit : L' = A ++ extractPtr s.tail :: B')
    (hloaded : ∀ tail, pc.loadedTail = some tail → (s.pc t).loadedTail = some tail ∨ tail = s.tailSnapshot) :
    Passed s' L' A B' := by
  have hvalue : s'.tail = s.tail := congrArg Snapshot.value htail
  refine ⟨by rw [hsplit, hvalue], fun t' tail hpc' => ?_⟩
  rw [hpc] at hpc'
  rw [htail]
  by_cases ht : t' = t
  · rw [ht, update_self] at hpc'
    exact (hloaded tail hpc').elim (h.tails t tail) .inr
  · rw [update_of_ne ht] at hpc'
    exact h.tails t' tail hpc'

theorem Placed.moved (h : Placed s L) (hpc : s'.pc = update s.pc t pc)
    (hsub : ∀ p ∈ L, p ∈ L') (hheld : ∀ p ∈ s'.alc.held, p ∈ s.alc.held ∨ pc.owned = some p)
    (howned : ∀ p, (s.pc t).owned = some p → pc.owned = some p ∨ p ∈ L') : Placed s' L' := by
  intro p hp
  have hself : (s'.pc t).owned = pc.owned := by rw [hpc, update_self]
  rcases hheld p hp with hp | hp
  · rcases h p hp with hp | ⟨t', ht'⟩
    · exact .inl (hsub p hp)
    · by_cases he : t' = t
      · exact (howned p (he ▸ ht')).elim (fun hown => .inr ⟨t, by rw [hself, hown]⟩) .inl
      · exact .inr ⟨t', by rw [hpc, update_of_ne he, ht']⟩
  · exact .inr ⟨t, by rw [hself, hp]⟩

theorem pushes_moved (h : ∀ t, (s.pc t).pushes = true) (hpc : s'.pc = update s.pc t pc)
    (hpush : pc.pushes = true) (t' : τ) : (s'.pc t').pushes = true := by
  rw [hpc]
  exact (forall_update_iff s.pc fun _ x => x.pushes = true).mpr ⟨hpush, fun t' _ => h t'⟩ t'

section

omit [DecidableEq τ]

theorem Passed.mem (h : Passed s L A B) (hloaded : (s.pc t).loadedTail = some tail) : extractPtr tail.value ∈ L := by
  rw [h.split]
  rcases h.tails t tail hloaded with hmem | rfl
  · exact List.mem_append_left _ hmem
  · simp [State.tailSnapshot]

theorem Passed.current (h : Passed s L A B) (hnodup : L.Nodup) (hloaded : (s.pc t).loadedTail = some tail)
    (heq : s.tail = tail.value) : tail = s.tailSnapshot := by
  refine (h.tails t tail hloaded).resolve_left fun hmem => ?_
  rw [h.split, ← heq] at *
  exact (List.nodup_append.mp hnodup).2.2 _ hmem _ (by simp) rfl

theorem Pushing.casTail (h : Pushing s L) (hpc : (s.pc t).loadedTail = some tail)
    (hloaded : Loaded s.tail s.tailUpdates tail) (hlink : TailLink s tail q) :
    Pushing (s.casTail tail.value q) L := by
  obtain ⟨A, B, hpassed⟩ := h.passed
  have hinv := h.toInv.casTail hloaded hlink fun heq => by
    simp [hpassed.current h.nodup hpc heq, State.tailSnapshot]
  refine ⟨hinv, by rw [casTail_alc]; exact h.taking, ?_, ?_, by rw [casTail_pc]; exact h.pushes⟩
  · by_cases heq : s.tail = tail.value
    · have hnow := hpassed.current h.nodup hpc heq
      have hnext := heq ▸ hlink (by rw [hnow]; rfl)
      have hk := h.kernel (h.held q (List.mem_of_mem_tail (h.chain.mem_tail h.tail_mem hnext)))
      -- the node of `m_tail` joins those that it has passed
      have hrest := (hpassed.split ▸ h.chain).of_append
      rw [hnext] at hrest
      cases B with
      | nil => simp at hrest
      | cons b B =>
        obtain ⟨hb, -⟩ := linked_cons.mp hrest
        cases hb
        refine ⟨A ++ [extractPtr s.tail], B, ?_, fun t' tail' hpc' => .inl ?_⟩
        · rw [State.casTail, if_pos heq, extractPtr_packPtr _ _ hk, hpassed.split]
          simp
        · rw [casTail_pc] at hpc'
          rcases hpassed.tails t' tail' hpc' with hmem | rfl
          · exact List.mem_append_left _ hmem
          · simp [State.tailSnapshot]
    · rw [State.casTail, if_neg heq]
      exact ⟨A, B, hpassed⟩
  · intro p hp
    rw [casTail_alc] at hp
    rw [casTail_pc]
    exact h.placed p hp

theorem Pushing.observe (h : Pushing s L) : Pushing s.observe L := by
  obtain ⟨A, B, hpassed⟩ := h.passed
  exact ⟨h.toInv.observe, h.taking, ⟨A, B, hpassed.split, hpassed.tails⟩, h.placed, h.pushes⟩

end

section

variable (h : Pushing s L)

include h

theorem Pushing.goes (hinv : Inv s' L) (hpc : s'.pc = update s.pc t pc) (htaking : ∃ F, Taking s'.alc F)
    (hheld : s'.alc.held = s.alc.held) (htail : s'.tailSnapshot = s.tailSnapshot) (hpush : pc.pushes = true)
    (howned : ∀ p, (s.pc t).owned = some p → pc.owned = some p)
    (hloaded : ∀ tail, pc.loadedTail = some tail → (s.pc t).loadedTail = some tail ∨ tail = s.tailSnapshot) :
    Pushing s' L := by
  obtain ⟨A, B, hpassed⟩ := h.passed
  exact ⟨hinv, htaking, ⟨A, B, hpassed.moved hpc htail hpassed.split hloaded⟩,
    h.placed.moved hpc (fun _ hp => hp) (fun p hp => .inl (hheld ▸ hp)) fun p hp => .inl (howned p hp),
    pushes_moved h.pushes hpc hpush⟩

theorem Pushing.advance (hs : MpmcQueue.advance s t = some s') : ∃ L', Pushing s' L' := by
  have hthread := h.thread t
  have hagrees := h.agrees t
  have hpush := h.pushes t
  simp only [MpmcQueue.advance] at hs
  generalize hpc : s.pc t = pc at hthread hagrees hpush hs
  have hown : ∀ p, pc.owned = some p → (s.pc t).owned = some p := by simp [hpc]
  have hown' : ∀ p, (s.pc t).owned = some p → pc.owned = some p := by simp [hpc]
  have hload : ∀ tail, pc.loadedTail = some tail →
      (s.pc t).loadedTail = some tail ∨ tail = s.tailSnapshot := by simp +contextual [hpc]
  cases pc with
  | constructLoad value newNode =>
    cases hs
    exact ⟨L, h.goes (h.toInv.goto hown hagrees hthread) rfl h.taking rfl rfl rfl hown' hload⟩
  | constructStore value newNode own =>
    cases hs
    refine ⟨L, h.goes (h.toInv.setNext (hown newNode rfl) rfl hagrees ⟨hthread, ?_⟩) rfl h.taking rfl
      rfl rfl hown' hload⟩
    simp [State.setNext, target, isNull, packPtr]
  | pushTail value newNode =>
    cases hs
    exact ⟨L, h.goes (h.toInv.goto hown hagrees ⟨hthread, h.tail_loaded⟩) rfl h.taking rfl rfl rfl hown'
      fun _ htail => .inr (Option.some.inj htail).symm⟩
  | pushNext value newNode tail =>
    cases hs
    exact ⟨L, h.goes (h.toInv.goto hown hagrees
      ⟨hthread.1, hthread.2, fun hn _ => target_of_not_null hn⟩) rfl h.taking rfl rfl rfl hown' hload⟩
  | pushCurrentTail value newNode tail next =>
    obtain ⟨hfresh, hloaded, hlink⟩ := hthread
    dsimp only at hs
    split at hs
    · split at hs <;> cases hs
      · rename_i hnull
        exact ⟨L, h.goes (h.toInv.goto hown hagrees ⟨hfresh, hloaded, hnull⟩) rfl h.taking rfl rfl rfl hown' hload⟩
      · rename_i hnull
        rw [Bool.not_eq_true] at hnull
        exact ⟨L, h.goes (h.toInv.goto hown hagrees ⟨hfresh, hloaded, hlink hnull⟩) rfl h.taking rfl rfl
          rfl hown' hload⟩
    · cases hs
      exact ⟨L, h.goes (h.toInv.goto hown hagrees hfresh) rfl h.taking rfl rfl rfl hown' fun _ htail => by cases htail⟩
  | pushLink value newNode tail next =>
    obtain ⟨A, B, hpassed⟩ := h.passed
    dsimp only at hs
    split at hs <;> cases hs
    · rename_i heq
      have hmem := hpassed.mem (by rw [hpc]; rfl)
      refine ⟨L ++ [newNode], h.toInv.link hpc hmem heq, h.taking, ⟨A, B ++ [newNode],
        hpassed.moved rfl rfl (by rw [hpassed.split]; simp) hload⟩,
        h.placed.moved rfl (fun p hp => List.mem_append_left _ hp) (fun p hp => .inl hp) fun p hp => .inr ?_,
        pushes_moved h.pushes rfl rfl⟩
      rw [hpc] at hp
      cases hp
      simp
    · exact ⟨L, h.goes (h.toInv.goto hown hagrees hthread.1) rfl h.taking rfl rfl rfl hown'
        fun _ htail => by cases htail⟩
  | pushSwing newNode tail =>
    cases hs
    have hcas := h.casTail (by rw [hpc]; rfl) hthread.1 hthread.2
    refine ⟨L, hcas.goes (hcas.toInv.goto (by simp [Pc.owned]) ?_ trivial) rfl hcas.taking rfl rfl rfl ?_
      fun _ htail => by cases htail⟩
    · rw [casTail_alc]
      exact hagrees
    · rw [casTail_pc, hpc]
      simp [Pc.owned]
  | pushHelp value newNode tail next =>
    cases hs
    have hcas := h.casTail (by rw [hpc]; rfl) hthread.2.1 hthread.2.2
    have hfresh := hcas.thread t
    rw [casTail_pc, hpc] at hfresh
    refine ⟨L, hcas.goes (hcas.toInv.goto ?_ ?_ hfresh.1) rfl hcas.taking rfl rfl rfl ?_ fun _ htail => by cases htail⟩
    · rw [casTail_pc, hpc]
      exact fun p hp => hp
    · rw [casTail_alc]
      exact hagrees
    · rw [casTail_pc, hpc]
      exact fun p hp => hp
  | idle => cases hs
  | allocate value => cases hs
  | construct value newNode => cases hs
  | _ => cases hpush

theorem Pushing.inside (ht : inside a = some t) (hs : NodeAllocator.step s.alc a = some alc) :
    Pushing ((s.withMemory alc bytes).settle t) L := by
  have hagrees := h.agrees t
  have hpush := h.pushes t
  have hpc : deallocating (s.alc.pc t) = false := by
    by_contra hde
    rw [Bool.not_eq_false] at hde
    rw [hagrees.deallocate hde] at hpush
    cases hpush
  obtain ⟨F, hF⟩ := h.taking
  have htaking := hF.step ht hpc hs
  have hinv : Inv ((s.withMemory alc bytes).settle t) L :=
    h.toInv.inside (htaking.imp fun _ hF => hF.inv) ht hs
  obtain ⟨A, B, hpassed⟩ := h.passed
  -- the call goes on in the allocator, or returns to the queue at `pc`
  have hgo : ∀ pc : Pc α, pc.pushes = true → pc.loadedTail = none → (s.pc t).owned = none →
      (∀ p ∈ alc.held, p ∈ s.alc.held ∨ pc.owned = some p) →
      (s.withMemory alc bytes).settle t = (s.withMemory alc bytes).goto t pc →
      Pushing ((s.withMemory alc bytes).settle t) L := by
    intro pc hpushes hnone howned hheld heq
    rw [heq] at hinv ⊢
    exact ⟨hinv, htaking, ⟨A, B, hpassed.moved rfl rfl hpassed.split (by simp [hnone])⟩,
      h.placed.moved rfl (fun _ hp => hp) hheld (by simp [howned]), pushes_moved h.pushes rfl hpushes⟩
  obtain ⟨hinside, -⟩ := inside_of_step ht hs
  cases hinside with
  | allocating hpc hpc' hheld =>
    obtain ⟨v, hv⟩ := hagrees.allocate hpc
    refine hgo (.allocate v) rfl rfl (by rw [hv]; rfl) (fun p hp => .inl (hheld ▸ hp)) ?_
    rw [settle_of_running (ne_idle_of_allocating hpc')]
    simp [State.goto, State.withMemory, ← hv]
  | failed hpc hpc' hres hheld =>
    obtain ⟨v, hv⟩ := hagrees.allocate hpc
    refine hgo .idle rfl rfl (by rw [hv]; rfl) (fun p hp => .inl (hheld ▸ hp)) ?_
    simp [State.settle, State.withMemory, hv, hpc', hres]
  | allocated p hpc hpc' hres hheld =>
    obtain ⟨v, hv⟩ := hagrees.allocate hpc
    refine hgo (.construct v p) rfl rfl (by rw [hv]; rfl) (fun q hq => ?_) ?_
    · rw [hheld] at hq
      exact (List.mem_cons.mp hq).symm.imp id fun he => by rw [he]; rfl
    · simp [State.settle, State.withMemory, hv, hpc', hres]
  | deallocating hde => rw [hpc] at hde; cases hde

theorem Pushing.step (ha : a.isPush = true) (hs : step s a = some s') : ∃ L', Pushing s' L' := by
  have hpushing := h.observe
  rw [MpmcQueue.step] at hs
  generalize s.observe = s at hpushing hs
  cases a with
  | push t value =>
    simp only [act] at hs
    split at hs
    · rename_i hpc
      obtain ⟨alc, halc, rfl⟩ := Option.map_eq_some_iff.mp hs
      have hinv : Inv { s.goto t (.allocate value) with alc := alc } L :=
        hpushing.toInv.callAllocate halc
      cases NodeAllocator.stepped halc
      obtain ⟨F, hF⟩ := hpushing.taking
      exact ⟨L, hpushing.goes hinv rfl ⟨F, hF.load t⟩ rfl rfl rfl (by simp [hpc, Pc.owned])
        fun _ htail => by cases htail⟩
    · cases hs
  | pop t => cases ha
  | advance t => exact hpushing.advance hs
  | failWeak t =>
    have hthread := hpushing.thread t
    have hagrees := hpushing.agrees t
    have hpush := hpushing.pushes t
    simp only [act, failWeak] at hs
    split at hs <;> cases hs
    · rename_i value newNode tail next hpc
      rw [hpc] at hthread hagrees
      exact ⟨L, hpushing.goes (hpushing.toInv.goto (by simp [hpc, Pc.owned]) hagrees hthread.1) rfl
        hpushing.taking rfl rfl rfl (by simp [hpc, Pc.owned]) fun _ htail => by cases htail⟩
    · rename_i hpc
      rw [hpc] at hpush
      cases hpush
  | construct t word =>
    simp only [act, MpmcQueue.construct] at hs
    split at hs
    · rename_i value newNode hpc
      obtain ⟨alc, halc, rfl⟩ := Option.map_eq_some_iff.mp hs
      have hinv := hpushing.toInv.construct hpc halc
      obtain ⟨F, hF⟩ := hpushing.taking
      cases NodeAllocator.stepped halc with
      | write hheld =>
        exact ⟨L, hpushing.goes hinv rfl ⟨F, hF.inv.write hheld word, hF.tops⟩ rfl rfl rfl
          (by simp [hpc, Pc.owned]) fun _ htail => by cases htail⟩
    · cases hs
  | allocator a bytes =>
    simp only [act] at hs
    split at hs
    · rename_i t ht
      obtain ⟨alc, halc, rfl⟩ := Option.map_eq_some_iff.mp hs
      exact ⟨L, hpushing.inside ht halc⟩
    · cases hs

theorem Pushing.run (hrun : Run MpmcQueue.step (fun _ a => a.isPush = true) s actions s') : ∃ L', Pushing s' L' := by
  refine hrun.invariant (I := fun s => ∃ L, Pushing s L) ?_ ⟨L, h⟩
  rintro s a s' ⟨L, hL⟩ ha hs
  exact hL.step ha hs

end

omit [DecidableEq τ] in
theorem Inv.pushing (h : Inv s L) (hidle : ∀ t, s.pc t = .idle) (hplaced : Placed s L) :
    Pushing s L := by
  obtain ⟨F, hF⟩ := h.alc
  obtain ⟨A, B, hsplit⟩ := List.append_of_mem h.tail_mem
  have halc : ∀ t, s.alc.pc t = .idle := fun t => by
    have hagrees := h.agrees t
    rwa [hidle t] at hagrees
  exact ⟨h, ⟨F, hF, by simp [halc, loadedTop]⟩, ⟨A, B, hsplit, by simp [hidle, Pc.loadedTail]⟩, hplaced,
    by simp [hidle, Pc.pushes]⟩

end

end Ktl.MpmcQueue
