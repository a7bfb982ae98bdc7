import Ktl.MpmcQueue

/-!
The invariant of the `mpmc_queue`. The nodes in use are those of the queue and one for each
thread that has not linked it yet or has not given it back. What a thread has loaded it
knows about the words as long as they were not updated since.
-/
namespace Ktl.MpmcQueue

open TaggedPointer LinkedList Runs Function

variable {τ α : Type} [DecidableEq τ]

/-! ## The allocator as the queue sees it -/

@[simp] def allocating : NodeAllocator.Pc → Bool
  | .allocLoop _ => true
  | .allocCas _ _ => true
  | _ => false

@[simp] def deallocating : NodeAllocator.Pc → Bool
  | .deallocLoop _ _ => true
  | .deallocCas _ _ => true
  | _ => false

inductive Inside (alc alc' : NodeAllocator.State τ) (t : τ) : Prop
  | allocating (hpc : allocating (alc.pc t) = true) (hpc' : allocating (alc'.pc t) = true)
      (hheld : alc'.held = alc.held)
  | failed (hpc : MpmcQueue.allocating (alc.pc t) = true) (hpc' : alc'.pc t = .idle)
      (hres : alc'.result t = none) (hheld : alc'.held = alc.held)
  | allocated (p : Ptr) (hpc : MpmcQueue.allocating (alc.pc t) = true) (hpc' : alc'.pc t = .idle)
      (hres : alc'.result t = some p) (hheld : alc'.held = p :: alc.held)
  | deallocating (hpc : deallocating (alc.pc t) = true)
      (hpc' : deallocating (alc'.pc t) = true ∨ alc'.pc t = .idle) (hheld : alc'.held = alc.held)

section

variable {alc : NodeAllocator.State τ}

theorem inside_of_step (ht : inside a = some t) (hs : NodeAllocator.step alc a = some alc') :
    Inside alc alc' t ∧ ∀ t', t' ≠ t → alc'.pc t' = alc.pc t' := by
  cases NodeAllocator.stepped hs with
  | callAllocate | callDeallocate | write => simp [inside] at ht
  | createMemoryBlock hpc =>
    cases ht
    refine ⟨.allocated _ ?_ ?_ ?_ rfl, fun t' hne => ?_⟩ <;>
      simp_all [NodeAllocator.State.giveTo, NodeAllocator.State.goto]
  | createFails hpc =>
    cases ht
    refine ⟨.failed ?_ ?_ ?_ rfl, fun t' hne => ?_⟩ <;>
      simp_all [NodeAllocator.State.goto]
  | readNext hpc | reloaded hpc =>
    cases ht
    refine ⟨.allocating ?_ ?_ rfl, fun t' hne => ?_⟩ <;>
      simp_all [NodeAllocator.State.goto]
  | taken hpc =>
    cases ht
    refine ⟨.allocated _ ?_ ?_ ?_ rfl, fun t' hne => ?_⟩ <;>
      simp_all [NodeAllocator.State.giveTo, NodeAllocator.State.goto]
  | storeNext hpc | put hpc | delayed hpc =>
    cases ht
    refine ⟨.deallocating ?_ ?_ rfl, fun t' hne => ?_⟩ <;>
      simp_all [NodeAllocator.State.goto]

theorem giveTo_idle (p : Ptr) (hidle : ∀ t', alc.pc t' = .idle) (t' : τ) : (alc.giveTo t p).pc t' = .idle := by
  simp [NodeAllocator.State.giveTo, NodeAllocator.State.goto, update_apply, hidle]
theorem held_of_giveTo (h : (alc.giveTo t p).result t = some dummy) : (alc.giveTo t p).held = dummy :: alc.held := by
  simp_all [NodeAllocator.State.giveTo]

theorem createEmptyNode_inv (h : NodeAllocator.Inv alc F) (hidle : ∀ t', alc.pc t' = .idle)
    (hcreate : createEmptyNode alc t fresh = some alc') (hres : alc'.result t = some dummy) :
    (∃ F', NodeAllocator.Inv alc' F') ∧ (∀ t', alc'.pc t' = .idle) ∧ alc'.held = dummy :: alc.held := by
  have hrun := run_of_exec hcreate
  have hinv :=
    hrun.invariant (I := fun s => ∃ F, NodeAllocator.Inv s F) (fun s a s' ⟨F, hF⟩ hw hs => hF.step hw hs) ⟨F, h⟩
  refine ⟨hinv, ?_⟩
  -- without other threads the compare-exchange succeeds at once
  unfold createEmptyNode at hcreate
  split_ifs at hcreate with hnull
  · obtain ⟨-, rfl⟩ : (KernelAddress fresh ∧ fresh ∉ alc.obtained) ∧
        { alc.giveTo t fresh with obtained := fresh :: alc.obtained } = alc' := by
      simpa [exec, NodeAllocator.step, NodeAllocator.Window, NodeAllocator.expected, hidle,
        NodeAllocator.State.goto, NodeAllocator.State.giveTo, NodeAllocator.State.snapshot, hnull]
        using hcreate
    exact ⟨giveTo_idle fresh hidle, held_of_giveTo hres⟩
  · obtain rfl : { alc.giveTo t (extractPtr alc.head) with
        head := packPtr (extractPtr (alc.next (extractPtr alc.head))) (getNextTag alc.head)
        updates := alc.updates + 1
        pops := alc.pops + 1 } = alc' := by
      simpa [exec, NodeAllocator.step, NodeAllocator.Window, NodeAllocator.expected, hidle,
        NodeAllocator.State.goto, NodeAllocator.State.giveTo, NodeAllocator.State.snapshot, hnull]
        using hcreate
    exact ⟨giveTo_idle (extractPtr alc.head) hidle, held_of_giveTo hres⟩

omit [DecidableEq τ] in
theorem not_held_of_cons (h : NodeAllocator.Inv alc' F) (hheld : alc'.held = p :: alc.held) : p ∉ alc.held := by
  have hnodup := (List.nodup_append.mp (List.nodup_append.mp h.parts_nodup).2.1).1
  rw [hheld] at hnodup
  exact (List.nodup_cons.mp hnodup).1

omit [DecidableEq τ] in
theorem kernel_of_held (h : NodeAllocator.Inv alc F) (hp : p ∈ alc.held) : KernelAddress p :=
  h.kernel_of_mem (by simp [hp])

end

/-! ## What a thread knows -/

/-- The tag counts the updates before the load; without an update since, the word is what it was. -/
structure Loaded (word : CompressedPointer) (updates : Nat) (snapshot : Snapshot) : Prop where
  tag : snapshot.value.tag = BitVec.ofNat 16 snapshot.updates
  le : snapshot.updates ≤ updates
  same : updates = snapshot.updates → word = snapshot.value

theorem Loaded.mono (h : Loaded word updates snapshot) (hle : updates ≤ updates')
    (hsame : updates' = updates → word' = word) : Loaded word' updates' snapshot := by
  refine ⟨h.tag, h.le.trans hle, fun heq => ?_⟩
  have hbefore := h.le
  rw [hsame (by omega), h.same (by omega)]

theorem Loaded.current (h : Loaded word updates snapshot)
    (htag : word.tag = BitVec.ofNat 16 updates) (hwin : updates - snapshot.updates < 2 ^ 16)
    (heq : word = snapshot.value) : updates = snapshot.updates := by
  have htags : BitVec.ofNat 16 snapshot.updates = BitVec.ofNat 16 updates := by
    rw [← h.tag, ← heq, htag]
  exact (ofNat_tag_inj h.le hwin htags).symm

def HeadLink (s : State τ α) (head : Snapshot) (q : Ptr) : Prop :=
  s.headUpdates = head.updates → target (s.next (extractPtr head.value)) = some q

def TailLink (s : State τ α) (tail : Snapshot) (q : Ptr) : Prop :=
  s.tailUpdates = tail.updates → target (s.next (extractPtr tail.value)) = some q

def Beyond (s : State τ α) (head : Snapshot) : Prop :=
  s.headUpdates = head.updates → extractPtr s.tail ≠ extractPtr head.value

def Fresh (s : State τ α) (newNode : Ptr) (value : α) : Prop :=
  s.value newNode = value ∧ target (s.next newNode) = none

def Pc.owned : Pc α → Option Ptr
  | .construct _ newNode => some newNode
  | .constructLoad _ newNode => some newNode
  | .constructStore _ newNode _ => some newNode
  | .pushTail _ newNode => some newNode
  | .pushNext _ newNode _ => some newNode
  | .pushCurrentTail _ newNode _ _ => some newNode
  | .pushLink _ newNode _ _ => some newNode
  | .pushHelp _ newNode _ _ => some newNode
  | .destroyNode target => some target
  | _ => none

def PcInv (s : State τ α) (t : τ) : Pc α → Prop
  | .constructLoad value newNode => s.value newNode = value
  | .constructStore value newNode _ => s.value newNode = value
  | .pushTail value newNode => Fresh s newNode value
  | .pushNext value newNode tail =>
    Fresh s newNode value ∧ Loaded s.tail s.tailUpdates tail
  | .pushCurrentTail value newNode tail next =>
    Fresh s newNode value ∧ Loaded s.tail s.tailUpdates tail ∧
      (isNull next.value = false → TailLink s tail (extractPtr next.value))
  | .pushLink value newNode tail next =>
    Fresh s newNode value ∧ Loaded s.tail s.tailUpdates tail ∧ isNull next.value = true
  | .pushSwing newNode tail => Loaded s.tail s.tailUpdates tail ∧ TailLink s tail newNode
  | .pushHelp value newNode tail next =>
    Fresh s newNode value ∧ Loaded s.tail s.tailUpdates tail ∧ TailLink s tail (extractPtr next.value)
  | .popTail head => Loaded s.head s.headUpdates head
  | .popNext head tail =>
    Loaded s.head s.headUpdates head ∧ Loaded s.tail s.tailUpdates tail ∧
      (extractPtr head.value ≠ extractPtr tail.value → Beyond s head)
  | .popCurrentHead head tail next =>
    Loaded s.head s.headUpdates head ∧ Loaded s.tail s.tailUpdates tail ∧
      (extractPtr head.value ≠ extractPtr tail.value → Beyond s head) ∧
      (isNull next = true → s.headUpdates = head.updates → s.sawEmpty t = true) ∧
      (isNull next = false → HeadLink s head (extractPtr next)) ∧
      (isNull next = false → extractPtr head.value = extractPtr tail.value → TailLink s tail (extractPtr next))
  | .popHelp tail next =>
    Loaded s.tail s.tailUpdates tail ∧ TailLink s tail (extractPtr next)
  | .popValue head next =>
    Loaded s.head s.headUpdates head ∧ HeadLink s head (extractPtr next) ∧ Beyond s head
  | .popUnlink head next value =>
    Loaded s.head s.headUpdates head ∧ HeadLink s head (extractPtr next) ∧ Beyond s head ∧
      (s.headUpdates = head.updates → value = s.value (extractPtr next))
  | _ => True

/-- Linked from `m_head` on, `m_tail` at one of them, with the values that were linked and not
popped. -/
structure Shape (s : State τ α) (L : List Ptr) : Prop where
  chain : Linked (fun p => target (s.next p)) (target s.head) L
  nodup : L.Nodup
  held : ∀ p ∈ L, p ∈ s.alc.held
  tail : ∃ p ∈ L, target s.tail = some p
  headTag : s.head.tag = BitVec.ofNat 16 s.headUpdates
  tailTag : s.tail.tag = BitVec.ofNat 16 s.tailUpdates
  content : s.linked = s.popped ++ L.tail.map s.value

/-- What the other threads may do: words change only with an update, a link in the queue and its
values stay, and `m_tail` does not come back to the first node. -/
structure Rely (s s' : State τ α) (L : List Ptr) : Prop where
  headUpdates : s.headUpdates ≤ s'.headUpdates
  head : s'.headUpdates = s.headUpdates → s'.head = s.head
  tailUpdates : s.tailUpdates ≤ s'.tailUpdates
  tail : s'.tailUpdates = s.tailUpdates → s'.tail = s.tail
  next : ∀ p ∈ L, ∀ q, target (s.next p) = some q → target (s'.next p) = some q
  value : ∀ p ∈ L, s'.value p = s.value p
  beyond : s'.headUpdates = s.headUpdates → extractPtr s.tail ≠ extractPtr s.head →
    extractPtr s'.tail ≠ extractPtr s.head

section

omit [DecidableEq τ]

variable {s : State τ α}

theorem extractPtr_of_target (h : target ptr = some p) : extractPtr ptr = p := by
  unfold target at h
  split at h
  · cases h
  · exact Option.some.inj h

theorem target_of_not_null (h : isNull ptr = false) : target ptr = some (extractPtr ptr) := by
  simp [target, h]
theorem setNext_of_ne (hne : p ≠ node) : (s.setNext node word).next p = s.next p :=
  update_of_ne hne _ _

section

variable (h : Shape s L)

include h

theorem Shape.tail_mem : extractPtr s.tail ∈ L := by
  obtain ⟨p, hp, htarget⟩ := h.tail
  rwa [extractPtr_of_target htarget]

theorem Shape.cons : ∃ M, L = extractPtr s.head :: M ∧
    Linked (fun p => target (s.next p)) (target (s.next (extractPtr s.head))) M := by
  obtain ⟨p, hp, -⟩ := h.tail
  cases L with
  | nil => simp at hp
  | cons a M =>
    obtain ⟨ha, hrest⟩ := linked_cons.mp h.chain
    rw [extractPtr_of_target ha]
    exact ⟨M, rfl, hrest⟩

theorem Shape.head_mem : extractPtr s.head ∈ L := by
  obtain ⟨M, rfl, -⟩ := h.cons
  simp

theorem Shape.moveTail (hlink : target (s.next (extractPtr s.tail)) = some q) (hk : KernelAddress q) :
    Shape { s with tail := packPtr q (getNextTag s.tail), tailUpdates := s.tailUpdates + 1 } L where
  chain := h.chain
  nodup := h.nodup
  held := h.held
  tail := ⟨q, List.mem_of_mem_tail (h.chain.mem_tail h.tail_mem hlink), target_packPtr _ _ hk⟩
  headTag := h.headTag
  tailTag := by rw [packPtr_tag, getNextTag_eq, h.tailTag, BitVec.ofNat_add]
  content := h.content

theorem Shape.setNext (hnot : node ∉ L) (word : CompressedPointer) : Shape (s.setNext node word) L := by
  refine ⟨h.chain.frame fun p hp => ?_, h.nodup, h.held, h.tail, h.headTag, h.tailTag, h.content⟩
  have hne : p ≠ node := fun he => hnot (he ▸ hp)
  rw [setNext_of_ne hne]

theorem Shape.link (hmem : last ∈ L) (hnone : target (s.next last) = none) (hheld : newNode ∈ s.alc.held)
    (hnot : newNode ∉ L) (hfresh : Fresh s newNode value) (hword : target word = some newNode) :
    Shape { s.setNext last word with linked := s.linked ++ [value] } (L ++ [newNode]) := by
  obtain ⟨M, rfl⟩ := h.chain.eq_append hmem hnone
  have hchain : Linked (fun p => target ((s.setNext last word).next p)) (target s.head) (M ++ [last, newNode]) := by
    refine h.chain.snoc (fun a ha => ?_) ?_ ?_
    · have hne : a ≠ last := (List.nodup_append.mp h.nodup).2.2 a ha last (by simp)
      simp [setNext_of_ne hne]
    · simp [State.setNext, hword]
    · have hne : newNode ≠ last := fun he => hnot (by simp [he])
      simp [setNext_of_ne hne, hfresh.2]
  refine ⟨by rw [List.append_assoc]; exact hchain, ?_, ?_, ?_, h.headTag, h.tailTag, ?_⟩
  · exact List.nodup_append.mpr ⟨h.nodup, by simp, by
      intro a ha b hb he
      rw [List.mem_singleton] at hb
      exact hnot (hb ▸ he ▸ ha)⟩
  · intro p hp
    rcases List.mem_append.mp hp with hp | hp
    · exact h.held p hp
    · rw [List.mem_singleton] at hp
      exact hp ▸ hheld
  · obtain ⟨p, hp, htail⟩ := h.tail
    exact ⟨p, List.mem_append_left _ hp, htail⟩
  · simp only [State.setNext]
    rw [List.tail_append_of_ne_nil (by simp), h.content, List.map_append, List.append_assoc]
    simp [hfresh.1]

theorem Shape.unlink (hnext : target (s.next (extractPtr s.head)) = some q)
    (hpast : extractPtr s.tail ≠ extractPtr s.head) (hk : KernelAddress q) :
    Shape { s with
      head := packPtr q (getNextTag s.head)
      headUpdates := s.headUpdates + 1
      popped := s.popped ++ [s.value q] } L.tail := by
  obtain ⟨M, rfl, hrest⟩ := h.cons
  refine ⟨?_, (List.nodup_cons.mp h.nodup).2, fun p hp => h.held p (List.mem_cons_of_mem _ hp), ?_, ?_, h.tailTag, ?_⟩
  · rw [target_packPtr _ _ hk, ← hnext]
    exact hrest
  · obtain ⟨p, hp, htail⟩ := h.tail
    rcases List.mem_cons.mp hp with rfl | hp
    · exact absurd (extractPtr_of_target htail) hpast
    · exact ⟨p, hp, htail⟩
  · rw [packPtr_tag, getNextTag_eq, h.headTag, BitVec.ofNat_add]
  · rw [hnext] at hrest
    cases M with
    | nil => simp at hrest
    | cons a M =>
      obtain ⟨ha, -⟩ := linked_cons.mp hrest
      rw [Option.some.injEq] at ha
      simp [h.content, ha]

theorem Shape.memory (hkept : ∀ p ∈ L, p ∈ alc.held ∧ value p = s.value p) :
    Shape { s with alc := alc, value := value } L := by
  refine ⟨h.chain, h.nodup, fun p hp => (hkept p hp).1, h.tail, h.headTag, h.tailTag, ?_⟩
  have hvalues := List.map_congr_left fun p hp => (hkept p (List.mem_of_mem_tail hp)).2
  exact h.content.trans (congrArg (s.popped ++ ·) hvalues.symm)

end

theorem HeadLink.mono (h : HeadLink s head q) (hloaded : Loaded s.head s.headUpdates head)
    (hshape : Shape s L) (hrely : Rely s s' L) : HeadLink s' head q := by
  intro heq
  have hle := hloaded.le
  have hgrow := hrely.headUpdates
  have hnow : s.headUpdates = head.updates := by omega
  refine hrely.next _ ?_ _ (h hnow)
  rw [← hloaded.same hnow]
  exact hshape.head_mem

theorem TailLink.mono (h : TailLink s tail q) (hloaded : Loaded s.tail s.tailUpdates tail)
    (hshape : Shape s L) (hrely : Rely s s' L) : TailLink s' tail q := by
  intro heq
  have hle := hloaded.le
  have hgrow := hrely.tailUpdates
  have hnow : s.tailUpdates = tail.updates := by omega
  refine hrely.next _ ?_ _ (h hnow)
  rw [← hloaded.same hnow]
  exact hshape.tail_mem

theorem Beyond.mono (h : Beyond s head) (hloaded : Loaded s.head s.headUpdates head)
    (hrely : Rely s s' L) : Beyond s' head := by
  intro heq
  have hle := hloaded.le
  have hgrow := hrely.headUpdates
  have hnow : s.headUpdates = head.updates := by omega
  have hhead := hloaded.same hnow
  rw [← hhead]
  exact hrely.beyond (by omega) (hhead ▸ h hnow)

theorem PcInv.mono (h : PcInv s t pc) (hshape : Shape s L) (hrely : Rely s s' L)
    (hown : ∀ p, pc.owned = some p → s'.next p = s.next p ∧ s'.value p = s.value p)
    (hsaw : s.sawEmpty t = true → s'.sawEmpty t = true) : PcInv s' t pc := by
  have hhead : ∀ {head}, Loaded s.head s.headUpdates head → Loaded s'.head s'.headUpdates head :=
    fun hl => hl.mono hrely.headUpdates hrely.head
  have htail : ∀ {tail}, Loaded s.tail s.tailUpdates tail → Loaded s'.tail s'.tailUpdates tail :=
    fun hl => hl.mono hrely.tailUpdates hrely.tail
  have hfresh : ∀ {node value}, pc.owned = some node → Fresh s node value → Fresh s' node value := by
    intro node value hpc hf
    obtain ⟨hnext, hvalue⟩ := hown node hpc
    exact ⟨by rw [hvalue]; exact hf.1, by rw [hnext]; exact hf.2⟩
  cases pc with
  | constructLoad value newNode | constructStore value newNode own =>
    exact (hown newNode rfl).2.trans h
  | pushTail value newNode => exact hfresh rfl h
  | pushNext value newNode tail => exact ⟨hfresh rfl h.1, htail h.2⟩
  | pushCurrentTail value newNode tail next =>
    obtain ⟨hf, hl, hlink⟩ := h
    exact ⟨hfresh rfl hf, htail hl, fun hn => (hlink hn).mono hl hshape hrely⟩
  | pushLink value newNode tail next =>
    obtain ⟨hf, hl, hnull⟩ := h
    exact ⟨hfresh rfl hf, htail hl, hnull⟩
  | pushSwing newNode tail | popHelp tail next => exact ⟨htail h.1, h.2.mono h.1 hshape hrely⟩
  | pushHelp value newNode tail next =>
    obtain ⟨hf, hl, hlink⟩ := h
    exact ⟨hfresh rfl hf, htail hl, hlink.mono hl hshape hrely⟩
  | popTail head => exact hhead h
  | popNext head tail =>
    obtain ⟨hl, hl', hb⟩ := h
    exact ⟨hhead hl, htail hl', fun hne => (hb hne).mono hl hrely⟩
  | popCurrentHead head tail next =>
    obtain ⟨hl, hl', hb, hempty, hlink, hlink'⟩ := h
    refine ⟨hhead hl, htail hl', fun hne => (hb hne).mono hl hrely, fun hn heq => ?_,
      fun hn => (hlink hn).mono hl hshape hrely, fun hn he => (hlink' hn he).mono hl' hshape hrely⟩
    have hle := hl.le
    have hgrow := hrely.headUpdates
    exact hsaw (hempty hn (by omega))
  | popValue head next =>
    obtain ⟨hl, hlink, hb⟩ := h
    exact ⟨hhead hl, hlink.mono hl hshape hrely, hb.mono hl hrely⟩
  | popUnlink head next value =>
    obtain ⟨hl, hlink, hb, hv⟩ := h
    refine ⟨hhead hl, hlink.mono hl hshape hrely, hb.mono hl hrely, fun heq => ?_⟩
    have hle := hl.le
    have hgrow := hrely.headUpdates
    have hnow : s.headUpdates = head.updates := by omega
    have hmem := hl.same hnow ▸ hshape.head_mem
    rw [hv hnow, hrely.value _ (List.mem_of_mem_tail (hshape.chain.mem_tail hmem (hlink hnow)))]
  | _ => trivial

end

/-! ## The invariant -/

/-- A thread is inside the allocator exactly when its call of the queue says so. -/
def Agrees : Pc α → NodeAllocator.Pc → Prop
  | .allocate _, pc => allocating pc = true
  | .deallocate, pc => deallocating pc = true
  | _, pc => pc = .idle

structure Inv (s : State τ α) (L : List Ptr) : Prop extends Shape s L where
  alc : ∃ F, NodeAllocator.Inv s.alc F
  owned : ∀ t p, (s.pc t).owned = some p → p ∈ s.alc.held ∧ p ∉ L
  exclusive : ∀ t t' p, (s.pc t).owned = some p → (s.pc t').owned = some p → t = t'
  agrees : ∀ t, Agrees (s.pc t) (s.alc.pc t)
  thread : ∀ t, PcInv s t (s.pc t)
  failed : ∀ sawEmpty ∈ s.failedPops, sawEmpty = true

section

variable {s : State τ α} {tail : Snapshot}

section

omit [DecidableEq τ]

theorem Rely.of_eq (hhead : s'.head = s.head) (hheadUpdates : s'.headUpdates = s.headUpdates)
    (htail : s'.tail = s.tail) (htailUpdates : s'.tailUpdates = s.tailUpdates)
    (hnext : ∀ p ∈ L, ∀ q, target (s.next p) = some q → target (s'.next p) = some q)
    (hvalue : ∀ p ∈ L, s'.value p = s.value p) : Rely s s' L where
  headUpdates := hheadUpdates.ge
  head := fun _ => hhead
  tailUpdates := htailUpdates.ge
  tail := fun _ => htail
  next := hnext
  value := hvalue
  beyond := fun _ hne => by rwa [htail]

theorem Inv.observe (h : Inv s L) : Inv s.observe L := by
  refine ⟨⟨h.chain, h.nodup, h.held, h.tail, h.headTag, h.tailTag, h.content⟩, h.alc, h.owned,
    h.exclusive, h.agrees, fun t => ?_, h.failed⟩
  refine (h.thread t).mono h.toShape
    (.of_eq rfl rfl rfl rfl (fun _ _ _ hq => hq) fun _ _ => rfl) (fun _ _ => ⟨rfl, rfl⟩) fun hs => ?_
  simp [State.observe, hs]

theorem Inv.kernel (h : Inv s L) (hp : p ∈ s.alc.held) : KernelAddress p := by
  obtain ⟨F, hF⟩ := h.alc
  exact kernel_of_held hF hp

theorem Inv.casTail (h : Inv s L) (hloaded : Loaded s.tail s.tailUpdates tail) (hlink : TailLink s tail q)
    (hwin : s.tail = tail.value → s.tailUpdates - tail.updates < 2 ^ 16) :
    Inv (s.casTail tail.value q) L := by
  unfold State.casTail
  split_ifs with heq
  · have hnow := hloaded.current h.tailTag (hwin heq) heq
    have hnext := hlink hnow
    rw [← heq] at hnext ⊢
    have hmem : q ∈ L.tail := h.chain.mem_tail h.tail_mem hnext
    have hk := h.kernel (h.held q (List.mem_of_mem_tail hmem))
    have hne : q ≠ extractPtr s.head := by
      obtain ⟨M, rfl, -⟩ := h.cons
      exact fun he => (List.nodup_cons.mp h.nodup).1 (he ▸ hmem)
    refine ⟨h.toShape.moveTail hnext hk, h.alc, h.owned, h.exclusive, h.agrees, fun t => ?_, h.failed⟩
    refine (h.thread t).mono h.toShape ?_ (fun _ _ => ⟨rfl, rfl⟩) fun hs => hs
    exact ⟨le_rfl, fun _ => rfl, Nat.le_succ _, fun he => absurd he (Nat.succ_ne_self _),
      fun _ _ _ hq => hq, fun _ _ => rfl, fun _ _ => by rwa [extractPtr_packPtr _ _ hk]⟩
  · exact h

theorem Agrees.allocate (h : Agrees pc apc) (ha : allocating apc = true) : ∃ value, pc = .allocate value := by
  cases apc <;> cases pc <;> simp_all [Agrees]

theorem Agrees.deallocate (h : Agrees pc apc) (ha : deallocating apc = true) : pc = .deallocate := by
  cases apc <;> cases pc <;> simp_all [Agrees]

end

theorem ne_idle_of_allocating (h : allocating apc = true) : apc ≠ .idle := by
  rintro rfl
  cases h

theorem ne_idle_of_deallocating (h : deallocating apc = true) : apc ≠ .idle := by
  rintro rfl
  cases h

theorem settle_of_running (h : s.alc.pc t ≠ .idle) : s.settle t = s := by
  unfold State.settle
  split <;> simp_all

section
variable (h : Inv s L)
include h

theorem Inv.moved (hpc : s'.pc = update s.pc t pc) (hshape : Shape s' L') (hrely : Rely s s' L)
    (halc : ∃ F, NodeAllocator.Inv s'.alc F)
    (hothers : ∀ t', t' ≠ t → ∀ p, (s.pc t').owned = some p → p ∈ s'.alc.held ∧ p ∉ L' ∧ s'.next p = s.next p ∧
      s'.value p = s.value p)
    (howned : ∀ p, pc.owned = some p → p ∈ s'.alc.held ∧ p ∉ L' ∧ ∀ t', t' ≠ t → (s.pc t').owned ≠ some p)
    (hagrees : Agrees pc (s'.alc.pc t)) (hidle : ∀ t', t' ≠ t → s'.alc.pc t' = s.alc.pc t')
    (hthread : PcInv s' t pc) (hsaw : ∀ t', t' ≠ t → s'.sawEmpty t' = s.sawEmpty t')
    (hfailed : ∀ sawEmpty ∈ s'.failedPops, sawEmpty = true) : Inv s' L' where
  toShape := hshape
  alc := halc
  owned := by
    rw [hpc]
    refine (forall_update_iff s.pc fun _ x => ∀ p, x.owned = some p → p ∈ s'.alc.held ∧ p ∉ L').mpr
      ⟨fun p hp => ?_, fun t' hne p hp => ?_⟩
    · exact ⟨(howned p hp).1, (howned p hp).2.1⟩
    · exact ⟨(hothers t' hne p hp).1, (hothers t' hne p hp).2.1⟩
  exclusive := by
    intro t₁ t₂ p h₁ h₂
    rw [hpc] at h₁ h₂
    by_cases e₁ : t₁ = t <;> by_cases e₂ : t₂ = t
    · rw [e₁, e₂]
    · rw [e₁, update_self] at h₁
      rw [update_of_ne e₂] at h₂
      exact absurd h₂ ((howned p h₁).2.2 t₂ e₂)
    · rw [e₂, update_self] at h₂
      rw [update_of_ne e₁] at h₁
      exact absurd h₁ ((howned p h₂).2.2 t₁ e₁)
    · rw [update_of_ne e₁] at h₁
      rw [update_of_ne e₂] at h₂
      exact h.exclusive t₁ t₂ p h₁ h₂
  agrees := by
    rw [hpc]
    refine (forall_update_iff s.pc fun t' x => Agrees x (s'.alc.pc t')).mpr ⟨hagrees, fun t' hne => ?_⟩
    rw [hidle t' hne]
    exact h.agrees t'
  thread := by
    rw [hpc]
    refine (forall_update_iff s.pc fun t' x => PcInv s' t' x).mpr ⟨hthread, fun t' hne => ?_⟩
    exact (h.thread t').mono h.toShape hrely (fun p hp => (hothers t' hne p hp).2.2) (fun hs => (hsaw t' hne).trans hs)
  failed := hfailed

theorem Inv.record (howned : ∀ p, pc.owned = some p → (s.pc t).owned = some p)
    (hagrees : Agrees pc (s.alc.pc t)) (hthread : PcInv { s with sawEmpty := sawEmpty } t pc)
    (hsaw : ∀ t', t' ≠ t → sawEmpty t' = s.sawEmpty t') (hfailed : ∀ saw ∈ failedPops, saw = true) :
    Inv { s.goto t pc with sawEmpty := sawEmpty, failedPops := failedPops } L := by
  refine h.moved rfl ⟨h.chain, h.nodup, h.held, h.tail, h.headTag, h.tailTag, h.content⟩
    (.of_eq rfl rfl rfl rfl (fun _ _ _ hq => hq) fun _ _ => rfl) h.alc
    (fun t' _ p hp => ⟨(h.owned t' p hp).1, (h.owned t' p hp).2, rfl, rfl⟩) (fun p hp => ?_)
    hagrees (fun _ _ => rfl) ?_ hsaw hfailed
  · have hp' := howned p hp
    exact ⟨(h.owned t p hp').1, (h.owned t p hp').2, fun t' hne he => hne (h.exclusive t' t p he hp')⟩
  · cases pc <;> exact hthread

theorem Inv.goto (howned : ∀ p, pc.owned = some p → (s.pc t).owned = some p) (hagrees : Agrees pc (s.alc.pc t))
    (hthread : PcInv s t pc) : Inv (s.goto t pc) L :=
  h.record howned hagrees hthread (fun _ _ => rfl) h.failed

theorem Inv.setNext (howned : (s.pc t).owned = some node) (hpc : pc.owned = some node)
    (hagrees : Agrees pc (s.alc.pc t)) (hthread : PcInv (s.setNext node word) t pc) :
    Inv ((s.setNext node word).goto t pc) L := by
  obtain ⟨hheld, hnot⟩ := h.owned t node howned
  have hshape := h.toShape.setNext hnot word
  refine h.moved rfl ⟨hshape.chain, h.nodup, h.held, h.tail, h.headTag, h.tailTag, h.content⟩
    (.of_eq rfl rfl rfl rfl (fun p hp q hq => ?_) fun _ _ => rfl) h.alc
    (fun t' hne p hp => ⟨(h.owned t' p hp).1, (h.owned t' p hp).2, ?_, rfl⟩) (fun p hp => ?_)
    hagrees (fun _ _ => rfl) ?_ (fun _ _ => rfl) h.failed
  · have hne : p ≠ node := fun he => hnot (he ▸ hp)
    exact (congrArg target (setNext_of_ne hne)).trans hq
  · exact setNext_of_ne fun he => hne (h.exclusive t' t p hp (he ▸ howned))
  · rw [hpc, Option.some.injEq] at hp
    subst hp
    exact ⟨hheld, hnot, fun t' hne he => hne (h.exclusive t' t _ he howned)⟩
  · cases pc <;> exact hthread

theorem Inv.link (hpc : s.pc t = .pushLink value newNode tail next) (hmem : extractPtr tail.value ∈ L)
    (heq : s.next (extractPtr tail.value) = next.value) :
    Inv { (s.setNext (extractPtr tail.value) (packPtr newNode (getNextTag next.value))).goto t
      (.pushSwing newNode tail) with linked := s.linked ++ [value] } (L ++ [newNode]) := by
  have hown : (s.pc t).owned = some newNode := by rw [hpc]; rfl
  obtain ⟨hheld, hnot⟩ := h.owned t newNode hown
  have hthread := h.thread t
  have hagrees := h.agrees t
  rw [hpc] at hthread hagrees
  obtain ⟨hfresh, hloaded, hnull⟩ := hthread
  have hnone : target (s.next (extractPtr tail.value)) = none := by simp [heq, target, hnull]
  have htarget := target_packPtr newNode (getNextTag next.value) (h.kernel hheld)
  have hshape := h.toShape.link hmem hnone hheld hnot hfresh htarget
  refine h.moved rfl ⟨hshape.chain, hshape.nodup, hshape.held, hshape.tail, h.headTag, h.tailTag,
    hshape.content⟩ (.of_eq rfl rfl rfl rfl (fun p hp q hq => ?_) fun _ _ => rfl) h.alc
    (fun t' hne p hp => ?_) (fun p hp => by cases hp) hagrees (fun _ _ => rfl)
    ⟨hloaded.mono le_rfl fun _ => rfl, fun _ => ?_⟩ (fun _ _ => rfl) h.failed
  · have hne : p ≠ extractPtr tail.value := fun he => by simp [← he, hq] at hnone
    exact (congrArg target (setNext_of_ne hne)).trans hq
  · obtain ⟨hheld', hnot'⟩ := h.owned t' p hp
    have hne' : p ≠ newNode := fun he => hne (h.exclusive t' t p hp (he ▸ hown))
    have hne'' : p ≠ extractPtr tail.value := fun he => hnot' (he ▸ hmem)
    exact ⟨hheld', by simp [hnot', hne'], setNext_of_ne hne'', rfl⟩
  · simp [State.goto, State.setNext, htarget]

theorem Inv.unlink (hpc : s.pc t = .popUnlink head next value) (hwin : s.headUpdates - head.updates < 2 ^ 16)
    (heq : s.head = head.value) :
    Inv { s.goto t (.destroyNode (extractPtr head.value)) with
      head := packPtr (extractPtr next) (getNextTag head.value)
      headUpdates := s.headUpdates + 1
      popped := s.popped ++ [value] } L.tail := by
  have hthread := h.thread t
  have hagrees := h.agrees t
  rw [hpc] at hthread hagrees
  obtain ⟨hloaded, hlink, hbeyond, hvalue⟩ := hthread
  have hnow := hloaded.current h.headTag hwin heq
  have hnext := hlink hnow
  have hpast := hbeyond hnow
  rw [hvalue hnow, ← heq]
  rw [← heq] at hnext hpast
  have hk := h.kernel (h.held _ (List.mem_of_mem_tail (h.chain.mem_tail h.head_mem hnext)))
  have hshape := h.toShape.unlink hnext hpast hk
  obtain ⟨M, rfl, -⟩ := h.cons
  refine h.moved rfl ⟨hshape.chain, hshape.nodup, hshape.held, hshape.tail, hshape.headTag, h.tailTag,
    hshape.content⟩ ⟨Nat.le_succ _, fun he => absurd he (Nat.succ_ne_self _), le_rfl, fun _ => rfl,
      fun _ _ _ hq => hq, fun _ _ => rfl, fun he => absurd he (Nat.succ_ne_self _)⟩ h.alc
    (fun t' _ p hp => ?_) (fun p hp => ?_) hagrees (fun _ _ => rfl) trivial (fun _ _ => rfl) h.failed
  · obtain ⟨hheld, hnot⟩ := h.owned t' p hp
    exact ⟨hheld, fun hp => hnot (List.mem_cons_of_mem _ hp), rfl, rfl⟩
  · cases hp
    exact ⟨h.held _ (by simp), (List.nodup_cons.mp h.nodup).1, fun t' _ he => (h.owned t' _ he).2 (by simp)⟩

variable {alc : NodeAllocator.State τ}

theorem Inv.allocator (halc : ∃ F, NodeAllocator.Inv alc F) (hkept : ∀ p ∈ L, p ∈ alc.held ∧ value p = s.value p)
    (hothers : ∀ t', t' ≠ t → ∀ p, (s.pc t').owned = some p → p ∈ alc.held ∧ value p = s.value p)
    (howned : ∀ p, pc.owned = some p → p ∈ alc.held ∧ p ∉ L ∧ ∀ t', t' ≠ t → (s.pc t').owned ≠ some p)
    (hagrees : Agrees pc (alc.pc t)) (hidle : ∀ t', t' ≠ t → alc.pc t' = s.alc.pc t')
    (hthread : PcInv { s with alc := alc, value := value } t pc) :
    Inv ({ s with alc := alc, value := value }.goto t pc) L := by
  have hshape := h.toShape.memory hkept
  refine h.moved rfl ⟨h.chain, h.nodup, hshape.held, h.tail, h.headTag, h.tailTag, hshape.content⟩
    (.of_eq rfl rfl rfl rfl (fun _ _ _ hq => hq) fun p hp => (hkept p hp).2) halc
    (fun t' hne p hp => ?_) howned hagrees hidle ?_ (fun _ _ => rfl) h.failed
  · obtain ⟨hheld, hvalue⟩ := hothers t' hne p hp
    exact ⟨hheld, (h.owned t' p hp).2, rfl, hvalue⟩
  · cases pc <;> exact hthread

theorem Inv.callAllocate (hs : NodeAllocator.step s.alc (.callAllocate t) = some alc) :
    Inv { s.goto t (.allocate value) with alc := alc } L := by
  obtain ⟨F, hF⟩ := h.alc
  have halc := hF.step (a := .callAllocate t) rfl hs
  cases NodeAllocator.stepped hs
  refine h.allocator halc (fun p hp => ⟨h.held p hp, rfl⟩)
    (fun t' _ p hp => ⟨(h.owned t' p hp).1, rfl⟩) (fun p hp => by cases hp) ?_ (fun t' hne => ?_) trivial
  · simp [Agrees]
  · simp [hne]

theorem Inv.destroyNode {target : Ptr} (hpc : s.pc t = .destroyNode target)
    (hs : NodeAllocator.step s.alc (.callDeallocate t target) = some alc) :
    Inv { s.goto t .deallocate with alc := alc } L := by
  have hown : (s.pc t).owned = some target := by rw [hpc]; rfl
  obtain ⟨F, hF⟩ := h.alc
  have halc := hF.step (a := .callDeallocate t target) rfl hs
  cases NodeAllocator.stepped hs
  refine h.allocator halc (fun p hp => ⟨?_, rfl⟩) (fun t' hne p hp => ⟨?_, rfl⟩)
    (fun p hp => by cases hp) ?_ (fun t' hne => ?_) trivial
  · have hne : p ≠ target := fun he => (h.owned t target hown).2 (he ▸ hp)
    exact (List.mem_erase_of_ne hne).mpr (h.held p hp)
  · have hne' : p ≠ target := fun he => hne (h.exclusive t' t p hp (he ▸ hown))
    exact (List.mem_erase_of_ne hne').mpr (h.owned t' p hp).1
  · simp [Agrees, NodeAllocator.State.goto]
  · simp [NodeAllocator.State.goto, hne]

theorem Inv.construct (hpc : s.pc t = .construct value newNode)
    (hs : NodeAllocator.step s.alc (.write newNode word) = some alc) :
    Inv { (s.setNext newNode (fromNumber 0)).goto t (.constructLoad value newNode) with
      value := update s.value newNode value
      alc := alc } L := by
  have hown : (s.pc t).owned = some newNode := by rw [hpc]; rfl
  obtain ⟨hheld, hnot⟩ := h.owned t newNode hown
  obtain ⟨F, hF⟩ := h.alc
  have halc := hF.step (a := .write newNode word) rfl hs
  have hother : ∀ p ∈ L, p ≠ newNode := fun p hp he => hnot (he ▸ hp)
  have hvalue : ∀ p ∈ L, update s.value newNode value p = s.value p := fun p hp =>
    update_of_ne (hother p hp) _ _
  rw [NodeAllocator.step, if_pos hheld, Option.some.injEq] at hs
  subst hs
  have hshape := (h.toShape.setNext hnot (fromNumber 0)).memory fun p hp => ⟨h.held p hp, hvalue p hp⟩
  refine h.moved rfl ⟨hshape.chain, h.nodup, h.held, h.tail, h.headTag, h.tailTag, hshape.content⟩
    (.of_eq rfl rfl rfl rfl (fun p hp q hq => ?_) hvalue) halc (fun t' hne p hp => ?_)
    (fun p hp => ?_) ?_ (fun _ _ => rfl) (update_self ..) (fun _ _ => rfl) h.failed
  · exact (congrArg target (setNext_of_ne (hother p hp))).trans hq
  · have hne' : p ≠ newNode := fun he => hne (h.exclusive t' t p hp (he ▸ hown))
    exact ⟨(h.owned t' p hp).1, (h.owned t' p hp).2, setNext_of_ne hne', update_of_ne hne' _ _⟩
  · cases hp
    exact ⟨hheld, hnot, fun t' hne he => hne (h.exclusive t' t _ he hown)⟩
  · have hagrees := h.agrees t
    rw [hpc] at hagrees
    exact hagrees

theorem Inv.inside {bytes : Ptr → α} (halc : ∃ F, NodeAllocator.Inv alc F) (ht : inside a = some t)
    (hs : NodeAllocator.step s.alc a = some alc) :
    Inv ({ s with alc := alc, value := fun p => if alc.held.contains p then s.value p else bytes p }.settle t)
      L := by
  obtain ⟨hinside, hidle⟩ := inside_of_step ht hs
  have hagrees := h.agrees t
  have hsub : ∀ p ∈ s.alc.held, p ∈ alc.held := by
    intro p hp
    cases hinside with
    | allocating _ _ hheld => rwa [hheld]
    | failed _ _ _ hheld => rwa [hheld]
    | allocated p' _ _ _ hheld => rw [hheld]; exact List.mem_cons_of_mem _ hp
    | deallocating _ _ hheld => rwa [hheld]
  generalize hvalue : (fun p => if alc.held.contains p then s.value p else bytes p) = value
  have hkept : ∀ p ∈ s.alc.held, p ∈ alc.held ∧ value p = s.value p := by
    intro p hp
    rw [← hvalue]
    exact ⟨hsub p hp, if_pos (List.contains_iff_mem.mpr (hsub p hp))⟩
  -- the thread ends up at `pc`, which owns no node that was in use
  have hgoto : ∀ pc : Pc α, (∀ p, pc.owned = some p → p ∈ alc.held ∧ p ∉ s.alc.held) →
      Agrees pc (alc.pc t) → PcInv { s with alc := alc, value := value } t pc →
      Inv ({ s with alc := alc, value := value }.goto t pc) L := by
    intro pc howned hagrees hthread
    refine h.allocator halc (fun p hp => hkept p (h.held p hp))
      (fun t' _ p hp => hkept p (h.owned t' p hp).1) (fun p hp => ?_) hagrees hidle hthread
    obtain ⟨hheld, hnew⟩ := howned p hp
    exact ⟨hheld, fun hin => hnew (h.held p hin), fun t' _ he => hnew (h.owned t' p he).1⟩
  have hstay : { s with alc := alc, value := value }.goto t (s.pc t) = { s with alc := alc, value := value } := by
    simp [State.goto]
  cases hinside with
  | allocating hpc hpc' hheld =>
    obtain ⟨v, hv⟩ := hagrees.allocate hpc
    have hinv := hgoto (s.pc t) (by simp [hv, Pc.owned]) (by rw [hv]; exact hpc') (by rw [hv]; trivial)
    rw [hstay] at hinv
    rwa [settle_of_running (ne_idle_of_allocating hpc')]
  | failed hpc hpc' hres hheld =>
    obtain ⟨v, hv⟩ := hagrees.allocate hpc
    simp only [State.settle, hv, hpc', hres]
    exact hgoto .idle (by simp [Pc.owned]) hpc' trivial
  | allocated p hpc hpc' hres hheld =>
    obtain ⟨v, hv⟩ := hagrees.allocate hpc
    simp only [State.settle, hv, hpc', hres]
    refine hgoto (.construct v p) (fun p' hp' => ?_) hpc' trivial
    cases hp'
    obtain ⟨F', hF'⟩ := halc
    exact ⟨by simp [hheld], not_held_of_cons hF' hheld⟩
  | deallocating hpc hpc' hheld =>
    have hv := hagrees.deallocate hpc
    rcases hpc' with hpc' | hpc'
    · have hinv := hgoto (s.pc t) (by simp [hv, Pc.owned]) (by rw [hv]; exact hpc') (by rw [hv]; trivial)
      rw [hstay] at hinv
      rwa [settle_of_running (ne_idle_of_deallocating hpc')]
    · simp only [State.settle, hv, hpc']
      exact hgoto .idle (by simp [Pc.owned]) hpc' trivial

end

section

omit [DecidableEq τ]

theorem Shape.nodes_eq (h : Shape s L) (hblocks : NodeAllocator.Blocks s.alc F) : s.nodes = L := by
  refine follow_linked h.chain ((h.nodup.subperm fun p hp => ?_).length_le)
  exact hblocks.conserved.mem_iff.mp (by simp [h.held p hp])

theorem Inv.nodes_eq (h : Inv s L) : s.nodes = L := by
  obtain ⟨F, hF⟩ := h.alc
  exact h.toShape.nodes_eq hF.blocks

theorem Shape.isEmpty_of_null (h : Shape s L) (hnull : isNull (s.next (extractPtr s.head)) = true) :
    s.isEmpty = true := by
  obtain ⟨M, rfl, hrest⟩ := h.cons
  rw [target, if_pos hnull, linked_none] at hrest
  simp [State.isEmpty, h.content, hrest]

theorem Shape.head_loaded (h : Shape s L) : Loaded s.head s.headUpdates s.headSnapshot :=
  ⟨h.headTag, le_rfl, fun _ => rfl⟩

theorem Shape.tail_loaded (h : Shape s L) : Loaded s.tail s.tailUpdates s.tailSnapshot :=
  ⟨h.tailTag, le_rfl, fun _ => rfl⟩

theorem casTail_pc : (s.casTail tail.value q).pc = s.pc := by
  unfold State.casTail
  split <;> rfl

theorem casTail_alc : (s.casTail tail.value q).alc = s.alc := by
  unfold State.casTail
  split <;> rfl

end

end

end Ktl.MpmcQueue
