import Ktl.HashTableMap

/-!
Every operation of the table keeps the invariant, also one that loses nodes in a rehash.
A table that has grown without an exception has all of its entries.
-/
namespace Ktl.HashTable

open Relation

variable {α β : Type*} {s : State α β}

/-! ## Growth that succeeds -/

theorem room_of_initData (hsize : numBuckets + 0xFF < 2 ^ 64) (hinit : initData c numBuckets s ≠ .undefined) :
    Room c numBuckets := by
  have hbytes : c.calcNumElementsWithBuffer numBuckets * c.nodeSize + c.calcNumElementsWithBuffer numBuckets
      < c.calcNumBytesTotal (c.calcNumElementsWithBuffer numBuckets) := by
    by_contra hlt
    exact hinit (if_neg hlt)
  have hslots : c.calcNumElementsWithBuffer numBuckets
      = numBuckets + min (c.calcMaxNumElementsAllowed numBuckets) 0xFF := by
    rw [Config.calcNumElementsWithBuffer]
    exact Nat.mod_eq_of_lt (by omega)
  rw [hslots, Config.calcNumBytesTotal, Config.calcNumBytesInfo] at hbytes
  rw [Room, Nat.mul_succ]
  generalize (numBuckets + min (c.calcMaxNumElementsAllowed numBuckets) 0xFF) * c.nodeSize = nodeBytes at *
  omega

section
variable (hbuckets : ∃ k, 3 ≤ k ∧ numBuckets = 2 ^ k) (hlt : numBuckets < 2 ^ 64)
include hbuckets hlt

theorem add_buffer_lt : numBuckets + 0xFF < 2 ^ 64 := by
  obtain ⟨k, _, rfl⟩ := hbuckets
  have hk : k ≤ 63 := Nat.le_of_lt_succ ((Nat.pow_lt_pow_iff_right (by decide)).mp hlt)
  have := Nat.pow_le_pow_right (show 0 < 2 by decide) hk
  omega

theorem room_of_rehash (hrun : rehashPowerOfTwo c numBuckets s ≠ .undefined) : Room c numBuckets := by
  refine room_of_initData (s := s) (add_buffer_lt hbuckets hlt) fun hundefined => hrun ?_
  rw [rehashPowerOfTwo, hundefined]
  rfl

end

theorem rehashed_of_returned (hinv : Inv c s.toTable) (hbuckets : ∃ k, 3 ≤ k ∧ numBuckets = 2 ^ k)
    (hlt : numBuckets < 2 ^ 64) (hload : s.numElements ≤ c.calcMaxNumElementsAllowed numBuckets)
    (hrun : rehashPowerOfTwo c numBuckets s = .returned () s₁) : Rehashed c numBuckets s s₁ := by
  have hroom := room_of_rehash (s := s) hbuckets hlt (by rw [hrun]; nofun)
  have hspread : ¬ CrowdedIn c numBuckets (entries c s.toTable).dropLast := by
    intro hcrowded
    obtain ⟨s₂, hoverflow, _⟩ := (rehashPowerOfTwo_eq hinv hroom hbuckets hload).2 hcrowded
    rw [hoverflow] at hrun
    cases hrun
  obtain ⟨s₂, hret, hrehashed⟩ := (rehashPowerOfTwo_eq hinv hroom hbuckets hload).1 hspread
  rw [hret] at hrun
  cases hrun
  exact hrehashed

structure Grown (c : Config α) (s s' : State α β) : Prop where
  layout : Layout c s'.toTable
  perm : (entries c s'.toTable).Perm (entries c s.toTable)
  stored : Stored c s s'

theorem Rehashed.grown (h : Rehashed c numBuckets s s') : Grown c s s' :=
  ⟨h.layout, h.perm, h.stored⟩
theorem Grown.trans (h : Grown c s s₁) (h' : Grown c s₁ s₂) : Grown c s s₂ :=
  ⟨h'.layout, h'.perm.trans h.perm, h.stored.trans h'.stored⟩

theorem Layout.double_lt (h : Layout c t) : (t.mask + 1) * 2 < 2 ^ 64 := by
  have := Config.two_pow_lt h.room
  omega

theorem increaseSize_grown (hinv : Inv c s.toTable) (hrun : increaseSize c s = .returned () s₁) :
    Grown c s s₁ := by
  rcases hinv with hfresh | h
  · rw [increaseSize, if_pos hfresh.mask] at hrun
    have hroom : Room c initialNumElements :=
      room_of_initData (s := s) (by decide) (by rw [hrun]; rintro ⟨⟩)
    rw [initData_eq hroom] at hrun
    cases hrun
    refine ⟨(layout_withArray hroom ⟨3, le_rfl, rfl⟩ s).2, ?_, hfresh.stored_withArray⟩
    rw [entries_withArray, hfresh.entries_eq]
  · by_cases hcalm : s.numElements < c.calcMaxNumElementsAllowed (s.mask + 1) ∧ 2 < s.infoInc
    · obtain ⟨t, hincreased, hlayout, hentries, _, _, _, _, hstorage⟩ :=
        Layout.increaseSize_calm ⟨h, hcalm.1, .inr hcalm.2⟩ hcalm.2
      rw [hincreased] at hrun
      cases hrun
      exact ⟨hlayout, .of_eq hentries, .single (.same hstorage.sameBlocks)⟩
    · rw [h.increaseSize_of_not_calm hcalm] at hrun
      split at hrun
      · cases hrun
      · exact (rehashed_of_returned (.inr h) h.buckets_double.1 h.double_lt h.load_double.le hrun).grown

/-! ## What calls leave -/

def Call.Leaves {σ ρ : Type*} (P : σ → Prop) : Call σ ρ → Prop
  | .returned _ s | .overflowError s => P s
  | .undefined => True

theorem Call.Leaves.andThen {σ ρ ρ' : Type*} {P : σ → Prop} {call : Call σ ρ} {g : ρ → σ → Call σ ρ'}
    (h : call.Leaves P) (hg : ∀ value s, P s → (g value s).Leaves P) : (call.andThen g).Leaves P := by
  cases call with
  | returned value s => exact hg value s h
  | overflowError s => exact h
  | undefined => trivial

theorem rehashPowerOfTwo_leaves (hinv : Inv c s.toTable) (hbuckets : ∃ k, 3 ≤ k ∧ numBuckets = 2 ^ k)
    (hlt : numBuckets < 2 ^ 64) (hload : s.numElements ≤ c.calcMaxNumElementsAllowed numBuckets) :
    (rehashPowerOfTwo c numBuckets s).Leaves fun s => Inv c s.toTable := by
  by_cases hundefined : rehashPowerOfTwo c numBuckets s = .undefined
  · rw [hundefined]
    trivial
  · obtain ⟨hspread, hcrowded⟩ :=
      rehashPowerOfTwo_eq hinv (room_of_rehash hbuckets hlt hundefined) hbuckets hload
    by_cases hcrowd : CrowdedIn c numBuckets (entries c s.toTable).dropLast
    · obtain ⟨s', hcall, _, hlayout⟩ := hcrowded hcrowd
      rw [hcall]
      exact .inr hlayout
    · obtain ⟨s', hcall, hrehashed⟩ := hspread hcrowd
      rw [hcall]
      exact .inr hrehashed.layout

theorem increaseSize_leaves (hinv : Inv c s.toTable) : (increaseSize c s).Leaves fun s => Inv c s.toTable := by
  match hcall : increaseSize c s with
  | .returned () s₁ => exact .inr (increaseSize_grown hinv hcall).layout
  | .undefined => trivial
  | .overflowError s₁ =>
    rcases hinv with hfresh | h
    · rw [increaseSize, if_pos hfresh.mask, initData] at hcall
      split at hcall <;> cases hcall
    · by_cases hcalm : s.numElements < c.calcMaxNumElementsAllowed (s.mask + 1) ∧ 2 < s.infoInc
      · obtain ⟨t, hincreased, _⟩ := Layout.increaseSize_calm ⟨h, hcalm.1, .inr hcalm.2⟩ hcalm.2
        rw [hincreased] at hcall
        cases hcall
      · rw [h.increaseSize_of_not_calm hcalm] at hcall
        split at hcall
        · cases hcall
          exact .inr h
        · have hleaves := rehashPowerOfTwo_leaves (.inr h) h.buckets_double.1 h.double_lt h.load_double.le
          rw [hcall] at hleaves
          exact hleaves

theorem Layout.limits (h : Layout c t) (hspace : t.numElements < t.maxNumElementsAllowed) :
    t.maxNumElementsAllowed = c.calcMaxNumElementsAllowed (t.mask + 1) ∧ Roomy c t :=
  h.limit.resolve_left (by omega)

theorem insertLoop_leaves {construct : State α β → State α β} (hconstruct : Constructs c construct) (rounds : Nat)
    (hinv : Inv c s.toTable) : (insertLoop c node construct rounds s).Leaves fun s => Inv c s.toTable := by
  induction rounds generalizing s with
  | zero => trivial
  | succ rounds ih =>
    rw [insertLoop]
    rcases hprobe : probe c s.toTable node.1 with _ | ⟨idx⟩ | ⟨info, idx⟩
    · trivial
    · exact hinv
    · dsimp only
      split_ifs with hspace
      · exact (increaseSize_leaves hinv).andThen fun _ _ hinv' => ih hinv'
      · have h := hinv.resolve_left fun hfresh =>
          hspace (by rw [hfresh.maxNumElementsAllowed]; exact Nat.zero_le _)
        obtain ⟨result, hres, hprobed⟩ := h.probe_eq node.1
        rw [hprobe] at hres
        cases hres
        obtain ⟨rfl, hv, habsent⟩ := hprobed
        obtain ⟨hmax, hroomy⟩ := h.limits (not_le.mp hspace)
        obtain ⟨last, limit, _, _, hput, hlayout, _⟩ :=
          h.putNode_eq hmax hroomy (hmax ▸ not_le.mp hspace) hv habsent
        rw [hput]
        change Inv c (construct _).toTable
        rw [hconstruct.toTable]
        exact Inv.withPool (.inr hlayout) _

section
variable [Inhabited β]

theorem Behaves.leaves (h : Behaves c op s call) : call.Leaves fun s => Inv c s.toTable := by
  cases call with
  | returned answer s' => exact h.1
  | overflowError s' => exact h.1
  | undefined => trivial

omit [Inhabited β] in
theorem emplace_leaves (value : β) (hinv : Inv c s.toTable) :
    (emplace c key value s).Leaves fun s => Inv c s.toTable := by
  have hinv₁ := newNode_toTable c s ▸ hinv.withPool _
  refine (insertLoop_leaves (constructs_id c) insertRounds hinv₁).andThen ?_
  rintro ⟨idx, inserted⟩ s' hinv'
  cases inserted with
  | true => exact hinv'
  | false =>
    change Inv c (destroyNode c s'.toTable)
    rw [destroyNode_eq]
    exact hinv'.withPool _

omit [Inhabited β] in
theorem reserveOrRehash_leaves (number : Nat) (force : Bool) (hinv : Inv c s.toTable) :
    (reserveOrRehash c number force s).Leaves fun s => Inv c s.toTable := by
  rw [reserveOrRehash]
  split
  · exact hinv
  · rename_i hne
    split
    · obtain ⟨hbuckets, hload⟩ := newSize_eq hne
      exact rehashPowerOfTwo_leaves hinv hbuckets (reserveSize_lt c _ 64 (by decide)) hload
    · exact hinv

theorem perform_leaves (op : Op α β) (hinv : Inv c s.toTable) (hvalid : Valid c s.toTable op) :
    (perform c op s).Leaves fun s => Inv c s.toTable := by
  have hinsert : ∀ node : α × β, (doInsert c node (newNode c) s).Leaves fun s => Inv c s.toTable :=
    fun node => insertLoop_leaves (constructs_newNode c) insertRounds hinv
  cases op with
  | insert key value => exact (hinsert (key, value)).andThen fun _ _ hinv' => hinv'
  | emplace key value => exact (emplace_leaves value hinv).andThen fun _ _ hinv' => hinv'
  | tryEmplace key value | insertOrAssign key value =>
    rcases hinv.findIdx_eq key with ⟨idx, node, _, _, _, _, hmem, hkey⟩ | ⟨hfind, _⟩
    · refine (perform_behaves _ hinv hvalid fun habsent => ?_).leaves
      exact absurd hkey (by rw [habsent node hmem]; rintro ⟨⟩)
    · simp only [perform, tryEmplace, insertOrAssign, hfind, if_true]
      exact (emplace_leaves value hinv).andThen fun _ _ hinv' => hinv'
  | subscript key =>
    refine Call.Leaves.andThen ?_ fun _ _ hinv' => hinv'
    exact (hinsert (key, default)).andThen fun _ _ hinv' => hinv'
  | eraseKey key | eraseAt idx | find key | count key | clear => exact (perform_behaves _ hinv hvalid trivial).leaves
  | reserve number => exact (reserveOrRehash_leaves number false hinv).andThen fun _ _ hinv' => hinv'
  | rehash number => exact (reserveOrRehash_leaves number true hinv).andThen fun _ _ hinv' => hinv'

end

end Ktl.HashTable
