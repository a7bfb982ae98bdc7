import Ktl.HashTableMap

/-!
`operator==` of hash tables: the numbers of nodes are compared, and every node of the
other table is looked for.
-/
namespace Ktl.HashTable

open Runs

variable {α β : Type*} [DecidableEq β] {c : Config α}

def has (c : Config α) (t : Table α β) (e : α × β) : Option Bool :=
  (findIdx c t e.1).bind fun idx =>
    if idx = endIdx c t then some false else (t.keyVals idx).map fun node => node.2 = e.2

/-- The loop of `operator==` over the nodes of the other table. -/
def hasAll (c : Config α) (t : Table α β) : List (α × β) → Option Bool
  | [] => some true
  | e :: rest => (has c t e).bind fun found => if found then hasAll c t rest else some false

/-- `operator==` -/
def equals (c : Config α) (t other : Table α β) : Option Bool :=
  if other.numElements ≠ t.numElements then some false else (visitAll c other).bind (hasAll c t)

section

variable {t : Table α β} (h : Inv c t) (hkey : ∀ x y, c.keyEqual x y = true → x = y)

include h hkey

theorem Inv.has_iff (e : α × β) : ∃ found, has c t e = some found ∧ (found = true ↔ e ∈ entries c t) := by
  have hself : e ∈ entries c t → FiniteMap.lookup c.keyEqual (entries c t) e.1 = some e :=
    fun he => h.lookup_eq he (c.keyEqual_refl e.1)
  rcases h.findIdx_eq e.1 with ⟨idx, node, hfind, hend, -, hnode, hmem, hsame⟩ | ⟨hfind, habsent⟩
  · refine ⟨decide (node.2 = e.2), by simp [has, hfind, hend, hnode],
      decide_eq_true_iff.trans ⟨fun hvalue => ?_, fun he => ?_⟩⟩
    · rwa [← Prod.ext (hkey _ _ hsame).symm hvalue]
    · rw [Option.some.inj ((h.lookup_eq hmem hsame).symm.trans (hself he))]
  · refine ⟨false, by simp [has, hfind], iff_of_false Bool.false_ne_true fun he => ?_⟩
    cases habsent.lookup_eq.symm.trans (hself he)

theorem Inv.hasAll_iff (others : List (α × β)) :
    ∃ found, hasAll c t others = some found ∧ (found = true ↔ others ⊆ entries c t) := by
  induction others with
  | nil => exact ⟨true, rfl, by simp⟩
  | cons e rest ih =>
    obtain ⟨found, hhas, hiff⟩ := h.has_iff hkey e
    cases found with
    | false => exact ⟨false, by simp [hasAll, hhas], by simp [← hiff]⟩
    | true =>
      obtain ⟨all, hall, hiff'⟩ := ih
      exact ⟨all, by simp [hasAll, hhas, hall], by simp [← hiff, hiff']⟩

end

/-- Tables that any supported operations have made compare equal exactly if they have the same
entries. -/
theorem equals_iff_perm [Inhabited β] {s s' : State α β} {pool pool' : Pool} {heap heap' : Heap}
    {ops ops' : List (Op α β)} (hkey : ∀ x y, c.keyEqual x y = true → x = y)
    (hrun : Run (step c) (fun s op => Valid c s.toTable op ∧ Safe c s.toTable op) (start pool heap) ops s)
    (hrun' : Run (step c) (fun s op => Valid c s.toTable op ∧ Safe c s.toTable op) (start pool' heap') ops' s') :
    ∃ equal, equals c s.toTable s'.toTable = some equal ∧
      (equal = true ↔ (entries c s'.toTable).Perm (entries c s.toTable)) := by
  have hinv := hrun.invariant (I := fun s => Inv c s.toTable)
    (fun _ _ _ hinv hok hs => (step_inv hinv hok hs).1) (inv_start c pool heap)
  have hinv' := hrun'.invariant (I := fun s => Inv c s.toTable)
    (fun _ _ _ hinv hok hs => (step_inv hinv hok hs).1) (inv_start c pool' heap')
  have hnodup : (entries c s'.toTable).Nodup := by
    refine hinv'.distinct.imp fun {e e'} hne he => ?_
    rw [he, c.keyEqual_refl] at hne
    cases hne
  rw [equals, hinv.size_eq, hinv'.size_eq, hinv'.visitAll_eq, Option.bind_some]
  split_ifs with hsize
  · exact ⟨false, rfl, iff_of_false Bool.false_ne_true fun hperm => hsize hperm.length_eq⟩
  · obtain ⟨found, hall, hiff⟩ := hinv.hasAll_iff hkey (entries c s'.toTable)
    refine ⟨found, hall, hiff.trans ⟨fun hsub => ?_, fun hperm => hperm.subset⟩⟩
    exact (List.subperm_of_subset hnodup hsub).perm_of_length_le (not_not.mp hsize).ge

/-- 128 keys inserted in opposite orders make equal tables, and neither equals an empty one. -/
theorem equals_spacedInserts : ∃ s s',
    Run (step spacedConfig) (fun s op => Valid spacedConfig s.toTable op ∧ Safe spacedConfig s.toTable op)
      newTable spacedInserts s ∧
    Run (step spacedConfig) (fun s op => Valid spacedConfig s.toTable op ∧ Safe spacedConfig s.toTable op)
      newTable (.reserve 20000 :: ((List.range 128).reverse.map fun key => (key, ())).map
        fun node => .insert node.1 node.2) s' ∧
    equals spacedConfig s.toTable s'.toTable = some true ∧
    equals spacedConfig newTable.toTable s'.toTable = some false := by
  obtain ⟨s, hrun, -, hperm⟩ := run_spacedInserts
  obtain ⟨s', hrun', -, hperm'⟩ := run_spacedInserts_perm (List.reverse_perm (List.range 128))
  have hkey : ∀ x y, spacedConfig.keyEqual x y = true → x = y := fun _ _ h => of_decide_eq_true h
  obtain ⟨equal, hequals, hiff⟩ := equals_iff_perm hkey hrun hrun'
  have hsame := (hperm'.trans ((List.reverse_perm _).map _)).trans hperm.symm
  obtain ⟨equal₀, hequals₀, hiff₀⟩ := equals_iff_perm hkey (.nil newTable) hrun'
  have hnil : entries spacedConfig newTable.toTable = [] := RobinHood.entriesFrom_eq_nil fun _ _ _ => rfl
  have hother : ¬ equal₀ = true := by
    rw [hiff₀, hnil]
    intro hempty
    simpa using (hperm'.symm.trans hempty).length_eq
  refine ⟨s, s', hrun, hrun', by rw [hequals, hiff.mpr hsame], ?_⟩
  rw [hequals₀, Bool.eq_false_of_not_eq_true hother]

end Ktl.HashTable
