import CStructures.Proofs.BtreeEntries

/-!
# The binary search pass by pass

On ascending keys `btree_find_lower_bound` ends within 32 passes, each of which reads a stored
key and keeps the remaining length a real one. It is left at the first key that is not below
the searched one.
-/

namespace CStructures
open Lib

namespace Btree

variable {b : Btree} {key : UInt32} {s s' : Nat × UInt32} {i k : Nat} {reads : List Nat}

/-- One pass of the loop, labelled with the index of the key that it reads. -/
def SearchPass (b : Btree) (key : UInt32) (s : Nat × UInt32) (i : Nat) (s' : Nat × UInt32) : Prop :=
  s.2 > 0 ∧ (lowerBoundPass b key s).log = [.read (keyOffset i) 4] ∧ s' = (lowerBoundPass b key s).val

lemma SearchPass.index_eq (h : SearchPass b key s i s') : i = middle (stretch s) := by
  obtain ⟨_, hlog, _⟩ := h
  rw [log_lowerBoundPass, List.cons.injEq, Access.read.injEq] at hlog
  obtain ⟨⟨hoff, _⟩, _⟩ := hlog
  unfold keyOffset at hoff
  omega

lemma SearchPass.stretch_eq (h : SearchPass b key s i s') :
    stretch s' = halve (fun i => b.keys i < key) (stretch s) := by
  obtain ⟨hpos, _, rfl⟩ := h
  exact stretch_lowerBoundPass (pos_iff_toNat_pos.mp hpos)

/-- Whatever the keys, the passes read stored ones, and their number is logarithmic. -/
lemma searchPasses_reads (hrun : Run (SearchPass b key) s reads s')
    (hinside : (stretch s).1 + (stretch s).2 ≤ b.count.toNat) (hk : (stretch s).2 < 2 ^ k) :
    (∀ i ∈ reads, i < b.count.toNat) ∧ reads.length ≤ k ∧
      (stretch s').1 + (stretch s').2 ≤ b.count.toNat := by
  induction hrun generalizing k with
  | nil => exact ⟨List.forall_mem_nil _, Nat.zero_le k, hinside⟩
  | @cons s s₁ s' i reads hpass _ ih =>
    have hpos : 0 < (stretch s).2 := pos_iff_toNat_pos.mp hpass.1
    have hmiddle := middle_lt hinside hpos
    rw [← hpass.index_eq] at hmiddle
    have hinside₁ := halve_inside (p := fun i => b.keys i < key) hinside hpos
    rw [← hpass.stretch_eq] at hinside₁
    cases k with
    | zero => omega
    | succ k =>
      have hk₁ := halve_lt_two_pow (p := fun i => b.keys i < key) hk
      rw [← hpass.stretch_eq] at hk₁
      obtain ⟨hreads, hlen, hend⟩ := ih hinside₁ hk₁
      exact ⟨List.forall_mem_cons.mpr ⟨hmiddle, hreads⟩, Nat.succ_le_succ hlen, hend⟩

lemma searchPasses_brackets (ha : Ascending b.keys b.count.toNat)
    (hrun : Run (SearchPass b key) (0, b.count) reads s) :
    Brackets (fun i => b.keys i < key) b.count.toNat (stretch s) := by
  apply Run.invariant (fun s => Brackets (fun i => b.keys i < key) b.count.toNat (stretch s)) _
    (Brackets.start _ _) hrun
  intro s i s' h hpass
  rw [hpass.stretch_eq]
  exact h.halve ha.lt_of_le (pos_iff_toNat_pos.mp hpass.1)

/-- What holds after the passes that have read the keys `reads`. -/
structure Searching (b : Btree) (key : UInt32) (reads : List Nat) (s : Nat × UInt32) : Prop where
  reads_stored : ∀ i ∈ reads, i < b.count.toNat
  passes_le : reads.length ≤ 32
  inside : s.1 + s.2.toNat ≤ b.count.toNat
  -- neither subtraction of `len - half - 1` wraps
  half_le : s.2 >>> 1 ≤ s.2
  one_le : s.2 > 0 → (1 : UInt32) ≤ s.2 - (s.2 >>> 1)
  continues : s.2 > 0 → ∃ i s', SearchPass b key s i s'
  result : s.2 = 0 → s.1 = (btreeFindLowerBound b key).val

theorem findLowerBound_isLeast (ha : Ascending b.keys b.count.toNat) (key : UInt32) :
    IsLeast {i | i = b.count.toNat ∨ i < b.count.toNat ∧ key ≤ b.keys i} (btreeFindLowerBound b key).val := by
  have hleast := (findLowerBound_brackets ha key).isLeast rfl
  simpa only [not_lt] using hleast

lemma searching_of_run (ha : Ascending b.keys b.count.toNat)
    (hrun : Run (SearchPass b key) (0, b.count) reads s) : Searching b key reads s := by
  obtain ⟨hreads, hlen, hinside⟩ :=
    searchPasses_reads hrun (Nat.zero_add _).le (k := 32) b.count.toNat_lt
  have hhalf := toNat_half s.2
  have hle : s.2 >>> 1 ≤ s.2 := UInt32.le_iff_toNat_le.mpr (by omega)
  refine ⟨hreads, hlen, hinside, hle, ?_, ?_, ?_⟩
  · intro hpos
    have hpos' := pos_iff_toNat_pos.mp hpos
    have hrest := toNat_sub_of_le (UInt32.le_iff_toNat_le.mp hle)
    apply UInt32.le_iff_toNat_le.mpr
    rw [hrest, UInt32.toNat_one]
    omega
  · exact fun hpos => ⟨_, _, hpos, log_lowerBoundPass b key s, rfl⟩
  · intro hzero
    have hleast := (searchPasses_brackets ha hrun).isLeast (congrArg UInt32.toNat hzero)
    exact hleast.unique ((findLowerBound_brackets ha key).isLeast rfl)

lemma lowerBoundWithin_of_zero (fuel : Nat) (hzero : s.2.toNat = 0) :
    lowerBoundWithin b key (fuel + 1) s = pure (some s.1) := by
  rw [lowerBoundWithin]
  exact if_neg fun h => hzero.not_gt (pos_iff_toNat_pos.mp h)

/-- With enough fuel the loop without a bound is the loop that `len` bounds. -/
lemma lowerBoundWithin_eq {fuel bound : Nat} (hk : (stretch s).2 < 2 ^ k) (hfuel : k < fuel)
    (hbound : (stretch s).2 ≤ bound) :
    lowerBoundWithin b key fuel s = some <$> lowerBoundLoop b key bound s.1 s.2 := by
  induction k generalizing s fuel bound with
  | zero =>
    obtain ⟨fuel, rfl⟩ := Nat.exists_eq_add_one.mpr hfuel
    have hzero : s.2.toNat = 0 := Nat.lt_one_iff.mp hk
    rw [lowerBoundWithin_of_zero fuel hzero, lowerBoundLoop_of_zero bound hzero]
    rfl
  | succ k ih =>
    obtain ⟨fuel, rfl⟩ := Nat.exists_eq_add_one.mpr (Nat.zero_lt_of_lt hfuel)
    by_cases hpos : 0 < s.2.toNat
    · obtain ⟨bound, rfl⟩ := Nat.exists_eq_add_one.mpr (hpos.trans_le hbound)
      have hlt := halve_lt_two_pow (p := fun i => b.keys i < key) hk
      have hhalf := halve_length (fun i => b.keys i < key) (stretch s)
      rw [← stretch_lowerBoundPass hpos] at hlt hhalf
      have hrest : lowerBoundWithin b key fuel (lowerBoundPass b key s).val = some <$>
          lowerBoundLoop b key bound (lowerBoundPass b key s).val.1 (lowerBoundPass b key s).val.2 :=
        ih hlt (by omega) (by omega)
      rw [lowerBoundWithin, if_pos (pos_iff_toNat_pos.mpr hpos), lowerBoundLoop_of_pos bound hpos]
      ext : 1
      · rw [Logged.val_map, Logged.val_bind, Logged.val_bind, hrest, Logged.val_map]
      · rw [Logged.log_map, Logged.log_bind, Logged.log_bind, hrest, Logged.log_map]
    · have hzero : s.2.toNat = 0 := Nat.eq_zero_of_not_pos hpos
      rw [lowerBoundWithin_of_zero fuel hzero, lowerBoundLoop_of_zero bound hzero]
      rfl

end Btree

/-- On ascending keys the loop of `btree_find_lower_bound` ends, reads stored keys only, never
underflows the remaining length and returns the index of the first key that is not below `key`, or
the count when there is none. -/
theorem btree_lower_bound_exact {b : Btree} (ha : Ascending b.keys b.count.toNat) (key : UInt32) :
    (∀ fuel, 32 < fuel →
      lowerBoundWithin b key fuel (0, b.count) = some <$> btreeFindLowerBound b key) ∧
    (∀ access ∈ (btreeFindLowerBound b key).log,
      ∃ i < b.count.toNat, access = .read (Btree.keyOffset i) 4) ∧
    (∀ reads s, Run (Btree.SearchPass b key) (0, b.count) reads s → Btree.Searching b key reads s) ∧
    IsLeast {i | i = b.count.toNat ∨ i < b.count.toNat ∧ key ≤ b.keys i} (btreeFindLowerBound b key).val :=
  ⟨fun _ hfuel => Btree.lowerBoundWithin_eq b.count.toNat_lt hfuel le_rfl, (Btree.findLowerBound_reads key).1,
    fun _ _ hrun => Btree.searching_of_run ha hrun, Btree.findLowerBound_isLeast ha key⟩

theorem btree_lower_bound_exact_three : ∃ b : Btree,
    Run Btree.BoundedStep (btreeInit 1)
      (Btree.grantedActions [.insertNew 5 [2], .insertNew 3 [1], .insertNew 8 [2]]) b ∧
    (btreeFindLowerBound b 4).val = 1 ∧
    lowerBoundWithin b 4 33 (0, b.count) = some <$> btreeFindLowerBound b 4 ∧
    IsLeast {i | i = b.count.toNat ∨ i < b.count.toNat ∧ 4 ≤ b.keys i} 1 := by
  have hresult : ((Btree.grantedActions [.insertNew 5 [2], .insertNew 3 [1], .insertNew 8 [2]]).foldlM
      Btree.boundedAct (btreeInit 1)).map (fun b => (btreeFindLowerBound b 4).val) = some 1 := by
    decide +kernel
  obtain ⟨b, hrun, hfound⟩ := Run.exists_of_foldlM Btree.boundedAct_step hresult
  obtain ⟨m, hrep⟩ := Btree.represents_of_run hrun
  obtain ⟨hends, _, _, hleast⟩ := btree_lower_bound_exact hrep.sound.ascending 4
  rw [hfound] at hleast
  exact ⟨b, hrun, hfound, hends 33 (by decide), hleast⟩

/-- A btree that has never been allocated has no key to read. -/
example (valueSize key : UInt32) : btreeFindLowerBound (btreeInit valueSize) key = ⟨0, []⟩ := rfl

end CStructures
