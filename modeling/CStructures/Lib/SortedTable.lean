import CStructures.Lib.Sequence
import Mathlib.Data.Finmap
import Mathlib.Order.Basic

/-!
# Sorted tables

A finite map kept as two parallel arrays: strictly ascending keys and the value of each
key at the same index. Insertion at the lower bound and erasure at an index are related to
the map here, over any linearly ordered keys.
-/

namespace CStructures.Lib

variable {K V : Type*} {keys keys' : Nat → K} {vals vals' : Nat → V} {n p i j : Nat} {k k' : K}
  {v v' : V}

/-- One of the first `n` entries pairs `k` with `v`. -/
def Holds (keys : Nat → K) (vals : Nat → V) (n : Nat) (k : K) (v : V) : Prop :=
  ∃ i < n, keys i = k ∧ vals i = v

lemma Holds.congr (hk : ∀ i < n, keys' i = keys i) (hv : ∀ i < n, vals' i = vals i) :
    Holds keys' vals' n k v ↔ Holds keys vals n k v := by
  unfold Holds
  refine exists_congr fun i => and_congr_right fun hi => ?_
  rw [hk i hi, hv i hi]

lemma holds_insertAt (hp : p ≤ n) : Holds (insertAt keys p k) (insertAt vals p v) (n + 1) k' v' ↔
    (k' = k ∧ v' = v) ∨ Holds keys vals n k' v' := by
  constructor
  · rintro ⟨i, hi, rfl, rfl⟩
    rcases Nat.lt_trichotomy i p with h | rfl | h
    · exact Or.inr ⟨i, by omega, (insertAt_of_lt h).symm, (insertAt_of_lt h).symm⟩
    · exact Or.inl ⟨insertAt_self, insertAt_self⟩
    · exact Or.inr ⟨i - 1, by omega, (insertAt_of_gt h).symm, (insertAt_of_gt h).symm⟩
  · rintro (⟨rfl, rfl⟩ | ⟨i, hi, rfl, rfl⟩)
    · exact ⟨p, by omega, insertAt_self, insertAt_self⟩
    · by_cases h : i < p
      · exact ⟨i, by omega, insertAt_of_lt h, insertAt_of_lt h⟩
      · have hs : p < i + 1 := by omega
        exact ⟨i + 1, by omega, insertAt_of_gt hs, insertAt_of_gt hs⟩

variable [LinearOrder K]

def Ascending (keys : Nat → K) (n : Nat) : Prop := ∀ i j, i < j → j < n → keys i < keys j

/-- `p` separates the keys below `k` from the others. -/
structure IsLowerBound (keys : Nat → K) (n : Nat) (k : K) (p : Nat) : Prop where
  le : p ≤ n
  below : ∀ i < p, keys i < k
  above : ∀ i, p ≤ i → i < n → k ≤ keys i

lemma Ascending.le (h : Ascending keys n) (hij : i ≤ j) (hj : j < n) : keys i ≤ keys j := by
  rcases Nat.lt_or_eq_of_le hij with hlt | rfl
  · exact (h i j hlt hj).le
  · exact le_rfl

/-- The keys below `k` are the first ones. -/
lemma Ascending.lt_of_le (h : Ascending keys n) (i j : Nat) (hij : i ≤ j) (hj : j < n) (hlt : keys j < k) :
    keys i < k := (h.le hij hj).trans_lt hlt

lemma Ascending.injective (h : Ascending keys n) (hi : i < n) (hj : j < n) (he : keys i = keys j) :
    i = j := by
  rcases Nat.lt_trichotomy i j with hlt | heq | hgt
  · exact absurd he (h i j hlt hj).ne
  · exact heq
  · exact absurd he.symm (h j i hgt hi).ne

/-- Ascending naturals are at least their indices. -/
lemma Ascending.index_le {f : Nat → Nat} (h : Ascending f n) (hi : i < n) : i ≤ f i := by
  induction i with
  | zero => exact Nat.zero_le _
  | succ i ih => exact (ih (by omega)).trans_lt (h i (i + 1) (Nat.lt_succ_self i) hi)

/-- The first index that differs from its entry is not an entry. -/
theorem Ascending.first_gap {f : Nat → Nat} (h : Ascending f n) (hbefore : ∀ i < p, f i = i) (hp : f p ≠ p)
    (hi : i < n) : f i ≠ p := by
  rcases Nat.lt_trichotomy i p with hlt | rfl | hgt
  · rw [hbefore i hlt]
    exact hlt.ne
  · exact hp
  · exact ((h.index_le (hgt.trans hi)).trans_lt (h p i hgt hi)).ne'

lemma Ascending.congr (h : Ascending keys n) (he : ∀ i < n, keys' i = keys i) : Ascending keys' n := by
  intro i j hij hj
  rw [he i (by omega), he j hj]
  exact h i j hij hj

/-- The lower bound of a key that is present is its index. -/
lemma IsLowerBound.eq_of_mem (h : IsLowerBound keys n k p) (ha : Ascending keys n) (hi : i < n)
    (hk : keys i = k) : p = i := by
  have hle : p ≤ i := by
    by_contra hlt
    exact absurd hk (h.below i (by omega)).ne
  have hkp := h.above p le_rfl (by omega)
  rcases Nat.lt_or_eq_of_le hle with hlt | heq
  · exact absurd (hk ▸ ha p i hlt hi) (not_lt.mpr hkp)
  · exact heq

/-- The test made at the lower bound decides membership. -/
theorem IsLowerBound.mem_iff (h : IsLowerBound keys n k p) (ha : Ascending keys n) :
    (p < n ∧ keys p = k) ↔ ∃ i < n, keys i = k := by
  constructor
  · rintro ⟨hp, hk⟩
    exact ⟨p, hp, hk⟩
  · rintro ⟨i, hi, hk⟩
    obtain rfl := h.eq_of_mem ha hi hk
    exact ⟨hi, hk⟩

theorem Ascending.insertAt (ha : Ascending keys n) (h : IsLowerBound keys n k p)
    (hk : ¬(p < n ∧ keys p = k)) : Ascending (insertAt keys p k) (n + 1) := by
  have habove : ∀ i, p ≤ i → i < n → k < keys i := by
    intro i hpi hi
    refine lt_of_le_of_ne (h.above i hpi hi) fun he => hk ?_
    obtain rfl := h.eq_of_mem ha hi he.symm
    exact ⟨hi, he.symm⟩
  have hle := h.le
  intro i j hij hj
  rcases Nat.lt_trichotomy j p with hjp | hjp | hjp
  · rw [insertAt_of_lt (by omega), insertAt_of_lt hjp]
    exact ha i j hij (by omega)
  · rw [hjp, insertAt_of_lt (by omega), insertAt_self]
    exact h.below i (by omega)
  · rw [insertAt_of_gt hjp]
    rcases Nat.lt_trichotomy i p with hip | hip | hip
    · rw [insertAt_of_lt hip]
      exact ha i (j - 1) (by omega) (by omega)
    · rw [hip, insertAt_self]
      exact habove (j - 1) (by omega) (by omega)
    · rw [insertAt_of_gt hip]
      exact ha (i - 1) (j - 1) (by omega) (by omega)

theorem Ascending.eraseAt (ha : Ascending keys (n + 1)) : Ascending (eraseAt keys p) n := by
  intro i j hij hj
  unfold Lib.eraseAt
  split_ifs <;> exact ha _ _ (by omega) (by omega)

lemma holds_eraseAt (ha : Ascending keys (n + 1)) (hp : p < n + 1) :
    Holds (eraseAt keys p) (eraseAt vals p) n k v ↔ k ≠ keys p ∧ Holds keys vals (n + 1) k v := by
  constructor
  · rintro ⟨i, hi, rfl, rfl⟩
    by_cases h : i < p
    · rw [eraseAt_of_lt h, eraseAt_of_lt h]
      exact ⟨(ha i p h hp).ne, i, by omega, rfl, rfl⟩
    · rw [eraseAt_of_ge (by omega), eraseAt_of_ge (by omega)]
      exact ⟨(ha p (i + 1) (by omega) (by omega)).ne', i + 1, by omega, rfl, rfl⟩
  · rintro ⟨hne, i, hi, rfl, rfl⟩
    rcases Nat.lt_trichotomy i p with h | rfl | h
    · exact ⟨i, by omega, eraseAt_of_lt h, eraseAt_of_lt h⟩
    · exact absurd rfl hne
    · have hs : i - 1 + 1 = i := by omega
      refine ⟨i - 1, by omega, ?_, ?_⟩ <;> rw [eraseAt_of_ge (by omega), hs]

/-- Overwriting the value at index `p`. -/
lemma holds_update (ha : Ascending keys n) (hp : p < n) :
    Holds keys (Function.update vals p v) n k' v' ↔
      (k' = keys p ∧ v' = v) ∨ (k' ≠ keys p ∧ Holds keys vals n k' v') := by
  constructor
  · rintro ⟨i, hi, rfl, rfl⟩
    by_cases h : i = p
    · subst h
      exact Or.inl ⟨rfl, Function.update_self ..⟩
    · exact Or.inr ⟨fun he => h (ha.injective hi hp he), i, hi, rfl, (Function.update_of_ne h ..).symm⟩
  · rintro (⟨rfl, rfl⟩ | ⟨hne, i, hi, rfl, rfl⟩)
    · exact ⟨p, hp, rfl, Function.update_self ..⟩
    · have h : i ≠ p := by
        rintro rfl
        exact hne rfl
      exact ⟨i, hi, rfl, Function.update_of_ne h ..⟩

/-! ### The map -/

/-- The table holds exactly the bindings of `m`. -/
def Tabulates (keys : Nat → K) (vals : Nat → V) (n : Nat) (m : Finmap fun _ : K => V) : Prop :=
  ∀ k v, m.lookup k = some v ↔ Holds keys vals n k v

section Tabulates

variable {m : Finmap fun _ : K => V}

lemma Tabulates.congr (h : Tabulates keys vals n m) (hk : ∀ i < n, keys' i = keys i)
    (hv : ∀ i < n, vals' i = vals i) : Tabulates keys' vals' n m := by
  intro k v
  rw [Holds.congr hk hv]
  exact h k v

lemma Tabulates.mem_iff (h : Tabulates keys vals n m) : k ∈ m ↔ ∃ i < n, keys i = k := by
  rw [Finmap.mem_iff]
  constructor
  · rintro ⟨v, hv⟩
    obtain ⟨i, hi, hk, _⟩ := (h k v).mp hv
    exact ⟨i, hi, hk⟩
  · rintro ⟨i, hi, hk⟩
    exact ⟨vals i, (h k _).mpr ⟨i, hi, hk, rfl⟩⟩

lemma Tabulates.lookup (h : Tabulates keys vals n m) (hi : i < n) : m.lookup (keys i) = some (vals i) :=
  (h _ _).mpr ⟨i, hi, rfl, rfl⟩

lemma tabulates_empty : Tabulates keys vals 0 (∅ : Finmap fun _ : K => V) := by
  intro k v
  simp [Holds]

theorem Tabulates.insert (h : Tabulates keys vals n m) (hk : k ∉ m) (hp : p ≤ n) :
    Tabulates (insertAt keys p k) (insertAt vals p v) (n + 1) (m.insert k v) := by
  intro k' v'
  rw [holds_insertAt hp]
  by_cases hkk : k' = k
  · subst hkk
    have hno : ¬Holds keys vals n k' v' := by
      rintro ⟨i, hi, hk', _⟩
      exact hk (h.mem_iff.mpr ⟨i, hi, hk'⟩)
    simp [Finmap.lookup_insert, hno, eq_comm]
  · rw [Finmap.lookup_insert_of_ne _ hkk, h k' v']
    simp [hkk]

theorem Tabulates.erase (h : Tabulates keys vals (n + 1) m) (ha : Ascending keys (n + 1))
    (hp : p < n + 1) : Tabulates (eraseAt keys p) (eraseAt vals p) n (m.erase (keys p)) := by
  intro k v
  rw [holds_eraseAt ha hp]
  by_cases hkk : k = keys p
  · subst hkk
    simp [Finmap.lookup_erase]
  · rw [Finmap.lookup_erase_ne hkk, h k v]
    simp [hkk]

theorem Tabulates.update (h : Tabulates keys vals n m) (ha : Ascending keys n) (hp : p < n) :
    Tabulates keys (Function.update vals p v) n (m.insert (keys p) v) := by
  intro k' v'
  rw [holds_update ha hp]
  by_cases hkk : k' = keys p
  · subst hkk
    simp [Finmap.lookup_insert, eq_comm]
  · rw [Finmap.lookup_insert_of_ne _ hkk, h k' v']
    simp [hkk]

lemma Tabulates.card (h : Tabulates keys vals n m) (ha : Ascending keys n) : m.keys.card = n := by
  have himage : m.keys = (Finset.range n).image keys := by
    ext k
    rw [Finmap.mem_keys, h.mem_iff, Finset.mem_image]
    simp only [Finset.mem_range]
  rw [himage, Finset.card_image_of_injOn, Finset.card_range]
  intro i hi j hj he
  exact ha.injective (Finset.mem_range.mp hi) (Finset.mem_range.mp hj) he

end Tabulates

end CStructures.Lib
