import Mathlib.Algebra.BigOperators.Group.Finset.Basic
import Mathlib.Data.Finmap
import Mathlib.Order.Interval.Finset.Nat

/-!
# Live blocks of a 64-bit address space

The allocated blocks as a finite map from addresses to sizes. Blocks that lie apart from
each other have fewer than 2^64 bytes together.
-/

namespace CStructures.Lib

abbrev BlockMap := Finmap fun _ : UInt64 => UInt64

def blockSize (m : BlockMap) (p : UInt64) : Nat := ((m.lookup p).getD 0).toNat

/-- The number of bytes in all blocks. -/
def totalSize (m : BlockMap) : Nat := ∑ p ∈ m.keys, blockSize m p

/-- A block of `n` bytes at `p` could be added to `m`. -/
structure Fresh (m : BlockMap) (p n : UInt64) : Prop where
  nonNull : p ≠ 0
  absent : p ∉ m
  inside : p.toNat + n.toNat ≤ 2 ^ 64
  apart : ∀ q ∈ m.keys, p.toNat + n.toNat ≤ q.toNat ∨ q.toNat + blockSize m q ≤ p.toNat

/-- The blocks of `m` are pairwise apart, and none is at NULL. -/
structure Apart (m : BlockMap) : Prop where
  nonNull : 0 ∉ m
  inside : ∀ p ∈ m, p.toNat + blockSize m p ≤ 2 ^ 64
  apart : ∀ p ∈ m, ∀ q ∈ m, p ≠ q →
    p.toNat + blockSize m p ≤ q.toNat ∨ q.toNat + blockSize m q ≤ p.toNat

/-- Every block of `m` is a block of `m'`. -/
def Within (m m' : BlockMap) : Prop := ∀ p n, m.lookup p = some n → m'.lookup p = some n

variable {m m' : BlockMap} {p q n : UInt64}

instance decidableFresh (m : BlockMap) (p n : UInt64) : Decidable (Fresh m p n) :=
  letI : Decidable (∀ q ∈ m.keys, p.toNat + n.toNat ≤ q.toNat ∨ q.toNat + blockSize m q ≤ p.toNat) :=
    Finset.decidableDforallFinset
  decidable_of_iff
    (p ≠ 0 ∧ p ∉ m ∧ p.toNat + n.toNat ≤ 2 ^ 64 ∧
      ∀ q ∈ m.keys, p.toNat + n.toNat ≤ q.toNat ∨ q.toNat + blockSize m q ≤ p.toNat)
    ⟨fun h => ⟨h.1, h.2.1, h.2.2.1, h.2.2.2⟩, fun h => ⟨h.nonNull, h.absent, h.inside, h.apart⟩⟩

@[simp] lemma blockSize_insert : blockSize (m.insert p n) p = n.toNat := by
  simp [blockSize]

lemma blockSize_insert_of_ne (h : q ≠ p) : blockSize (m.insert p n) q = blockSize m q := by
  rw [blockSize, Finmap.lookup_insert_of_ne _ h, blockSize]

lemma blockSize_erase_of_ne (h : q ≠ p) : blockSize (m.erase p) q = blockSize m q := by
  rw [blockSize, Finmap.lookup_erase_ne h, blockSize]

lemma blockSize_of_lookup (h : m.lookup p = some n) : blockSize m p = n.toNat := by
  simp [blockSize, h]

lemma keys_insert : (m.insert p n).keys = insert p m.keys := by
  ext q
  simp [Finmap.mem_keys, Finmap.mem_insert]

lemma card_insert (h : p ∉ m) : (m.insert p n).keys.card = m.keys.card + 1 := by
  rw [keys_insert, Finset.card_insert_of_notMem (Finmap.mem_keys.not.mpr h)]

lemma card_erase (h : p ∈ m) : (m.erase p).keys.card + 1 = m.keys.card := by
  rw [Finmap.keys_erase]
  exact Finset.card_erase_add_one (Finmap.mem_keys.mpr h)

lemma totalSize_insert (h : p ∉ m) : totalSize (m.insert p n) = totalSize m + n.toNat := by
  have hsame : ∑ q ∈ m.keys, blockSize (m.insert p n) q = totalSize m := by
    refine Finset.sum_congr rfl fun q hq => blockSize_insert_of_ne ?_
    rintro rfl
    exact h (Finmap.mem_keys.mp hq)
  rw [totalSize, keys_insert, Finset.sum_insert (Finmap.mem_keys.not.mpr h), hsame,
    blockSize_insert, Nat.add_comm]

lemma totalSize_erase (h : m.lookup p = some n) :
    totalSize (m.erase p) + n.toNat = totalSize m := by
  have hsame : totalSize (m.erase p) = ∑ q ∈ m.keys.erase p, blockSize m q := by
    rw [totalSize, Finmap.keys_erase]
    exact Finset.sum_congr rfl fun q hq => blockSize_erase_of_ne (Finset.ne_of_mem_erase hq)
  rw [hsame, ← blockSize_of_lookup h]
  exact Finset.sum_erase_add _ _ (Finmap.mem_keys.mpr (Finmap.mem_of_lookup_eq_some h))

/-- The addresses of a block. -/
def extent (m : BlockMap) (p : UInt64) : Finset Nat :=
  Finset.Ico p.toNat (p.toNat + blockSize m p)

lemma Apart.disjoint_extent (h : Apart m) (hp : p ∈ m) (hq : q ∈ m) (hne : p ≠ q) :
    Disjoint (extent m p) (extent m q) := by
  rw [Finset.disjoint_left]
  intro i hi hi'
  have hap := h.apart p hp q hq hne
  simp only [extent, Finset.mem_Ico] at hi hi'
  omega

theorem Apart.totalSize_lt (h : Apart m) : totalSize m < 2 ^ 64 := by
  have hsub : m.keys.biUnion (extent m) ⊆ Finset.Ico 1 (2 ^ 64) := by
    intro i hi
    obtain ⟨p, hp, hi⟩ := Finset.mem_biUnion.mp hi
    have hin := h.inside p (Finmap.mem_keys.mp hp)
    have hpos : 0 < p.toNat := by
      refine Nat.pos_of_ne_zero fun h0 => h.nonNull ?_
      rw [← UInt64.toNat_inj.mp (h0.trans UInt64.toNat_zero.symm)]
      exact Finmap.mem_keys.mp hp
    simp only [extent, Finset.mem_Ico] at hi ⊢
    omega
  have hcard := Finset.card_le_card hsub
  rw [Finset.card_biUnion fun p hp q hq hne =>
    h.disjoint_extent (Finmap.mem_keys.mp hp) (Finmap.mem_keys.mp hq) hne, Nat.card_Ico] at hcard
  have hsum : ∑ p ∈ m.keys, (extent m p).card = totalSize m :=
    Finset.sum_congr rfl fun p _ => by rw [extent, Nat.card_Ico, Nat.add_sub_cancel_left]
  omega

lemma Apart.empty : Apart ∅ where
  nonNull := Finmap.notMem_empty
  inside _ hp := absurd hp Finmap.notMem_empty
  apart _ hp := absurd hp Finmap.notMem_empty

lemma Apart.insert (h : Apart m) (hf : Fresh m p n) : Apart (m.insert p n) := by
  have hold : ∀ {q}, q ∈ m → blockSize (m.insert p n) q = blockSize m q := by
    intro q hq
    refine blockSize_insert_of_ne ?_
    rintro rfl
    exact hf.absent hq
  have hap := fun q hq => hf.apart q (Finmap.mem_keys.mpr hq)
  refine ⟨?_, ?_, ?_⟩
  · rw [Finmap.mem_insert, not_or]
    exact ⟨hf.nonNull.symm, h.nonNull⟩
  · intro q hq
    rcases Finmap.mem_insert.mp hq with rfl | hq
    · rw [blockSize_insert]
      exact hf.inside
    · rw [hold hq]
      exact h.inside q hq
  · intro q hq r hr hne
    rcases Finmap.mem_insert.mp hq with rfl | hq'
    · have hr' := (Finmap.mem_insert.mp hr).resolve_left hne.symm
      rw [blockSize_insert, hold hr']
      exact hap r hr'
    · rcases Finmap.mem_insert.mp hr with rfl | hr'
      · rw [blockSize_insert, hold hq']
        exact (hap q hq').symm
      · rw [hold hq', hold hr']
        exact h.apart q hq' r hr' hne

lemma Apart.erase (h : Apart m) : Apart (m.erase p) := by
  refine ⟨fun h0 => h.nonNull (Finmap.mem_erase.mp h0).2, ?_, ?_⟩
  · intro q hq
    obtain ⟨hne, hq⟩ := Finmap.mem_erase.mp hq
    rw [blockSize_erase_of_ne hne]
    exact h.inside q hq
  · intro q hq r hr hqr
    obtain ⟨hne, hq⟩ := Finmap.mem_erase.mp hq
    obtain ⟨hne', hr⟩ := Finmap.mem_erase.mp hr
    rw [blockSize_erase_of_ne hne, blockSize_erase_of_ne hne']
    exact h.apart q hq r hr hqr

lemma Within.mem (h : Within m m') (hp : p ∈ m) : p ∈ m' := by
  obtain ⟨n, hn⟩ := Finmap.mem_iff.mp hp
  exact Finmap.mem_of_lookup_eq_some (h p n hn)

lemma Within.fresh (h : Within m m') (hf : Fresh m' p n) : Fresh m p n := by
  refine ⟨hf.nonNull, fun hp => hf.absent (h.mem hp), hf.inside, fun q hq => ?_⟩
  obtain ⟨k, hk⟩ := Finmap.mem_iff.mp (Finmap.mem_keys.mp hq)
  rw [blockSize_of_lookup hk, ← blockSize_of_lookup (h q k hk)]
  exact hf.apart q (Finmap.mem_keys.mpr (Finmap.mem_of_lookup_eq_some (h q k hk)))

lemma Within.empty : Within ∅ m := fun p n h => by simp at h

lemma Within.insert (h : Within m m') : Within (m.insert p n) (m'.insert p n) := by
  intro q k hk
  by_cases hq : q = p
  · subst hq
    simpa using hk
  · rw [Finmap.lookup_insert_of_ne _ hq] at hk ⊢
    exact h q k hk

lemma Within.insert_of_notMem (h : Within m m') (hp : p ∉ m) : Within m (m'.insert p n) := by
  intro q k hk
  have hq : q ≠ p := by
    rintro rfl
    exact hp (Finmap.mem_of_lookup_eq_some hk)
  rw [Finmap.lookup_insert_of_ne _ hq]
  exact h q k hk

lemma Within.erase (h : Within m m') : Within (m.erase p) (m'.erase p) := by
  intro q k hk
  have hq : q ≠ p := by
    rintro rfl
    simp at hk
  rw [Finmap.lookup_erase_ne hq] at hk ⊢
  exact h q k hk

lemma Within.erase_of_notMem (h : Within m m') (hp : p ∉ m) : Within m (m'.erase p) := by
  intro q k hk
  have hq : q ≠ p := by
    rintro rfl
    exact hp (Finmap.mem_of_lookup_eq_some hk)
  rw [Finmap.lookup_erase_ne hq]
  exact h q k hk

lemma erase_of_notMem (h : p ∉ m) : m.erase p = m := by
  refine Finmap.ext_lookup fun q => ?_
  by_cases hq : q = p
  · subst hq
    rw [Finmap.lookup_erase, Finmap.lookup_eq_none.mpr h]
  · exact Finmap.lookup_erase_ne hq

end CStructures.Lib
