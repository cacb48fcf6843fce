import CStructures.Lib.Halving
import CStructures.Proofs.BtreeLayout

/-!
# Searching the btree

The binary search finds the lower bound of a key, and the linear search the first index of
a value.
-/

namespace CStructures
open Lib

namespace Btree

variable {b : Btree} {key : UInt32} {value : List Byte}

lemma val_readKey (i : Nat) : (b.readKey i).val = b.keys i := (keys_eq b i).symm

/-- What remains to be searched, as a stretch of positions. -/
def stretch (s : Nat × UInt32) : Nat × Nat := (s.1, s.2.toNat)

lemma middle_stretch (s : Nat × UInt32) : s.1 + (s.2 >>> 1).toNat = middle (stretch s) :=
  congrArg (s.1 + ·) (toNat_half s.2)

/-- No subtraction of a pass wraps, so that it halves the stretch. -/
lemma stretch_lowerBoundPass {s : Nat × UInt32} (hpos : 0 < s.2.toNat) :
    stretch (lowerBoundPass b key s).val = halve (fun i => b.keys i < key) (stretch s) := by
  unfold lowerBoundPass halve
  simp only [Logged.val_bind, Logged.val_ite, Logged.val_pure, val_readKey, middle_stretch]
  split_ifs
  · exact Prod.ext rfl (toNat_sub_half_pred hpos)
  · exact Prod.ext rfl (toNat_half s.2)

lemma log_lowerBoundPass (b : Btree) (key : UInt32) (s : Nat × UInt32) :
    (lowerBoundPass b key s).log = [.read (keyOffset (middle (stretch s))) 4] := by
  unfold lowerBoundPass
  simp only [Logged.log_bind, Logged.log_ite, Logged.log_pure, ite_self, List.append_nil, middle_stretch]
  rfl

lemma lowerBoundLoop_of_pos {s : Nat × UInt32} (fuel : Nat) (hpos : 0 < s.2.toNat) :
    lowerBoundLoop b key (fuel + 1) s.1 s.2 = (do
      let s ← lowerBoundPass b key s
      lowerBoundLoop b key fuel s.1 s.2) := by
  rw [lowerBoundLoop, if_pos (pos_iff_toNat_pos.mpr hpos)]
  ext : 1
  · simp only [lowerBoundPass, Logged.val_bind, Logged.val_ite, Logged.val_pure]
    split_ifs <;> rfl
  · simp only [lowerBoundPass, Logged.log_bind, Logged.val_bind, Logged.val_ite, Logged.log_ite,
      Logged.val_pure, Logged.log_pure, ite_self, List.append_nil]
    split_ifs <;> rfl

lemma lowerBoundLoop_of_zero {s : Nat × UInt32} (fuel : Nat) (hzero : s.2.toNat = 0) :
    lowerBoundLoop b key fuel s.1 s.2 = pure s.1 := by
  cases fuel with
  | zero => rfl
  | succ fuel =>
    rw [lowerBoundLoop]
    exact if_neg fun h => hzero.not_gt (pos_iff_toNat_pos.mp h)

/-- The loop keeps the first key that is not below `key` in the stretch until nothing else
remains. -/
lemma lowerBoundLoop_brackets (ha : Ascending b.keys b.count.toNat) (fuel : Nat) {s : Nat × UInt32}
    (hfuel : s.2.toNat ≤ fuel) (h : Brackets (fun i => b.keys i < key) b.count.toNat (stretch s)) :
    Brackets (fun i => b.keys i < key) b.count.toNat ((lowerBoundLoop b key fuel s.1 s.2).val, 0) := by
  induction fuel generalizing s with
  | zero =>
    have hzero : s.2.toNat = 0 := by omega
    rw [lowerBoundLoop_of_zero 0 hzero, Logged.val_pure, ← hzero]
    exact h
  | succ fuel ih =>
    by_cases hpos : 0 < s.2.toNat
    · have hhalf := halve_length (fun i => b.keys i < key) (stretch s)
      have hpass := h.halve ha.lt_of_le hpos
      rw [← stretch_lowerBoundPass hpos] at hhalf hpass
      rw [lowerBoundLoop_of_pos fuel hpos]
      refine ih ?_ hpass
      have hle : (lowerBoundPass b key s).val.2.toNat ≤ s.2.toNat / 2 := hhalf
      omega
    · have hzero : s.2.toNat = 0 := by omega
      rw [lowerBoundLoop_of_zero _ hzero, Logged.val_pure, ← hzero]
      exact h

lemma findLowerBound_brackets (ha : Ascending b.keys b.count.toNat) (key : UInt32) :
    Brackets (fun i => b.keys i < key) b.count.toNat ((btreeFindLowerBound b key).val, 0) :=
  lowerBoundLoop_brackets (s := (0, b.count)) ha _ le_rfl (Brackets.start _ _)

/-- `btree_find_lower_bound` -/
theorem findLowerBound_spec (ha : Ascending b.keys b.count.toNat) (key : UInt32) :
    IsLowerBound b.keys b.count.toNat key (btreeFindLowerBound b key).val where
  le := (findLowerBound_brackets ha key).inside
  below := (findLowerBound_brackets ha key).before
  above i hi hic := not_lt.mp ((findLowerBound_brackets ha key).behind i hi hic)

lemma val_isKeyAt (p : Nat) :
    (isKeyAt b p key).val = decide (p < b.count.toNat ∧ b.keys p = key) := by
  unfold isKeyAt
  simp only [Logged.val_ite, Logged.val_bind, Logged.val_pure, val_readKey]
  by_cases hp : p < b.count.toNat <;> simp [hp]

lemma matchingValueFrom_spec (hfit : b.ValuesFit) (hcount : b.count ≤ b.capacity) (remaining : Nat)
    (i : UInt32) (hi : i.toNat + remaining = b.count.toNat) (hbefore : ∀ j < i.toNat, b.vals j ≠ value) :
    ((matchingValueFrom b value remaining i).val = 0xFFFFFFFF ∧ ∀ j < b.count.toNat, b.vals j ≠ value) ∨
      ((matchingValueFrom b value remaining i).val.toNat < b.count.toNat ∧
        b.vals (matchingValueFrom b value remaining i).val.toNat = value ∧
        ∀ j < (matchingValueFrom b value remaining i).val.toNat, b.vals j ≠ value) := by
  have hcap := UInt32.le_iff_toNat_le.mp hcount
  induction remaining generalizing i with
  | zero =>
    have heq : i.toNat = b.count.toNat := by omega
    exact Or.inl ⟨rfl, fun j hj => hbefore j (by omega)⟩
  | succ remaining ih =>
    have hsucc : (i + 1).toNat = i.toNat + 1 := toNat_succ (b := b.count) (by omega)
    have hread : (b.readValue (b.valueOffset i)).val = b.vals i.toNat :=
      deref_valueOffset hfit (by omega)
    unfold matchingValueFrom
    simp only [Logged.val_bind, Logged.val_ite, Logged.val_pure, hread]
    split_ifs with hv
    · exact Or.inr ⟨by omega, hv, hbefore⟩
    · refine ih (i + 1) (by omega) fun j hj => ?_
      rcases Nat.lt_succ_iff_lt_or_eq.mp (hsucc ▸ hj) with h | rfl
      · exact hbefore j h
      · exact hv

/-- `btree_find_index_of_matching_value`: the first index, or -1. -/
theorem findIndexOfMatchingValue_spec (hfit : b.ValuesFit) (hcount : b.count ≤ b.capacity)
    (value : List Byte) :
    ((btreeFindIndexOfMatchingValue b value).val = 0xFFFFFFFF ∧
      ∀ j < b.count.toNat, b.vals j ≠ value) ∨
      ((btreeFindIndexOfMatchingValue b value).val.toNat < b.count.toNat ∧
        b.vals (btreeFindIndexOfMatchingValue b value).val.toNat = value ∧
        ∀ j < (btreeFindIndexOfMatchingValue b value).val.toNat, b.vals j ≠ value) :=
  matchingValueFrom_spec hfit hcount _ _ (Nat.zero_add _) fun j hj => by
    change j < 0 at hj
    omega

end Btree

end CStructures
