import Mathlib.Data.UInt
import Mathlib.Order.Defs.LinearOrder

/-!
# Machine words

The order of the 32-bit words, and sums, differences and conversions that do not wrap.
-/

namespace CStructures.Lib

instance linearOrderUInt32 : LinearOrder UInt32 where
  le_refl := UInt32.le_refl
  le_trans _ _ _ := UInt32.le_trans
  le_antisymm _ _ := UInt32.le_antisymm
  le_total := UInt32.le_total
  lt_iff_le_not_ge a b := by
    rw [UInt32.lt_iff_toNat_lt, UInt32.le_iff_toNat_le, UInt32.le_iff_toNat_le]
    omega
  toDecidableLE := inferInstance
  toDecidableEq := inferInstance
  toDecidableLT := inferInstance
  min_def _ _ := rfl
  max_def _ _ := rfl

lemma pos_iff_toNat_pos {a : UInt32} : 0 < a ↔ 0 < a.toNat := UInt32.lt_iff_toNat_lt

/-- The successor of a word below another word. -/
lemma toNat_succ {a b : UInt32} (h : a.toNat < b.toNat) : (a + 1).toNat = a.toNat + 1 := by
  have := b.toNat_lt
  rw [UInt32.toNat_add]
  change (a.toNat + 1) % 2 ^ 32 = _
  omega

lemma toNat_sub_of_le {a b : UInt32} (h : b.toNat ≤ a.toNat) : (a - b).toNat = a.toNat - b.toNat :=
  UInt32.toNat_sub_of_le _ _ (UInt32.le_iff_toNat_le.mpr h)

lemma toNat_pred {a : UInt32} (h : 0 < a.toNat) : (a - 1).toNat = a.toNat - 1 :=
  toNat_sub_of_le (by change 1 ≤ _; omega)

lemma toNat_ofNat_of_le {n : Nat} {a : UInt32} (h : n ≤ a.toNat) : (UInt32.ofNat n).toNat = n := by
  have := a.toNat_lt
  exact UInt32.toNat_ofNat_of_lt' (by simp only [UInt32.size]; omega)

lemma toNat_half (a : UInt32) : (a >>> 1).toNat = a.toNat / 2 := by
  rw [UInt32.toNat_shiftRight]
  change a.toNat >>> 1 = _
  rw [Nat.shiftRight_one]

/-- The other half, less one. -/
lemma toNat_sub_half_pred {a : UInt32} (h : 0 < a.toNat) :
    (a - (a >>> 1) - 1).toNat = a.toNat - a.toNat / 2 - 1 := by
  have hhalf := toNat_half a
  have hrest : (a - (a >>> 1)).toNat = a.toNat - a.toNat / 2 := by
    rw [toNat_sub_of_le (by omega), hhalf]
  rw [toNat_pred (by omega), hrest]

lemma toInt_toInt64 {a : UInt64} (h : a.toNat < 2 ^ 63) : a.toInt64.toInt = a.toNat := by
  have hto := Int64.toInt_ofNat_of_lt h
  rwa [← UInt64.toInt64_ofNat', UInt64.ofNat_toNat] at hto

/-- Below 2^63 the signed order is the unsigned one. -/
lemma toInt64_lt_iff {a b : UInt64} (ha : a.toNat < 2 ^ 63) (hb : b.toNat < 2 ^ 63) :
    a.toInt64 < b.toInt64 ↔ a.toNat < b.toNat := by
  rw [Int64.lt_iff_toInt_lt, toInt_toInt64 ha, toInt_toInt64 hb, Int.ofNat_lt]

end CStructures.Lib
