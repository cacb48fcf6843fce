import CStructures.Proofs.VectorEdit

/-!
# Searching and reversing the vector

The two loops over all elements.
-/

namespace CStructures
open Lib

namespace CsVector

variable {v : CsVector} {value : List Byte}

lemma findElementFrom_spec (h : v.Sound) (value : List Byte) (remaining : Nat) (i : Int64)
    (hi : position i + remaining = v.count.toNat) :
    position (findElementFrom v value remaining i) =
      position i + (tabulate (fun j => v.elems (position i + j)) remaining).idxOf value := by
  induction remaining generalizing i with
  | zero =>
    change position (toIdx v.count) = _
    rw [position_toIdx]
    exact hi.symm
  | succ remaining ih =>
    have hle := h.count_le
    have hcount := v.count.toNat_lt
    have hsucc : position (i + 1) = position i + 1 := by
      rw [position, Int64.toUInt64_add]
      refine toNat_add_of_lt ?_
      change position i + 1 < 2 ^ 64
      omega
    have hderef : v.deref (vectorGetElement v i) = v.elems (position i) :=
      (pointsTo_index (h.offset_lt (by omega))).deref
    unfold findElementFrom
    rw [hderef, tabulate_succ, List.idxOf_cons, Nat.add_zero]
    by_cases hfound : v.elems (position i) = value
    · rw [if_pos hfound, beq_iff_eq.mpr hfound]
      rfl
    · rw [if_neg hfound, beq_false_of_ne hfound, ih (i + 1) (by omega), hsucc]
      simp only [Nat.add_assoc, Nat.add_comm 1, cond_false]

/-- `vector_find_element`: the first position of the element, or the count. -/
theorem findElement_spec (h : v.Sound) (value : List Byte) :
    position (vectorFindElement v value) = v.toList.idxOf value := by
  have hzero : position 0 = 0 := rfl
  have hspec := findElementFrom_spec h value v.count.toNat 0 (by omega)
  simp only [hzero, Nat.zero_add] at hspec
  exact hspec

lemma record_memcpy_pointsTo {p : UInt64} {k : Nat} (hp : v.PointsTo p k)
    (hv : value.length = v.elementSize.toNat) (m : Bytes) (i : Nat) :
    record (memcpy m p.toNat value) 0 v.elementSize.toNat i =
      if i = k then value else record m 0 v.elementSize.toNat i := by
  have hoff : p.toNat = 0 + v.elementSize.toNat * k := by
    rw [Nat.zero_add]
    exact hp
  rw [hoff]
  split_ifs with h
  · rw [h]
    exact record_memcpy_self hv
  · exact record_memcpy_of_ne hv h

lemma slice_pointsTo {p : UInt64} {k : Nat} (hp : v.PointsTo p k) (m : Bytes) :
    slice m p.toNat v.elementSize.toNat = record m 0 v.elementSize.toNat k := by
  rw [record, Nat.zero_add, hp.offset]

/-- The three copies of a pass swap two elements by way of a third place. -/
lemma swap_spec {p q t : UInt64} {a b c : Nat} (hp : v.PointsTo p a) (hq : v.PointsTo q b)
    (ht : v.PointsTo t c) (hac : a ≠ c) (hbc : b ≠ c) (m : Bytes) {i : Nat} (hi : i ≠ c) :
    let size := v.elementSize.toNat
    let m₁ := memcpy m t.toNat (slice m p.toNat size)
    let m₂ := memcpy m₁ p.toNat (slice m₁ q.toNat size)
    record (memcpy m₂ q.toNat (slice m₂ t.toNat size)) 0 size i =
      if i = b then record m 0 size a else if i = a then record m 0 size b else record m 0 size i := by
  intro size m₁ m₂
  have h1 : ∀ j, record m₁ 0 size j = if j = c then record m 0 size a else record m 0 size j := by
    intro j
    rw [← slice_pointsTo hp m]
    exact record_memcpy_pointsTo ht (length_slice _ _ _) m j
  have h2 : ∀ j, record m₂ 0 size j = if j = a then record m₁ 0 size b else record m₁ 0 size j := by
    intro j
    rw [← slice_pointsTo hq m₁]
    exact record_memcpy_pointsTo hp (length_slice _ _ _) m₁ j
  rw [record_memcpy_pointsTo hq (length_slice _ _ _), slice_pointsTo ht, h2, h2, h1, h1, h1]
  simp only [hac.symm, hbc, hi, if_true, if_false]

/-- The loop ends within as many tests as the pointers are bytes apart, also where the last
pointer falls below the buffer. -/
lemma reverseLoop_ends (hes : 0 < v.elementSize.toNat) (passes : Nat) {first last : UInt64}
    (hfirst : 0 ≤ first.toInt64.toInt) (hlast : last.toInt64.toInt < 2 ^ 32)
    (hpasses : last.toInt64.toInt < first.toInt64.toInt + passes) (hpos : 0 < passes) (m : Bytes) :
    (reverseLoop v passes first last m).val.isSome := by
  induction passes generalizing first last m with
  | zero => exact absurd hpos (lt_irrefl 0)
  | succ passes ih =>
    unfold reverseLoop
    rw [Logged.val_ite]
    split_ifs with hends
    · have hlt := Int64.lt_iff_toInt_lt.mp hends
      have hword := v.elementSize.toNat_lt
      have hsize : v.elementSize.toUInt64.toInt64.toInt = v.elementSize.toNat :=
        toInt_toInt64 (by rw [UInt32.toNat_toUInt64]; omega)
      have hnext : (first + v.elementSize.toUInt64).toInt64.toInt =
          first.toInt64.toInt + v.elementSize.toNat := by
        rw [UInt64.toInt64_add, Int64.toInt_add, hsize]
        apply Int.bmod_eq_of_le <;> omega
      have hprev : (last - v.elementSize.toUInt64).toInt64.toInt =
          last.toInt64.toInt - v.elementSize.toNat := by
        rw [UInt64.toInt64_sub, Int64.toInt_sub, hsize]
        apply Int.bmod_eq_of_le <;> omega
      simp only [Logged.val_bind]
      apply ih
      · omega
      · omega
      · omega
      · omega
    · rfl

lemma toInt_lastOffset (v : CsVector) :
    ((v.count - 1) * v.elementSize).toUInt64.toInt64.toInt = ((v.count - 1) * v.elementSize).toNat := by
  have hword := ((v.count - 1) * v.elementSize).toNat_lt
  rw [toInt_toInt64, UInt32.toNat_toUInt64]
  rw [UInt32.toNat_toUInt64]
  omega

/-- The 2^32 tests of `vectorReverse` are enough for every vector. -/
theorem reverse_ends (v : CsVector) : (reverseWithin v (2 ^ 32)).val = some (vectorReverse v) := by
  have hloop : (reverseLoop v (2 ^ 32) 0 ((v.count - 1) * v.elementSize).toUInt64 v.bytes).val.isSome := by
    have hword := ((v.count - 1) * v.elementSize).toNat_lt
    have hlast := toInt_lastOffset v
    have hzero : (0 : UInt64).toInt64.toInt = 0 := rfl
    by_cases hes : 0 < v.elementSize.toNat
    · apply reverseLoop_ends hes
      · exact hzero.ge
      · rw [hlast]
        omega
      · rw [hlast, hzero]
        omega
      · decide
    · have hempty : v.elementSize = 0 := UInt32.toNat_inj.mp (Nat.eq_zero_of_not_pos hes)
      rw [hempty, UInt32.mul_zero]
      rfl
  obtain ⟨m, hm⟩ := Option.isSome_iff_exists.mp hloop
  simp only [vectorReverse, reverseWithin, Logged.val_bind, Logged.val_pure, hm, Option.map_some,
    Option.getD_some]

section Slots

variable {first last : UInt64} {a b : Nat}

lemma Sound.first_lt_last (h : v.Sound) (ha : a ≤ v.capacity.toNat) (hb : b ≤ v.capacity.toNat)
    (hfirst : v.PointsTo first a) (hlast : v.PointsTo last b) : first.toInt64 < last.toInt64 ↔ a < b := by
  have hla := @Sound.offset_lt _ h a (by omega)
  have hlb := @Sound.offset_lt _ h b (by omega)
  rw [toInt64_lt_iff (by rw [hfirst.offset]; omega) (by rw [hlast.offset]; omega), hfirst.offset,
    hlast.offset]
  exact Nat.mul_lt_mul_left h.elementSize_pos

lemma Sound.pointsTo_scratch (h : v.Sound) : v.PointsTo (vectorGetScratchElement v) v.capacity.toNat := by
  unfold vectorGetScratchElement
  rw [UInt32.mul_comm]
  exact pointsTo_mul (h.offset_lt (by omega))

lemma PointsTo.pred (hlast : v.PointsTo last b) (hb : 0 < b) :
    v.PointsTo (last - v.elementSize.toUInt64) (b - 1) := by
  have hone : v.elementSize.toNat ≤ v.elementSize.toNat * b := Nat.le_mul_of_pos_right _ hb
  rw [PointsTo, UInt64.toNat_sub_of_le, hlast.offset, UInt32.toNat_toUInt64, Nat.mul_sub, Nat.mul_one]
  rw [UInt64.le_iff_toNat_le, hlast.offset, UInt32.toNat_toUInt64]
  exact hone

/-- The loop ends, and reverses the elements between the two pointers. -/
lemma reverseLoop_spec (h : v.Sound) (passes : Nat) (hab : a + b + 1 = v.count.toNat) (hle : a ≤ b + 1)
    (hpasses : b + 1 < a + 2 * passes) (hfirst : v.PointsTo first a) (hlast : v.PointsTo last b)
    (m : Bytes) :
    ∃ m', (reverseLoop v passes first last m).val = some m' ∧ ∀ i < v.count.toNat,
      record m' 0 v.elementSize.toNat i =
        if a ≤ i ∧ i ≤ b then record m 0 v.elementSize.toNat (a + b - i)
        else record m 0 v.elementSize.toNat i := by
  have hcap := h.count_le
  induction passes generalizing a b first last m with
  | zero => omega
  | succ passes ih =>
    unfold reverseLoop
    by_cases hends : a < b
    · have hnext : v.PointsTo (first + v.elementSize.toUInt64) (a + 1) :=
        hfirst.succ (h.offset_lt (by omega))
      have hprev : v.PointsTo (last - v.elementSize.toUInt64) (b - 1) := hlast.pred (by omega)
      rw [if_pos ((h.first_lt_last (by omega) (by omega) hfirst hlast).mpr hends)]
      simp only [memcpyElement, Logged.val_bind, Logged.val_pure]
      obtain ⟨m', hm', hspec⟩ := ih (by omega) (by omega) (by omega) hnext hprev _
      refine ⟨m', hm', fun i hi => ?_⟩
      have hswap := fun j (hj : j ≠ v.capacity.toNat) =>
        swap_spec hfirst hlast h.pointsTo_scratch (by omega) (by omega) m hj
      dsimp only at hswap
      rw [hspec i hi, hswap _ (by omega), hswap _ (by omega)]
      split_ifs <;> first | rfl | omega | (congr 1; omega)
    · rw [if_neg ((h.first_lt_last (by omega) (by omega) hfirst hlast).not.mpr hends)]
      refine ⟨m, rfl, fun i _ => ?_⟩
      split_ifs with hin
      · congr 1
        omega
      · rfl

end Slots

/-- `vector_reverse` on a vector with an element. -/
theorem reverse_spec (h : v.Sound) (hpos : 0 < v.count.toNat) :
    (vectorReverse v).Sound ∧ (vectorReverse v).toList = v.toList.reverse := by
  have hle := h.count_le
  have hcount := v.count.toNat_lt
  have hd : v.data.isSome := h.isSome (by omega)
  have hpred : (v.count - 1).toNat = v.count.toNat - 1 := toNat_pred hpos
  have hfirst : v.PointsTo 0 0 := rfl
  have hlast : v.PointsTo ((v.count - 1) * v.elementSize).toUInt64 (v.count.toNat - 1) := by
    rw [UInt32.mul_comm, ← hpred]
    exact pointsTo_mul (h.offset_lt (by omega))
  obtain ⟨m, hm, hspec⟩ := @reverseLoop_spec v 0 _ 0 (v.count.toNat - 1) h (2 ^ 32) (by omega) (by omega)
    (by omega) hfirst hlast v.bytes
  have hval : vectorReverse v = v.setBytes m := by
    unfold vectorReverse reverseWithin
    rw [Logged.val_bind, hm]
    rfl
  rw [hval]
  refine ⟨h.of_sameBuffer rfl rfl setBytes_size hle, ?_⟩
  apply tabulate_reverse
  intro i hi
  change i < v.count.toNat at hi
  change record (v.setBytes m).bytes 0 v.elementSize.toNat i = _
  rw [bytes_setBytes hd, hspec i hi, if_pos (by omega), Nat.zero_add]
  rfl

end CsVector

end CStructures
