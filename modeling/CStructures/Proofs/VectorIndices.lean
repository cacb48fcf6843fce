import CStructures.Proofs.VectorReverse
import Mathlib.Data.Int.ModEq

/-!
# The indices of the vector

The assertions of `vector_insert_emplace`, `vector_erase_index` and `vector_get_element`
compare a signed index with the count, and admit every negative one. The element slots that
the three functions touch lie in the buffer exactly for the others.
-/

namespace CStructures
open Lib

namespace CsVector

variable {v : CsVector} {index : Int64} {answer : AllocAnswer}

lemma succ_mul_toIdx (index : Int64) (n : UInt32) :
    ((index + 1) * toIdx n).toUInt64 = (toIdx n * index).toUInt64 + n.toUInt64 := by
  have hone : Int64.toUInt64 1 = 1 := rfl
  rw [Int64.toUInt64_mul, Int64.toUInt64_add, Int64.toUInt64_mul, toUInt64_toIdx, UInt64.add_mul,
    UInt64.mul_comm, hone, UInt64.one_mul]

lemma move_succ (v : CsVector) (index : Int64) (len : UInt32) :
    v.move ((index + 1) * toIdx v.elementSize).toUInt64 (index * toIdx v.elementSize).toUInt64 len =
      v.move ((toIdx v.elementSize * index).toUInt64 + v.elementSize.toUInt64)
        (toIdx v.elementSize * index).toUInt64 len := by
  rw [succ_mul_toIdx, Int64.mul_comm index]

lemma move_pred (v : CsVector) (index : Int64) (len : UInt32) :
    v.move (index * toIdx v.elementSize).toUInt64 ((index + 1) * toIdx v.elementSize).toUInt64 len =
      v.move (toIdx v.elementSize * index).toUInt64
        ((toIdx v.elementSize * index).toUInt64 + v.elementSize.toUInt64) len := by
  rw [succ_mul_toIdx, Int64.mul_comm index]

lemma val_reallocSlots (v : CsVector) (index : Int64) (n : UInt32) (answer : AllocAnswer) :
    (reallocSlots v index n answer).val = vectorRealloc v index n answer := by
  unfold reallocSlots vectorRealloc
  cases v.data with
  | none => cases answer <;> rfl
  | some d =>
    cases answer with
    | none => rfl
    | some g =>
      by_cases hindex : index ≠ vecInvalidIndex
      · simp only [if_pos hindex]
        rfl
      · simp only [if_neg hindex]
        rfl

lemma val_insertEmplaceSlots (v : CsVector) (index : Int64) (answer : AllocAnswer) :
    (insertEmplaceSlots v index answer).val = vectorInsertEmplace v index answer := by
  unfold insertEmplaceSlots vectorInsertEmplace
  by_cases hfull : v.count = v.capacity
  · simp only [if_pos hfull, Logged.val_bind, val_reallocSlots, Logged.val_ite]
    rfl
  · simp only [if_neg hfull, ← move_succ]
    rfl

lemma val_eraseIndexSlots (v : CsVector) (index : Int64) :
    (eraseIndexSlots v index).val = vectorEraseIndex v index := by
  unfold eraseIndexSlots vectorEraseIndex
  by_cases hlast : index = toIdx (v.count - 1)
  · simp only [if_pos hlast, Logged.val_pure]
  · simp only [if_neg hlast, ← move_pred]
    rfl

lemma val_getElementSlots (v : CsVector) (index : Int64) :
    (getElementSlots v index).val = vectorGetElement v index := rfl

lemma toInt_toIdx (n : UInt32) : (toIdx n).toInt = n.toNat := by
  have hlt := n.toNat_lt
  rw [toIdx, toInt_toInt64 (by rw [UInt32.toNat_toUInt64]; omega), UInt32.toNat_toUInt64]

lemma le_toIdx_iff {n : UInt32} : index ≤ toIdx n ↔ index.toInt ≤ n.toNat := by
  rw [Int64.le_iff_toInt_le, toInt_toIdx]

lemma lt_toIdx_iff {n : UInt32} : index < toIdx n ↔ index.toInt < n.toNat := by
  rw [Int64.lt_iff_toInt_lt, toInt_toIdx]

lemma nonneg_iff : 0 ≤ index ↔ 0 ≤ index.toInt := Int64.le_iff_toInt_le

lemma toInt_succ {n : UInt32} (h : index.toInt ≤ n.toNat) : (index + 1).toInt = index.toInt + 1 := by
  have hlt := n.toNat_lt
  have hlow := index.le_toInt
  rw [Int64.toInt_add]
  change (index.toInt + 1).bmod (2 ^ 64) = _
  apply Int.bmod_eq_of_le <;> omega

lemma modEq_toUInt32 (index : Int64) : (index.toUInt64.toUInt32.toNat : Int) ≡ index.toInt [ZMOD 2 ^ 32] := by
  have h64 : index.toInt = (index.toUInt64.toNat : Int).bmod (2 ^ 64) :=
    BitVec.toInt_eq_toNat_bmod index.toBitVec
  have h32 : (index.toUInt64.toUInt32.toNat : Int) = index.toUInt64.toNat % 2 ^ 32 := by
    rw [UInt64.toNat_toUInt32]
    rfl
  rw [h64, h32, Int.ModEq, Int.emod_emod_of_dvd _ dvd_rfl, Int.bmod_def]
  split_ifs <;> omega

lemma modEq_sub (a b : UInt32) : ((a - b).toNat : Int) ≡ a.toNat - b.toNat [ZMOD 2 ^ 32] := by
  have hb := b.toNat_lt
  rw [UInt32.toNat_sub, Int.ModEq]
  omega

lemma modEq_mul (a b : UInt32) : ((a * b).toNat : Int) ≡ a.toNat * b.toNat [ZMOD 2 ^ 32] := by
  rw [UInt32.toNat_mul, Int.ModEq]
  push_cast
  exact Int.emod_emod_of_dvd _ dvd_rfl

/-- The bytes of the elements from an index up to a count, as they are computed in 32 bits. -/
lemma toNat_elements (count es : UInt32) (index : Int64) :
    (((count - index.toUInt64.toUInt32) * es).toNat : Int) =
      (count.toNat - index.toInt) * es.toNat % 2 ^ 32 := by
  have hmod : (((count - index.toUInt64.toUInt32) * es).toNat : Int) ≡
      (count.toNat - index.toInt) * es.toNat [ZMOD 2 ^ 32] :=
    (modEq_mul _ _).trans (((modEq_sub _ _).trans ((Int.ModEq.refl _).sub (modEq_toUInt32 index))).mul_right _)
  have hlt := ((count - index.toUInt64.toUInt32) * es).toNat_lt
  rw [← hmod]
  exact (Int.emod_eq_of_lt (by omega) (by omega)).symm

end CsVector

/-- The slots of an access. A move touches the slots that its bytes lie in. -/
def SlotAccess.Touches (elementSize : UInt32) (k : Int) : SlotAccess → Prop
  | .pointer position => k = position
  | .move dst src len => ∃ j : Nat, j * elementSize.toNat < len ∧ (k = dst + j ∨ k = src + j)

/-- Every slot of an access is one of the buffer's. -/
def SlotAccess.Inside (elementSize capacity : UInt32) (access : SlotAccess) : Prop :=
  ∀ k, access.Touches elementSize k → 0 ≤ k ∧ k < capacity.toNat

section Inside

variable {elementSize capacity : UInt32} {position dst src : Int} {len : Nat}

lemma pointer_inside : (SlotAccess.pointer position).Inside elementSize capacity ↔
    0 ≤ position ∧ position < capacity.toNat := by
  simp [SlotAccess.Inside, SlotAccess.Touches]

lemma move_inside_zero : (SlotAccess.move dst src 0).Inside elementSize capacity := by
  simp [SlotAccess.Inside, SlotAccess.Touches]

lemma move_inside_of {n : Nat} (hlen : len = n * elementSize.toNat) (hdst : 0 ≤ dst)
    (hdst' : dst + n ≤ capacity.toNat) (hsrc : 0 ≤ src) (hsrc' : src + n ≤ capacity.toNat) :
    (SlotAccess.move dst src len).Inside elementSize capacity := by
  rintro k ⟨j, hj, hk⟩
  rw [hlen] at hj
  have hjn : j < n := Nat.lt_of_mul_lt_mul_right hj
  omega

lemma move_inside_last {n : Nat} (h : (SlotAccess.move dst src (n * elementSize.toNat)).Inside elementSize capacity)
    (hes : elementSize ≠ 0) (hn : 0 < n) : dst + n ≤ capacity.toNat := by
  have hpos : 0 < elementSize.toNat := by
    have := UInt32.toNat_inj.not.mpr hes
    exact Nat.pos_of_ne_zero this
  have hlast := h (dst + (n - 1 : Nat)) ⟨n - 1, Nat.mul_lt_mul_of_pos_right (by omega) hpos, Or.inl rfl⟩
  omega

lemma move_inside_first (h : (SlotAccess.move dst src len).Inside elementSize capacity) (hlen : 0 < len) :
    0 ≤ dst :=
  (h dst ⟨0, by omega, Or.inl (by simp)⟩).1

end Inside

namespace CsVector

variable {v : CsVector} {index : Int64}

lemma books_fits (h : v.books.Sound) : (v.capacity.toNat + 1) * v.elementSize.toNat < 2 ^ 32 := by
  have hes := v.elementSize.toNat_lt
  cases hd : v.books.size with
  | none =>
    have hcap : v.capacity = 0 := h.unallocated.mp hd
    rw [hcap]
    simpa using hes
  | some n => exact lt_of_le_of_lt (h.buffer n hd) (h.requested n hd)

lemma erased_len (v : CsVector) (index : Int64) :
    v.elementSize * v.count - (toIdx v.elementSize * index).toUInt64.toUInt32 - v.elementSize =
      (v.count - 1 - index.toUInt64.toUInt32) * v.elementSize := by
  rw [Int64.toUInt64_mul, toUInt64_toIdx, UInt64.toUInt32_mul, UInt32.toUInt32_toUInt64]
  grind

lemma inserted_len (v : CsVector) (index : Int64) :
    v.count * v.elementSize - (toIdx v.elementSize * index).toUInt64.toUInt32 =
      (v.count - index.toUInt64.toUInt32) * v.elementSize := by
  rw [Int64.toUInt64_mul, toUInt64_toIdx, UInt64.toUInt32_mul, UInt32.toUInt32_toUInt64]
  grind

lemma moved_len (v : CsVector) (index : Int64) :
    (toIdx v.capacity - index).toUInt64.toUInt32 * v.elementSize =
      (v.capacity - index.toUInt64.toUInt32) * v.elementSize := by
  rw [Int64.toUInt64_sub, toUInt64_toIdx, UInt64.toUInt32_sub, UInt32.toUInt32_toUInt64]

lemma toNat_elements_of_le (h : v.books.Sound) {count : UInt32} (hle : count.toNat ≤ v.capacity.toNat)
    (h0 : 0 ≤ index.toInt) (hindex : index.toInt ≤ count.toNat) :
    ((count - index.toUInt64.toUInt32) * v.elementSize).toNat =
      (count.toNat - index.toInt.toNat) * v.elementSize.toNat := by
  have hfits := books_fits h
  have hmul : (count.toNat - index.toInt.toNat) * v.elementSize.toNat ≤
      (v.capacity.toNat + 1) * v.elementSize.toNat := Nat.mul_le_mul_right _ (by omega)
  have hval := toNat_elements count v.elementSize index
  have hcast : (count.toNat - index.toInt) * (v.elementSize.toNat : Int) =
      ((count.toNat - index.toInt.toNat) * v.elementSize.toNat : Nat) := by
    push_cast [show index.toInt.toNat ≤ count.toNat by omega, Int.toNat_of_nonneg h0]
    rfl
  rw [hcast, Int.emod_eq_of_lt (by omega) (by omega)] at hval
  exact_mod_cast hval

lemma isSome_of_capacity (h : v.books.Sound) (hpos : 0 < v.capacity.toNat) : v.data.isSome := by
  by_contra hnone
  have hsize : v.books.size = none := by
    rw [Option.not_isSome_iff_eq_none] at hnone
    simp [books, hnone]
  have hcap : v.capacity = 0 := h.unallocated.mp hsize
  rw [hcap] at hpos
  exact absurd hpos (by decide)

lemma ne_invalidIndex (h0 : 0 ≤ index.toInt) : index ≠ vecInvalidIndex := by
  rintro rfl
  exact absurd h0 (by decide)

/-- The accesses of a function lie in the buffer of the vector that it leaves. -/
def KeepsInside {α : Type} (r : Logged SlotAccess α) (v' : CsVector) : Prop :=
  ∀ access ∈ r.log, access.Inside v'.elementSize v'.capacity

/-- `vector_get_element` touches a slot of the buffer exactly at an index that is not negative. -/
lemma getElement_inside (h : v.books.Sound) (hassert : index < toIdx v.count) :
    KeepsInside (getElementSlots v index) v ↔ 0 ≤ index := by
  have hcount : v.count.toNat ≤ v.capacity.toNat := h.count_le
  have hlt := lt_toIdx_iff.mp hassert
  have hlog : (getElementSlots v index).log = [.pointer index.toInt] := rfl
  rw [KeepsInside, hlog, List.forall_mem_singleton, pointer_inside, nonneg_iff]
  omega

/-- The number of bytes that `vector_erase_index` moves, as far as 32 bits hold it. -/
def erasedBytes (v : CsVector) (index : Int64) : Int :=
  (v.count.toNat - 1 - index.toInt) * v.elementSize.toNat % 2 ^ 32

lemma toNat_erased (v : CsVector) (index : Int64) :
    (((v.count - 1 - index.toUInt64.toUInt32) * v.elementSize).toNat : Int) = v.erasedBytes index := by
  rw [toNat_elements]
  apply Int.ModEq.mul_right
  apply Int.ModEq.sub_right
  exact modEq_sub v.count 1

lemma log_eraseIndexSlots (hlast : index ≠ toIdx (v.count - 1)) : (eraseIndexSlots v index).log =
    [.move index.toInt (index + 1).toInt
      ((v.count - 1 - index.toUInt64.toUInt32) * v.elementSize).toNat] := by
  unfold eraseIndexSlots
  simp only [if_neg hlast, erased_len]
  rfl

lemma capacity_eraseIndex (v : CsVector) (index : Int64) :
    (vectorEraseIndex v index).capacity = v.capacity ∧
      (vectorEraseIndex v index).elementSize = v.elementSize := by
  unfold vectorEraseIndex vectorPop
  split_ifs <;> exact ⟨rfl, rfl⟩

/-- `vector_erase_index` keeps to the buffer exactly at an index that is not negative, and where
the number of bytes to move wraps to zero. -/
lemma eraseIndex_inside (h : v.books.Sound) (hassert : index < toIdx v.count) :
    KeepsInside (eraseIndexSlots v index) (vectorEraseIndex v index) ↔
      0 ≤ index ∨ v.erasedBytes index = 0 := by
  have hcount : v.count.toNat ≤ v.capacity.toNat := h.count_le
  have hlt := lt_toIdx_iff.mp hassert
  rw [KeepsInside, (capacity_eraseIndex v index).1, (capacity_eraseIndex v index).2, nonneg_iff]
  by_cases hlast : index = toIdx (v.count - 1)
  · have hlog : (eraseIndexSlots v index).log = [] := by
      unfold eraseIndexSlots
      rw [if_pos hlast]
      rfl
    have h0 : 0 ≤ index.toInt := by
      rw [hlast, toInt_toIdx]
      omega
    simp [hlog, h0]
  · rw [log_eraseIndexSlots hlast, List.forall_mem_singleton, ← toNat_erased,
      toInt_succ (n := v.count) (by omega)]
    constructor
    · intro hin
      by_contra hcon
      have := move_inside_first hin (by omega)
      omega
    · intro hcase
      rcases hcase with h0 | hzero
      · have hpred : (v.count - 1).toNat = v.count.toNat - 1 := toNat_pred (by omega)
        have hne : index.toInt ≠ (v.count - 1).toNat := by
          intro heq
          apply hlast
          rw [← Int64.toInt_inj, toInt_toIdx, heq]
        rw [toNat_elements_of_le h (by omega) h0 (by omega)]
        apply move_inside_of rfl <;> omega
      · rw [Int.ofNat_eq_zero.mp hzero]
        exact move_inside_zero

/-- A full vector has room for one more element: its doubled count does not wrap, or its
elements have no bytes to move and the index lies below the wrapped capacity. -/
def HasInsertRoom (v : CsVector) (index : Int64) : Prop :=
  v.count = v.capacity → if v.elementSize = 0 then
    index < toIdx (v.reallocCapacity (v.count * vecExpandFactor)) else 2 * v.count.toNat < 2 ^ 32

lemma insertEmplace_inside_of_room (h : v.books.Sound) (hassert : index ≤ toIdx v.count)
    (hfull : v.count ≠ v.capacity) (g : Grant) :
    KeepsInside (insertEmplaceSlots v index (some g)) (insertEmplaceSlots v index (some g)).val.2 ↔
      0 ≤ index := by
  have hcount : v.count.toNat ≤ v.capacity.toNat := h.count_le
  have hne := UInt32.toNat_inj.not.mpr hfull
  have hle := le_toIdx_iff.mp hassert
  unfold insertEmplaceSlots
  simp only [if_neg hfull, inserted_len]
  change (∀ access ∈ [SlotAccess.move (index + 1).toInt index.toInt
    ((v.count - index.toUInt64.toUInt32) * v.elementSize).toNat, .pointer index.toInt],
      access.Inside v.elementSize v.capacity) ↔ _
  rw [List.forall_mem_cons, List.forall_mem_singleton, pointer_inside, nonneg_iff,
    toInt_succ (n := v.count) hle]
  constructor
  · intro hin
    exact hin.2.1
  · intro h0
    refine ⟨?_, by omega⟩
    rw [toNat_elements_of_le h hcount h0 hle]
    apply move_inside_of rfl <;> omega

lemma log_reallocSlots (v : CsVector) (index : Int64) (n : UInt32) (g : Grant) :
    (reallocSlots v index n (some g)).log = if v.data.isSome ∧ index ≠ vecInvalidIndex then
      [.move (index + 1).toInt index.toInt ((v.capacity - index.toUInt64.toUInt32) * v.elementSize).toNat]
    else [] := by
  unfold reallocSlots
  cases v.data with
  | none => simp
  | some d =>
    by_cases hindex : index ≠ vecInvalidIndex
    · simp only [if_pos hindex, moved_len, Int64.add_zero, Option.isSome_some, true_and]
      rfl
    · simp only [if_neg hindex, Option.isSome_some, true_and]
      rfl

/-- An insertion that has to reallocate, and is granted the memory. -/
lemma insertEmplaceSlots_full (hfull : v.count = v.capacity) (index : Int64) (g : Grant) :
    let r := insertEmplaceSlots v index (some g)
    let n := v.count * vecExpandFactor
    r.log = (reallocSlots v index n (some g)).log ++ [.pointer index.toInt] ∧
      r.val.2.capacity = v.reallocCapacity n ∧ r.val.2.elementSize = v.elementSize := by
  intro r n
  obtain ⟨hnone, _⟩ | ⟨_, d, hval, _⟩ := realloc_cases v index n (some g)
  · cases hnone
  · rw [← val_reallocSlots] at hval
    have hr : r = insertEmplaceSlots v index (some g) := rfl
    unfold insertEmplaceSlots at hr
    rw [if_pos hfull] at hr
    rw [hr]
    change _ = (reallocSlots v index n (some g)).log ++ _ ∧ _
    generalize reallocSlots v index n (some g) = x at hval
    obtain ⟨_, log⟩ := x
    cases hval
    exact ⟨rfl, rfl, rfl⟩

/-- With elements of some size, a doubled capacity that does not wrap is larger. -/
lemma lt_reallocCapacity_iff (h : v.books.Sound) (hfull : v.count = v.capacity) (hes : v.elementSize ≠ 0) :
    v.count.toNat < (v.reallocCapacity (v.count * vecExpandFactor)).toNat ↔ 2 * v.count.toNat < 2 ^ 32 := by
  have hfits := books_fits h
  have hpos := Nat.pos_of_ne_zero (UInt32.toNat_inj.not.mpr hes)
  have hsmall : v.capacity.toNat + 1 < 2 ^ 32 := lt_of_le_of_lt (Nat.le_mul_of_pos_right _ hpos) hfits
  rw [← hfull] at hsmall
  have hsucc : (v.count + 1).toNat = v.count.toNat + 1 := by
    rw [UInt32.toNat_add]
    change (v.count.toNat + 1) % 2 ^ 32 = _
    omega
  have hcap : v.reallocCapacity (v.count * vecExpandFactor) =
      v.books.reallocCapacity (v.books.count * vecExpandFactor) := by
    simp only [reallocCapacity, Books.reallocCapacity, books, Option.isNone_map]
  rw [hcap]
  constructor
  · intro hlt
    have hdouble := h.double_of_le hfull (by change (v.count + 1).toNat ≤ _; omega)
    change 2 * v.count.toNat < _ ∨ v.count.toNat = _ at hdouble
    omega
  · intro hlt
    have hle := (h.reallocCapacity_ne_zero hfull (Or.inl hlt)).2
    change (v.count + 1).toNat ≤ _ at hle
    omega

lemma insertEmplace_inside_of_full (h : v.books.Sound) (hassert : index ≤ toIdx v.count)
    (hfull : v.count = v.capacity) (g : Grant) :
    KeepsInside (insertEmplaceSlots v index (some g)) (insertEmplaceSlots v index (some g)).val.2 ↔
      0 ≤ index ∧ v.HasInsertRoom index := by
  have hle := le_toIdx_iff.mp hassert
  have hcount : v.count.toNat = v.capacity.toNat := congrArg UInt32.toNat hfull
  obtain ⟨hlog, hcap, hsize⟩ := insertEmplaceSlots_full hfull index g
  have hroom : v.HasInsertRoom index ↔ if v.elementSize = 0 then
      index.toInt < (v.reallocCapacity (v.count * vecExpandFactor)).toNat else
      v.count.toNat < (v.reallocCapacity (v.count * vecExpandFactor)).toNat := by
    unfold HasInsertRoom
    split_ifs with hes
    · rw [lt_toIdx_iff]
      exact ⟨fun hr => hr hfull, fun hr _ => hr⟩
    · rw [lt_reallocCapacity_iff h hfull hes]
      exact ⟨fun hr => hr hfull, fun hr _ => hr⟩
  rw [KeepsInside, hlog, hcap, hsize, List.forall_mem_append, List.forall_mem_singleton, pointer_inside,
    log_reallocSlots, nonneg_iff, hroom, toInt_succ (n := v.count) hle]
  generalize v.reallocCapacity (v.count * vecExpandFactor) = n
  constructor
  · rintro ⟨hmove, h0, hlt⟩
    refine ⟨h0, ?_⟩
    split_ifs with hes
    · exact hlt
    · by_cases hlast : index.toInt = v.count.toNat
      · omega
      · rw [if_pos ⟨isSome_of_capacity h (by omega), ne_invalidIndex h0⟩, List.forall_mem_singleton,
          toNat_elements_of_le h le_rfl h0 (by omega)] at hmove
        have hwritten := move_inside_last hmove hes (by omega)
        omega
  · rintro ⟨h0, hroom⟩
    split_ifs at hroom with hes
    · refine ⟨?_, h0, hroom⟩
      split_ifs
      · rw [List.forall_mem_singleton, hes, UInt32.mul_zero]
        exact move_inside_zero
      · simp
    · refine ⟨?_, h0, by omega⟩
      split_ifs
      · rw [List.forall_mem_singleton, toNat_elements_of_le h le_rfl h0 (by omega)]
        apply move_inside_of rfl <;> omega
      · simp

/-- `vector_insert_emplace` keeps to the buffer exactly at an index that is not negative, and
when a full vector has room to grow. -/
lemma insertEmplace_inside (h : v.books.Sound) (hassert : index ≤ toIdx v.count) (g : Grant) :
    KeepsInside (insertEmplaceSlots v index (some g)) (vectorInsertEmplace v index (some g)).2 ↔
      0 ≤ index ∧ v.HasInsertRoom index := by
  rw [← val_insertEmplaceSlots]
  by_cases hfull : v.count = v.capacity
  · exact insertEmplace_inside_of_full h hassert hfull g
  · rw [insertEmplace_inside_of_room h hassert hfull g]
    exact (and_iff_left fun hfull' => absurd hfull' hfull).symm

end CsVector

lemma CsVector.books_of_run {elementSize : Nat → UInt32} {ls : List (StoreCall × VectorAnswer)}
    {store : VectorStore} (hrun : Run CallStep (fun i => vectorInit (elementSize i)) ls store) (i : Nat) :
    (store i).books.Sound :=
  (hrun.invariant (Ordered elementSize) (fun _ _ _ h hstep => hstep.ordered h) ordered_init i).1

/-- The index assertions are enough in a vector that is reached by affordable calls exactly when the index
is not negative and a full vector has room to grow; `vector_erase_index` also keeps to the buffer
where the length of its move wraps to zero. -/
theorem vector_indices_inside {elementSize : Nat → UInt32} {ls : List (StoreCall × VectorAnswer)}
    {store : VectorStore} (hrun : Run CsVector.CallStep (fun i => vectorInit (elementSize i)) ls store)
    (i : Nat) (index : Int64) :
    (index ≤ toIdx (store i).count → ∀ grant,
      (CsVector.KeepsInside (insertEmplaceSlots (store i) index (some grant))
          (vectorInsertEmplace (store i) index (some grant)).2 ↔
        0 ≤ index ∧ (store i).HasInsertRoom index)) ∧
    (index < toIdx (store i).count →
      (CsVector.KeepsInside (eraseIndexSlots (store i) index) (vectorEraseIndex (store i) index) ↔
        0 ≤ index ∨ (store i).erasedBytes index = 0)) ∧
    (index < toIdx (store i).count →
      (CsVector.KeepsInside (getElementSlots (store i) index) (store i) ↔ 0 ≤ index)) := by
  have hbooks := CsVector.books_of_run hrun i
  exact ⟨fun hassert grant => CsVector.insertEmplace_inside hbooks hassert grant,
    fun hassert => CsVector.eraseIndex_inside hbooks hassert,
    fun hassert => CsVector.getElement_inside hbooks hassert⟩

lemma run_one_push : ∃ store : VectorStore, Run CsVector.CallStep (fun _ => vectorInit 4)
    [(.on 0 (.push [1, 2, 3, 4]), .status 0)] store ∧ (store 0).count = 1 ∧ (store 0).capacity = 32 ∧
      (store 0).elementSize = 4 := by
  refine ⟨_, .cons ⟨_, some ⟨16, fun _ => 0⟩, fun i => ⟨_, (CsVector.setBytes_bytes _).symm⟩, rfl, ?_, rfl⟩
    (.nil _), rfl, rfl, rfl⟩
  intro _
  exact ⟨Or.inl (by decide), (by decide : (32 + 1) * 4 < 2 ^ 32)⟩

/-- A full vector of two elements. -/
theorem vector_indices_inside_full : ∃ store : VectorStore,
    Run CsVector.CallStep (fun _ => vectorInit 4) [(.on 0 (.reserve 2), .status 0),
      (.on 0 (.push [1, 2, 3, 4]), .status 0), (.on 0 (.push [5, 6, 7, 8]), .status 0)] store ∧
    (store 0).count = (store 0).capacity ∧
    (∀ grant, CsVector.KeepsInside (insertEmplaceSlots (store 0) 1 (some grant))
      (vectorInsertEmplace (store 0) 1 (some grant)).2) ∧
    CsVector.KeepsInside (eraseIndexSlots (store 0) 0) (vectorEraseIndex (store 0) 0) ∧
    CsVector.KeepsInside (getElementSlots (store 0) 1) (store 0) := by
  obtain ⟨store, hrun, hcount, hcap, hes⟩ : ∃ store : VectorStore,
      Run CsVector.CallStep (fun _ => vectorInit 4) [(.on 0 (.reserve 2), .status 0),
        (.on 0 (.push [1, 2, 3, 4]), .status 0), (.on 0 (.push [5, 6, 7, 8]), .status 0)] store ∧
      (store 0).count = 2 ∧ (store 0).capacity = 2 ∧ (store 0).elementSize = 4 := by
    refine ⟨_, .cons ⟨_, some ⟨16, fun _ => 0⟩, fun i => ⟨_, (CsVector.setBytes_bytes _).symm⟩, trivial, ?_, rfl⟩
      (.cons ⟨_, none, fun i => ⟨_, (CsVector.setBytes_bytes _).symm⟩, rfl, ?_, rfl⟩
      (.cons ⟨_, none, fun i => ⟨_, (CsVector.setBytes_bytes _).symm⟩, rfl, ?_, rfl⟩ (.nil _))), rfl, rfl, rfl⟩
    · intro _
      exact (by decide : (2 + 1) * 4 < 2 ^ 32)
    · intro hfull
      exact absurd hfull (by decide)
    · intro hfull
      exact absurd hfull (by decide)
  have hinside := vector_indices_inside hrun 0
  have hroom : (store 0).HasInsertRoom 1 := by
    intro _
    rw [hcount, hes, if_neg (by decide)]
    decide
  refine ⟨store, hrun, hcount.trans hcap.symm, fun grant => ?_, ?_, ?_⟩
  · exact ((hinside 1).1 (by rw [hcount]; decide) grant).mpr ⟨by decide, hroom⟩
  · exact ((hinside 0).2.1 (by rw [hcount]; decide)).mpr (Or.inl (by decide))
  · exact ((hinside 1).2.2 (by rw [hcount]; decide)).mpr (by decide)

/-- The index -1 passes the three assertions in a vector with one element. -/
theorem vector_index_negative : ∃ store : VectorStore,
    Run CsVector.CallStep (fun _ => vectorInit 4) [(.on 0 (.push [1, 2, 3, 4]), .status 0)] store ∧
    -1 ≤ toIdx (store 0).count ∧ -1 < toIdx (store 0).count ∧
    (getElementSlots (store 0) (-1)).log = [.pointer (-1)] ∧
    (eraseIndexSlots (store 0) (-1)).log = [.move (-1) 0 4] ∧
    ¬CsVector.KeepsInside (getElementSlots (store 0) (-1)) (store 0) ∧
    ¬CsVector.KeepsInside (eraseIndexSlots (store 0) (-1)) (vectorEraseIndex (store 0) (-1)) ∧
    ∀ grant, ¬CsVector.KeepsInside (insertEmplaceSlots (store 0) (-1) (some grant))
      (vectorInsertEmplace (store 0) (-1) (some grant)).2 := by
  obtain ⟨store, hrun, hcount, hcap, hes⟩ := run_one_push
  have hbooks := CsVector.books_of_run hrun 0
  have hle : -1 ≤ toIdx (store 0).count := by rw [hcount]; decide
  have hlt : -1 < toIdx (store 0).count := by rw [hcount]; decide
  have hneg : ¬(0 : Int64) ≤ -1 := by decide
  have hlen : (store 0).erasedBytes (-1) ≠ 0 := by
    rw [CsVector.erasedBytes, hcount, hes]
    decide
  have hlog : (eraseIndexSlots (store 0) (-1)).log = [.move (-1) 0 4] := by
    rw [CsVector.log_eraseIndexSlots (by rw [hcount]; decide), hcount, hes]
    rfl
  refine ⟨store, hrun, hle, hlt, rfl, hlog, ?_, ?_, ?_⟩
  · rw [CsVector.getElement_inside hbooks hlt]
    exact hneg
  · rw [CsVector.eraseIndex_inside hbooks hlt]
    exact not_or_intro hneg hlen
  · intro grant hin
    exact hneg ((CsVector.insertEmplace_inside hbooks hle grant).mp hin).1

end CStructures
