import Mathlib.Data.List.GetD
import Mathlib.Data.Nat.Basic
import Mathlib.Tactic.Common
import Mathlib.Tactic.Ring

/-!
# Byte memory

The contents of a block of memory are a total function from offsets to bytes: an offset
outside the block holds some byte that nothing is known about. `slice` reads a range,
`memcpy`, `memmove` and `memset` are the C functions, `leBytes` and `ofLe` are the little
endian words, and `record` reads one entry of an array with a fixed stride.
-/

namespace CStructures.Lib

abbrev Byte := UInt8

abbrev Bytes := Nat → Byte

/-- The `len` bytes from `off`. -/
def slice (m : Bytes) (off len : Nat) : List Byte :=
  (List.range len).map fun i => m (off + i)

/-- Copy `data` to `dst`. -/
def memcpy (m : Bytes) (dst : Nat) (data : List Byte) : Bytes :=
  fun i => if dst ≤ i then data.getD (i - dst) (m i) else m i

/-- Copy `len` bytes from `src` to `dst`, as if through a temporary array. -/
def memmove (m : Bytes) (dst src len : Nat) : Bytes :=
  fun i => if dst ≤ i ∧ i < dst + len then m (src + (i - dst)) else m i

def memset (m : Bytes) (dst : Nat) (v : Byte) (len : Nat) : Bytes :=
  fun i => if dst ≤ i ∧ i < dst + len then v else m i

@[simp] lemma length_slice (m : Bytes) (off len : Nat) : (slice m off len).length = len := by
  simp [slice]

@[simp] lemma getElem_slice (m : Bytes) (off len i : Nat) (h : i < (slice m off len).length) :
    (slice m off len)[i] = m (off + i) := by
  simp [slice]

@[simp] lemma slice_zero (m : Bytes) (off : Nat) : slice m off 0 = [] := rfl

lemma slice_congr {m m' : Bytes} {off off' len : Nat} (h : ∀ i < len, m (off + i) = m' (off' + i)) :
    slice m off len = slice m' off' len := by
  apply List.ext_getElem
  · simp
  · intro i hi _
    rw [getElem_slice, getElem_slice]
    exact h i (by simpa using hi)

/-- Equal ranges have equal bytes. -/
lemma byte_of_slice_eq {m m' : Bytes} {off off' len i : Nat} (h : slice m off len = slice m' off' len)
    (hi : i < len) : m (off + i) = m' (off' + i) := by
  have hget := List.getElem_of_eq h (show i < (slice m off len).length by rwa [length_slice])
  rwa [getElem_slice, getElem_slice] at hget

lemma memcpy_inside {m : Bytes} {dst i : Nat} {data : List Byte} (hi : dst ≤ i)
    (h : i - dst < data.length) : memcpy m dst data i = data[i - dst] := by
  simp only [memcpy, hi, ite_true, List.getD_eq_getElem _ _ h]

lemma memcpy_outside {m : Bytes} {dst i : Nat} {data : List Byte}
    (h : i < dst ∨ dst + data.length ≤ i) : memcpy m dst data i = m i := by
  unfold memcpy
  by_cases hi : dst ≤ i
  · rw [if_pos hi, List.getD_eq_default _ _ (by omega)]
  · rw [if_neg hi]

@[simp] lemma memcpy_nil (m : Bytes) (dst : Nat) : memcpy m dst [] = m := by
  funext i
  exact memcpy_outside (by simp; omega)

lemma memset_inside {m : Bytes} {dst len i : Nat} {v : Byte} (h : dst ≤ i ∧ i < dst + len) :
    memset m dst v len i = v := if_pos h

lemma slice_memcpy_self (m : Bytes) (dst : Nat) (data : List Byte) :
    slice (memcpy m dst data) dst data.length = data := by
  apply List.ext_getElem
  · simp
  · intro i hi hd
    rw [getElem_slice, memcpy_inside (by omega) (by omega)]
    congr 1
    omega

lemma slice_memcpy_of_disjoint {m : Bytes} {dst off len : Nat} {data : List Byte}
    (h : off + len ≤ dst ∨ dst + data.length ≤ off) :
    slice (memcpy m dst data) off len = slice m off len := by
  apply slice_congr
  intro i hi
  exact memcpy_outside (by omega)

lemma slice_memmove_of_disjoint {m : Bytes} {dst src n off len : Nat}
    (h : off + len ≤ dst ∨ dst + n ≤ off) :
    slice (memmove m dst src n) off len = slice m off len := by
  apply slice_congr
  intro i hi
  exact if_neg (by omega)

lemma slice_memmove_inside {m : Bytes} {dst src n k len : Nat} (h : k + len ≤ n) :
    slice (memmove m dst src n) (dst + k) len = slice m (src + k) len := by
  apply slice_congr
  intro i hi
  rw [memmove, if_pos (by omega)]
  congr 1
  omega

/-- A part of a range that has been copied from elsewhere. -/
lemma slice_memcpy_slice {m m' : Bytes} {dst src n k len : Nat} (h : k + len ≤ n) :
    slice (memcpy m dst (slice m' src n)) (dst + k) len = slice m' (src + k) len := by
  apply slice_congr
  intro i hi
  rw [memcpy_inside (by omega) (by rw [length_slice]; omega), getElem_slice]
  congr 1
  omega

lemma slice_memset_inside {m : Bytes} {dst n off len : Nat} {v : Byte} (hl : dst ≤ off)
    (hr : off + len ≤ dst + n) : slice (memset m dst v n) off len = List.replicate len v := by
  apply List.ext_getElem
  · simp
  · intro i hi _
    rw [getElem_slice, List.getElem_replicate]
    exact memset_inside (by simp at hi; omega)

/-- The `n` low bytes of `w`, the least significant first. -/
def leBytes : Nat → Nat → List Byte
  | 0, _ => []
  | n + 1, w => UInt8.ofNat w :: leBytes n (w / 256)

def ofLe : List Byte → Nat
  | [] => 0
  | b :: bs => b.toNat + 256 * ofLe bs

@[simp] lemma length_leBytes (n w : Nat) : (leBytes n w).length = n := by
  induction n generalizing w with
  | zero => rfl
  | succ n ih => simp [leBytes, ih]

lemma ofLe_leBytes (n w : Nat) : ofLe (leBytes n w) = w % 256 ^ n := by
  induction n generalizing w with
  | zero => simp [leBytes, ofLe, Nat.mod_one]
  | succ n ih =>
    have hb : (UInt8.ofNat w).toNat = w % 256 := UInt8.toNat_ofNat'
    rw [leBytes, ofLe, ih, hb, Nat.pow_succ, Nat.mul_comm (256 ^ n), Nat.mod_mul]

lemma ofLe_replicate_zero (n : Nat) : ofLe (List.replicate n 0) = 0 := by
  induction n with
  | zero => rfl
  | succ n ih => simp [List.replicate_succ, ofLe, ih]

/-- Read a 32-bit word. -/
def load32 (m : Bytes) (off : Nat) : UInt32 := UInt32.ofNat (ofLe (slice m off 4))

/-- Write a 32-bit word. -/
def store32 (m : Bytes) (off : Nat) (w : UInt32) : Bytes := memcpy m off (leBytes 4 w.toNat)

lemma ofNat_ofLe_leBytes (w : UInt32) : UInt32.ofNat (ofLe (leBytes 4 w.toNat)) = w := by
  have hw : w.toNat < 256 ^ 4 := w.toNat_lt
  rw [ofLe_leBytes, Nat.mod_eq_of_lt hw, UInt32.ofNat_toNat]

lemma load32_eq_of_slice {m : Bytes} {off : Nat} {w : UInt32}
    (h : slice m off 4 = leBytes 4 w.toNat) : load32 m off = w := by
  rw [load32, h, ofNat_ofLe_leBytes]

@[simp] lemma load32_store32 (m : Bytes) (off : Nat) (w : UInt32) :
    load32 (store32 m off w) off = w := by
  apply load32_eq_of_slice
  unfold store32
  simpa only [length_leBytes] using slice_memcpy_self m off (leBytes 4 w.toNat)

lemma load32_congr {m m' : Bytes} {off off' : Nat} (h : slice m off 4 = slice m' off' 4) :
    load32 m off = load32 m' off' := by
  rw [load32, load32, h]

lemma stride_le {i j : Nat} (s : Nat) (h : i < j) : s * i + s ≤ s * j := by
  calc s * i + s = s * (i + 1) := by ring
    _ ≤ s * j := Nat.mul_le_mul_left s h

lemma stride_apart {i j : Nat} (s : Nat) (h : i ≠ j) : s * i + s ≤ s * j ∨ s * j + s ≤ s * i :=
  (Nat.lt_or_gt_of_ne h).imp (stride_le s) (stride_le s)

/-- Entry `i` of the array at `base` whose entries are `stride` bytes long. -/
def record (m : Bytes) (base stride i : Nat) : List Byte := slice m (base + stride * i) stride

@[simp] lemma length_record (m : Bytes) (base stride i : Nat) :
    (record m base stride i).length = stride := length_slice _ _ _

lemma record_memcpy_self {m : Bytes} {base stride i : Nat} {data : List Byte}
    (hd : data.length = stride) : record (memcpy m (base + stride * i) data) base stride i = data := by
  subst hd
  exact slice_memcpy_self _ _ _

lemma record_memcpy_of_ne {m : Bytes} {base stride i j : Nat} {data : List Byte}
    (hd : data.length = stride) (h : i ≠ j) :
    record (memcpy m (base + stride * j) data) base stride i = record m base stride i := by
  apply slice_memcpy_of_disjoint
  have hapart := stride_apart stride h
  omega

/-- Entries `s, …, s + n - 1` of one array land on entries `d, …, d + n - 1` of another. -/
lemma record_memmove_inside {m : Bytes} {base base' stride d s n i : Nat} (hl : d ≤ i)
    (hr : i < d + n) :
    record (memmove m (base' + stride * d) (base + stride * s) (stride * n)) base' stride i =
      record m base stride (s + (i - d)) := by
  obtain ⟨k, rfl⟩ := Nat.exists_eq_add_of_le hl
  have hk : stride * k + stride ≤ stride * n := stride_le stride (by omega)
  have hdst : base' + stride * (d + k) = base' + stride * d + stride * k := by ring
  have hsrc : base + stride * (s + (d + k - d)) = base + stride * s + stride * k := by
    rw [Nat.add_sub_cancel_left]
    ring
  rw [record, record, hdst, hsrc, slice_memmove_inside hk]

lemma record_memmove_outside {m : Bytes} {base src stride d n i : Nat} (h : i < d ∨ d + n ≤ i) :
    record (memmove m (base + stride * d) src (stride * n)) base stride i =
      record m base stride i := by
  apply slice_memmove_of_disjoint
  rcases h with h | h
  · have := stride_le stride h
    omega
  · have : stride * (d + n) ≤ stride * i := Nat.mul_le_mul_left stride h
    rw [Nat.mul_add] at this
    omega

end CStructures.Lib
