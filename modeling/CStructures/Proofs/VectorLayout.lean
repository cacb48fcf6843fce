import CStructures.Lib.Sequence
import CStructures.Model.Vector

/-!
# Layout of the vector's buffer

The buffer as an indexed sequence of elements, the pointers to them, and what each copy
and move does to the sequence.
-/

namespace CStructures
open Lib

@[simp] lemma toUInt64_toIdx (n : UInt32) : (toIdx n).toUInt64 = n.toUInt64 := rfl

/-- The position that an index stands for. -/
def position (index : Int64) : Nat := index.toUInt64.toNat

@[simp] lemma position_toIdx (n : UInt32) : position (toIdx n) = n.toNat := by
  rw [position, toUInt64_toIdx, UInt32.toNat_toUInt64]

lemma position_inj {index index' : Int64} : position index = position index' ↔ index = index' := by
  obtain ⟨a⟩ := index
  obtain ⟨b⟩ := index'
  rw [position, position, UInt64.toNat_inj, Int64.ofUInt64.injEq]

lemma position_le {index : Int64} {n : UInt32} (h0 : 0 ≤ index) (h : index ≤ toIdx n) :
    position index ≤ n.toNat := by
  have := UInt64.le_iff_toNat_le.mp (Int64.toUInt64_le h0 h)
  rwa [toUInt64_toIdx, UInt32.toNat_toUInt64] at this

lemma position_lt {index : Int64} {n : UInt32} (h0 : 0 ≤ index) (h : index < toIdx n) :
    position index < n.toNat := by
  have hle := position_le h0 (Int64.le_of_lt h)
  have hne : position index ≠ n.toNat := by
    rw [← position_toIdx n, Ne, position_inj]
    rintro rfl
    exact absurd h (Int64.lt_irrefl)
  omega

lemma toNat_add_of_lt {a b : UInt64} (h : a.toNat + b.toNat < 2 ^ 64) :
    (a + b).toNat = a.toNat + b.toNat := by
  rw [UInt64.toNat_add]
  exact Nat.mod_eq_of_lt h

namespace CsVector

variable {v : CsVector} {m : Bytes} {value : List Byte}

/-- The pointer to the element at a position. -/
def PointsTo (v : CsVector) (p : UInt64) (i : Nat) : Prop := p.toNat = v.elementSize.toNat * i

lemma PointsTo.offset {p : UInt64} {i : Nat} (h : v.PointsTo p i) :
    p.toNat = v.elementSize.toNat * i := h

lemma toNat_mul_of_lt {a b : UInt32} (h : a.toNat * b.toNat < 2 ^ 32) :
    (a * b).toNat = a.toNat * b.toNat := by
  rw [UInt32.toNat_mul]
  exact Nat.mod_eq_of_lt h

lemma pointsTo_mul {i : UInt32} (h : v.elementSize.toNat * i.toNat < 2 ^ 32) :
    v.PointsTo (v.elementSize * i).toUInt64 i.toNat := by
  rw [PointsTo, UInt32.toNat_toUInt64, toNat_mul_of_lt h]

lemma pointsTo_index {index : Int64} (h : v.elementSize.toNat * position index < 2 ^ 32) :
    v.PointsTo (index * toIdx v.elementSize).toUInt64 (position index) := by
  have hcomm : index.toUInt64.toNat * v.elementSize.toNat = v.elementSize.toNat * position index :=
    Nat.mul_comm _ _
  rw [PointsTo, Int64.toUInt64_mul, toUInt64_toIdx, UInt64.toNat_mul, UInt32.toNat_toUInt64, hcomm]
  exact Nat.mod_eq_of_lt (by omega)

/-- The next pointer. -/
lemma PointsTo.succ {p : UInt64} {i : Nat} (hp : v.PointsTo p i)
    (h : v.elementSize.toNat * i < 2 ^ 32) : v.PointsTo (p + v.elementSize.toUInt64) (i + 1) := by
  have hes := v.elementSize.toNat_lt
  have hoff := hp.offset
  rw [PointsTo, toNat_add_of_lt (by rw [UInt32.toNat_toUInt64]; omega), UInt32.toNat_toUInt64, hoff,
    Nat.mul_add, Nat.mul_one]

lemma PointsTo.congr {v' : CsVector} {p : UInt64} {i : Nat} (hp : v.PointsTo p i)
    (hes : v'.elementSize = v.elementSize) : v'.PointsTo p i := by
  rw [PointsTo, hes]
  exact hp

/-- The element at position `i`. -/
def elems (v : CsVector) (i : Nat) : List Byte := record v.bytes 0 v.elementSize.toNat i

/-- The elements in use. -/
def toList (v : CsVector) : List (List Byte) := tabulate v.elems v.count.toNat

@[simp] lemma length_toList : v.toList.length = v.count.toNat := length_tabulate

lemma PointsTo.deref {p : UInt64} {i : Nat} (hp : v.PointsTo p i) : v.deref p = v.elems i := by
  rw [CsVector.deref, hp.offset, elems, record, Nat.zero_add]

lemma bytes_setBytes (hd : v.data.isSome) : (v.setBytes m).bytes = m := by
  obtain ⟨d, hd⟩ := Option.isSome_iff_exists.mp hd
  simp only [bytes, setBytes, hd, Option.map_some]

lemma setBytes_bytes (v : CsVector) : v.setBytes v.bytes = v := by
  obtain ⟨data, _, _, _⟩ := v
  cases data <;> rfl

lemma setBytes_isSome : (v.setBytes m).data.isSome = v.data.isSome := by
  simp [setBytes]

lemma setBytes_size : (v.setBytes m).data.map Block.size = v.data.map Block.size := by
  simp [setBytes, Function.comp_def]

lemma elems_write (hd : v.data.isSome) {p : UInt64} {k : Nat} (hp : v.PointsTo p k)
    (hv : value.length = v.elementSize.toNat) (i : Nat) :
    (v.write p value).elems i = if i = k then value else v.elems i := by
  have hbytes : (v.write p value).bytes = memcpy v.bytes (0 + v.elementSize.toNat * k) value := by
    rw [Nat.zero_add, ← hp.offset]
    exact bytes_setBytes hd
  change record (v.write p value).bytes 0 v.elementSize.toNat i = _
  rw [hbytes]
  split_ifs with h
  · rw [h]
    exact record_memcpy_self hv
  · exact record_memcpy_of_ne hv h

lemma elems_move (hd : v.data.isSome) {dst src : UInt64} {len : UInt32} {d s n : Nat}
    (hdst : v.PointsTo dst d) (hsrc : v.PointsTo src s) (hlen : len.toNat = v.elementSize.toNat * n)
    (i : Nat) :
    (v.move dst src len).elems i = if d ≤ i ∧ i < d + n then v.elems (s + (i - d)) else v.elems i := by
  have hbytes : (v.move dst src len).bytes = memmove v.bytes (0 + v.elementSize.toNat * d)
      (0 + v.elementSize.toNat * s) (v.elementSize.toNat * n) := by
    rw [Nat.zero_add, Nat.zero_add, ← hdst.offset, ← hsrc.offset, ← hlen]
    exact bytes_setBytes hd
  change record (v.move dst src len).bytes 0 v.elementSize.toNat i = _
  rw [hbytes]
  split_ifs with h
  · exact record_memmove_inside h.1 h.2
  · exact record_memmove_outside (by omega)

/-- The buffer has room for `capacity` elements and the scratch element, and no size
wraps. -/
structure Sound (v : CsVector) : Prop where
  elementSize_pos : 0 < v.elementSize.toNat
  count_le : v.count.toNat ≤ v.capacity.toNat
  fits : v.elementSize.toNat * (v.capacity.toNat + 1) < 2 ^ 32
  buffer : ∀ d ∈ v.data, v.elementSize.toNat * (v.capacity.toNat + 1) ≤ d.size
  unallocated : v.data = none ↔ v.capacity = 0

/-- The offset of an element or of the scratch element does not wrap. -/
lemma Sound.offset_lt (h : v.Sound) {i : Nat} (hi : i ≤ v.capacity.toNat + 1) :
    v.elementSize.toNat * i < 2 ^ 32 :=
  lt_of_le_of_lt (Nat.mul_le_mul_left _ hi) h.fits

lemma Sound.isSome (h : v.Sound) (hpos : 0 < v.capacity.toNat) : v.data.isSome := by
  rw [Option.isSome_iff_ne_none]
  intro hnone
  rw [h.unallocated.mp hnone] at hpos
  exact absurd hpos (by decide)

/-- A change within the buffer. -/
lemma Sound.of_sameBuffer {v' : CsVector} (h : v.Sound) (hcap : v'.capacity = v.capacity)
    (hes : v'.elementSize = v.elementSize) (hsize : v'.data.map Block.size = v.data.map Block.size)
    (hcount : v'.count.toNat ≤ v.capacity.toNat) : v'.Sound where
  elementSize_pos := by
    rw [hes]
    exact h.elementSize_pos
  count_le := by rwa [hcap]
  fits := by
    rw [hcap, hes]
    exact h.fits
  buffer := by
    rw [hcap, hes]
    exact forall_size_of_sameSize hsize h.buffer
  unallocated := by
    rw [eq_none_of_sameSize hsize, hcap, h.unallocated]

end CsVector

end CStructures
