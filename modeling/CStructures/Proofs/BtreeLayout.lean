import CStructures.Lib.SortedTable
import CStructures.Lib.Word
import CStructures.Model.Btree

/-!
# Layout of the btree's buffer

The buffer as two indexed sequences, the keys and the values behind them, and what each
write and move does to either. Within the bounds of `ValuesFit` the offsets of the values
are exact.
-/

namespace CStructures
open Lib

namespace Btree

/-- The value area of a full buffer has fewer than 2^32 bytes. -/
def ValuesFit (b : Btree) : Prop := b.capacity.toNat * b.valueSize.toNat < 2 ^ 32

/-- The key at index `i`. -/
def keys (b : Btree) (i : Nat) : UInt32 := UInt32.ofNat (ofLe (record b.bytes 0 4 i))

/-- The value at index `i`, with the offset in exact integers. -/
def vals (b : Btree) (i : Nat) : List Byte :=
  record b.bytes (4 * b.capacity.toNat) b.valueSize.toNat i

variable {b : Btree} {m : Bytes}

lemma keys_eq (b : Btree) (i : Nat) : b.keys i = load32 b.bytes (keyOffset i) := by
  rw [keys, record, Nat.zero_add, load32, keyOffset]

lemma length_vals (b : Btree) (i : Nat) : (b.vals i).length = b.valueSize.toNat :=
  length_record _ _ _ _

lemma bytes_setBytes (hd : b.data.isSome) : (b.setBytes m).bytes = m := by
  obtain ⟨d, hd⟩ := Option.isSome_iff_exists.mp hd
  simp only [bytes, setBytes, hd, Option.map_some]

section Fields

@[simp] lemma setBytes_count : (b.setBytes m).count = b.count := rfl

@[simp] lemma setBytes_capacity : (b.setBytes m).capacity = b.capacity := rfl

@[simp] lemma setBytes_valueSize : (b.setBytes m).valueSize = b.valueSize := rfl

@[simp] lemma setBytes_isSome : (b.setBytes m).data.isSome = b.data.isSome := by
  simp [setBytes]

@[simp] lemma setBytes_size : (b.setBytes m).data.map Block.size = b.data.map Block.size := by
  simp [setBytes, Function.comp_def]

section Writes

variable {d s : Nat} {n p k : UInt32} {value : List Byte}

@[simp] lemma moveKeys_isSome : (b.moveKeys d s n).val.data.isSome = b.data.isSome := setBytes_isSome

@[simp] lemma moveValues_isSome : (b.moveValues d s n).val.data.isSome = b.data.isSome := setBytes_isSome

@[simp] lemma writeKey_isSome : (b.writeKey p k).val.data.isSome = b.data.isSome := setBytes_isSome

@[simp] lemma writeValue_isSome : (b.writeValue d value).val.data.isSome = b.data.isSome := setBytes_isSome

@[simp] lemma moveKeys_size : (b.moveKeys d s n).val.data.map Block.size = b.data.map Block.size :=
  setBytes_size

@[simp] lemma moveValues_size : (b.moveValues d s n).val.data.map Block.size = b.data.map Block.size :=
  setBytes_size

@[simp] lemma writeKey_size : (b.writeKey p k).val.data.map Block.size = b.data.map Block.size := setBytes_size

@[simp] lemma writeValue_size : (b.writeValue d value).val.data.map Block.size = b.data.map Block.size :=
  setBytes_size

end Writes

end Fields

lemma keys_congr {b' : Btree} {i : Nat} (h : record b'.bytes 0 4 i = record b.bytes 0 4 i) :
    b'.keys i = b.keys i := by
  rw [keys, keys, h]

lemma mul_toNat {n : UInt32} {v : UInt32} {c : Nat} (hn : n.toNat ≤ c) (hfit : c * v.toNat < 2 ^ 32) :
    (v * n).toNat = v.toNat * n.toNat := by
  have hle : v.toNat * n.toNat ≤ c * v.toNat := by
    rw [Nat.mul_comm c]
    exact Nat.mul_le_mul_left _ hn
  rw [UInt32.toNat_mul]
  exact Nat.mod_eq_of_lt (by omega)

lemma valueOffset_toNat {n : Nat} (hfit : n * b.valueSize.toNat < 2 ^ 32) {i : UInt32} (hi : i.toNat ≤ n) :
    b.valueOffset i = 4 * b.capacity.toNat + b.valueSize.toNat * i.toNat := by
  rw [valueOffset, valueOffsetCap, mul_toNat hi hfit]

/-- The bytes at a value pointer. -/
lemma deref_valueOffset {n : Nat} (hfit : n * b.valueSize.toNat < 2 ^ 32) {i : UInt32} (hi : i.toNat ≤ n) :
    b.deref (b.valueOffset i) = b.vals i.toNat := by
  rw [deref, valueOffset_toNat hfit hi]
  rfl

lemma entries_toNat {c : Nat} (hfit : c * b.valueSize.toNat < 2 ^ 32) {n : UInt32} (hn : n.toNat ≤ c) :
    (n * b.valueSize).toNat = b.valueSize.toNat * n.toNat := by
  rw [UInt32.mul_comm]
  exact mul_toNat hn hfit

lemma valueArea_le (b : Btree) (i : UInt32) : 4 * b.capacity.toNat ≤ b.valueOffset i :=
  Nat.le_add_right _ _

lemma keys_setBytes_of_above (hd : b.data.isSome) {i : Nat} {m : Bytes}
    (h : ∀ j < 4 * b.capacity.toNat, m j = b.bytes j) (hi : i < b.capacity.toNat) :
    (b.setBytes m).keys i = b.keys i := by
  apply keys_congr
  rw [bytes_setBytes hd, record, record]
  apply slice_congr
  intro j hj
  exact h _ (by omega)

lemma keys_moveKeys (hd : b.data.isSome) (d s i : Nat) (n : UInt32) :
    (b.moveKeys d s n).val.keys i =
      if d ≤ i ∧ i < d + n.toNat then b.keys (s + (i - d)) else b.keys i := by
  have hbytes : (b.moveKeys d s n).val.bytes =
      memmove b.bytes (0 + 4 * d) (0 + 4 * s) (4 * n.toNat) := by
    rw [Nat.zero_add, Nat.zero_add, Nat.mul_comm 4 n.toNat]
    exact bytes_setBytes hd
  split_ifs with h
  · rw [keys, hbytes, record_memmove_inside h.1 h.2]
    rfl
  · apply keys_congr
    rw [hbytes, record_memmove_outside (by omega)]

lemma vals_moveKeys (hd : b.data.isSome) {d s : Nat} {n : UInt32} (h : d + n.toNat ≤ b.capacity.toNat)
    (i : Nat) : (b.moveKeys d s n).val.vals i = b.vals i := by
  have hbytes : (b.moveKeys d s n).val.bytes = memmove b.bytes (4 * d) (4 * s) (n.toNat * 4) :=
    bytes_setBytes hd
  rw [vals, hbytes]
  exact slice_memmove_of_disjoint (Or.inr (by
    change 4 * d + n.toNat * 4 ≤ 4 * b.capacity.toNat + b.valueSize.toNat * i
    omega))

lemma keys_moveValues (hd : b.data.isSome) {d : UInt32} {src i : Nat} {n : UInt32}
    (hi : i < b.capacity.toNat) : (b.moveValues (b.valueOffset d) src n).val.keys i = b.keys i := by
  refine keys_setBytes_of_above hd (fun j hj => if_neg ?_) hi
  have := b.valueArea_le d
  omega

lemma vals_moveValues (hd : b.data.isSome) {c : Nat} (hfit : c * b.valueSize.toNat < 2 ^ 32)
    {d s n : UInt32} (hdst : d.toNat ≤ c) (hsrc : s.toNat ≤ c) (hn : n.toNat ≤ c) (i : Nat) :
    (b.moveValues (b.valueOffset d) (b.valueOffset s) n).val.vals i =
      if d.toNat ≤ i ∧ i < d.toNat + n.toNat then b.vals (s.toNat + (i - d.toNat)) else b.vals i := by
  have hbytes : (b.moveValues (b.valueOffset d) (b.valueOffset s) n).val.bytes =
      memmove b.bytes (4 * b.capacity.toNat + b.valueSize.toNat * d.toNat)
        (4 * b.capacity.toNat + b.valueSize.toNat * s.toNat) (b.valueSize.toNat * n.toNat) := by
    rw [← valueOffset_toNat hfit hdst, ← valueOffset_toNat hfit hsrc, ← entries_toNat hfit hn]
    exact bytes_setBytes hd
  rw [vals, hbytes]
  split_ifs with h
  · exact record_memmove_inside h.1 h.2
  · exact record_memmove_outside (by omega)

lemma keys_writeKey (hd : b.data.isSome) (p : UInt32) (k : UInt32) (i : Nat) :
    (b.writeKey p k).val.keys i = if i = p.toNat then k else b.keys i := by
  have hbytes : (b.writeKey p k).val.bytes = memcpy b.bytes (0 + 4 * p.toNat) (leBytes 4 k.toNat) := by
    rw [Nat.zero_add]
    exact bytes_setBytes hd
  split_ifs with h
  · rw [keys, hbytes, h, record_memcpy_self (length_leBytes _ _), ofNat_ofLe_leBytes]
  · apply keys_congr
    rw [hbytes, record_memcpy_of_ne (length_leBytes _ _) h]

lemma vals_writeKey (hd : b.data.isSome) {p : UInt32} (hp : p.toNat < b.capacity.toNat) (k : UInt32)
    (i : Nat) : (b.writeKey p k).val.vals i = b.vals i := by
  have hbytes : (b.writeKey p k).val.bytes = memcpy b.bytes (4 * p.toNat) (leBytes 4 k.toNat) :=
    bytes_setBytes hd
  rw [vals, hbytes]
  refine slice_memcpy_of_disjoint (Or.inr ?_)
  rw [length_leBytes]
  change 4 * p.toNat + 4 ≤ 4 * b.capacity.toNat + b.valueSize.toNat * i
  omega

lemma keys_writeValue (hd : b.data.isSome) {p : UInt32} {value : List Byte} {i : Nat}
    (hi : i < b.capacity.toNat) : (b.writeValue (b.valueOffset p) value).val.keys i = b.keys i := by
  refine keys_setBytes_of_above hd (fun j hj => memcpy_outside (Or.inl ?_)) hi
  have := b.valueArea_le p
  omega

lemma vals_writeValue (hd : b.data.isSome) {c : Nat} (hfit : c * b.valueSize.toNat < 2 ^ 32) {p : UInt32}
    {value : List Byte} (hp : p.toNat ≤ c) (hv : value.length = b.valueSize.toNat) (i : Nat) :
    (b.writeValue (b.valueOffset p) value).val.vals i = if i = p.toNat then value else b.vals i := by
  have hbytes : (b.writeValue (b.valueOffset p) value).val.bytes =
      memcpy b.bytes (4 * b.capacity.toNat + b.valueSize.toNat * p.toNat) value := by
    rw [← valueOffset_toNat hfit hp]
    exact bytes_setBytes hd
  rw [vals, hbytes]
  split_ifs with h
  · rw [h]
    exact record_memcpy_self hv
  · exact record_memcpy_of_ne hv h

end Btree

end CStructures
