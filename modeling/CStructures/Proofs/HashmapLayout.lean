import CStructures.Lib.OpenAddressing
import CStructures.Lib.Word
import CStructures.Model.Hashmap

/-!
# Layout of the hashmap's storage

The offsets of slots, keys and values in exact integers, the frame conditions of the three
kinds of writes, and the storage seen as an open addressing table: position `p` of `table`
is unused, a tombstone, or holds the key stored there.
-/

namespace CStructures
open Lib

namespace Hashmap

/-- The slot and key area, and 2^32 bytes behind it, are addressable. -/
def KeysFit (hm : Hashmap) : Prop := (4 + hm.keySize.toNat) * hm.tableCount.toNat + 2 ^ 32 ≤ 2 ^ 64

/-- The value area has fewer than 2^32 bytes. -/
def ValuesFit (hm : Hashmap) : Prop := hm.valueSize.toNat * hm.tableCount.toNat < 2 ^ 32

lemma stride_toNat (hm : Hashmap) : (4 + hm.keySize.toUInt64).toNat = 4 + hm.keySize.toNat := by
  have := hm.keySize.toNat_lt
  simp only [UInt64.toNat_add, UInt32.toNat_toUInt64]
  change (4 + _) % 2 ^ 64 = _
  omega

variable {hm : Hashmap} {p q : UInt32}

lemma slotOffset_toNat (hf : hm.KeysFit) (hp : p.toNat < hm.tableCount.toNat) :
    (hm.slotOffset p).toNat = (4 + hm.keySize.toNat) * p.toNat := by
  unfold KeysFit at hf
  have hle := stride_le (4 + hm.keySize.toNat) hp
  rw [slotOffset, UInt64.toNat_mul, stride_toNat, UInt32.toNat_toUInt64]
  exact Nat.mod_eq_of_lt (by omega)

lemma keyOffset_toNat (hf : hm.KeysFit) (hp : p.toNat < hm.tableCount.toNat) :
    (hm.keyOffset p).toNat = (4 + hm.keySize.toNat) * p.toNat + 4 := by
  have hs := slotOffset_toNat hf hp
  unfold KeysFit at hf
  have hle := stride_le (4 + hm.keySize.toNat) hp
  rw [keyOffset, UInt64.toNat_add]
  change ((hm.slotOffset p).toNat + 4) % 2 ^ 64 = _
  rw [hs, Nat.mod_eq_of_lt (by omega)]

lemma valueOffset_toNat (hf : hm.KeysFit) :
    (hm.valueOffset p).toNat = (4 + hm.keySize.toNat) * hm.tableCount.toNat +
      hm.valueSize.toNat * p.toNat % 2 ^ 32 := by
  unfold KeysFit at hf
  have hlt : hm.valueSize.toNat * p.toNat % 2 ^ 32 < 2 ^ 32 := Nat.mod_lt _ (by omega)
  have hkeys : (4 + hm.keySize.toNat) * hm.tableCount.toNat < 2 ^ 64 := by omega
  rw [valueOffset, UInt64.toNat_add, UInt64.toNat_mul, stride_toNat, UInt32.toNat_toUInt64,
    UInt32.toNat_toUInt64, UInt32.toNat_mul, Nat.mod_eq_of_lt hkeys]
  exact Nat.mod_eq_of_lt (by omega)

lemma valueOffset_toNat_of_fits (hf : hm.KeysFit) (hv : hm.ValuesFit)
    (hp : p.toNat < hm.tableCount.toNat) :
    (hm.valueOffset p).toNat = (4 + hm.keySize.toNat) * hm.tableCount.toNat +
      hm.valueSize.toNat * p.toNat := by
  unfold ValuesFit at hv
  have hle := stride_le hm.valueSize.toNat hp
  rw [valueOffset_toNat hf, Nat.mod_eq_of_lt (by omega)]

section Frame

variable {w : UInt32} {k v : List Byte}

lemma slot_setSlot_self : (hm.setSlot p w).slot p = w := load32_store32 _ _ _

lemma slot_setSlot_of_ne (hf : hm.KeysFit) (hp : p.toNat < hm.tableCount.toNat)
    (hq : q.toNat < hm.tableCount.toNat) (h : q ≠ p) : (hm.setSlot p w).slot q = hm.slot q := by
  apply load32_congr
  apply slice_memcpy_of_disjoint
  have hapart := stride_apart (4 + hm.keySize.toNat) (UInt32.toNat_inj.not.mpr h)
  change (hm.slotOffset q).toNat + 4 ≤ _ ∨ _ ≤ (hm.slotOffset q).toNat
  rw [length_leBytes, slotOffset_toNat hf hp, slotOffset_toNat hf hq]
  omega

lemma slot_setKey (hf : hm.KeysFit) (hp : p.toNat < hm.tableCount.toNat)
    (hq : q.toNat < hm.tableCount.toNat) (hk : k.length = hm.keySize.toNat) :
    (hm.setKey p k).slot q = hm.slot q := by
  apply load32_congr
  apply slice_memcpy_of_disjoint
  change (hm.slotOffset q).toNat + 4 ≤ _ ∨ _ ≤ (hm.slotOffset q).toNat
  rw [hk, slotOffset_toNat hf hq, keyOffset_toNat hf hp]
  rcases eq_or_ne q.toNat p.toNat with heq | hne
  · rw [heq]
    omega
  · have hapart := stride_apart (4 + hm.keySize.toNat) hne
    omega

lemma slot_setValue (hf : hm.KeysFit) (hq : q.toNat < hm.tableCount.toNat) :
    (hm.setValue p v).slot q = hm.slot q := by
  apply load32_congr
  apply slice_memcpy_of_disjoint
  have hle := stride_le (4 + hm.keySize.toNat) hq
  change (hm.slotOffset q).toNat + 4 ≤ _ ∨ _ ≤ (hm.slotOffset q).toNat
  rw [slotOffset_toNat hf hq, valueOffset_toNat hf]
  omega

lemma key_setSlot (hf : hm.KeysFit) (hp : p.toNat < hm.tableCount.toNat)
    (hq : q.toNat < hm.tableCount.toNat) : (hm.setSlot p w).key q = hm.key q := by
  apply slice_memcpy_of_disjoint
  change (hm.keyOffset q).toNat + hm.keySize.toNat ≤ _ ∨ _ ≤ (hm.keyOffset q).toNat
  rw [length_leBytes, slotOffset_toNat hf hp, keyOffset_toNat hf hq]
  rcases eq_or_ne q.toNat p.toNat with heq | hne
  · rw [heq]
    omega
  · have hapart := stride_apart (4 + hm.keySize.toNat) hne
    omega

lemma key_setKey_self (hk : k.length = hm.keySize.toNat) : (hm.setKey p k).key p = k := by
  change slice _ _ hm.keySize.toNat = k
  rw [← hk]
  exact slice_memcpy_self _ _ _

lemma key_setKey_of_ne (hf : hm.KeysFit) (hp : p.toNat < hm.tableCount.toNat)
    (hq : q.toNat < hm.tableCount.toNat) (hk : k.length = hm.keySize.toNat) (h : q ≠ p) :
    (hm.setKey p k).key q = hm.key q := by
  apply slice_memcpy_of_disjoint
  have hapart := stride_apart (4 + hm.keySize.toNat) (UInt32.toNat_inj.not.mpr h)
  change (hm.keyOffset q).toNat + hm.keySize.toNat ≤ _ ∨ _ ≤ (hm.keyOffset q).toNat
  rw [hk, keyOffset_toNat hf hp, keyOffset_toNat hf hq]
  omega

lemma key_setValue (hf : hm.KeysFit) (hq : q.toNat < hm.tableCount.toNat) :
    (hm.setValue p v).key q = hm.key q := by
  apply slice_memcpy_of_disjoint
  have hle := stride_le (4 + hm.keySize.toNat) hq
  change (hm.keyOffset q).toNat + hm.keySize.toNat ≤ _ ∨ _ ≤ (hm.keyOffset q).toNat
  rw [keyOffset_toNat hf hq, valueOffset_toNat hf]
  omega

lemma value_setSlot (hf : hm.KeysFit) (hp : p.toNat < hm.tableCount.toNat) :
    (hm.setSlot p w).value q = hm.value q := by
  apply slice_memcpy_of_disjoint
  have hle := stride_le (4 + hm.keySize.toNat) hp
  change (hm.valueOffset q).toNat + _ ≤ _ ∨ _ ≤ (hm.valueOffset q).toNat
  rw [length_leBytes, slotOffset_toNat hf hp, valueOffset_toNat hf]
  omega

lemma value_setKey (hf : hm.KeysFit) (hp : p.toNat < hm.tableCount.toNat)
    (hk : k.length = hm.keySize.toNat) : (hm.setKey p k).value q = hm.value q := by
  apply slice_memcpy_of_disjoint
  have hle := stride_le (4 + hm.keySize.toNat) hp
  change (hm.valueOffset q).toNat + _ ≤ _ ∨ _ ≤ (hm.valueOffset q).toNat
  rw [hk, keyOffset_toNat hf hp, valueOffset_toNat hf]
  omega

lemma value_setValue_self (hv : v.length = hm.valueSize.toNat) : (hm.setValue p v).value p = v := by
  change slice _ _ hm.valueSize.toNat = v
  rw [← hv]
  exact slice_memcpy_self _ _ _

lemma value_setValue_of_ne (hf : hm.KeysFit) (hvf : hm.ValuesFit)
    (hp : p.toNat < hm.tableCount.toNat) (hq : q.toNat < hm.tableCount.toNat)
    (hv : v.length = hm.valueSize.toNat) (h : q ≠ p) : (hm.setValue p v).value q = hm.value q := by
  apply slice_memcpy_of_disjoint
  have hapart := stride_apart hm.valueSize.toNat (UInt32.toNat_inj.not.mpr h)
  change (hm.valueOffset q).toNat + hm.valueSize.toNat ≤ _ ∨ _ ≤ (hm.valueOffset q).toNat
  rw [hv, valueOffset_toNat_of_fits hf hvf hp, valueOffset_toNat_of_fits hf hvf hq]
  omega

end Frame

def cell (hm : Hashmap) (p : UInt32) : Cell (List Byte) :=
  if hm.slot p = hmSlotUnused then .unused
  else if hm.slot p = hmSlotRip then .tombstone
  else .live (hm.key p)

def table (hm : Hashmap) (p : Nat) : Cell (List Byte) :=
  if p < hm.tableCount.toNat then hm.cell (UInt32.ofNat p) else .unused

/-- The value stored at each position. -/
def values (hm : Hashmap) (p : Nat) : List Byte := hm.value (UInt32.ofNat p)

/-- The positions that the probe loops visit for `key`. -/
def path (hm : Hashmap) (key : List Byte) (n : Nat) : Nat :=
  ((Probe.next hm.tableCount)^[n] (Probe.start hm.tableCount (hashWrapper hm key))).pos.toNat

lemma cell_eq_unused : hm.cell p = .unused ↔ hm.slot p = hmSlotUnused := by
  unfold cell
  split_ifs <;> simp_all

lemma cell_eq_tombstone : hm.cell p = .tombstone ↔ hm.slot p = hmSlotRip := by
  unfold cell
  split_ifs <;> simp_all [hmSlotUnused, hmSlotRip]

lemma cell_eq_live {k : List Byte} :
    hm.cell p = .live k ↔ hm.slot p ≠ hmSlotUnused ∧ hm.slot p ≠ hmSlotRip ∧ hm.key p = k := by
  unfold cell
  split_ifs <;> simp_all

lemma table_toNat (hp : p.toNat < hm.tableCount.toNat) : hm.table p.toNat = hm.cell p := by
  simp [table, hp]

lemma table_eq_live {n : Nat} {k : List Byte} (h : hm.table n = .live k) :
    ∃ p : UInt32, p.toNat = n ∧ p.toNat < hm.tableCount.toNat ∧ hm.cell p = .live k := by
  unfold table at h
  split_ifs at h with hn
  have hp : (UInt32.ofNat n).toNat = n := toNat_ofNat_of_le hn.le
  exact ⟨UInt32.ofNat n, hp, by omega, h⟩

lemma values_toNat : hm.values p.toNat = hm.value p := by
  simp [values]

end Hashmap

end CStructures
