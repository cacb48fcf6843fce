import CStructures.Proofs.BtreeSearch

/-!
# Editing the btree

What insertion, erasure and reallocation do to the two sequences in the buffer.
-/

namespace CStructures
open Lib

namespace Btree

variable {b b' : Btree} {key : UInt32} {value : List Byte}

/-- The bounds within which no 32-bit product or doubling wraps. -/
structure InBounds (b : Btree) : Prop where
  capacity : b.capacity.toNat < 2 ^ 31
  valuesFit : b.ValuesFit

structure Sound (b : Btree) : Prop where
  bounds : b.InBounds
  count_le : b.count.toNat ≤ b.capacity.toNat
  buffer : ∀ d ∈ b.data, b.capacity.toNat * (4 + b.valueSize.toNat) ≤ d.size
  unallocated : b.data = none → b.capacity = 0
  ascending : Ascending b.keys b.count.toNat

/-- The same entries, in a buffer that may be another one. -/
structure SameEntries (b b' : Btree) : Prop where
  count : b'.count = b.count
  valueSize : b'.valueSize = b.valueSize
  keys : ∀ i < b.count.toNat, b'.keys i = b.keys i
  vals : ∀ i < b.count.toNat, b'.vals i = b.vals i

lemma SameEntries.refl (b : Btree) : SameEntries b b := ⟨rfl, rfl, fun _ _ => rfl, fun _ _ => rfl⟩

lemma Sound.isSome (h : b.Sound) (hpos : 0 < b.capacity.toNat) : b.data.isSome := by
  rw [Option.isSome_iff_ne_none]
  intro hnone
  rw [h.unallocated hnone] at hpos
  exact absurd hpos (by decide)

/-- A change within the buffer keeps its bounds and its size. -/
lemma Sound.of_sameBuffer (h : b.Sound) (hcap : b'.capacity = b.capacity)
    (hvs : b'.valueSize = b.valueSize) (hsize : b'.data.map Block.size = b.data.map Block.size)
    (hcount : b'.count.toNat ≤ b.capacity.toNat) (hasc : Ascending b'.keys b'.count.toNat) : b'.Sound where
  bounds := ⟨by rw [hcap]; exact h.bounds.capacity, by
    rw [ValuesFit, hcap, hvs]
    exact h.bounds.valuesFit⟩
  count_le := by rwa [hcap]
  buffer := by
    rw [hcap, hvs]
    exact forall_size_of_sameSize hsize h.buffer
  unallocated := by
    rw [eq_none_of_sameSize hsize, hcap]
    exact h.unallocated
  ascending := hasc

/-- The keys from index `p` on are moved out of the way, and then the values. -/
def moveApart (b : Btree) (p : Nat) : Btree :=
  let q := UInt32.ofNat p
  let b1 := (b.moveKeys (p + 1) p (b.count - q)).val
  (b1.moveValues (b1.valueOffset (q + 1)) (b1.valueOffset q) (b.count - q)).val

/-- The key is written into the gap. -/
def openGap (b : Btree) (p : Nat) (key : UInt32) : Btree :=
  ((b.moveApart p).writeKey (UInt32.ofNat p) key).val

section Gap

variable {p : Nat}

lemma moveApart_isSome : (b.moveApart p).data.isSome = b.data.isSome := by simp [moveApart]

lemma openGap_isSome : (b.openGap p key).data.isSome = b.data.isSome := by simp [openGap, moveApart]

lemma openGap_size : (b.openGap p key).data.map Block.size = b.data.map Block.size := by
  simp [openGap, moveApart]

lemma keys_openGap (hd : b.data.isSome) (hp : p ≤ b.count.toNat) {i : Nat} (hi : i < b.count.toNat + 1)
    (hcap : i < b.capacity.toNat) : (b.openGap p key).keys i = insertAt b.keys p key i := by
  have hto := toNat_ofNat_of_le hp
  have hn : (b.count - UInt32.ofNat p).toNat = b.count.toNat - p := by
    rw [toNat_sub_of_le (by omega), hto]
  have hd1 : (b.moveKeys (p + 1) p (b.count - UInt32.ofNat p)).val.data.isSome := by simpa using hd
  rw [openGap, keys_writeKey (moveApart_isSome.trans hd), moveApart, keys_moveValues hd1 hcap,
    keys_moveKeys hd, hto, hn]
  by_cases hat : i = p
  · rw [if_pos hat, hat, insertAt_self]
  · rw [if_neg hat]
    exact insertAt_of_moved (by omega) hat key

lemma vals_moveValues_zero (hd : b.data.isSome) (d s i : Nat) :
    (b.moveValues d s 0).val.vals i = b.vals i := by
  have hbytes : (b.moveValues d s 0).val.bytes = memmove b.bytes d s ((0 : UInt32) * b.valueSize).toNat :=
    bytes_setBytes hd
  rw [vals, hbytes, UInt32.zero_mul]
  apply slice_congr
  intro j _
  apply if_neg
  rw [UInt32.toNat_zero]
  omega

lemma vals_openGap (hd : b.data.isSome) (hfit : b.count.toNat * b.valueSize.toNat < 2 ^ 32)
    (hp : p ≤ b.count.toNat) (hroom : b.count.toNat < b.capacity.toNat) {i : Nat}
    (hi : i < b.count.toNat + 1) (hne : i ≠ p) (v : List Byte) :
    (b.openGap p key).vals i = insertAt b.vals p v i := by
  have hto := toNat_ofNat_of_le hp
  have hto1 : (UInt32.ofNat p + 1).toNat = p + 1 := by
    rw [toNat_succ (b := b.capacity) (by omega), hto]
  have hn : (b.count - UInt32.ofNat p).toNat = b.count.toNat - p := by
    rw [toNat_sub_of_le (by omega), hto]
  have hd1 : (b.moveKeys (p + 1) p (b.count - UInt32.ofNat p)).val.data.isSome := by simpa using hd
  have hkeys : ∀ j, (b.moveKeys (p + 1) p (b.count - UInt32.ofNat p)).val.vals j = b.vals j :=
    vals_moveKeys hd (by omega)
  rw [openGap, vals_writeKey (moveApart_isSome.trans hd)
    (show (UInt32.ofNat p).toNat < b.capacity.toNat by omega), moveApart]
  rcases Nat.lt_or_eq_of_le hp with hlt | heq
  · rw [vals_moveValues hd1 (c := b.count.toNat) hfit (by omega) (by omega) (by omega), hkeys, hkeys, hto,
      hto1, hn]
    exact insertAt_of_moved (by omega) hne v
  · have hzero : b.count - UInt32.ofNat p = 0 := by
      rw [← UInt32.toNat_inj, hn, heq]
      exact Nat.sub_self _
    rw [hzero] at hd1 hkeys ⊢
    rw [vals_moveValues_zero hd1, hkeys, insertAt_of_lt (by omega)]

lemma val_insertAtLowerBound : (insertAtLowerBound b p key value).val =
    { (if b.valueSize ≠ 0 then
        ((b.openGap p key).writeValue ((b.openGap p key).valueOffset (UInt32.ofNat p)) value).val
      else b.openGap p key) with count := b.count + 1 } := by
  unfold insertAtLowerBound
  simp only [Logged.val_bind, Logged.val_ite, Logged.val_pure]
  split_ifs with hgap hvs hvs
  · rfl
  · exact absurd hgap hvs
  · exact absurd hvs hgap
  · rfl

lemma bytes_insertAtLowerBound (hd : b.data.isSome) (hvs : b.valueSize ≠ 0) :
    (insertAtLowerBound b p key value).val.bytes =
      memcpy (b.openGap p key).bytes (b.valueOffset (UInt32.ofNat p)) value := by
  rw [val_insertAtLowerBound, if_pos hvs]
  exact bytes_setBytes (openGap_isSome.trans hd)

theorem insertAtLowerBound_keys (hd : b.data.isSome) (hp : p ≤ b.count.toNat)
    (hroom : b.count.toNat < b.capacity.toNat) :
    let b' := (insertAtLowerBound b p key value).val
    b'.count.toNat = b.count.toNat + 1 ∧ b'.capacity = b.capacity ∧ b'.valueSize = b.valueSize ∧
      b'.data.map Block.size = b.data.map Block.size ∧
      ∀ i < b.count.toNat + 1, b'.keys i = insertAt b.keys p key i := by
  have hgap : ∀ i < b.count.toNat + 1, (b.openGap p key).keys i = insertAt b.keys p key i :=
    fun i hi => keys_openGap hd hp hi (by omega)
  rw [val_insertAtLowerBound]
  refine ⟨toNat_succ hroom, ?_⟩
  split_ifs
  · refine ⟨rfl, rfl, setBytes_size.trans openGap_size, fun i hi => ?_⟩
    rw [← hgap i hi]
    exact keys_writeValue (openGap_isSome.trans hd) (show i < b.capacity.toNat by omega)
  · exact ⟨rfl, rfl, openGap_size, hgap⟩

/-- An insertion shifts the values like the keys, as far as their offsets are exact. -/
theorem insertAtLowerBound_vals (hd : b.data.isSome) (hfit : b.count.toNat * b.valueSize.toNat < 2 ^ 32)
    (hp : p ≤ b.count.toNat) (hroom : b.count.toNat < b.capacity.toNat)
    (hv : value.length = b.valueSize.toNat) :
    ∀ i < b.count.toNat + 1, (insertAtLowerBound b p key value).val.vals i = insertAt b.vals p value i := by
  intro i hi
  have hto := toNat_ofNat_of_le hp
  rw [val_insertAtLowerBound]
  by_cases hvs : b.valueSize = 0
  · have hnil : ∀ l : List Byte, l.length = b.valueSize.toNat → l = [] := by
      intro l hl
      rw [hvs] at hl
      exact List.length_eq_zero_iff.mp hl
    rw [if_neg (not_not.mpr hvs)]
    change (b.openGap p key).vals i = _
    rw [hnil _ (length_vals (b.openGap p key) i)]
    unfold insertAt
    split_ifs
    · exact (hnil _ (length_vals b i)).symm
    · exact (hnil _ hv).symm
    · exact (hnil _ (length_vals b _)).symm
  · rw [if_pos hvs]
    change ((b.openGap p key).writeValue _ value).val.vals i = _
    rw [vals_writeValue (openGap_isSome.trans hd) (c := b.count.toNat) hfit (by omega) hv, hto]
    split_ifs with h
    · rw [h, insertAt_self]
    · exact vals_openGap hd hfit hp hroom hi h value

end Gap

/-- The keys behind index `idx` are moved over it, and then the values. -/
def closeGap (b : Btree) (idx : UInt32) : Btree :=
  let b1 := (b.moveKeys idx.toNat (idx.toNat + 1) (b.count - idx)).val
  (b1.moveValues (b1.valueOffset idx) (b1.valueOffset (idx + 1)) (b.count - idx)).val

lemma closeGap_size {idx : UInt32} : (b.closeGap idx).data.map Block.size = b.data.map Block.size := by
  simp [closeGap]

lemma val_eraseIndex (idx : UInt32) : (btreeEraseIndex b idx).val =
    (b.keys idx.toNat, { b.closeGap idx with count := b.count - 1 }) := by
  unfold btreeEraseIndex
  simp only [Logged.val_bind, Logged.val_pure, val_readKey]
  rfl

theorem eraseIndex_keys (hd : b.data.isSome) {idx : UInt32} (hidx : idx.toNat < b.count.toNat)
    (hcount : b.count.toNat ≤ b.capacity.toNat) :
    let r := (btreeEraseIndex b idx).val
    r.1 = b.keys idx.toNat ∧ r.2.count.toNat + 1 = b.count.toNat ∧ r.2.capacity = b.capacity ∧
      r.2.valueSize = b.valueSize ∧ r.2.data.map Block.size = b.data.map Block.size ∧
      ∀ i < r.2.count.toNat, r.2.keys i = eraseAt b.keys idx.toNat i := by
  have hn : (b.count - idx).toNat = b.count.toNat - idx.toNat := toNat_sub_of_le hidx.le
  have hc : (b.count - 1).toNat = b.count.toNat - 1 := toNat_pred (by omega)
  have hd1 : (b.moveKeys idx.toNat (idx.toNat + 1) (b.count - idx)).val.data.isSome := by simpa using hd
  rw [val_eraseIndex]
  refine ⟨rfl, by change (b.count - 1).toNat + 1 = _; omega, rfl, rfl, closeGap_size, fun i hi => ?_⟩
  change i < (b.count - 1).toNat at hi
  change (b.closeGap idx).keys i = _
  rw [closeGap, keys_moveValues hd1 (show i < b.capacity.toNat by omega), keys_moveKeys hd, hn]
  exact eraseAt_of_moved (by omega)

theorem eraseIndex_spec (hd : b.data.isSome) (hfit : b.ValuesFit) {idx : UInt32}
    (hidx : idx.toNat < b.count.toNat) (hcount : b.count.toNat ≤ b.capacity.toNat) :
    let r := (btreeEraseIndex b idx).val
    r.1 = b.keys idx.toNat ∧ r.2.count.toNat + 1 = b.count.toNat ∧ r.2.capacity = b.capacity ∧
      r.2.valueSize = b.valueSize ∧ r.2.data.map Block.size = b.data.map Block.size ∧
      (∀ i < r.2.count.toNat, r.2.keys i = eraseAt b.keys idx.toNat i) ∧
      ∀ i < r.2.count.toNat, r.2.vals i = eraseAt b.vals idx.toNat i := by
  obtain ⟨hkey, hc, hcap, hvs, hsize, hkeys⟩ := eraseIndex_keys hd hidx hcount
  refine ⟨hkey, hc, hcap, hvs, hsize, hkeys, ?_⟩
  have hidx1 : (idx + 1).toNat = idx.toNat + 1 := toNat_succ hidx
  have hn : (b.count - idx).toNat = b.count.toNat - idx.toNat := toNat_sub_of_le hidx.le
  have hpred : (b.count - 1).toNat = b.count.toNat - 1 := toNat_pred (by omega)
  have hd1 : (b.moveKeys idx.toNat (idx.toNat + 1) (b.count - idx)).val.data.isSome := by simpa using hd
  rw [val_eraseIndex]
  intro i hi
  change i < (b.count - 1).toNat at hi
  change (b.closeGap idx).vals i = _
  rw [closeGap, vals_moveValues hd1 (c := b.capacity.toNat) hfit (by omega) (by omega) (by omega),
    vals_moveKeys hd (by omega), vals_moveKeys hd (by omega), hidx1, hn]
  exact eraseAt_of_moved (by omega)

lemma clampCapacity_toNat (n : UInt32) : (clampCapacity n).toNat = max 32 n.toNat := by
  unfold clampCapacity
  split_ifs with h
  · exact (max_eq_left (UInt32.lt_iff_toNat_lt.mp h).le).symm
  · exact (max_eq_right (not_lt.mp (UInt32.lt_iff_toNat_lt.not.mp h))).symm

lemma le_clampCapacity (n : UInt32) : n.toNat ≤ (clampCapacity n).toNat ∧ 32 ≤ (clampCapacity n).toNat := by
  rw [clampCapacity_toNat]
  exact ⟨le_max_right _ _, le_max_left _ _⟩

lemma bufferSize_toNat {cap : UInt32} (h : cap.toNat * (4 + b.valueSize.toNat) < 2 ^ 64) :
    b.bufferSize cap = cap.toNat * (4 + b.valueSize.toNat) := by
  have hvs := b.valueSize.toNat_lt
  have hkv : (4 + b.valueSize.toUInt64).toNat = 4 + b.valueSize.toNat := by
    rw [UInt64.toNat_add, UInt32.toNat_toUInt64]
    change (4 + _) % 2 ^ 64 = _
    omega
  rw [bufferSize, UInt64.toNat_mul, hkv, UInt32.toNat_toUInt64, Nat.mod_eq_of_lt h]

/-- A value area of fewer than 2^32 bytes leaves the size of the buffer in its 64 bits. -/
lemma size_lt_of_valuesFit {cap : UInt32} (h : cap.toNat * b.valueSize.toNat < 2 ^ 32) :
    cap.toNat * (4 + b.valueSize.toNat) < 2 ^ 64 := by
  have hcap := cap.toNat_lt
  rw [Nat.mul_add]
  omega

lemma bufferSize_split {cap : UInt32} (h : cap.toNat * b.valueSize.toNat < 2 ^ 32) :
    b.bufferSize cap = 4 * cap.toNat + b.valueSize.toNat * cap.toNat := by
  rw [bufferSize_toNat (size_lt_of_valuesFit h), Nat.mul_add, Nat.mul_comm cap.toNat 4,
    Nat.mul_comm cap.toNat b.valueSize.toNat]

def withBuffer (b : Btree) (d : Block) (cap : UInt32) : Btree :=
  { b with data := some d, capacity := cap }

/-- The block after the values have been moved behind `cap'` keys. -/
def shiftValues (b : Btree) (d : Block) (cap' : UInt32) : Block :=
  let len := (b.capacity * b.valueSize).toNat
  { d with bytes := memmove d.bytes (b.valueOffsetCap 0 cap') (b.valueOffsetCap 0 b.capacity) len }

section Value

variable {d : Block} {n : UInt32} {g : Grant}

lemma val_realloc_none (h : b.data = none) : (btreeRealloc b n (some g)).val =
    (.ok, b.withBuffer (mallocBlock (b.bufferSize (clampCapacity n)) g) (clampCapacity n)) := by
  unfold btreeRealloc
  simp only [h]
  rfl

lemma val_realloc_grow (h : b.data = some d) (hn : clampCapacity n ≥ b.capacity) :
    (btreeRealloc b n (some g)).val = (.ok, b.withBuffer (b.shiftValues
      (reallocBlock d (b.bufferSize (clampCapacity n)) g) (clampCapacity n)) (clampCapacity n)) := by
  unfold btreeRealloc
  simp only [h]
  rw [if_pos (show clampCapacity n ≥ b.capacity from hn)]
  rfl

lemma val_realloc_shrink (h : b.data = some d) (hn : ¬clampCapacity n ≥ b.capacity) :
    (btreeRealloc b n (some g)).val = (.ok, b.withBuffer (reallocBlock
      (b.shiftValues d (clampCapacity n)) (b.bufferSize (clampCapacity n)) g) (clampCapacity n)) := by
  have hbytes : b.bytes = d.bytes := by simp only [bytes, h]
  unfold btreeRealloc
  simp only [h]
  rw [if_neg (show ¬clampCapacity n ≥ b.capacity from hn)]
  simp only [Logged.val_bind, Logged.val_pure, moveValues, setBytes, h, hbytes, Option.map_some]
  rfl

end Value

lemma valueOffsetCap_zero (b : Btree) (cap : UInt32) :
    b.valueOffsetCap 0 cap = 4 * cap.toNat + b.valueSize.toNat * 0 := by
  rw [valueOffsetCap, UInt32.mul_zero]
  rfl

/-- The first `4 * cap'` bytes stay where they are. -/
lemma key_shiftValues {d : Block} {cap' : UInt32} {i : Nat} (hi : i < cap'.toNat) :
    record (b.shiftValues d cap').bytes 0 4 i = record d.bytes 0 4 i := by
  apply slice_memmove_of_disjoint
  rw [valueOffsetCap_zero]
  omega

lemma value_shiftValues (hfit : b.ValuesFit) {d : Block} {cap' : UInt32} {i : Nat}
    (hi : i < b.capacity.toNat) :
    record (b.shiftValues d cap').bytes (4 * cap'.toNat) b.valueSize.toNat i =
      record d.bytes (4 * b.capacity.toNat) b.valueSize.toNat i := by
  have hlen : (b.capacity * b.valueSize).toNat = b.valueSize.toNat * b.capacity.toNat :=
    entries_toNat hfit le_rfl
  change record (memmove d.bytes _ _ _) _ _ i = _
  rw [valueOffsetCap_zero, valueOffsetCap_zero, hlen, record_memmove_inside (Nat.zero_le _) (by omega)]
  congr 1
  omega

lemma record_reallocBlock {d : Block} {n base stride i : Nat} {g : Grant}
    (hd : base + stride * i + stride ≤ d.size) (hn : base + stride * i + stride ≤ n) :
    record (reallocBlock d n g).bytes base stride i = record d.bytes base stride i :=
  slice_reallocBlock hd hn

lemma Sound.withBuffer (hb : b.Sound) {d : Block} {cap' : UInt32} (hcount : b.count.toNat ≤ cap'.toNat)
    (hbounds : (b.withBuffer d cap').InBounds)
    (hsize : cap'.toNat * (4 + b.valueSize.toNat) ≤ d.size)
    (hsame : SameEntries b (b.withBuffer d cap')) : (b.withBuffer d cap').Sound where
  bounds := hbounds
  count_le := hcount
  buffer := by
    intro x hx
    rw [Option.mem_def, Btree.withBuffer, Option.some.injEq] at hx
    exact hx ▸ hsize
  unallocated := by
    intro hnone
    cases hnone
  ascending := hb.ascending.congr hsame.keys

/-- Moving the values behind the keys of another capacity keeps the entries. -/
lemma same_shiftValues (hfit : b.ValuesFit) {d : Block} {cap' : UInt32} (hcount : b.count.toNat ≤ cap'.toNat)
    (hcb : b.count.toNat ≤ b.capacity.toNat)
    (hkeys : ∀ i < b.count.toNat, record d.bytes 0 4 i = record b.bytes 0 4 i)
    (hvals : ∀ i < b.count.toNat, record d.bytes (4 * b.capacity.toNat) b.valueSize.toNat i = b.vals i) :
    SameEntries b (b.withBuffer (b.shiftValues d cap') cap') := by
  refine ⟨rfl, rfl, fun i hi => keys_congr ?_, fun i hi => ?_⟩
  · change record (b.shiftValues d cap').bytes 0 4 i = _
    rw [key_shiftValues (by omega), hkeys i hi]
  · change record (b.shiftValues d cap').bytes (4 * cap'.toNat) b.valueSize.toNat i = _
    rw [value_shiftValues hfit (by omega), hvals i hi]

lemma realloc_granted (b : Btree) (newCapacity : UInt32) (g : Grant) :
    ∃ d : Block, (btreeRealloc b newCapacity (some g)).val = (.ok, b.withBuffer d (clampCapacity newCapacity)) ∧
      d.size = b.bufferSize (clampCapacity newCapacity) := by
  cases hdata : b.data with
  | none => exact ⟨_, val_realloc_none hdata, rfl⟩
  | some d =>
    by_cases hgrow : clampCapacity newCapacity ≥ b.capacity
    · exact ⟨_, val_realloc_grow hdata hgrow, rfl⟩
    · exact ⟨_, val_realloc_shrink hdata hgrow, rfl⟩

/-- Reallocation to a capacity that holds the entries moves the values behind the keys of
the new buffer, if the size of that does not wrap. -/
theorem realloc_same (hb : b.Sound) (newCapacity : UInt32) (hcount : b.count.toNat ≤ newCapacity.toNat)
    (hsize' : (clampCapacity newCapacity).toNat * (4 + b.valueSize.toNat) < 2 ^ 64) (g : Grant) :
    SameEntries b (btreeRealloc b newCapacity (some g)).val.2 := by
  have hle := (le_clampCapacity newCapacity).1
  set cap' := clampCapacity newCapacity with hcap'
  have hcb := hb.count_le
  have hfit := hb.bounds.valuesFit
  have hbuf := bufferSize_toNat hsize'
  rw [Nat.mul_add, Nat.mul_comm cap'.toNat b.valueSize.toNat] at hbuf
  cases hdata : b.data with
  | none =>
    have hzero : b.count.toNat = 0 := by
      rw [hb.unallocated hdata] at hcb
      exact Nat.le_zero.mp hcb
    rw [val_realloc_none hdata]
    exact ⟨rfl, rfl, fun i hi => by omega, fun i hi => by omega⟩
  | some d =>
    have hbytes : b.bytes = d.bytes := by simp only [bytes, hdata]
    have hsize := hb.buffer d hdata
    have hold : ∀ i < b.count.toNat, b.valueSize.toNat * i + b.valueSize.toNat ≤
        b.valueSize.toNat * b.capacity.toNat := fun i hi => stride_le _ (by omega)
    have hnew : ∀ i < b.count.toNat, b.valueSize.toNat * i + b.valueSize.toNat ≤
        b.valueSize.toNat * cap'.toNat := fun i hi => stride_le _ (by omega)
    rw [Nat.mul_add, Nat.mul_comm b.capacity.toNat b.valueSize.toNat] at hsize
    by_cases hgrow : cap' ≥ b.capacity
    · have hgrow' := UInt32.le_iff_toNat_le.mp hgrow
      have hmono := Nat.mul_le_mul_left b.valueSize.toNat hgrow'
      rw [val_realloc_grow hdata hgrow, ← hcap']
      apply same_shiftValues hfit (by omega) hcb
      · intro i hi
        rw [record_reallocBlock (by omega) (by omega), hbytes]
      · intro i hi
        have h1 := hold i hi
        rw [record_reallocBlock (by omega) (by omega), vals, hbytes]
    · have hshrink : cap'.toNat < b.capacity.toNat := by
        have := UInt32.le_iff_toNat_le.not.mp hgrow
        omega
      have hmono := Nat.mul_le_mul_left b.valueSize.toNat hshrink.le
      rw [val_realloc_shrink hdata hgrow, ← hcap']
      have hsize₀ : (b.shiftValues d cap').size = d.size := rfl
      refine ⟨rfl, rfl, fun i hi => keys_congr ?_, fun i hi => ?_⟩
      · change record (reallocBlock _ _ g).bytes 0 4 i = _
        rw [record_reallocBlock (by omega) (by omega), key_shiftValues (by omega), hbytes]
      · have h1 := hnew i hi
        change record (reallocBlock _ _ g).bytes (4 * cap'.toNat) b.valueSize.toNat i = _
        rw [record_reallocBlock (by omega) (by omega), value_shiftValues hfit (by omega), vals, hbytes]

/-- Reallocation within the bounds keeps the invariant. -/
theorem realloc_spec (hb : b.Sound) (newCapacity : UInt32)
    (hcount : b.count.toNat ≤ newCapacity.toNat) (g : Grant) :
    let r := (btreeRealloc b newCapacity (some g)).val
    r.1 = .ok ∧ r.2.capacity = clampCapacity newCapacity ∧
      (r.2.InBounds → r.2.Sound ∧ SameEntries b r.2) := by
  obtain ⟨d, hval, hsize⟩ := realloc_granted b newCapacity g
  rw [hval]
  refine ⟨rfl, rfl, fun hbounds => ?_⟩
  have hlt : (clampCapacity newCapacity).toNat * (4 + b.valueSize.toNat) < 2 ^ 64 :=
    size_lt_of_valuesFit hbounds.valuesFit
  have hsame := realloc_same hb newCapacity hcount hlt g
  rw [hval] at hsame
  have hle := (le_clampCapacity newCapacity).1
  exact ⟨hb.withBuffer (by omega) hbounds (by rw [hsize, bufferSize_toNat hlt]) hsame, hsame⟩

/-- The growth of a full btree leaves room for one more entry. -/
theorem grow_spec (hb : b.Sound) (g : Grant) :
    let r := (btreeGrow b (some g)).val
    r.1 = .ok ∧ (r.2.InBounds → r.2.Sound ∧ SameEntries b r.2 ∧ b.count.toNat < r.2.capacity.toNat) := by
  have hcb := hb.count_le
  by_cases hfull : b.count = b.capacity
  · have hdouble : (b.capacity * btreeExpandFactor).toNat = b.capacity.toNat * 2 := by
      have hsmall := hb.bounds.capacity
      rw [UInt32.toNat_mul]
      change b.capacity.toNat * 2 % 2 ^ 32 = _
      omega
    have hval : btreeGrow b (some g) = btreeRealloc b (b.capacity * btreeExpandFactor) (some g) :=
      if_pos hfull
    obtain ⟨hok, hcap, hspec⟩ := realloc_spec hb (b.capacity * btreeExpandFactor)
      (by omega) g
    obtain ⟨hle, h32⟩ := le_clampCapacity (b.capacity * btreeExpandFactor)
    rw [hval]
    refine ⟨hok, fun hbounds => ?_⟩
    obtain ⟨hs, hsame⟩ := hspec hbounds
    refine ⟨hs, hsame, ?_⟩
    rw [hcap, hfull]
    omega
  · have hval : btreeGrow b (some g) = pure (.ok, b) := if_neg hfull
    have hne := UInt32.toNat_inj.not.mpr hfull
    rw [hval]
    exact ⟨rfl, fun _ => ⟨hb, .refl b, by change _ < b.capacity.toNat; omega⟩⟩

section Insertions

variable {grown : Btree} {answer : AllocAnswer}

lemma realloc_cases (b : Btree) (newCapacity : UInt32) (answer : AllocAnswer) :
    (∃ b', (btreeRealloc b newCapacity answer).val = (.ok, b')) ∨
      (btreeRealloc b newCapacity answer).val = (.oom, b) := by
  unfold btreeRealloc
  cases b.data with
  | none =>
    cases answer with
    | none => exact Or.inr rfl
    | some g => exact Or.inl ⟨_, rfl⟩
  | some d =>
    simp only
    split_ifs
    · cases answer with
      | none => exact Or.inr rfl
      | some g => exact Or.inl ⟨_, rfl⟩
    · exact Or.inl ⟨_, rfl⟩

lemma grow_cases (b : Btree) (answer : AllocAnswer) :
    (∃ grown, (btreeGrow b answer).val = (.ok, grown)) ∨ (btreeGrow b answer).val = (.oom, b) := by
  unfold btreeGrow
  rw [Logged.val_ite]
  split_ifs
  · exact realloc_cases b _ answer
  · exact Or.inl ⟨b, rfl⟩

lemma insertNew_grown (hgrow : (btreeGrow b answer).val = (.ok, grown)) :
    (btreeInsertNew b key value answer).val =
      if (isKeyAt grown (btreeFindLowerBound grown key).val key).val then (.exists, grown)
      else (.ok, (insertAtLowerBound grown (btreeFindLowerBound grown key).val key value).val) := by
  unfold btreeInsertNew
  simp only [Logged.val_bind, Logged.val_ite, Logged.val_pure, hgrow, ne_eq, not_true_eq_false, if_false]

lemma insertNew_refused (hgrow : (btreeGrow b answer).val = (.oom, b)) :
    (btreeInsertNew b key value answer).val = (.oom, b) := by
  unfold btreeInsertNew
  simp only [Logged.val_bind, hgrow]
  rfl

lemma insertOrGet_grown (hgrow : (btreeGrow b answer).val = (.ok, grown)) :
    let p := (btreeFindLowerBound grown key).val
    (btreeInsertOrGet b key value answer).val =
      if (isKeyAt grown p key).val then (.exists, some (grown.valueOffset (UInt32.ofNat p)), grown)
      else
        let b' := (insertAtLowerBound grown p key value).val
        (.notFound, some (b'.valueOffset (UInt32.ofNat p)), b') := by
  unfold btreeInsertOrGet
  simp only [Logged.val_bind, Logged.val_ite, Logged.val_pure, hgrow, ne_eq, not_true_eq_false, if_false]

lemma insertOrGet_refused (hgrow : (btreeGrow b answer).val = (.oom, b)) :
    (btreeInsertOrGet b key value answer).val = (.oom, none, b) := by
  unfold btreeInsertOrGet
  simp only [Logged.val_bind, hgrow]
  rfl

end Insertions

end Btree

end CStructures
