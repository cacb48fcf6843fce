import CStructures.Proofs.BtreeFailure
import CStructures.Proofs.BtreeAccess

/-!
# Growth of a full btree

An insertion into a full btree doubles the capacity in 32 bits and moves the values with a
32-bit length. No entry is lost exactly when neither wraps.
-/

namespace CStructures
open Lib

namespace Btree

variable {b b' : Btree} {k key : UInt32} {v value : List Byte} {answer : AllocAnswer}

/-- A btree whose buffer has the size that its capacity was requested with, and no room. -/
structure Full (b : Btree) : Prop where
  full : b.count = b.capacity
  buffer : ∀ d ∈ b.data, b.bufferSize b.capacity ≤ d.size
  unallocated : b.data = none → b.capacity = 0
  ascending : Ascending b.keys b.count.toNat

def Stores (b : Btree) (k : UInt32) (v : List Byte) : Prop :=
  ∃ i < b.count, b.keys i.toNat = k ∧ b.deref (b.valueOffset i) = v

def StoresInside (b : Btree) (k : UInt32) (v : List Byte) : Prop :=
  ∃ i < b.count, (b.keys i.toNat = k ∧ b.deref (b.valueOffset i) = v) ∧
    ∃ d ∈ b.data, RangeInside d.size (keyOffset i.toNat) 4 ∧
      RangeInside d.size (b.valueOffset i) b.valueSize.toNat

/-- `b'` is what a successful insertion of a new key leaves. -/
def Inserted (b : Btree) (key : UInt32) (value : List Byte) (answer : AllocAnswer) (b' : Btree) : Prop :=
  (btreeInsertNew b key value answer).val = (.ok, b') ∨
    0 < b.valueSize ∧ ∃ off, (btreeInsertOrGet b key value answer).val = (.notFound, off, b')

/-- The insertions of new keys that succeed have made room before the shift, and lose no entry. -/
def GrowthKeeps (b : Btree) : Prop :=
  ∀ key value answer b', (∀ i < b.count.toNat, b.keys i ≠ key) → value.length = b.valueSize.toNat →
    b.Inserted key value answer b' →
      b.count < (btreeGrow b answer).val.2.capacity ∧
        (∀ k v, b.Stores k v → b'.StoresInside k v) ∧ b'.StoresInside key value

lemma inserted_iff : b.Inserted key value answer b' ↔ ∃ grown, (btreeGrow b answer).val = (.ok, grown) ∧
    ¬(isKeyAt grown (btreeFindLowerBound grown key).val key).val = true ∧
    b' = (CStructures.insertAtLowerBound grown (btreeFindLowerBound grown key).val key value).val := by
  constructor
  · intro h
    rcases grow_cases b answer with ⟨grown, hgrow⟩ | hgrow
    · refine ⟨grown, hgrow, ?_⟩
      rcases h with h | ⟨_, off, h⟩
      · rw [insertNew_grown hgrow] at h
        split_ifs at h with hkey
        · cases h
        · exact ⟨hkey, (congrArg Prod.snd h).symm⟩
      · rw [insertOrGet_grown hgrow] at h
        split_ifs at h with hkey
        · cases h
        · exact ⟨hkey, (congrArg (fun r => r.2.2) h).symm⟩
    · rcases h with h | ⟨_, off, h⟩
      · rw [insertNew_refused hgrow] at h
        cases h
      · rw [insertOrGet_refused hgrow] at h
        cases h
  · rintro ⟨grown, hgrow, hkey, rfl⟩
    left
    rw [insertNew_grown hgrow, if_neg hkey]

/-- The entries of the two sequences are stored inside the buffer, as far as their offsets are
exact. -/
lemma storesInside_of_holds {n : Nat} {d : Block} (hfit : n * b.valueSize.toNat < 2 ^ 32)
    (hcount : b.count.toNat = n + 1) (hroom : n < b.capacity.toNat) (hd : b.data = some d)
    (hsize : b.capacity.toNat * (4 + b.valueSize.toNat) ≤ d.size)
    (h : Holds b.keys b.vals (n + 1) k v) : b.StoresInside k v := by
  obtain ⟨i, hi, hk, hv⟩ := h
  have hto : (UInt32.ofNat i).toNat = i := toNat_ofNat_of_le (hi.le.trans hcount.ge)
  have hlast := stride_le b.valueSize.toNat (show i < b.capacity.toNat by omega)
  rw [Nat.mul_add, Nat.mul_comm b.capacity.toNat b.valueSize.toNat] at hsize
  refine ⟨UInt32.ofNat i, UInt32.lt_iff_toNat_lt.mpr (by omega), ⟨?_, ?_⟩, d, hd, ?_, ?_⟩
  · rw [hto, hk]
  · rw [deref_valueOffset hfit (by omega), hto, hv]
  · apply rangeInside_iff.mpr
    right
    rw [keyOffset, hto]
    omega
  · apply rangeInside_iff.mpr
    right
    rw [valueOffset_toNat hfit (by omega), hto]
    omega

lemma Stores.holds (h : b.Stores k v) (hfit : b.count.toNat * b.valueSize.toNat < 2 ^ 32) :
    Holds b.keys b.vals b.count.toNat k v := by
  obtain ⟨i, hi, hk, hv⟩ := h
  rw [UInt32.lt_iff_toNat_lt] at hi
  rw [deref_valueOffset hfit hi.le] at hv
  exact ⟨i.toNat, hi, hk, hv⟩

namespace Full

lemma sound (h : b.Full) (hcap : b.capacity.toNat < 2 ^ 31) (hfit : b.ValuesFit) : b.Sound where
  bounds := ⟨hcap, hfit⟩
  count_le := (congrArg UInt32.toNat h.full).le
  buffer := by
    intro d hd
    rw [← bufferSize_toNat (size_lt_of_valuesFit hfit)]
    exact h.buffer d hd
  unallocated := h.unallocated
  ascending := h.ascending

lemma grow (h : b.Full) (hcap : b.capacity.toNat < 2 ^ 31) (hfit : b.ValuesFit) (g : Grant) :
    ∃ grown d, (btreeGrow b (some g)).val = (.ok, grown) ∧ grown.data = some d ∧
      grown.capacity.toNat * (4 + grown.valueSize.toNat) = d.size ∧
      b.count.toNat < grown.capacity.toNat ∧ SameEntries b grown := by
  have hvs := b.valueSize.toNat_lt
  have hdouble : (b.capacity * btreeExpandFactor).toNat = b.capacity.toNat * 2 := by
    rw [UInt32.toNat_mul]
    change b.capacity.toNat * 2 % 2 ^ 32 = _
    omega
  have hval : btreeGrow b (some g) = btreeRealloc b (b.capacity * btreeExpandFactor) (some g) := if_pos h.full
  obtain ⟨d, hrealloc, hsize⟩ := realloc_granted b (b.capacity * btreeExpandFactor) g
  obtain ⟨hle, hmin⟩ := le_clampCapacity (b.capacity * btreeExpandFactor)
  have hlt : (clampCapacity (b.capacity * btreeExpandFactor)).toNat * (4 + b.valueSize.toNat) < 2 ^ 64 := by
    rw [clampCapacity_toNat, hdouble]
    rcases Nat.le_total (b.capacity.toNat * 2) 32 with hsmall | hlarge
    · rw [max_eq_left hsmall]
      omega
    · have hfit' : b.capacity.toNat * b.valueSize.toNat < 2 ^ 32 := hfit
      have hprod := Nat.mul_right_comm b.capacity.toNat 2 b.valueSize.toNat
      rw [max_eq_right hlarge, Nat.mul_add, hprod]
      omega
  have hsame := realloc_same (h.sound hcap hfit) (b.capacity * btreeExpandFactor)
    (by rw [h.full]; omega) hlt g
  rw [hrealloc] at hsame
  refine ⟨_, d, by rw [hval, hrealloc], rfl, ?_, ?_, hsame⟩
  · rw [hsize]
    exact (bufferSize_toNat hlt).symm
  · rw [h.full]
    change _ < (clampCapacity (b.capacity * btreeExpandFactor)).toNat
    omega

lemma keeps (h : b.Full) (hfit : b.ValuesFit) {grown : Btree} {d : Block} (hd : grown.data = some d)
    (hsize : grown.capacity.toNat * (4 + grown.valueSize.toNat) = d.size)
    (hroom : b.count.toNat < grown.capacity.toNat) (hsame : SameEntries b grown)
    (hv : value.length = b.valueSize.toNat) :
    let b' := (CStructures.insertAtLowerBound grown (btreeFindLowerBound grown key).val key value).val
    (∀ k v, b.Stores k v → b'.StoresInside k v) ∧ b'.StoresInside key value := by
  have hvs := hsame.valueSize
  have hcount := hsame.count
  have hfit' : grown.count.toNat * grown.valueSize.toNat < 2 ^ 32 := by
    rw [hcount, hvs, h.full]
    exact hfit
  have hsome : grown.data.isSome := by
    rw [hd]
    rfl
  have hasc : Ascending grown.keys grown.count.toNat := by
    rw [hcount]
    exact h.ascending.congr hsame.keys
  have hlb := findLowerBound_spec hasc key
  set p := (btreeFindLowerBound grown key).val
  rw [← hcount] at hroom
  obtain ⟨hcount', hcap', hvs', hsize', hkeys⟩ :=
    @insertAtLowerBound_keys grown key value _ hsome hlb.le hroom
  have hvals := @insertAtLowerBound_vals grown key value _ hsome hfit' hlb.le hroom (by rw [hvs, hv])
  intro b'
  obtain ⟨d', hd', hdsize⟩ : ∃ d', b'.data = some d' ∧ d'.size = d.size := by
    rw [hd] at hsize'
    exact Option.map_eq_some_iff.mp hsize'
  have hstores : ∀ k v, Holds (insertAt grown.keys p key) (insertAt grown.vals p value)
      (grown.count.toNat + 1) k v → b'.StoresInside k v := by
    intro k v hholds
    apply storesInside_of_holds (by rw [hvs']; exact hfit') hcount' (by rw [hcap']; exact hroom) hd'
    · rw [hcap', hvs', hdsize, hsize]
    · exact (Holds.congr hkeys hvals).mpr hholds
  constructor
  · intro k v hk
    apply hstores
    apply (holds_insertAt hlb.le).mpr
    right
    rw [hcount]
    apply (Holds.congr hsame.keys hsame.vals).mpr
    apply hk.holds
    rw [h.full]
    exact hfit
  · apply hstores
    exact (holds_insertAt hlb.le).mpr (Or.inl ⟨rfl, rfl⟩)

theorem growthKeeps (h : b.Full) (hcap : b.capacity.toNat < 2 ^ 31) (hfit : b.ValuesFit) : b.GrowthKeeps := by
  intro key value answer b' _ hv hinserted
  obtain ⟨grown, hgrow, _, rfl⟩ := inserted_iff.mp hinserted
  cases answer with
  | none =>
    rw [grow_none (h.sound hcap hfit), if_pos h.full] at hgrow
    cases hgrow
  | some g =>
    obtain ⟨grown', d, hgrow', hd, hsize, hroom, hsame⟩ := h.grow hcap hfit g
    cases hgrow.symm.trans hgrow'
    rw [hgrow]
    exact ⟨UInt32.lt_iff_toNat_lt.mpr hroom, h.keeps hfit hd hsize hroom hsame hv⟩

end Full

def denseBytes : Bytes := fun n => (leBytes 4 (n / 4)).getD (n % 4) 0

lemma record_denseBytes (i : Nat) : record denseBytes 0 4 i = leBytes 4 i := by
  apply List.ext_getElem
  · rw [length_record, length_leBytes]
  · intro j hj _
    rw [length_record] at hj
    have hdiv : (0 + 4 * i + j) / 4 = i := by omega
    have hmod : (0 + 4 * i + j) % 4 = j := by omega
    simp only [record, getElem_slice, denseBytes, hdiv, hmod]
    rw [List.getD_eq_getElem]

def DenseBelow (b : Btree) (n : Nat) : Prop := ∀ i < n, b.keys i = UInt32.ofNat i

namespace DenseBelow

lemma of_bytes {n : Nat} (hn : n < 2 ^ 32) (h : ∀ j < 4 * n, b.bytes j = denseBytes j) : b.DenseBelow n := by
  intro i hi
  have hrecord : record b.bytes 0 4 i = leBytes 4 i := by
    rw [← record_denseBytes]
    exact slice_congr fun j hj => h _ (by omega)
  have hto : (UInt32.ofNat i).toNat = i := UInt32.toNat_ofNat_of_lt' (by simp only [UInt32.size]; omega)
  have hkey := ofNat_ofLe_leBytes (UInt32.ofNat i)
  rw [hto] at hkey
  rw [keys, hrecord, hkey]

lemma ascending {c : UInt32} (h : b.DenseBelow c.toNat) : Ascending b.keys c.toNat := by
  intro i j hij hj
  have hi : i < c.toNat := hij.trans hj
  rw [h i hi, h j hj, UInt32.lt_iff_toNat_lt, toNat_ofNat_of_le hi.le, toNat_ofNat_of_le hj.le]
  exact hij

lemma ne {c : UInt32} (h : b.DenseBelow c.toNat) : ∀ i < c.toNat, b.keys i ≠ c := by
  intro i hi heq
  rw [h i hi] at heq
  have hto := congrArg UInt32.toNat heq
  rw [toNat_ofNat_of_le hi.le] at hto
  omega

lemma lowerBound {c : UInt32} (h : b.DenseBelow c.toNat) (hcount : b.count = c) :
    (btreeFindLowerBound b c).val = c.toNat ∧
      ¬(isKeyAt b (btreeFindLowerBound b c).val c).val = true := by
  rw [← hcount] at h ⊢
  have hlb := findLowerBound_spec h.ascending b.count
  constructor
  · apply Nat.le_antisymm hlb.le
    by_contra hlt
    have habove := hlb.above _ le_rfl (not_le.mp hlt)
    rw [h _ (not_le.mp hlt), UInt32.le_iff_toNat_le, toNat_ofNat_of_le hlb.le] at habove
    exact hlt habove
  · rw [val_isKeyAt, decide_eq_true_eq]
    rintro ⟨hlt, heq⟩
    exact h.ne _ hlt heq

lemma index_inserted {c i idx : UInt32} (h : b.DenseBelow c.toNat) (hcount : b.count = c)
    (hd : b.data.isSome) (hroom : b.count.toNat < b.capacity.toNat) (hidx : idx.toNat < c.toNat)
    (hi : i < (CStructures.insertAtLowerBound b c.toNat c value).val.count)
    (hk : (CStructures.insertAtLowerBound b c.toNat c value).val.keys i.toNat = idx) : i = idx := by
  obtain ⟨hcount', _, _, _, hkeys⟩ :=
    @insertAtLowerBound_keys b c value c.toNat hd (congrArg UInt32.toNat hcount).ge hroom
  rw [UInt32.lt_iff_toNat_lt, hcount'] at hi
  rw [hkeys _ hi] at hk
  rw [hcount] at hi
  rcases Nat.lt_succ_iff_lt_or_eq.mp hi with hlt | heq
  · rw [insertAt_of_lt hlt, h _ hlt, UInt32.ofNat_toNat] at hk
    exact hk
  · rw [heq, insertAt_self] at hk
    rw [hk] at hidx
    exact absurd hidx (lt_irrefl _)

end DenseBelow

def denseTree (m : Bytes) (c v : UInt32) : Btree where
  data := some ⟨16, (c.toUInt64 * (4 + v.toUInt64)).toNat, m⟩
  count := c
  capacity := c
  valueSize := v

lemma denseTree_full {m : Bytes} {c v : UInt32} (h : ∀ j < 4 * c.toNat, m j = denseBytes j) :
    (denseTree m c v).Full where
  full := rfl
  buffer := by
    rintro d ⟨⟩
    exact le_rfl
  unallocated := by
    intro hnone
    cases hnone
  ascending := by
    have hdense : (denseTree m c v).DenseBelow c.toNat := .of_bytes c.toNat_lt h
    exact hdense.ascending

section Large

variable {c v' : UInt32}

abbrev nextCapacity (c : UInt32) : UInt32 := clampCapacity (c * btreeExpandFactor)

lemma nextCapacity_toNat (c : UInt32) : (nextCapacity c).toNat = max 32 (c.toNat * 2 % 2 ^ 32) := by
  rw [clampCapacity_toNat, UInt32.toNat_mul]
  rfl

/-- Dense keys, and behind them what a move to behind `nextCapacity c` keys leaves them. -/
def shrinkingBytes (c : UInt32) : Bytes := fun n =>
  if n < 4 * c.toNat then denseBytes n else denseBytes (n - 4 * c.toNat + 4 * (nextCapacity c).toNat)

/-- From 2^31 entries on, a full btree is shrunk where it should grow. -/
lemma not_growthKeeps_of_large (h : 2 ^ 31 ≤ c.toNat) : ¬(denseTree (shrinkingBytes c) c v').GrowthKeeps := by
  intro hkeeps
  have hword := c.toNat_lt
  have hnext : (nextCapacity c).toNat < c.toNat := by
    rw [nextCapacity_toNat]
    omega
  have hbytes : ∀ j < 4 * c.toNat, shrinkingBytes c j = denseBytes j := fun j hj => if_pos hj
  have hdense : (denseTree (shrinkingBytes c) c v').DenseBelow c.toNat := .of_bytes hword hbytes
  have hshrink : ¬nextCapacity c ≥ c := by
    rw [ge_iff_le, UInt32.le_iff_toNat_le]
    omega
  set b := denseTree (shrinkingBytes c) c v' with hb
  set d : Block := ⟨16, (c.toUInt64 * (4 + v'.toUInt64)).toNat, shrinkingBytes c⟩ with hd
  set grown := b.withBuffer (b.shiftValues d (nextCapacity c)) (nextCapacity c) with hgrown
  have hgrow : (btreeGrow b none).val = (.ok, grown) := by
    have hval : btreeGrow b none = btreeRealloc b (c * btreeExpandFactor) none := if_pos rfl
    rw [hval]
    exact val_realloc_failedShrink rfl hshrink
  have hdense' : grown.DenseBelow c.toNat := by
    apply DenseBelow.of_bytes hword
    intro j hj
    change memmove (shrinkingBytes c) _ _ _ j = _
    rw [valueOffsetCap_zero, valueOffsetCap_zero, Nat.mul_zero, Nat.add_zero, Nat.add_zero]
    unfold memmove
    split_ifs with hin
    · change shrinkingBytes c (4 * c.toNat + (j - 4 * (nextCapacity c).toNat)) = _
      unfold shrinkingBytes
      rw [if_neg (by omega)]
      congr 1
      omega
    · exact hbytes j hj
  obtain ⟨hlarger, _⟩ := hkeeps c (List.replicate v'.toNat 0) none _ hdense.ne List.length_replicate
    (inserted_iff.mpr ⟨grown, hgrow, (hdense'.lowerBound rfl).2, rfl⟩)
  rw [hgrow, UInt32.lt_iff_toNat_lt] at hlarger
  change c.toNat < (nextCapacity c).toNat at hlarger
  omega

end Large

section Aliased

variable {c w : UInt32}

def zeroedBytes (c : UInt32) : Bytes := fun n => if n < 4 * c.toNat then denseBytes n else 0

lemma grow_denseTree (hcap : c.toNat < 2 ^ 31) :
    ∃ grown : Btree, (btreeGrow (denseTree (zeroedBytes c) c w) (some ⟨16, zeroedBytes c⟩)).val = (.ok, grown) ∧
      grown.data.isSome ∧ grown.bytes = zeroedBytes c ∧ grown.count = c ∧
      grown.capacity = nextCapacity c ∧ grown.valueSize = w := by
  set b := denseTree (zeroedBytes c) c w with hb
  set d : Block := ⟨16, (c.toUInt64 * (4 + w.toUInt64)).toNat, zeroedBytes c⟩ with hd
  set g : Grant := ⟨16, zeroedBytes c⟩ with hg
  have hnext : c.toNat ≤ (nextCapacity c).toNat := by
    rw [nextCapacity_toNat]
    omega
  have hval : btreeGrow b (some g) = btreeRealloc b (c * btreeExpandFactor) (some g) := if_pos rfl
  have hsame : (reallocBlock d (b.bufferSize (nextCapacity c)) g).bytes = zeroedBytes c := by
    funext j
    exact ite_self _
  refine ⟨b.withBuffer (b.shiftValues (reallocBlock d (b.bufferSize (nextCapacity c)) g) (nextCapacity c))
    (nextCapacity c), ?_, rfl, ?_, rfl, rfl, rfl⟩
  · rw [hval]
    exact val_realloc_grow rfl (UInt32.le_iff_toNat_le.mpr hnext)
  funext j
  change memmove (reallocBlock d (b.bufferSize (nextCapacity c)) g).bytes _ _ _ j = _
  rw [hsame, valueOffsetCap_zero, valueOffsetCap_zero, Nat.mul_zero, Nat.add_zero, Nat.add_zero]
  unfold memmove
  split_ifs with hin
  · change zeroedBytes c (4 * c.toNat + _) = _
    unfold zeroedBytes
    rw [if_neg (by omega), if_neg (by omega)]
  · rfl

/-- An offset that has wrapped lies in the middle of an earlier value. -/
lemma exists_aliased_slot (hwrap : 2 ^ 32 ≤ c.toNat * w.toNat) : ∃ (idx : UInt32) (rest : Nat),
    idx.toNat < c.toNat ∧ rest < w.toNat ∧ (w * idx).toNat + rest = (w * c).toNat := by
  have hpos : 0 < w.toNat := by
    by_contra hzero
    rw [Nat.eq_zero_of_not_pos hzero] at hwrap
    omega
  have hoff : (w * c).toNat < 2 ^ 32 := (w * c).toNat_lt
  set o := (w * c).toNat
  have hslot : o / w.toNat < c.toNat := Nat.div_lt_of_lt_mul (by rw [Nat.mul_comm]; omega)
  have hto : (UInt32.ofNat (o / w.toNat)).toNat = o / w.toNat := toNat_ofNat_of_le hslot.le
  have hmul : (w * UInt32.ofNat (o / w.toNat)).toNat = w.toNat * (o / w.toNat) := by
    have hle := Nat.mul_div_le o w.toNat
    rw [UInt32.toNat_mul, hto]
    exact Nat.mod_eq_of_lt (by omega)
  refine ⟨UInt32.ofNat (o / w.toNat), o % w.toNat, by rwa [hto], Nat.mod_lt o hpos, ?_⟩
  rw [hmul]
  exact Nat.div_add_mod o w.toNat

/-- Once the value area of a full btree has 2^32 bytes, the value behind the last one starts in
the middle of a stored one. -/
lemma not_growthKeeps_of_aliased (hcap : c.toNat < 2 ^ 31) (hwrap : 2 ^ 32 ≤ c.toNat * w.toNat) :
    ¬(denseTree (zeroedBytes c) c w).GrowthKeeps := by
  intro hkeeps
  obtain ⟨idx, rest, hslot, hrest, hsum⟩ := exists_aliased_slot hwrap
  have hw : w ≠ 0 := by
    rintro rfl
    exact absurd hrest (Nat.not_lt_zero rest)
  set b := denseTree (zeroedBytes c) c w
  obtain ⟨grown, hgrow, hsome, hbytes, hcount, hnext, hvs⟩ := @grow_denseTree c w hcap
  have hroom : grown.count.toNat < grown.capacity.toNat := by
    rw [hcount, hnext, nextCapacity_toNat]
    omega
  have hzeroed : ∀ j < 4 * c.toNat, zeroedBytes c j = denseBytes j := fun j hj => if_pos hj
  have hdense : b.DenseBelow c.toNat := .of_bytes c.toNat_lt hzeroed
  have hdense' : grown.DenseBelow c.toNat := by
    apply DenseBelow.of_bytes c.toNat_lt
    rw [hbytes]
    exact hzeroed
  obtain ⟨hlower, hkey⟩ := hdense'.lowerBound hcount
  obtain ⟨_, hold, _⟩ := hkeeps c (List.replicate w.toNat 255) (some ⟨16, zeroedBytes c⟩) _ hdense.ne
    List.length_replicate (inserted_iff.mpr ⟨grown, hgrow, hkey, rfl⟩)
  rw [hlower] at hold
  have hstored : b.Stores idx (b.deref (b.valueOffset idx)) :=
    ⟨idx, UInt32.lt_iff_toNat_lt.mpr hslot, by rw [hdense _ hslot, UInt32.ofNat_toNat], rfl⟩
  obtain ⟨i, hi, ⟨hk, hv⟩, _⟩ := hold idx _ hstored
  obtain ⟨_, hcap', hvs', _, _⟩ := @insertAtLowerBound_keys grown c (List.replicate w.toNat 255) c.toNat
    hsome (congrArg UInt32.toNat hcount).ge hroom
  rw [hdense'.index_inserted hcount hsome hroom hslot hi hk] at hv
  set b' := (CStructures.insertAtLowerBound grown c.toNat c (List.replicate w.toNat 255)).val with hb'
  -- one byte of the stored value is now the first byte of the new one
  have hbyte : b'.bytes (b'.valueOffset idx + rest) = b.bytes (b.valueOffset idx + rest) := by
    rw [deref, deref, hvs', hvs] at hv
    exact byte_of_slice_eq hv hrest
  have hnew : b'.bytes (b'.valueOffset idx + rest) = 255 := by
    have hoffset : b'.valueOffset idx + rest = grown.valueOffset (UInt32.ofNat c.toNat) := by
      rw [valueOffset, valueOffset, valueOffsetCap, valueOffsetCap, hcap', hvs', hvs, UInt32.ofNat_toNat]
      omega
    rw [hoffset, hb', bytes_insertAtLowerBound hsome (by rw [hvs]; exact hw),
      memcpy_inside le_rfl (by rw [Nat.sub_self, List.length_replicate]; omega), List.getElem_replicate]
  have hzero : b.bytes (b.valueOffset idx + rest) = 0 := by
    change zeroedBytes c _ = 0
    apply if_neg
    change ¬4 * c.toNat + _ + _ < 4 * c.toNat
    omega
  rw [hnew, hzero] at hbyte
  exact absurd hbyte (by decide)

end Aliased

/-- The growth of full btrees with `capacity` places for values of `valueSize` bytes loses no
entry exactly when the doubled capacity and the offset of every value are exact. -/
theorem btree_growth_keeps_entries (capacity valueSize : UInt32) :
    (∀ b : Btree, b.Full → b.capacity = capacity → b.valueSize = valueSize → b.GrowthKeeps) ↔
      capacity.toNat < 2 ^ 31 ∧ capacity.toNat * valueSize.toNat < 2 ^ 32 := by
  constructor
  · intro hkeeps
    have hcap : capacity.toNat < 2 ^ 31 := by
      by_contra hlarge
      apply @not_growthKeeps_of_large capacity valueSize (not_lt.mp hlarge)
      apply hkeeps _ (denseTree_full _) rfl rfl
      exact fun j hj => if_pos hj
    refine ⟨hcap, ?_⟩
    by_contra hwrap
    apply not_growthKeeps_of_aliased hcap (not_lt.mp hwrap)
    apply hkeeps _ (denseTree_full _) rfl rfl
    exact fun j hj => if_pos hj
  · rintro ⟨hcap, hfit⟩ b hfull rfl rfl
    exact hfull.growthKeeps hcap hfit

/-- A full btree with 2^31 keys is shrunk to 32 places. -/
theorem btree_growth_shrinks :
    ∃ b : Btree, b.Full ∧ b.capacity = 2147483648 ∧ b.valueSize = 0 ∧ ¬b.GrowthKeeps :=
  ⟨denseTree (shrinkingBytes 2147483648) 2147483648 0, denseTree_full fun _ hj => if_pos hj, rfl, rfl,
    not_growthKeeps_of_large (by decide)⟩

end Btree

end CStructures
