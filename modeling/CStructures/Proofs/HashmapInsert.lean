import CStructures.Lib.State
import CStructures.Proofs.HashmapProbe

/-!
# Storing, burying and rehashing

What one insertion and one erasure do to the table, and that the rehash of
`hashmap_insert` builds a table with the same bindings, three times the size, without
rehashing again in between.
-/

namespace CStructures
open Lib

namespace Hashmap

variable {hm : Hashmap} {pos hash : UInt32} {key : List Byte} {value : Option (List Byte)}

lemma slot_storeEntry (hf : hm.KeysFit) {q : UInt32} (hp : pos.toNat < hm.tableCount.toNat)
    (hq : q.toNat < hm.tableCount.toNat) (hk : key.length = hm.keySize.toNat) :
    (storeEntry hm pos hash key value).slot q = if q = pos then hash else hm.slot q := by
  have hset : ((hm.setSlot pos hash).setKey pos key).slot q = (hm.setSlot pos hash).slot q :=
    slot_setKey hf hp hq hk
  have hkey : ((hm.setSlot pos hash).setKey pos key).slot q = if q = pos then hash else hm.slot q := by
    rw [hset]
    split_ifs with h
    · rw [h, slot_setSlot_self]
    · rw [slot_setSlot_of_ne hf hp hq h]
  cases value with
  | none => exact hkey
  | some v =>
    have hval : (((hm.setSlot pos hash).setKey pos key).setValue pos v).slot q =
        ((hm.setSlot pos hash).setKey pos key).slot q := slot_setValue hf hq
    exact hval.trans hkey

lemma key_storeEntry (hf : hm.KeysFit) {q : UInt32} (hp : pos.toNat < hm.tableCount.toNat)
    (hq : q.toNat < hm.tableCount.toNat) (hk : key.length = hm.keySize.toNat) :
    (storeEntry hm pos hash key value).key q = if q = pos then key else hm.key q := by
  have hkey : ((hm.setSlot pos hash).setKey pos key).key q = if q = pos then key else hm.key q := by
    split_ifs with h
    · rw [h]
      exact key_setKey_self hk
    · have hset : ((hm.setSlot pos hash).setKey pos key).key q = (hm.setSlot pos hash).key q :=
        key_setKey_of_ne hf hp hq hk h
      rw [hset, key_setSlot hf hp hq]
  cases value with
  | none => exact hkey
  | some v =>
    have hval : (((hm.setSlot pos hash).setKey pos key).setValue pos v).key q =
        ((hm.setSlot pos hash).setKey pos key).key q := key_setValue hf hq
    exact hval.trans hkey

lemma value_storeEntry_self {v : List Byte} (hv : v.length = hm.valueSize.toNat) :
    (storeEntry hm pos hash key (some v)).value pos = v := by
  have hset : (((hm.setSlot pos hash).setKey pos key).setValue pos v).value pos = v :=
    value_setValue_self hv
  exact hset

lemma value_storeEntry_of_ne (hf : hm.KeysFit) (hvf : hm.ValuesFit) {q : UInt32} {v : List Byte}
    (hp : pos.toNat < hm.tableCount.toNat) (hq : q.toNat < hm.tableCount.toNat)
    (hk : key.length = hm.keySize.toNat) (hv : v.length = hm.valueSize.toNat) (h : q ≠ pos) :
    (storeEntry hm pos hash key (some v)).value q = hm.value q := by
  have h1 : (((hm.setSlot pos hash).setKey pos key).setValue pos v).value q =
      ((hm.setSlot pos hash).setKey pos key).value q := value_setValue_of_ne hf hvf hp hq hv h
  have h2 : ((hm.setSlot pos hash).setKey pos key).value q = (hm.setSlot pos hash).value q :=
    value_setKey hf hp hk
  exact h1.trans (h2.trans (value_setSlot hf hp))

section Fields

@[simp] lemma storeEntry_tableCount : (storeEntry hm pos hash key value).tableCount = hm.tableCount := by
  cases value <;> simp only [storeEntry, setSlot, setKey, setValue, setBytes]

@[simp] lemma storeEntry_keySize : (storeEntry hm pos hash key value).keySize = hm.keySize := by
  cases value <;> simp only [storeEntry, setSlot, setKey, setValue, setBytes]

@[simp] lemma storeEntry_valueSize : (storeEntry hm pos hash key value).valueSize = hm.valueSize := by
  cases value <;> simp only [storeEntry, setSlot, setKey, setValue, setBytes]

@[simp] lemma storeEntry_hash : (storeEntry hm pos hash key value).hash = hm.hash := by
  cases value <;> simp only [storeEntry, setSlot, setKey, setValue, setBytes]

@[simp] lemma storeEntry_addr :
    (storeEntry hm pos hash key value).storage.addr = hm.storage.addr := by
  cases value <;> simp only [storeEntry, setSlot, setKey, setValue, setBytes]

@[simp] lemma storeEntry_slotsUsed :
    (storeEntry hm pos hash key value).slotsUsed = hm.slotsUsed + 1 := by
  cases value <;> simp only [storeEntry, setSlot, setKey, setValue, setBytes]

end Fields

/-- A probed insertion changes nothing of the header but the count. -/
lemma insertProbed_fields {fuel : Nat} {hm' : Hashmap} {status : HashmapStatus}
    (h : insertProbed fuel hm key value = some (status, hm')) :
    status ≠ .hmOom ∧ hm'.tableCount = hm.tableCount ∧ hm'.valueSize = hm.valueSize ∧
      hm'.storage.addr = hm.storage.addr := by
  unfold insertProbed at h
  dsimp only at h
  split at h
  · cases h
  · rw [Option.some.injEq, Prod.mk.injEq] at h
    obtain ⟨rfl, rfl⟩ := h
    exact ⟨by decide, rfl, rfl, rfl⟩
  · rw [Option.some.injEq, Prod.mk.injEq] at h
    obtain ⟨rfl, rfl⟩ := h
    exact ⟨by decide, storeEntry_tableCount, storeEntry_valueSize, storeEntry_addr⟩

lemma hashWrapper_congr {hm hm' : Hashmap} (h : hm'.hash = hm.hash) (data : List Byte) :
    hashWrapper hm' data = hashWrapper hm data := by
  simp only [hashWrapper, h]

lemma path_congr {hm hm' : Hashmap} (hh : hm'.hash = hm.hash) (ht : hm'.tableCount = hm.tableCount) :
    hm'.path = hm.path := by
  funext k n
  simp only [path, hashWrapper_congr hh, ht]

/-- Changing one cell changes the table at that position. -/
lemma table_update {hm hm' : Hashmap} {c : Cell (List Byte)} (ht : hm'.tableCount = hm.tableCount)
    (hp : pos.toNat < hm.tableCount.toNat)
    (h : ∀ q : UInt32, q.toNat < hm.tableCount.toNat → hm'.cell q = if q = pos then c else hm.cell q) :
    hm'.table = Function.update hm.table pos.toNat c := by
  funext n
  by_cases hn : n = pos.toNat
  · subst hn
    rw [table_toNat (by rwa [ht]), h pos hp, if_pos rfl, Function.update_self]
  · rw [Function.update_of_ne hn]
    unfold table
    rw [ht]
    split_ifs with hlt
    · have hto : (UInt32.ofNat n).toNat = n := toNat_ofNat_of_le hlt.le
      have hne : UInt32.ofNat n ≠ pos := by
        rintro rfl
        exact hn hto.symm
      rw [h _ (by rwa [hto]), if_neg hne]
    · rfl

lemma cell_storeEntry (hf : hm.KeysFit) {q : UInt32} (hp : pos.toNat < hm.tableCount.toNat)
    (hq : q.toNat < hm.tableCount.toNat) (hk : key.length = hm.keySize.toNat)
    (hu : hash ≠ hmSlotUnused) (hr : hash ≠ hmSlotRip) :
    (storeEntry hm pos hash key value).cell q = if q = pos then .live key else hm.cell q := by
  unfold cell
  rw [slot_storeEntry hf hp hq hk, key_storeEntry hf hp hq hk]
  split_ifs <;> simp_all

lemma table_storeEntry (hf : hm.KeysFit) (hp : pos.toNat < hm.tableCount.toNat)
    (hk : key.length = hm.keySize.toNat) :
    (storeEntry hm pos (hashWrapper hm key) key value).table =
      Function.update hm.table pos.toNat (.live key) := by
  obtain ⟨hu, hr, _⟩ := hashWrapper_not_reserved hm key
  exact table_update storeEntry_tableCount hp fun q hq => cell_storeEntry hf hp hq hk hu hr

/-- A position that is not live leaves room for one more entry. -/
lemma Valid.used_lt (hv : hm.Valid) (hp : pos.toNat < hm.tableCount.toNat)
    (hfree : ∀ k, hm.table pos.toNat ≠ .live k) : hm.slotsUsed.toNat < hm.tableCount.toNat := by
  have hnot : (hm.table pos.toNat).isLive = false := by
    rw [Bool.eq_false_iff, ne_eq, Cell.isLive_iff, not_exists]
    exact hfree
  have hcount := cellCount_update (Finset.mem_range.mpr hp) Cell.isLive hm.table (.live [])
  have hle := cellCount_le (Finset.range hm.tableCount.toNat) Cell.isLive
    (Function.update hm.table pos.toNat (.live []))
  rw [hnot, hv.used] at hcount
  simp only [Cell.isLive, Bool.toNat_true, Bool.toNat_false, Nat.add_zero] at hcount
  rw [Finset.card_range] at hle
  omega

lemma storeEntry_slotsUsed_toNat (h : hm.slotsUsed.toNat < hm.tableCount.toNat) :
    (storeEntry hm pos hash key value).slotsUsed.toNat = hm.slotsUsed.toNat + 1 := by
  rw [storeEntry_slotsUsed, toNat_succ h]

/-- Storing the key at the end of a search that has not found it keeps the invariant. -/
theorem Valid.store (hv : hm.Valid) {n : Nat} (hk : key.length = hm.keySize.toNat)
    (hp : pos.toNat < hm.tableCount.toNat) (hpass : Passes hm.path hm.table key n)
    (hn : hm.table (hm.path key n) = .unused) (hs : Storable hm.path hm.table key n pos.toNat) :
    (storeEntry hm pos (hashWrapper hm key) key value).Valid := by
  have htable := @table_storeEntry hm pos key value hv.keysFit hp hk
  have hpath : (storeEntry hm pos (hashWrapper hm key) key value).path = hm.path :=
    path_congr storeEntry_hash storeEntry_tableCount
  have hlt := hv.used_lt hp fun k => hs.not_live hn
  have hfree : (hm.table pos.toNat).isLive = false := by
    rw [Bool.eq_false_iff, ne_eq, Cell.isLive_iff, not_exists]
    exact fun k => hs.not_live hn
  refine ⟨by simpa using hv.tableCount_pos, by simpa [KeysFit] using hv.keysFit, ?_, ?_, ?_⟩
  · intro q k hq hlive
    rw [storeEntry_tableCount] at hq
    rw [hashWrapper_congr storeEntry_hash, slot_storeEntry hv.keysFit hp hq hk]
    obtain ⟨hu, hr, _⟩ := hashWrapper_not_reserved hm key
    rw [cell_storeEntry hv.keysFit hp hq hk hu hr] at hlive
    split_ifs at hlive ⊢ with hqp
    · rw [Cell.live.inj hlive]
    · exact hv.hashed q k hq hlive
  · rw [htable, hpath]
    exact hv.wellFormed.store hpass hn hs
  · have hcount := cellCount_update (Finset.mem_range.mpr hp) Cell.isLive hm.table (.live key)
    rw [hfree, hv.used] at hcount
    rw [htable, storeEntry_tableCount, storeEntry_slotsUsed_toNat hlt]
    simpa [Cell.isLive] using hcount

lemma values_storeEntry_self {v : List Byte} (hv : v.length = hm.valueSize.toNat) :
    (storeEntry hm pos hash key (some v)).values pos.toNat = v := by
  rw [values_toNat, value_storeEntry_self hv]

lemma values_storeEntry_of_ne (hf : hm.KeysFit) (hvf : hm.ValuesFit) {v : List Byte} {n : Nat}
    (hp : pos.toNat < hm.tableCount.toNat) (hk : key.length = hm.keySize.toNat)
    (hv : v.length = hm.valueSize.toNat) (hn : n ≠ pos.toNat) (hl : ∃ k, hm.table n = .live k) :
    (storeEntry hm pos hash key (some v)).values n = hm.values n := by
  obtain ⟨k, hl⟩ := hl
  obtain ⟨q, rfl, hq, _⟩ := table_eq_live hl
  rw [values_toNat, values_toNat]
  exact value_storeEntry_of_ne hf hvf hp hq hk hv fun h => hn (by rw [h])

/-- Without NULL values a stored entry binds its key to its value and leaves the others. -/
lemma binds_storeEntry (hf : hm.KeysFit) (hvf : hm.ValuesFit) {v : List Byte} {n : Nat}
    (hp : pos.toNat < hm.tableCount.toNat) (hk : key.length = hm.keySize.toNat)
    (hv : v.length = hm.valueSize.toNat) (hn : hm.table (hm.path key n) = .unused)
    (hs : Storable hm.path hm.table key n pos.toNat) (k' w : List Byte) :
    Binds (storeEntry hm pos (hashWrapper hm key) key (some v)).table
        (storeEntry hm pos (hashWrapper hm key) key (some v)).values k' w ↔
      (k' = key ∧ w = v) ∨ Binds hm.table hm.values k' w := by
  rw [table_storeEntry hf hp hk]
  exact binds_store (fun k => hs.not_live hn) (values_storeEntry_self hv)
    fun p hpq hl => values_storeEntry_of_ne hf hvf hp hk hv hpq hl

/-- `hashmap_erase` after its loop. -/
def buryEntry (hm : Hashmap) (pos : UInt32) : Hashmap :=
  ({ hm with slotsUsed := hm.slotsUsed - 1 } : Hashmap).setSlot pos hmSlotRip

section Fields

@[simp] lemma buryEntry_tableCount : (hm.buryEntry pos).tableCount = hm.tableCount := by
  simp only [buryEntry, setSlot, setBytes]

@[simp] lemma buryEntry_keySize : (hm.buryEntry pos).keySize = hm.keySize := by
  simp only [buryEntry, setSlot, setBytes]

@[simp] lemma buryEntry_valueSize : (hm.buryEntry pos).valueSize = hm.valueSize := by
  simp only [buryEntry, setSlot, setBytes]

@[simp] lemma buryEntry_hash : (hm.buryEntry pos).hash = hm.hash := by
  simp only [buryEntry, setSlot, setBytes]

@[simp] lemma buryEntry_slotsUsed : (hm.buryEntry pos).slotsUsed = hm.slotsUsed - 1 := by
  simp only [buryEntry, setSlot, setBytes]

end Fields

lemma slot_buryEntry (hf : hm.KeysFit) {q : UInt32} (hp : pos.toNat < hm.tableCount.toNat)
    (hq : q.toNat < hm.tableCount.toNat) :
    (hm.buryEntry pos).slot q = if q = pos then hmSlotRip else hm.slot q := by
  split_ifs with h
  · rw [h]
    exact slot_setSlot_self
  · exact (slot_setSlot_of_ne hf hp hq h : (hm.setSlot pos hmSlotRip).slot q = hm.slot q)

lemma key_buryEntry (hf : hm.KeysFit) {q : UInt32} (hp : pos.toNat < hm.tableCount.toNat)
    (hq : q.toNat < hm.tableCount.toNat) : (hm.buryEntry pos).key q = hm.key q :=
  (key_setSlot hf hp hq : (hm.setSlot pos hmSlotRip).key q = hm.key q)

lemma value_buryEntry (hf : hm.KeysFit) {q : UInt32} (hp : pos.toNat < hm.tableCount.toNat) :
    (hm.buryEntry pos).value q = hm.value q :=
  (value_setSlot hf hp : (hm.setSlot pos hmSlotRip).value q = hm.value q)

lemma cell_buryEntry (hf : hm.KeysFit) {q : UInt32} (hp : pos.toNat < hm.tableCount.toNat)
    (hq : q.toNat < hm.tableCount.toNat) :
    (hm.buryEntry pos).cell q = if q = pos then .tombstone else hm.cell q := by
  have hne : hmSlotRip ≠ hmSlotUnused := by decide
  unfold cell
  rw [slot_buryEntry hf hp hq, key_buryEntry hf hp hq]
  split_ifs <;> simp_all

lemma table_buryEntry (hf : hm.KeysFit) (hp : pos.toNat < hm.tableCount.toNat) :
    (hm.buryEntry pos).table = Function.update hm.table pos.toNat .tombstone :=
  table_update buryEntry_tableCount hp fun _ hq => cell_buryEntry hf hp hq

theorem Valid.bury (hv : hm.Valid) (hp : pos.toNat < hm.tableCount.toNat)
    (hlive : hm.cell pos = .live key) : (hm.buryEntry pos).Valid := by
  have htable := table_buryEntry hv.keysFit hp
  have hpath : (hm.buryEntry pos).path = hm.path := path_congr buryEntry_hash buryEntry_tableCount
  refine ⟨hv.tableCount_pos, hv.keysFit, ?_, ?_, ?_⟩
  · intro q k hq hq'
    rw [cell_buryEntry hv.keysFit hp hq] at hq'
    rw [slot_buryEntry hv.keysFit hp hq]
    split_ifs at hq' ⊢ with hqp
    exact hv.hashed q k hq hq'
  · rw [htable, hpath]
    exact hv.wellFormed.bury _
  · rw [htable]
    change cellCount (Finset.range hm.tableCount.toNat) _ _ = (hm.slotsUsed - 1).toNat
    have hcount := cellCount_update (Finset.mem_range.mpr hp) Cell.isLive hm.table .tombstone
    rw [table_toNat hp, hlive, hv.used] at hcount
    simp only [Cell.isLive, Bool.toNat_true, Bool.toNat_false, Nat.add_zero] at hcount
    rw [toNat_pred (by omega)]
    omega

lemma binds_buryEntry (hv : hm.Valid) (hp : pos.toNat < hm.tableCount.toNat)
    (hlive : hm.cell pos = .live key) (k' w : List Byte) :
    Binds (hm.buryEntry pos).table (hm.buryEntry pos).values k' w ↔
      k' ≠ key ∧ Binds hm.table hm.values k' w := by
  rw [table_buryEntry hv.keysFit hp]
  refine hv.wellFormed.binds_bury ((table_toNat hp).trans hlive) fun p _ hl => ?_
  obtain ⟨k, hl⟩ := hl
  obtain ⟨q, rfl, _, _⟩ := table_eq_live hl
  rw [values_toNat, values_toNat, value_buryEntry hv.keysFit hp]

/-- A map on a fresh, zeroed block. -/
theorem empty_slot (hf : hm.KeysFit) {bytes : Bytes}
    (hb : hm.storage.bytes = memset bytes 0 0
      ((4 + hm.keySize.toUInt64) * hm.tableCount.toUInt64).toNat)
    (hp : pos.toNat < hm.tableCount.toNat) : hm.slot pos = hmSlotUnused := by
  have hle := stride_le (4 + hm.keySize.toNat) hp
  have hn : ((4 + hm.keySize.toUInt64) * hm.tableCount.toUInt64).toNat =
      (4 + hm.keySize.toNat) * hm.tableCount.toNat := by
    unfold KeysFit at hf
    rw [UInt64.toNat_mul, stride_toNat, UInt32.toNat_toUInt64, Nat.mod_eq_of_lt (by omega)]
  rw [slot, load32, hb, hn, slotOffset_toNat hf hp, slice_memset_inside (by omega) (by omega),
    ofLe_replicate_zero]
  rfl

lemma table_empty (h : ∀ p : UInt32, p.toNat < hm.tableCount.toNat → hm.slot p = hmSlotUnused) :
    hm.table = fun _ => .unused := by
  funext n
  unfold table
  split_ifs with hn
  · exact cell_eq_unused.mpr (h _ (by rwa [toNat_ofNat_of_le hn.le]))
  · rfl

theorem Valid.empty (htc : 0 < hm.tableCount.toNat) (hf : hm.KeysFit) (hu : hm.slotsUsed = 0)
    (ht : hm.table = fun _ => .unused) : hm.Valid where
  tableCount_pos := htc
  keysFit := hf
  hashed := by
    intro p k hp hlive
    rw [← table_toNat hp, ht] at hlive
    cases hlive
  wellFormed := by
    rw [ht]
    exact ⟨fun p k h => by simp at h, fun p q k h => by simp at h⟩
  used := by
    rw [ht, hu]
    simp [cellCount, Cell.isLive]

end Hashmap

end CStructures
