import CStructures.Proofs.HashmapInsert

/-!
# The rehash

`resize_rehash` inserts every live entry of the old table into a new one by calling
`hashmap_insert` again. The new table is never loaded enough to be rehashed itself, so the
recursion is one level deep.
-/

namespace CStructures
open Lib

namespace Hashmap

variable {hm new : Hashmap}

lemma loadCheck_iff : loadCheck hm = true ↔
    70 ≤ hm.slotsUsed.toNat * 100 % 2 ^ 32 / hm.tableCount.toNat := by
  simp only [loadCheck, hmRehashAtPercent, ge_iff_le, decide_eq_true_eq, UInt32.le_iff_toNat_le,
    UInt32.toNat_div, UInt32.toNat_mul]
  rfl

/-- A table that is expanded is small: the load is computed in 32 bits. -/
lemma tableCount_le_of_loadCheck (h : loadCheck hm = true) : hm.tableCount.toNat * 70 < 2 ^ 32 := by
  rw [loadCheck_iff] at h
  have hdiv := Nat.div_mul_le_self (hm.slotsUsed.toNat * 100 % 2 ^ 32) hm.tableCount.toNat
  have hmod : hm.slotsUsed.toNat * 100 % 2 ^ 32 < 2 ^ 32 := Nat.mod_lt _ (by omega)
  have hmul := Nat.mul_le_mul_right hm.tableCount.toNat h
  omega

lemma not_loadCheck_of_third (h : hm.slotsUsed.toNat * 3 ≤ hm.tableCount.toNat) :
    ¬loadCheck hm = true := by
  rw [loadCheck_iff, not_le]
  have hmod : hm.slotsUsed.toNat * 100 % 2 ^ 32 ≤ hm.slotsUsed.toNat * 100 := Nat.mod_le _ _
  rcases Nat.eq_zero_or_pos hm.tableCount.toNat with h0 | h0
  · simp [h0]
  · rw [Nat.div_lt_iff_lt_mul h0]
    omega

lemma expanded_toNat (h : loadCheck hm = true) :
    (hm.tableCount * hmExpandFactor).toNat = hm.tableCount.toNat * 3 := by
  have hlt := tableCount_le_of_loadCheck h
  rw [UInt32.toNat_mul]
  change hm.tableCount.toNat * 3 % 2 ^ 32 = _
  omega

lemma keysFit_of_small (h : hm.tableCount.toNat ≤ 2 ^ 31) : hm.KeysFit := by
  have hks := hm.keySize.toNat_lt
  have hmul : (4 + hm.keySize.toNat) * hm.tableCount.toNat ≤ (2 ^ 32 + 4) * 2 ^ 31 :=
    Nat.mul_le_mul (by omega) h
  unfold KeysFit
  omega

/-- What holds of the new table after the slots below `i` have been transferred. -/
structure RehashInv (hm : Hashmap) (newTableCount : UInt32) (addr : UInt64) (i : Nat)
    (new : Hashmap) : Prop where
  valid : new.Valid
  tableCount : new.tableCount = newTableCount
  keySize : new.keySize = hm.keySize
  valueSize : new.valueSize = hm.valueSize
  hash : new.hash = hm.hash
  addr : new.storage.addr = addr
  used : new.slotsUsed.toNat = cellCount (Finset.range i) Cell.isLive hm.table
  stored : ∀ k, Stored new.table k ↔ ∃ p < i, hm.table p = .live k
  binds : new.ValuesFit → ∀ k v, Binds new.table new.values k v ↔
    ∃ p < i, hm.table p = .live k ∧ hm.values p = v
  noTombstone : ∀ p, new.table p ≠ .tombstone

lemma RehashInv.skip {newTableCount : UInt32} {addr : UInt64} {i : Nat}
    (h : RehashInv hm newTableCount addr i new) (hi : (hm.table i).isLive = false) :
    RehashInv hm newTableCount addr (i + 1) new := by
  have hne : ∀ k, hm.table i ≠ .live k := by
    intro k hk
    simp [hk, Cell.isLive] at hi
  refine { h with used := ?_, stored := ?_, binds := ?_ }
  · rw [cellCount_range_succ, hi, h.used]
    rfl
  · intro k
    rw [h.stored, Nat.exists_lt_succ_right]
    exact (or_iff_left (hne k)).symm
  · intro hvf k v
    rw [h.binds hvf, Nat.exists_lt_succ_right]
    exact (or_iff_left fun hk => hne k hk.1).symm

lemma RehashInv.skip_free {newTableCount p : UInt32} {addr : UInt64}
    (h : RehashInv hm newTableCount addr p.toNat new)
    (hp : p.toNat < hm.tableCount.toNat) (hfree : hm.slot p = hmSlotUnused ∨ hm.slot p = hmSlotRip) :
    RehashInv hm newTableCount addr (p.toNat + 1) new := by
  refine h.skip ?_
  rw [table_toNat hp]
  rcases hfree with hu | hr
  · rw [cell_eq_unused.mpr hu]
    rfl
  · rw [cell_eq_tombstone.mpr hr]
    rfl

/-- Transferring a live slot: its key is not in the new table yet, so it is stored. -/
lemma RehashInv.transfer {newTableCount pos p : UInt32} {addr : UInt64} {n : Nat} {key : List Byte}
    (h : RehashInv hm newTableCount addr p.toNat new)
    (hp : p.toNat < hm.tableCount.toNat) (hlive : hm.cell p = .live key)
    (hpos : pos.toNat < new.tableCount.toNat) (hpass : Passes new.path new.table key n)
    (hn : new.table (new.path key n) = .unused) (hs : Storable new.path new.table key n pos.toNat) :
    RehashInv hm newTableCount addr (p.toNat + 1)
      (storeEntry new pos (hashWrapper new key) key (some (hm.value p))) := by
  have hkey : key.length = new.keySize.toNat := by
    rw [h.keySize, ← (cell_eq_live.mp hlive).2.2]
    exact length_slice _ _ _
  have hval : (hm.value p).length = new.valueSize.toNat := by
    rw [h.valueSize]
    exact length_slice _ _ _
  have hp' : hm.table p.toNat = .live key := (table_toNat hp).trans hlive
  have hvalid : (storeEntry new pos (hashWrapper new key) key (some (hm.value p))).Valid :=
    h.valid.store hkey hpos hpass hn hs
  have htable := @table_storeEntry new pos key (some (hm.value p)) h.valid.keysFit hpos hkey
  refine ⟨hvalid, by simpa using h.tableCount, by simpa using h.keySize,
    by simpa using h.valueSize, by simpa using h.hash, by simpa using h.addr, ?_, ?_, ?_, ?_⟩
  · have hfree : (new.table pos.toNat).isLive = false := by
      rw [Bool.eq_false_iff, ne_eq, Cell.isLive_iff, not_exists]
      exact fun k => hs.not_live hn
    have hcount := cellCount_update (Finset.mem_range.mpr hpos) Cell.isLive new.table (.live key)
    rw [hfree, h.valid.used, h.used] at hcount
    have hused := hvalid.used
    rw [htable, storeEntry_tableCount] at hused
    rw [← hused, cellCount_range_succ, hp']
    simpa using hcount
  · intro k
    rw [htable, stored_store fun k => hs.not_live hn, h.stored, Nat.exists_lt_succ_right, hp',
      Cell.live.injEq, eq_comm, or_comm]
  · intro hvf k v
    have hvf' : new.ValuesFit := by simpa [ValuesFit] using hvf
    rw [binds_storeEntry h.valid.keysFit hvf' hpos hkey hval hn hs, h.binds hvf',
      Nat.exists_lt_succ_right, hp', values_toNat, Cell.live.injEq, eq_comm (a := k),
      eq_comm (a := v), or_comm]
  · intro q
    rw [htable]
    by_cases hq : q = pos.toNat
    · simp [hq]
    · rw [Function.update_of_ne hq]
      exact h.noTombstone q

/-! ### The recursive calls -/

variable {σ : Type} {A : Allocator σ} {s s' : σ} {fuel : Nat}

lemma hashmapInsert_of_not_loadCheck {key : List Byte} {value : Option (List Byte)}
    {status : HashmapStatus} {hm' : Hashmap} (hload : ¬loadCheck hm = true)
    (h : hashmapInsert A fuel hm key value s = some ((status, hm'), s')) :
    s' = s ∧ ∃ fuel', insertProbed fuel' hm key value = some (status, hm') := by
  cases fuel with
  | zero => cases h
  | succ fuel =>
    rw [hashmapInsert, if_neg hload, lift_eq_some] at h
    exact ⟨h.2.symm, fuel, h.1⟩

lemma RehashInv.not_loadCheck {newTableCount : UInt32} {addr : UInt64} {i : Nat}
    (h : RehashInv hm newTableCount addr i new) (hi : i ≤ hm.tableCount.toNat)
    (hcount : newTableCount.toNat = hm.tableCount.toNat * 3) : ¬loadCheck new = true := by
  apply not_loadCheck_of_third
  have hle := cellCount_le (Finset.range i) Cell.isLive hm.table
  rw [Finset.card_range, ← h.used] at hle
  rw [h.tableCount]
  omega

lemma RehashInv.not_stored {newTableCount p : UInt32} {addr : UInt64} {key : List Byte} (hv : hm.Valid)
    (h : RehashInv hm newTableCount addr p.toNat new) (hp : p.toNat < hm.tableCount.toNat)
    (hlive : hm.cell p = .live key) : ¬Stored new.table key := by
  rw [h.stored]
  rintro ⟨q, hq, hq'⟩
  have heq := hv.wellFormed.unique q p.toNat key hq' ((table_toNat hp).trans hlive)
  omega

/-- The transfer loop, from slot `i` to the end of the old table. -/
lemma rehashFrom_spec {newTableCount : UInt32} {addr : UInt64} (hv : hm.Valid)
    (hcount : newTableCount.toNat = hm.tableCount.toNat * 3) (remaining : Nat) (i : UInt32)
    (new : Hashmap) (hi : i.toNat + remaining = hm.tableCount.toNat)
    (hinv : RehashInv hm newTableCount addr i.toNat new) {r : Option Hashmap}
    (h : rehashFrom A (hashmapInsert A fuel) hm remaining i new s = some (r, s')) :
    s' = s ∧ ∃ new', r = some new' ∧ RehashInv hm newTableCount addr hm.tableCount.toNat new' := by
  induction remaining generalizing i new with
  | zero =>
    rw [rehashFrom, pure_eq_some] at h
    have hend : i.toNat = hm.tableCount.toNat := by omega
    exact ⟨h.2.symm, new, h.1.symm, hend ▸ hinv⟩
  | succ remaining ih =>
    have hlt : i.toNat < hm.tableCount.toNat := by omega
    have hsucc : (i + 1).toNat = i.toNat + 1 := toNat_succ hlt
    rw [rehashFrom] at h
    by_cases hfree : hm.slot i = hmSlotUnused ∨ hm.slot i = hmSlotRip
    · rw [if_pos hfree] at h
      exact ih (i + 1) new (by omega) (hsucc ▸ hinv.skip_free hlt hfree) h
    · rw [if_neg hfree, bind_eq_some] at h
      obtain ⟨⟨status, new'⟩, s1, hins, hrest⟩ := h
      rw [not_or] at hfree
      have hlive : hm.cell i = .live (hm.key i) := cell_eq_live.mpr ⟨hfree.1, hfree.2, rfl⟩
      obtain ⟨rfl, fuel', hins⟩ :=
        hashmapInsert_of_not_loadCheck (hinv.not_loadCheck (by omega) hcount) hins
      rcases insertProbed_spec hinv.valid hins with
        ⟨_, _, hst⟩ | ⟨n, pos, rfl, rfl, hpos, hpass, hn, hs⟩
      · exact absurd hst (hinv.not_stored hv hlt hlive)
      · have hnext := hinv.transfer hlt hlive hpos hpass hn hs
        rw [← hsucc] at hnext
        exact ih (i + 1) _ (by omega) hnext hrest

/-- What a completed rehash has made of the table: three times the slots, the same entries,
and no tombstones. -/
structure Rehashed (hm new : Hashmap) : Prop where
  valid : new.Valid
  small : hm.tableCount.toNat * 70 < 2 ^ 32
  tableCount : new.tableCount.toNat = hm.tableCount.toNat * 3
  keySize : new.keySize = hm.keySize
  valueSize : new.valueSize = hm.valueSize
  hash : new.hash = hm.hash
  used : new.slotsUsed = hm.slotsUsed
  stored : ∀ k, Stored new.table k ↔ Stored hm.table k
  binds : new.ValuesFit → ∀ k v, Binds new.table new.values k v ↔ Binds hm.table hm.values k v
  noTombstone : ∀ p, new.table p ≠ .tombstone

lemma table_eq_live_lt {p : Nat} {k : List Byte} (h : hm.table p = .live k) :
    p < hm.tableCount.toNat := by
  obtain ⟨q, rfl, hq, _⟩ := table_eq_live h
  exact hq

lemma RehashInv.rehashed {newTableCount : UInt32} {addr : UInt64} (hv : hm.Valid)
    (hsmall : hm.tableCount.toNat * 70 < 2 ^ 32)
    (hcount : newTableCount.toNat = hm.tableCount.toNat * 3)
    (h : RehashInv hm newTableCount addr hm.tableCount.toNat new) : Rehashed hm new where
  valid := h.valid
  small := hsmall
  tableCount := by rw [h.tableCount, hcount]
  keySize := h.keySize
  valueSize := h.valueSize
  hash := h.hash
  used := UInt32.toNat_inj.mp (h.used.trans hv.used)
  stored := by
    intro k
    rw [h.stored]
    exact ⟨fun ⟨p, _, hp⟩ => ⟨p, hp⟩, fun ⟨p, hp⟩ => ⟨p, table_eq_live_lt hp, hp⟩⟩
  binds := by
    intro hvf k v
    rw [h.binds hvf]
    exact ⟨fun ⟨p, _, hp⟩ => ⟨p, hp⟩, fun ⟨p, hp⟩ => ⟨p, table_eq_live_lt hp.1, hp⟩⟩
  noTombstone := h.noTombstone

def zeroedStorage (b : Block) (keySize tableCount : UInt32) : Block :=
  { b with bytes := memset b.bytes 0 0 ((4 + keySize.toUInt64) * tableCount.toUInt64).toNat }

lemma mallocAndInitStorage_spec {keySize valueSize tableCount : UInt32} {r : Option Block}
    (h : mallocAndInitStorage A keySize valueSize tableCount s = some (r, s')) :
    ∃ b, A.malloc ((4 + keySize.toUInt64 + valueSize.toUInt64) * tableCount.toUInt64) s = some (b, s') ∧
      r = b.map fun storage => zeroedStorage storage keySize tableCount := by
  rw [mallocAndInitStorage, bind_eq_some] at h
  obtain ⟨b, s1, hm, hrest⟩ := h
  cases b with
  | none =>
    obtain ⟨hr, hs⟩ := pure_eq_some.mp hrest
    subst hr hs
    exact ⟨none, hm, rfl⟩
  | some storage =>
    obtain ⟨hr, hs⟩ := pure_eq_some.mp hrest
    subst hr hs
    exact ⟨some storage, hm, rfl⟩

lemma RehashInv.start (hm : Hashmap) {newTableCount : UInt32} {b : Block}
    (hpos : 0 < newTableCount.toNat) (hsmall : newTableCount.toNat ≤ 2 ^ 31) :
    RehashInv hm newTableCount b.addr 0 { hm with
      tableCount := newTableCount
      slotsUsed := 0
      storage := zeroedStorage b hm.keySize newTableCount } := by
  set new : Hashmap := { hm with
    tableCount := newTableCount
    slotsUsed := 0
    storage := zeroedStorage b hm.keySize newTableCount } with hnew
  have hf : new.KeysFit := keysFit_of_small hsmall
  have ht : new.table = fun _ => .unused := table_empty fun p hp => empty_slot hf rfl hp
  refine ⟨Valid.empty hpos hf rfl ht, rfl, rfl, rfl, rfl, rfl, rfl, ?_, ?_, ?_⟩
  · simp [ht, Stored]
  · simp [ht, Binds]
  · simp [ht]

def expandedSize (hm : Hashmap) : UInt64 :=
  (4 + hm.keySize.toUInt64 + hm.valueSize.toUInt64) * (hm.tableCount * hmExpandFactor).toUInt64

/-- The table has moved to a block allocated for it, and its old block has been freed. -/
def Moved (A : Allocator σ) (hm new : Hashmap) (s s' : σ) : Prop :=
  ∃ b s₁, A.malloc hm.expandedSize s = some (some b, s₁) ∧
    A.free hm.storage.addr s₁ = some ((), s') ∧ new.storage.addr = b.addr

/-- `resize_rehash`: the map it leaves, unless the allocation failed. -/
theorem resizeRehash_spec {r : Option Hashmap} (hv : hm.Valid) (hload : loadCheck hm = true)
    (h : resizeRehash A (hashmapInsert A fuel) hm (hm.tableCount * hmExpandFactor) s = some (r, s')) :
    (r = none ∧ A.malloc hm.expandedSize s = some (none, s')) ∨
      ∃ new, r = some new ∧ Rehashed hm new ∧ Moved A hm new s s' := by
  have hsmall := tableCount_le_of_loadCheck hload
  have hcount := expanded_toNat hload
  have htc := hv.tableCount_pos
  rw [resizeRehash, bind_eq_some] at h
  obtain ⟨b, s1, hmalloc, hrest⟩ := h
  obtain ⟨b', hb', hb⟩ := mallocAndInitStorage_spec hmalloc
  cases b' with
  | none =>
    subst hb
    obtain ⟨hr, hs⟩ := pure_eq_some.mp hrest
    subst hr hs
    exact Or.inl ⟨rfl, hb'⟩
  | some storage =>
    subst hb
    refine Or.inr ?_
    simp only [Option.map_some] at hrest
    rw [bind_eq_some] at hrest
    obtain ⟨r', s2, hloop, hrest⟩ := hrest
    have hstart : RehashInv hm (hm.tableCount * hmExpandFactor) storage.addr (0 : UInt32).toNat _ :=
      RehashInv.start hm (by omega) (by omega)
    obtain ⟨rfl, new', rfl, hinv⟩ := rehashFrom_spec hv hcount hm.tableCount.toNat 0 _
      (by change 0 + _ = _; omega) hstart hloop
    simp only at hrest
    rw [bind_eq_some] at hrest
    obtain ⟨⟨⟩, s3, hfree, hrest⟩ := hrest
    obtain ⟨hr, rfl⟩ := pure_eq_some.mp hrest
    have hre := hinv.rehashed hv hsmall hcount
    have hnew : ({ hm with storage := new'.storage, tableCount := hm.tableCount * hmExpandFactor } : Hashmap)
        = new' := by
      have hu := hre.used
      have ht := hinv.tableCount
      have hk := hinv.keySize
      have hvs := hinv.valueSize
      have hh := hinv.hash
      cases new'
      simp only at hu ht hk hvs hh
      subst hu ht hk hvs hh
      rfl
    exact ⟨new', by rw [← hr, hnew], hre, storage, _, hb', hfree, hinv.addr⟩

/-- What `hashmap_insert` probes: the table it was given, or its rehashed form. -/
def Probed (A : Allocator σ) (hm grown : Hashmap) (s s' : σ) : Prop :=
  grown = hm ∧ s' = s ∧ ¬loadCheck hm = true ∨
    loadCheck hm = true ∧ Rehashed hm grown ∧ Moved A hm grown s s'

structure SameContents (hm grown : Hashmap) : Prop where
  keySize : grown.keySize = hm.keySize
  valueSize : grown.valueSize = hm.valueSize
  hash : grown.hash = hm.hash
  used : grown.slotsUsed = hm.slotsUsed
  stored : ∀ k, Stored grown.table k ↔ Stored hm.table k

lemma Probed.sameContents {grown : Hashmap} (h : Probed A hm grown s s') : SameContents hm grown := by
  rcases h with ⟨rfl, _⟩ | ⟨_, hre, _⟩
  · exact ⟨rfl, rfl, rfl, rfl, fun _ => Iff.rfl⟩
  · exact ⟨hre.keySize, hre.valueSize, hre.hash, hre.used, hre.stored⟩

/-- Every call of `hashmap_insert` that returns has either failed to allocate, and changed
nothing, or has probed the table it was given or its rehashed form. -/
theorem hashmapInsert_cases {key : List Byte} {value : Option (List Byte)} {status : HashmapStatus}
    {hm' : Hashmap} (hv : hm.Valid)
    (h : hashmapInsert A fuel hm key value s = some ((status, hm'), s')) :
    (status = .hmOom ∧ hm' = hm ∧ loadCheck hm = true ∧
        A.malloc hm.expandedSize s = some (none, s')) ∨
      ∃ grown fuel', Probed A hm grown s s' ∧
        grown.Valid ∧ insertProbed fuel' grown key value = some (status, hm') := by
  by_cases hload : loadCheck hm = true
  · cases fuel with
    | zero => cases h
    | succ fuel =>
      rw [hashmapInsert, if_pos hload, bind_eq_some] at h
      obtain ⟨r, s1, hresize, hrest⟩ := h
      rcases resizeRehash_spec hv hload hresize with ⟨rfl, hn⟩ | ⟨new, rfl, hre, hmoved⟩
      · obtain ⟨hr, hs⟩ := pure_eq_some.mp hrest
        rw [Prod.mk.injEq] at hr
        exact Or.inl ⟨hr.1.symm, hr.2.symm, hload, hs ▸ hn⟩
      · obtain ⟨hins, rfl⟩ := lift_eq_some.mp hrest
        exact Or.inr ⟨new, fuel, Or.inr ⟨hload, hre, hmoved⟩, hre.valid, hins⟩
  · obtain ⟨hs, fuel', hins⟩ := hashmapInsert_of_not_loadCheck hload h
    exact Or.inr ⟨hm, fuel', Or.inl ⟨rfl, hs, hload⟩, hv, hins⟩

end Hashmap

end CStructures
