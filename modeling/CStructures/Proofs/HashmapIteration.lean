import CStructures.Proofs.HashmapRefinement

/-!
# Iteration over the hashmap

`HASHMAP_FOR_EACH` walks over the positions of the table. It meets every stored key once, at
the address that `hashmap_find` gives for it, and `hashmap_count` times in all.
-/

namespace CStructures
open Lib

/-- The set of the stored keys: what each call answers about it and leaves behind. -/
inductive KeySetStep : Finset (List Byte) → HashmapCall × HashmapAnswer → Finset (List Byte) → Prop
  | insertNew {keys k v} (h : k ∉ keys) :
      KeySetStep keys (.insert k v, .status .hmOk) (insert k keys)
  | insertOld {keys k v} (h : k ∈ keys) : KeySetStep keys (.insert k v, .status .hmExists) keys
  | insertOom {keys k v} : KeySetStep keys (.insert k v, .status .hmOom) keys
  | find {keys k r} (h : r.isSome ↔ k ∈ keys) : KeySetStep keys (.find k, .value r) keys
  | erase {keys k r} (h : r.isSome ↔ k ∈ keys) : KeySetStep keys (.erase k, .value r) (keys.erase k)

namespace Hashmap

variable {hm hm' : Hashmap} {key : List Byte} {keys : Finset (List Byte)}

def visitedKey (hm : Hashmap) (v : Visit) : List Byte :=
  slice hm.storage.bytes v.key.toNat hm.keySize.toNat

/-- The iteration goes once over `keys`, with the address that a search returns for each. -/
structure IteratesOver (hm : Hashmap) (keys : Finset (List Byte)) : Prop where
  once : ((hashmapForEach hm).map hm.visitedKey).Nodup
  keys : ∀ k, k ∈ (hashmapForEach hm).map hm.visitedKey ↔ k ∈ keys
  found : ∀ v ∈ hashmapForEach hm, ∃ n, ∀ fuel, n < fuel →
    hashmapFind fuel hm (hm.visitedKey v) = some (some v.value)
  count : (hashmapForEach hm).length = (hashmapCount hm).toNat

def visitAt (hm : Hashmap) (p : Nat) : Visit :=
  ⟨hm.keyOffset (UInt32.ofNat p), hm.valueOffset (UInt32.ofNat p)⟩

lemma visitedKey_visitAt (hm : Hashmap) (p : Nat) :
    hm.visitedKey (hm.visitAt p) = hm.key (UInt32.ofNat p) := rfl

/-- The loop goes past `pos` without running its body. -/
def Skips (hm : Hashmap) (pos : UInt32) : Prop :=
  hm.slot pos = hmSlotUnused ∨ hm.slot pos = hmSlotRip ∨ hm.slot pos = hmSlotInvalid

instance decidableSkips (hm : Hashmap) (pos : UInt32) : Decidable (hm.Skips pos) := by
  unfold Skips
  infer_instance

lemma forEachFrom_eq (remaining : Nat) (pos : UInt32) (h : pos.toNat + remaining = hm.tableCount.toNat) :
    forEachFrom hm remaining pos = ((List.range' pos.toNat remaining).filter
      fun p => ¬hm.Skips (UInt32.ofNat p)).map hm.visitAt := by
  induction remaining generalizing pos with
  | zero => rfl
  | succ remaining ih =>
    have hsucc : (pos + 1).toNat = pos.toNat + 1 := toNat_succ (b := hm.tableCount) (by omega)
    have hrest := ih (pos + 1) (by omega)
    rw [hsucc] at hrest
    unfold forEachFrom
    rw [List.range'_succ, List.filter_cons, hrest, UInt32.ofNat_toNat]
    change (if hm.Skips pos then _ else _) = _
    by_cases hskip : hm.Skips pos
    · rw [if_pos hskip, if_neg (by simp [hskip])]
    · rw [if_neg hskip, if_pos (by simp [hskip]), List.map_cons, visitAt, UInt32.ofNat_toNat]
      rfl

lemma forEach_eq (hm : Hashmap) : hashmapForEach hm = ((List.range hm.tableCount.toNat).filter
    fun p => ¬hm.Skips (UInt32.ofNat p)).map hm.visitAt := by
  rw [List.range_eq_range']
  exact forEachFrom_eq _ 0 (Nat.zero_add _)

/-- The slots that the loop skips are those that hold no key. -/
lemma Valid.skips_iff (hv : hm.Valid) {pos : UInt32} (hpos : pos.toNat < hm.tableCount.toNat) :
    hm.Skips pos ↔ ¬(hm.table pos.toNat).isLive = true := by
  rw [table_toNat hpos]
  constructor
  · rintro (h | h | h) hlive
    · rw [cell_eq_unused.mpr h] at hlive
      cases hlive
    · rw [cell_eq_tombstone.mpr h] at hlive
      cases hlive
    · obtain ⟨k, hk⟩ := Cell.isLive_iff.mp hlive
      rw [hv.hashed pos k hpos hk] at h
      exact (hashWrapper_not_reserved hm k).2.2 h
  · intro hlive
    by_contra hslot
    unfold Skips at hslot
    push Not at hslot
    apply hlive
    rw [cell_eq_live.mpr ⟨hslot.1, hslot.2.1, rfl⟩]
    rfl

theorem Valid.forEach_eq (hv : hm.Valid) : hashmapForEach hm =
    ((List.range hm.tableCount.toNat).filter fun p => (hm.table p).isLive).map hm.visitAt := by
  rw [Hashmap.forEach_eq]
  congr 1
  apply List.filter_congr
  intro p hp
  have hp' := List.mem_range.mp hp
  have hto : (UInt32.ofNat p).toNat = p := toNat_ofNat_of_le hp'.le
  have hlt : (UInt32.ofNat p).toNat < hm.tableCount.toNat := by
    rw [hto]
    exact hp'
  have hskips := hv.skips_iff hlt
  rw [hto] at hskips
  rw [Bool.eq_iff_iff, decide_eq_true_eq, hskips, not_not]

lemma Valid.mem_forEach (hv : hm.Valid) {v : Visit} : v ∈ hashmapForEach hm ↔
    ∃ pos : UInt32, pos.toNat < hm.tableCount.toNat ∧ hm.cell pos = .live (hm.visitedKey v) ∧
      v = ⟨hm.keyOffset pos, hm.valueOffset pos⟩ := by
  rw [hv.forEach_eq, List.mem_map]
  constructor
  · rintro ⟨p, hp, rfl⟩
    obtain ⟨k, hk⟩ := Cell.isLive_iff.mp (List.mem_filter.mp hp).2
    obtain ⟨pos, rfl, hpos, hlive⟩ := table_eq_live hk
    rw [visitAt, UInt32.ofNat_toNat]
    refine ⟨pos, hpos, ?_, rfl⟩
    rw [hlive, Cell.live.injEq]
    exact (cell_eq_live.mp hlive).2.2.symm
  · rintro ⟨pos, hpos, hlive, rfl⟩
    refine ⟨pos.toNat, List.mem_filter.mpr ⟨List.mem_range.mpr hpos, ?_⟩, ?_⟩
    · rw [table_toNat hpos, hlive]
      rfl
    · rw [visitAt, UInt32.ofNat_toNat]

lemma Valid.lookup_stored (hv : hm.Valid) {pos : UInt32} (hpos : pos.toNat < hm.tableCount.toNat)
    (hlive : hm.cell pos = .live key) :
    ∃ n, ∀ fuel, n < fuel → lookup fuel hm key = some (some pos) := by
  have htable : hm.table pos.toNat = .live key := (table_toNat hpos).trans hlive
  obtain ⟨n, hn, _⟩ := hv.wellFormed.reach _ _ htable
  refine ⟨n, fun fuel hfuel => ?_⟩
  have hprobe : (hm.probeAt key n).pos = pos := UInt32.toNat_inj.mp hn
  have hexit : lookupExit hm (hashWrapper hm key) key (hm.probeAt key n) ≠ none := by
    unfold lookupExit
    rw [hprobe, if_pos (hv.hashed pos key hpos hlive), if_pos (cell_eq_live.mp hlive).2.2]
    exact Option.some_ne_none _
  obtain ⟨r, hr⟩ := loop_of_exit hexit hfuel
  change lookup fuel hm key = some r at hr
  rw [hr]
  cases r with
  | none => exact absurd ⟨_, htable⟩ (lookup_absent hv hr)
  | some q =>
    obtain ⟨hq, hqlive⟩ := lookup_found hv hr
    have heq := hv.wellFormed.unique _ _ _ ((table_toNat hq).trans hqlive) htable
    rw [UInt32.toNat_inj.mp heq]

/-- The stored keys are met once each, where a search finds them. -/
theorem Valid.iteratesOver (hv : hm.Valid) (hkeys : ∀ k, k ∈ keys ↔ Stored hm.table k) :
    hm.IteratesOver keys where
  once := by
    rw [hv.forEach_eq, List.map_map]
    apply List.Nodup.map_on _ (List.nodup_range.filter _)
    intro p hp q hq hpq
    obtain ⟨k, hk⟩ := Cell.isLive_iff.mp (List.mem_filter.mp hp).2
    obtain ⟨l, hl⟩ := Cell.isLive_iff.mp (List.mem_filter.mp hq).2
    obtain ⟨p, rfl, _, hp⟩ := table_eq_live hk
    obtain ⟨q, rfl, _, hq⟩ := table_eq_live hl
    rw [Function.comp_apply, Function.comp_apply, visitedKey_visitAt, visitedKey_visitAt,
      UInt32.ofNat_toNat, UInt32.ofNat_toNat, (cell_eq_live.mp hp).2.2, (cell_eq_live.mp hq).2.2] at hpq
    exact hv.wellFormed.unique _ _ _ hk (hpq ▸ hl)
  keys := by
    intro k
    rw [hkeys, List.mem_map]
    constructor
    · rintro ⟨v, hmem, rfl⟩
      obtain ⟨pos, hpos, hlive, _⟩ := hv.mem_forEach.mp hmem
      exact ⟨pos.toNat, (table_toNat hpos).trans hlive⟩
    · rintro ⟨p, hp⟩
      obtain ⟨pos, rfl, hpos, hlive⟩ := table_eq_live hp
      have hkey : hm.visitedKey ⟨hm.keyOffset pos, hm.valueOffset pos⟩ = k := (cell_eq_live.mp hlive).2.2
      exact ⟨_, hv.mem_forEach.mpr ⟨pos, hpos, by rw [hlive, hkey], rfl⟩, hkey⟩
  found := by
    intro v hmem
    obtain ⟨pos, hpos, hlive, rfl⟩ := hv.mem_forEach.mp hmem
    obtain ⟨n, hn⟩ := hv.lookup_stored hpos hlive
    refine ⟨n, fun fuel hfuel => ?_⟩
    rw [hashmapFind, hn fuel hfuel]
  count := by
    rw [hashmapCount, ← hv.used, hv.forEach_eq, List.length_map, cellCount_range]

variable {σ : Type} {A : Allocator σ} {s s' : σ} {fuel : Nat}

theorem hashmapInsert_keys {value : Option (List Byte)} {status : HashmapStatus} (hv : hm.Valid)
    (hkeys : ∀ k, k ∈ keys ↔ Stored hm.table k) (hkey : key.length = hm.keySize.toNat)
    (h : hashmapInsert A fuel hm key value s = some ((status, hm'), s')) :
    hm'.Valid ∧ ∃ keys', KeySetStep keys (.insert key value, .status status) keys' ∧
      ∀ k, k ∈ keys' ↔ Stored hm'.table k := by
  rcases hashmapInsert_cases hv h with ⟨rfl, rfl, _⟩ | ⟨grown, fuel', hgrown, hvg, hins⟩
  · exact ⟨hv, keys, .insertOom, hkeys⟩
  obtain ⟨hks, _, _, _, hstored⟩ := hgrown.sameContents
  rcases insertProbed_spec hvg hins with ⟨rfl, rfl, hst⟩ | ⟨n, pos, rfl, rfl, hpos, hpass, hn, hs⟩
  · refine ⟨hvg, keys, .insertOld ?_, fun k => ?_⟩
    · rw [hkeys, ← hstored]
      exact hst
    · rw [hkeys, hstored]
  · have hkey' : key.length = grown.keySize.toNat := by rw [hks, hkey]
    refine ⟨hvg.store hkey' hpos hpass hn hs, insert key keys, .insertNew ?_, fun k => ?_⟩
    · rw [hkeys, ← hstored]
      exact hvg.wellFormed.not_stored hpass hn
    · rw [table_storeEntry hvg.keysFit hpos hkey', stored_store fun k => hs.not_live hn, hstored,
        Finset.mem_insert, hkeys]

theorem hashmapErase_keys {r : Option UInt64} (hv : hm.Valid)
    (hkeys : ∀ k, k ∈ keys ↔ Stored hm.table k) (h : hashmapErase fuel hm key = some (r, hm')) :
    hm'.Valid ∧ (r.isSome ↔ key ∈ keys) ∧ ∀ k, k ∈ keys.erase key ↔ Stored hm'.table k := by
  rcases hashmapErase_cases hv h with ⟨rfl, rfl, hns⟩ | ⟨pos, rfl, rfl, hpos, hlive⟩
  · have hnot : key ∉ keys := fun hmem => hns ((hkeys key).mp hmem)
    refine ⟨hv, iff_of_false Bool.false_ne_true hnot, ?_⟩
    rw [Finset.erase_eq_of_notMem hnot]
    exact hkeys
  · refine ⟨hv.bury hpos hlive, iff_of_true rfl ?_, fun k => ?_⟩
    · exact (hkeys key).mpr ⟨pos.toNat, (table_toNat hpos).trans hlive⟩
    · rw [Finset.mem_erase, hkeys, stored_iff_binds hm.values,
        stored_iff_binds (hm.buryEntry pos).values, ← exists_and_left]
      exact exists_congr fun v => (binds_buryEntry hv hpos hlive k v).symm

lemma hashmapFind_keys {r : Option UInt64} (hv : hm.Valid) (hkeys : ∀ k, k ∈ keys ↔ Stored hm.table k)
    (h : hashmapFind fuel hm key = some r) : r.isSome ↔ key ∈ keys := by
  rw [hkeys]
  unfold hashmapFind at h
  split at h
  · cases h
  · next hl =>
    rw [← Option.some.inj h]
    exact iff_of_false Bool.false_ne_true (lookup_absent hv hl)
  · next pos hl =>
    rw [← Option.some.inj h]
    obtain ⟨hpos, hlive⟩ := lookup_found hv hl
    exact iff_of_true rfl ⟨pos.toNat, (table_toNat hpos).trans hlive⟩

lemma step_keys {c c' : Hashmap × σ} {l : HashmapCall × HashmapAnswer}
    (hc : c.1.Valid ∧ ∀ k, k ∈ keys ↔ Stored c.1.table k) (h : HashmapStep A c l c') :
    ∃ keys', KeySetStep keys l keys' ∧ c'.1.Valid ∧ ∀ k, k ∈ keys' ↔ Stored c'.1.table k := by
  obtain ⟨hv, hkeys⟩ := hc
  obtain ⟨hfits, fuel, hcall⟩ := h
  obtain ⟨call, answer⟩ := l
  cases call with
  | insert key value =>
    obtain ⟨status, rfl, h⟩ := hashmapCall_insert.mp hcall
    obtain ⟨hv', keys', hstep, hkeys'⟩ := hashmapInsert_keys hv hkeys hfits.1 h
    exact ⟨keys', hstep, hv', hkeys'⟩
  | find key =>
    obtain ⟨r, rfl, rfl, h⟩ := hashmapCall_find.mp hcall
    refine ⟨keys, .find ?_, hv, hkeys⟩
    rw [Option.isSome_map]
    exact hashmapFind_keys hv hkeys h
  | erase key =>
    obtain ⟨r, rfl, _, h⟩ := hashmapCall_erase.mp hcall
    obtain ⟨hv', hr, hkeys'⟩ := hashmapErase_keys hv hkeys h
    refine ⟨_, .erase ?_, hv', hkeys'⟩
    rw [Option.isSome_map]
    exact hr

end Hashmap

/-- The size of the storage, in exact integers, fits behind the lowest 16 addresses. -/
def StorageFits (keySize valueSize tableCount : UInt32) : Prop :=
  (4 + keySize.toNat + valueSize.toNat) * tableCount.toNat + 16 ≤ 2 ^ 64

/-- Storage that fits leaves 2^32 addresses behind the keys: the three sizes for which it would
not come within 16 bytes of the end. -/
lemma StorageFits.keys {keySize valueSize tableCount : UInt32}
    (h : StorageFits keySize valueSize tableCount) :
    (4 + keySize.toNat) * tableCount.toNat + 2 ^ 32 ≤ 2 ^ 64 := by
  have hks := keySize.toNat_lt
  have htc := tableCount.toNat_lt
  have hkeys : tableCount.toNat * (4 + keySize.toNat) + 16 ≤ 2 ^ 64 := by
    rw [Nat.mul_comm]
    exact le_trans (Nat.add_le_add_right (Nat.mul_le_mul_right _ (Nat.le_add_right _ _)) _) h
  rw [Nat.mul_comm]
  generalize tableCount.toNat = n at htc hkeys ⊢
  by_cases hn : n ≤ 2 ^ 32 - 4
  · have := Nat.mul_le_mul hn (show 4 + keySize.toNat ≤ 2 ^ 32 + 3 by omega)
    omega
  by_cases hk : 4 + keySize.toNat ≤ 2 ^ 32
  · have := Nat.mul_le_mul (show n ≤ 2 ^ 32 - 1 by omega) hk
    omega
  have hcases : n = 4294967293 ∨ n = 4294967294 ∨ n = 4294967295 := by omega
  rcases hcases with rfl | rfl | rfl
  · omega
  · omega
  · omega

/-- Over every run from `hashmap_init_with_options` with storage of a size that does not wrap,
the iteration goes once over the keys that the calls have left in the map. -/
theorem hashmap_iteration_agrees {σ : Type} {A : Allocator σ} {keySize valueSize tableCount : UInt32}
    {hash : Hash32Func} {s s₀ s' : σ} {hm₀ hm : Hashmap} {ls : List (HashmapCall × HashmapAnswer)}
    (hpos : 0 < tableCount) (hfits : StorageFits keySize valueSize tableCount)
    (hinit : hashmapInitWithOptions A keySize valueSize tableCount hash s = some (some hm₀, s₀))
    (hrun : Run (HashmapStep A) (hm₀, s₀) ls (hm, s')) :
    ∃ keys, Run KeySetStep ∅ ls keys ∧ hm.IteratesOver keys := by
  have hpos' := pos_iff_toNat_pos.mp hpos
  obtain ⟨hv, _, _, _, _, ht⟩ := Hashmap.hashmapInitWithOptions_valid hpos' hfits.keys hinit
  have hempty : ∀ k, k ∈ (∅ : Finset (List Byte)) ↔ Stored hm₀.table k := by
    intro k
    simp [ht, Stored]
  obtain ⟨keys, hkrun, hv', hkeys⟩ := Run.simulate
    (fun c keys => c.1.Valid ∧ ∀ k, k ∈ keys ↔ Stored c.1.table k)
    (fun c keys l c' hc hstep => Hashmap.step_keys hc hstep) ⟨hv, hempty⟩ hrun
  exact ⟨keys, hkrun, hv'.iteratesOver hkeys⟩

def iteratedCalls : List HashmapCall :=
  [.insert [1] (some [7]), .insert [2] none, .erase [1], .insert [3] (some [9]), .insert [4] none,
    .insert [2] (some [5]), .erase [4]]

theorem hashmap_iteration_agrees_two : ∃ ls hm,
    (hashmapForEach hm).map hm.visitedKey = [[3], [2]] ∧
    ∃ keys, Run KeySetStep ∅ ls keys ∧ hm.IteratesOver keys := by
  obtain ⟨hm₀, hinit⟩ : ∃ hm₀,
      hashmapInitWithOptions zeroAllocator 1 1 4 (fun _ => 0) () = some (some hm₀, ()) := ⟨_, rfl⟩
  have hvisits : (hashmapInitWithOptions zeroAllocator 1 1 4 (fun _ => 0) ()).bind
      (fun r => r.1.bind fun hm => (runCalls steppedCall (hm, ()) iteratedCalls).map
        fun r => (hashmapForEach r.2.1).map r.2.1.visitedKey) = some [[3], [2]] := by decide +kernel
  rw [hinit] at hvisits
  obtain ⟨ls, ⟨hm, _⟩, hrun, hkeys⟩ := Run.exists_of_runCalls (fun _ _ _ _ h => steppedCall_step h) hvisits
  exact ⟨ls, hm, hkeys, hashmap_iteration_agrees (by decide)
    (show StorageFits 1 1 4 by unfold StorageFits; decide) hinit hrun⟩

def dirtyAllocator : Allocator Unit where
  malloc n := pure (some ⟨16, n.toNat, fun _ => 7⟩)
  free _ := pure ()

def wrappedMap : Hashmap where
  tableCount := 0xFFFFFFFF
  keySize := 0xFFFFFFFF
  valueSize := 0
  slotsUsed := 0
  hash := fun _ => 0
  storage := ⟨16, 8589934589, memset (fun _ => 7) 0 0 8589934589⟩

lemma wrappedMap_slot_two : wrappedMap.slot 2 = 0x07070707 := by
  have hoff : (wrappedMap.slotOffset 2).toNat = 8589934598 := by decide
  have hbytes : slice (memset (fun _ => 7) 0 0 8589934589) 8589934598 4 = slice (fun _ => 7) 0 4 := by
    apply slice_congr
    intro i hi
    exact if_neg (by omega)
  rw [Hashmap.slot, load32, hoff]
  change UInt32.ofNat (ofLe (slice (memset (fun _ => 7) 0 0 8589934589) 8589934598 4)) = _
  rw [hbytes]
  rfl

/-- The iteration over an empty map reads its third slot behind the storage, and runs the body. -/
theorem hashmap_iteration_leaves_storage :
    hashmapInitWithOptions dirtyAllocator 0xFFFFFFFF 0 0xFFFFFFFF (fun _ => 0) () =
      some (some wrappedMap, ()) ∧
    wrappedMap.valueSize.toNat * wrappedMap.tableCount.toNat < 2 ^ 32 ∧
    wrappedMap.storage.size < (wrappedMap.forEachSlotOffset 2).toNat ∧
    ¬(hashmapForEach wrappedMap).length = (hashmapCount wrappedMap).toNat := by
  refine ⟨rfl, by decide, by decide, ?_⟩
  have hskips : ¬wrappedMap.Skips (UInt32.ofNat 2) := by
    have hslot : wrappedMap.slot (UInt32.ofNat 2) = 0x07070707 := wrappedMap_slot_two
    rw [Hashmap.Skips, hslot]
    decide
  have hmem : wrappedMap.visitAt 2 ∈ hashmapForEach wrappedMap := by
    rw [Hashmap.forEach_eq]
    apply List.mem_map_of_mem
    exact List.mem_filter.mpr ⟨List.mem_range.mpr (by decide), decide_eq_true hskips⟩
  exact (List.length_pos_of_mem hmem).ne'

end CStructures
