import CStructures.Proofs.SharedHeapRequests

/-!
# The hashmap on a shared heap

A hashmap owns the block of its table. An insertion that expands the table owns both tables
until it frees the old one.
-/

namespace CStructures
open Lib

namespace Hashmap

/-- The size of the block that the table was allocated with. -/
def storageSize (hm : Hashmap) : UInt64 :=
  (4 + hm.keySize.toUInt64 + hm.valueSize.toUInt64) * hm.tableCount.toUInt64

def footprint (hm : Hashmap) : Footprint := {⟨hm.storage.addr, hm.storageSize⟩}

variable {σ : Type} {H : HeapApi σ} {inv : σ → BlockMap → Prop} {hm hm' : Hashmap} {m : ByteMap}
  {fuel : Nat} {n : UInt64}

lemma footprint_congr (haddr : hm'.storage.addr = hm.storage.addr) (hks : hm'.keySize = hm.keySize)
    (hvs : hm'.valueSize = hm.valueSize) (htc : hm'.tableCount = hm.tableCount) :
    hm'.footprint = hm.footprint := by
  rw [footprint, footprint, storageSize, storageSize, haddr, hks, hvs, htc]

/-- The size of a table that is not too large for 32-bit positions does not wrap to 0. -/
lemma tableSize_pos {keySize valueSize tableCount : UInt32} (hpos : 0 < tableCount.toNat)
    (hsmall : tableCount.toNat ≤ 2 ^ 30) :
    0 < (4 + keySize.toUInt64 + valueSize.toUInt64) * tableCount.toUInt64 := by
  have hks := keySize.toNat_lt
  have hvs := valueSize.toNat_lt
  have hentry : (4 + keySize.toUInt64 + valueSize.toUInt64).toNat = 4 + keySize.toNat + valueSize.toNat := by
    rw [UInt64.toNat_add, UInt64.toNat_add, UInt32.toNat_toUInt64, UInt32.toNat_toUInt64]
    change ((4 + keySize.toNat) % 2 ^ 64 + valueSize.toNat) % 2 ^ 64 = _
    omega
  have hlt : (4 + keySize.toNat + valueSize.toNat) * tableCount.toNat ≤ (2 ^ 33 + 2) * 2 ^ 30 :=
    Nat.mul_le_mul (by omega) hsmall
  rw [UInt64.lt_iff_toNat_lt, UInt64.toNat_mul, hentry, UInt32.toNat_toUInt64, Nat.mod_eq_of_lt (by omega)]
  exact Nat.mul_pos (by omega) hpos

lemma allocator_malloc_owns (hH : H.Keeps Grant.addr inv) (hn : 0 < n) :
    Owns inv 0 ((hashmapAllocator H).malloc n) fun r F => ∃ b, r = some b ∧ F = {⟨b.addr, n⟩} := by
  refine (hH.owns_malloc hn).bind ?_
  rintro _ _ ⟨g, rfl, rfl⟩
  exact Owns.pure ⟨_, rfl, rfl⟩

/-- `hashmap_init_with_options` -/
theorem init_owns (hH : H.Keeps Grant.addr inv) {keySize valueSize tableCount : UInt32}
    {hash : Hash32Func} (hpos : 0 < tableCount.toNat) (hsmall : tableCount.toNat ≤ 2 ^ 30) :
    Owns inv 0 (hashmapInitWithOptions (hashmapAllocator H) keySize valueSize tableCount hash) fun r F =>
      ∃ hm, r = some hm ∧ F = hm.footprint ∧ hm.Valid ∧ Represents hm.table hm.values ∅ := by
  intro s blocks R r s' hinv hentries hinit
  obtain ⟨b, hmalloc, haddr⟩ := hashmapInitWithOptions_malloc hinit
  obtain ⟨_, blocks', ⟨b, rfl, rfl⟩, hinv', hentries'⟩ :=
    allocator_malloc_owns hH (tableSize_pos hpos hsmall) s blocks R b s' hinv hentries hmalloc
  cases r with
  | none => cases haddr
  | some hm =>
    obtain ⟨hv, htc, hks, hvs, _, htable⟩ := hashmapInitWithOptions_spec hpos (by omega) hinit
    have haddr' : hm.storage.addr = b.addr := Option.some.inj haddr
    refine ⟨_, blocks', ⟨hm, rfl, ?_, hv, represents_empty htable⟩, hinv', hentries'⟩
    rw [footprint, storageSize, hks, hvs, htc, haddr']

lemma expandedSize_pos (hv : hm.Valid) (hload : loadCheck hm = true) : 0 < hm.expandedSize := by
  have hcount := expanded_toNat hload
  have hsmall := tableCount_le_of_loadCheck hload
  have hpos := hv.tableCount_pos
  exact tableSize_pos (by omega) (by omega)

/-- A table that moves takes its block along. -/
lemma Moved.owns (hH : H.Keeps Grant.addr inv) {s s' : σ} {blocks : BlockMap} {R : Footprint}
    (hsize : 0 < hm.expandedSize) (hinv : inv s blocks) (hentries : blocks.entries = hm.footprint + R)
    (h : Moved (hashmapAllocator H) hm hm' s s') :
    ∃ blocks', inv s' blocks' ∧ blocks'.entries = {⟨hm'.storage.addr, hm.expandedSize⟩} + R := by
  obtain ⟨b, s1, hmalloc, hfree, haddr⟩ := h
  obtain ⟨_, m1, ⟨b', hb, rfl⟩, hinv1, hentries1⟩ :=
    allocator_malloc_owns hH hsize s blocks (hm.footprint + R) _ _ hinv (by rw [zero_add, hentries]) hmalloc
  rw [Option.some.injEq] at hb
  subst hb
  rw [add_left_comm] at hentries1
  obtain ⟨_, m2, rfl, hinv2, hentries2⟩ := hH.owns_free s1 m1 _ _ s' hinv1 hentries1 hfree
  refine ⟨m2, hinv2, ?_⟩
  rw [hentries2, zero_add, haddr]

lemma insertProbed_keySize {key : List Byte} {value : Option (List Byte)} {status : HashmapStatus}
    (h : insertProbed fuel hm key value = some (status, hm')) : hm'.keySize = hm.keySize := by
  unfold insertProbed at h
  dsimp only at h
  split at h
  · cases h
  · cases h
    rfl
  · cases h
    exact storeEntry_keySize

/-- An insertion leaves the map as the owner of its table. It has found memory. -/
lemma insert_owns (hH : H.Keeps Grant.addr inv) (hv : hm.Valid) {s s' : σ} {blocks : BlockMap}
    {R : Footprint} {key : List Byte} {value : Option (List Byte)} {status : HashmapStatus}
    (hinv : inv s blocks) (hentries : blocks.entries = hm.footprint + R)
    (h : hashmapInsert (hashmapAllocator H) fuel hm key value s = some ((status, hm'), s')) :
    status ≠ .hmOom ∧ ∃ blocks', inv s' blocks' ∧ blocks'.entries = hm'.footprint + R := by
  rcases hashmapInsert_cases hv h with ⟨_, _, hload, hn⟩ | ⟨grown, fuel', hgrown, _, hprobed⟩
  · obtain ⟨_, _, ⟨b, hb, _⟩, _⟩ := allocator_malloc_owns hH (expandedSize_pos hv hload) s blocks
      (hm.footprint + R) _ _ hinv (by rw [zero_add, hentries]) hn
    cases hb
  obtain ⟨hoom, htc, hvs, haddr⟩ := insertProbed_fields hprobed
  have hks : hm'.keySize = grown.keySize := insertProbed_keySize hprobed
  refine ⟨hoom, ?_⟩
  rw [footprint_congr haddr hks hvs htc]
  rcases hgrown with ⟨rfl, rfl, _⟩ | ⟨hload, hre, hmoved⟩
  · exact ⟨blocks, hinv, hentries⟩
  · obtain ⟨blocks', hinv', hentries'⟩ := hmoved.owns hH (expandedSize_pos hv hload) hinv hentries
    have hcount : grown.tableCount = hm.tableCount * hmExpandFactor :=
      UInt32.toNat_inj.mp (hre.tableCount.trans (expanded_toNat hload).symm)
    refine ⟨blocks', hinv', ?_⟩
    rw [hentries', footprint, storageSize, expandedSize, hre.keySize, hre.valueSize, hcount]

/-- A call acts and answers like the map, and leaves the table with its owner. -/
theorem onHeap_owns (hH : H.Keeps Grant.addr inv) (hv : hm.Valid) (hm₀ : Represents hm.table hm.values m)
    {call : HashmapCall} (hfits : call.Fits hm) (hvalue : call.HasValue) :
    Owns inv hm.footprint (hashmapOnHeap H fuel hm call) fun r F => F = r.2.footprint ∧
      (r.2.ValuesFit → ∃ m', MapStep m (call, r.1) m' ∧ r.2.Valid ∧ Represents r.2.table r.2.values m') := by
  intro s blocks R r s' hinv hentries hprog
  obtain ⟨⟨answer, hm', s''⟩, hcall, heq⟩ := Option.map_eq_some_iff.mp hprog
  obtain ⟨rfl, rfl⟩ := Prod.mk.inj heq
  cases call with
  | insert key value =>
    obtain ⟨status, rfl, h⟩ := hashmapCall_insert.mp hcall
    obtain ⟨hoom, blocks', hinv', hentries'⟩ := insert_owns hH hv hinv hentries h
    refine ⟨_, blocks', ⟨rfl, fun hfit => ?_⟩, hinv', hentries'⟩
    cases value with
    | none => cases hvalue
    | some v =>
      obtain ⟨hv', _, _, _, hcase⟩ := hashmapInsert_spec hv hm₀ hfits.1 (hfits.2 v rfl) hfit h
      rcases hcase with ⟨rfl, _⟩ | ⟨rfl, hmem, hrep⟩ | ⟨rfl, hmem, hrep⟩
      · exact absurd rfl hoom
      · exact ⟨m, .insertOld hmem, hv', hrep⟩
      · exact ⟨_, .insertNew hmem, hv', hrep⟩
  | find key =>
    obtain ⟨r, rfl, hc, h⟩ := hashmapCall_find.mp hcall
    cases hc
    refine ⟨_, blocks, ⟨rfl, fun _ => ⟨m, ?_, hv, hm₀⟩⟩, hinv, hentries⟩
    rw [hashmapFind_spec hv hm₀ h]
    exact .find
  | erase key =>
    obtain ⟨r, rfl, hs, h⟩ := hashmapCall_erase.mp hcall
    dsimp only at hs h
    subst hs
    obtain ⟨hv', hks, hvs, _, hr, hrep⟩ := hashmapErase_spec hv hm₀ h
    have hsame : hm'.footprint = hm.footprint := by
      rcases hashmapErase_cases hv h with ⟨_, rfl, _⟩ | ⟨pos, _, rfl, _⟩
      · rfl
      · exact footprint_congr rfl hks hvs rfl
    refine ⟨_, blocks, ⟨rfl, fun _ => ⟨_, ?_, hv', hrep⟩⟩, hinv, ?_⟩
    · rw [hr]
      exact .erase
    · rw [hsame, hentries]

end Hashmap

end CStructures
