import CStructures.Proofs.HashmapSmallTables

/-!
# Tables whose size is a power of two

In such a table the probe loops of `hashmap_insert`, `hashmap_erase` and `hashmap_find` visit
every slot once within `table_count` tests, whatever the hash. A single unused slot is then
enough for every search to end.
-/

namespace CStructures
open Lib

/-- The position that the loop of `hashmap_insert` is at after `n` passes. -/
def insertVisit (hm : Hashmap) (hash : UInt32) (n : Nat) : UInt32 :=
  ((insertNext hm hash)^[n] (Probe.start hm.tableCount hash, hmSlotInvalid)).1.pos

def lookupVisit (hm : Hashmap) (hash : UInt32) (n : Nat) : UInt32 :=
  ((Probe.next hm.tableCount)^[n] (Probe.start hm.tableCount hash)).pos

/-- The first `table_count` visits go to different slots, and to every slot once. -/
structure VisitsEverySlotOnce (tableCount : UInt32) (visit : Nat → UInt32) : Prop where
  inside : ∀ n < tableCount.toNat, visit n < tableCount
  distinct : ∀ i j, i < j → j < tableCount.toNat → visit i ≠ visit j
  once : ∀ pos < tableCount, ∃! n, n < tableCount.toNat ∧ visit n = pos

namespace Hashmap

variable {hm : Hashmap} {key : List Byte} {value : Option (List Byte)} {k : Nat}

/-- The tombstones that the loop of `hashmap_insert` notes have no part in where it goes. -/
lemma insertVisit_eq (hm : Hashmap) (hash : UInt32) : insertVisit hm hash = lookupVisit hm hash := by
  funext n
  have hsemi : Function.Semiconj Prod.fst (insertNext hm hash) (Probe.next hm.tableCount) := fun _ => rfl
  exact congrArg Probe.pos ((hsemi.iterate_right n).eq _)

lemma tableCount_le_of_two_pow (hk : hm.tableCount.toNat = 2 ^ k) : hm.tableCount.toNat ≤ 2 ^ 31 := by
  have hlt := hm.tableCount.toNat_lt
  rw [hk] at hlt ⊢
  have hk31 : k < 32 := (Nat.pow_lt_pow_iff_right (by omega)).mp hlt
  exact Nat.pow_le_pow_right (by omega) (by omega)

theorem lookupVisit_everySlotOnce (hk : hm.tableCount.toNat = 2 ^ k) (hash : UInt32) :
    VisitsEverySlotOnce hm.tableCount (lookupVisit hm hash) := by
  have hpos : 0 < hm.tableCount.toNat := hk ▸ Nat.two_pow_pos k
  have hcover : coverage hm.tableCount.toNat = hm.tableCount.toNat := hk ▸ coverage_two_pow k
  have hbij := bijOn_probes hcover hash.toNat
  have hvisit : ∀ n < hm.tableCount.toNat,
      (lookupVisit hm hash n).toNat = (hash.toNat + triangular n) % hm.tableCount.toNat :=
    fun n hn => (probe_triangular hash (tableCount_le_of_two_pow hk) hn.le hpos).2
  have hinj : ∀ i j, i < hm.tableCount.toNat → j < hm.tableCount.toNat →
      lookupVisit hm hash i = lookupVisit hm hash j → i = j := by
    intro i j hi hj heq
    apply hbij.injOn (Finset.mem_coe.mpr (Finset.mem_range.mpr hi)) (Finset.mem_coe.mpr (Finset.mem_range.mpr hj))
    dsimp only
    rw [← hvisit i hi, ← hvisit j hj, heq]
  refine ⟨?_, ?_, ?_⟩
  · intro n hn
    rw [UInt32.lt_iff_toNat_lt, hvisit n hn]
    exact Nat.mod_lt _ hpos
  · intro i j hij hj heq
    exact hij.ne (hinj i j (hij.trans hj) hj heq)
  · intro pos hlt
    obtain ⟨n, hn, heq⟩ := hbij.surjOn (Finset.mem_coe.mpr (Finset.mem_range.mpr (UInt32.lt_iff_toNat_lt.mp hlt)))
    rw [Finset.mem_coe, Finset.mem_range] at hn
    dsimp only at heq
    have hat : lookupVisit hm hash n = pos := UInt32.toNat_inj.mp ((hvisit n hn).trans heq)
    refine ⟨n, ⟨hn, hat⟩, ?_⟩
    rintro i ⟨hi, hati⟩
    exact hinj i n hi hn (hati.trans hat.symm)

/-! ### Searches that end -/

theorem probeEnds_iff_hasUnused (hk : hm.tableCount.toNat = 2 ^ k) (key : List Byte) :
    hm.ProbeEnds key ↔ hm.HasUnused := by
  constructor
  · rintro ⟨n, _, hslot⟩
    exact ⟨_, probeAt_pos_lt (hk ▸ Nat.two_pow_pos k) n, hslot⟩
  · rintro ⟨pos, hlt, hslot⟩
    obtain ⟨n, ⟨hn, rfl⟩, _⟩ := (lookupVisit_everySlotOnce hk (hashWrapper hm key)).once pos
      (UInt32.lt_iff_toNat_lt.mpr hlt)
    exact ⟨n, hn, hslot⟩

/-- The loops of insertion, search and erasure return within `table_count` tests. -/
theorem Valid.returns_of_hasUnused (hv : hm.Valid) (hk : hm.tableCount.toNat = 2 ^ k) (hu : hm.HasUnused) :
    (∃ r, insertProbed hm.tableCount.toNat hm key value = some r) ∧
      ∃ r, lookup hm.tableCount.toNat hm key = some r := by
  have hends := (probeEnds_iff_hasUnused hk key).mpr hu
  refine ⟨insertProbed_returns hends le_rfl, ?_⟩
  obtain ⟨n, hn, hslot⟩ := hends
  apply lookup_returns hv hn
  left
  rw [table_path hv.tableCount_pos, cell_eq_unused]
  exact hslot

theorem Valid.find_returns_iff (hv : hm.Valid) (hk : hm.tableCount.toNat = 2 ^ k)
    (hkey : ¬Stored hm.table key) : (∃ fuel r, hashmapFind fuel hm key = some r) ↔ hm.HasUnused := by
  constructor
  · rintro ⟨fuel, r, hr⟩
    by_contra hfull
    rw [hv.find_never_returns hfull hkey] at hr
    cases hr
  · intro hu
    obtain ⟨_, r, hr⟩ := @Valid.returns_of_hasUnused hm key none k hv hk hu
    refine ⟨hm.tableCount.toNat, ?_⟩
    unfold hashmapFind
    rw [hr]
    cases r with
    | none => exact ⟨_, rfl⟩
    | some pos => exact ⟨_, rfl⟩

end Hashmap

/-- In a table of `2 ^ k` slots the first `2 ^ k` positions of the probe loops of `hashmap_insert`,
`hashmap_erase` and `hashmap_find` are pairwise different, and every slot is visited once. -/
theorem hashmap_probes_cover_two_pow {hm : Hashmap} {k : Nat} (hk : hm.tableCount.toNat = 2 ^ k)
    (hash : UInt32) :
    VisitsEverySlotOnce hm.tableCount (insertVisit hm hash) ∧
      VisitsEverySlotOnce hm.tableCount (lookupVisit hm hash) := by
  have hlookup := Hashmap.lookupVisit_everySlotOnce hk hash
  rw [Hashmap.insertVisit_eq]
  exact ⟨hlookup, hlookup⟩

theorem hashmap_probes_cover_default : ∃ hm : Hashmap,
    hashmapCreate zeroAllocator 4 4 () = some (some hm, ()) ∧ hm.tableCount.toNat = 2 ^ 7 ∧
    VisitsEverySlotOnce hm.tableCount (insertVisit hm 0xFFFFFFF0) ∧
      VisitsEverySlotOnce hm.tableCount (lookupVisit hm 0xFFFFFFF0) := by
  obtain ⟨hm, hinit⟩ : ∃ hm, hashmapCreate zeroAllocator 4 4 () = some (some hm, ()) := ⟨_, rfl⟩
  have htc : hm.tableCount.toNat = 2 ^ 7 := by
    cases hinit
    rfl
  exact ⟨hm, hinit, htc, hashmap_probes_cover_two_pow htc 0xFFFFFFF0⟩

end CStructures
