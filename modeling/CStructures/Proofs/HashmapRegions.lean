import CStructures.Proofs.HashmapRefinement

/-!
# Regions of the storage

The slots, keys and values of different entries share no byte and lie in the block exactly when
the size of the block does not wrap and the last value is less than 2^32 bytes behind the first.
-/

namespace CStructures
open Lib

/-- Every block that is granted has the size of the request. -/
def Allocator.Sized {σ : Type} (A : Allocator σ) : Prop :=
  ∀ n s b s', A.malloc n s = some (some b, s') → b.size = n.toNat

/-- A range of bytes of a block. -/
structure Region where
  off : Nat
  len : Nat

namespace Region

def Contains (r : Region) (x : Nat) : Prop := r.off ≤ x ∧ x < r.off + r.len

def Apart (r t : Region) : Prop := ∀ x, r.Contains x → ¬t.Contains x

def Inside (size : Nat) (r : Region) : Prop := ∀ x, r.Contains x → x < size

/-- `r` ends before `t` starts. -/
def Before (r t : Region) : Prop := r.off + r.len ≤ t.off

instance : Trans Before Before Before where
  trans := by
    intro r t u hrt htu
    unfold Before at *
    omega

lemma Before.apart {r t : Region} (h : r.Before t) : r.Apart t := by
  intro x hr ht
  unfold Before at h
  unfold Contains at hr ht
  omega

end Region

namespace Hashmap

variable {hm : Hashmap} {p q : UInt32}

def regions (hm : Hashmap) (p q : UInt32) : List Region :=
  [⟨(hm.slotOffset p).toNat, 4⟩, ⟨(hm.keyOffset p).toNat, hm.keySize.toNat⟩,
    ⟨(hm.slotOffset q).toNat, 4⟩, ⟨(hm.keyOffset q).toNat, hm.keySize.toNat⟩,
    ⟨(hm.valueOffset p).toNat, hm.valueSize.toNat⟩, ⟨(hm.valueOffset q).toNat, hm.valueSize.toNat⟩]

def forEachRegions (hm : Hashmap) (p q : UInt32) : List Region :=
  [⟨(hm.forEachSlotOffset p).toNat, 4⟩, ⟨(hm.forEachKeyOffset p).toNat, hm.keySize.toNat⟩,
    ⟨(hm.forEachSlotOffset q).toNat, 4⟩, ⟨(hm.forEachKeyOffset q).toNat, hm.keySize.toNat⟩,
    ⟨(hm.forEachValueOffset p).toNat, hm.valueSize.toNat⟩,
    ⟨(hm.forEachValueOffset q).toNat, hm.valueSize.toNat⟩]

/-- The regions of different entries share no byte and lie in the storage. -/
def RegionsApart (hm : Hashmap) : Prop :=
  ∀ p q : UInt32, p < q → q < hm.tableCount → ∀ six ∈ [hm.regions p q, hm.forEachRegions p q],
    six.Pairwise Region.Apart ∧ ∀ r ∈ six, r.Inside hm.storage.size

/-- The storage has no more than 2^64 bytes, and its value area about 2^32. -/
structure LayoutFits (hm : Hashmap) : Prop where
  values : hm.valueSize.toNat * (hm.tableCount.toNat - 1) < 2 ^ 32
  total : (4 + hm.keySize.toNat + hm.valueSize.toNat) * hm.tableCount.toNat < 2 ^ 64

lemma slotOffset_mod (hm : Hashmap) (p : UInt32) :
    (hm.slotOffset p).toNat = (4 + hm.keySize.toNat) * p.toNat % 2 ^ 64 := by
  rw [slotOffset, UInt64.toNat_mul, stride_toNat, UInt32.toNat_toUInt64]

lemma valueOffset_mod (hm : Hashmap) (p : UInt32) : (hm.valueOffset p).toNat =
    ((4 + hm.keySize.toNat) * hm.tableCount.toNat + hm.valueSize.toNat * p.toNat % 2 ^ 32) % 2 ^ 64 := by
  rw [valueOffset, UInt64.toNat_add, UInt64.toNat_mul, stride_toNat, UInt32.toNat_toUInt64,
    UInt32.toNat_toUInt64, UInt32.toNat_mul, Nat.mod_add_mod]

lemma storageSize_mod {σ : Type} {A : Allocator σ} {s s' : σ} (hA : A.Sized)
    (hmalloc : mallocAndInitStorage A hm.keySize hm.valueSize hm.tableCount s = some (some hm.storage, s')) :
    hm.storage.size =
      (4 + hm.keySize.toNat + hm.valueSize.toNat) * hm.tableCount.toNat % 2 ^ 64 := by
  have hks := hm.keySize.toNat_lt
  have hvs := hm.valueSize.toNat_lt
  obtain ⟨b, hb, hstorage⟩ := mallocAndInitStorage_spec hmalloc
  obtain ⟨block, rfl, hblock⟩ := Option.map_eq_some_iff.mp hstorage.symm
  rw [← hblock]
  change block.size = _
  have hentry : (4 + hm.keySize.toNat + hm.valueSize.toNat) % 2 ^ 64 =
      4 + hm.keySize.toNat + hm.valueSize.toNat := Nat.mod_eq_of_lt (by omega)
  rw [hA _ _ _ _ hb, UInt64.toNat_mul, UInt64.toNat_add, stride_toNat, UInt32.toNat_toUInt64,
    UInt32.toNat_toUInt64, hentry]

namespace LayoutFits

lemma areas (h : hm.LayoutFits) : (4 + hm.keySize.toNat) * hm.tableCount.toNat +
    hm.valueSize.toNat * hm.tableCount.toNat < 2 ^ 64 := by
  rw [← Nat.add_mul]
  exact h.total

lemma slotOffset_toNat (h : hm.LayoutFits) (hp : p.toNat < hm.tableCount.toNat) :
    (hm.slotOffset p).toNat = (4 + hm.keySize.toNat) * p.toNat := by
  have hareas := h.areas
  have hle := stride_le (4 + hm.keySize.toNat) hp
  rw [slotOffset_mod, Nat.mod_eq_of_lt (by omega)]

lemma keyOffset_toNat (h : hm.LayoutFits) (hp : p.toNat < hm.tableCount.toNat) :
    (hm.keyOffset p).toNat = (4 + hm.keySize.toNat) * p.toNat + 4 := by
  have hareas := h.areas
  have hle := stride_le (4 + hm.keySize.toNat) hp
  rw [keyOffset, UInt64.toNat_add]
  change ((hm.slotOffset p).toNat + 4) % 2 ^ 64 = _
  rw [h.slotOffset_toNat hp, Nat.mod_eq_of_lt (by omega)]

lemma valueOffset_toNat (h : hm.LayoutFits) (hp : p.toNat < hm.tableCount.toNat) :
    (hm.valueOffset p).toNat = (4 + hm.keySize.toNat) * hm.tableCount.toNat +
      hm.valueSize.toNat * p.toNat := by
  have hareas := h.areas
  have hle := stride_le hm.valueSize.toNat hp
  have hlast : hm.valueSize.toNat * p.toNat ≤ hm.valueSize.toNat * (hm.tableCount.toNat - 1) :=
    Nat.mul_le_mul_left _ (by omega)
  have hvalues := h.values
  rw [valueOffset_mod, Nat.mod_eq_of_lt (a := hm.valueSize.toNat * p.toNat) (by omega),
    Nat.mod_eq_of_lt (by omega)]

lemma ascending (h : hm.LayoutFits) (hpq : p < q) (hq : q < hm.tableCount) : (hm.regions p q ++
    [(⟨(4 + hm.keySize.toNat + hm.valueSize.toNat) * hm.tableCount.toNat, 0⟩ : Region)]).IsChain
      Region.Before := by
  rw [UInt32.lt_iff_toNat_lt] at hpq hq
  have hkeys := stride_le (4 + hm.keySize.toNat) hpq
  have hlast := stride_le (4 + hm.keySize.toNat) hq
  have hvalues := stride_le hm.valueSize.toNat hpq
  have hend := stride_le hm.valueSize.toNat hq
  simp only [regions, h.slotOffset_toNat (hpq.trans hq), h.slotOffset_toNat hq,
    h.keyOffset_toNat (hpq.trans hq), h.keyOffset_toNat hq, h.valueOffset_toNat (hpq.trans hq),
    h.valueOffset_toNat hq, List.cons_append, List.nil_append, List.isChain_cons_cons,
    List.IsChain.singleton, and_true, Region.Before, Nat.add_mul _ hm.valueSize.toNat]
  omega

theorem regionsApart (h : hm.LayoutFits)
    (hsize : hm.storage.size = (4 + hm.keySize.toNat + hm.valueSize.toNat) * hm.tableCount.toNat) :
    hm.RegionsApart := by
  intro p q hpq hq six hsix
  have hforEach : hm.forEachRegions p q = hm.regions p q := rfl
  rw [hforEach, List.mem_cons, List.mem_singleton, or_self] at hsix
  obtain ⟨hpairs, _, hend⟩ := List.pairwise_append.mp (h.ascending hpq hq).pairwise
  rw [hsix, hsize]
  constructor
  · exact hpairs.imp Region.Before.apart
  · intro r hr x hx
    exact hx.2.trans_le (hend r hr _ (List.mem_singleton_self _))

end LayoutFits

section Wraps

variable {S V N : Nat}

/-- The first value that is 2^32 bytes or more behind the first one starts inside it in 32 bits. -/
lemma exists_aliased_value (hV : 0 < V) (hwrap : 2 ^ 32 ≤ V * (N - 1)) :
    ∃ p, 0 < p ∧ p < N ∧ V * p % 2 ^ 32 < V := by
  have hex : ∃ p, 2 ^ 32 ≤ V * p := ⟨N - 1, hwrap⟩
  have hfind := Nat.find_spec hex
  have hmin := Nat.find_min' hex hwrap
  obtain ⟨m, hm⟩ : ∃ m, Nat.find hex = m + 1 := by
    apply Nat.exists_eq_succ_of_ne_zero
    intro hzero
    rw [hzero, Nat.mul_zero] at hfind
    omega
  have hbelow : ¬2 ^ 32 ≤ V * m := Nat.find_min hex (by omega)
  rw [hm, Nat.mul_succ] at hfind
  refine ⟨m + 1, Nat.succ_pos m, by omega, ?_⟩
  rw [Nat.mul_succ]
  omega

/-- When only the size wraps, the fourth slot lies behind the block. -/
lemma slot_behind_wrapped (hS : S ≤ 2 ^ 32 + 3) (hN : N < 2 ^ 32) (hV : 0 < V) (hV' : V < 2 ^ 32)
    (hvalues : V * (N - 1) < 2 ^ 32) (hwrap : 2 ^ 64 ≤ (S + V) * N) :
    3 < N ∧ (S + V) * N % 2 ^ 64 ≤ S * 3 ∧ S * 3 < 2 ^ 64 := by
  have hlarge : 2 ^ 31 + 1 < N := by
    by_contra hle
    have hkeys := Nat.mul_le_mul hS (not_lt.mp hle)
    have hvalue : V * N ≤ V * (N - 1) + V := by
      rw [← Nat.mul_succ]
      exact Nat.mul_le_mul_left V (by omega)
    rw [Nat.add_mul] at hwrap
    omega
  have hone : V = 1 := by
    have hmul : V * (2 ^ 31 + 1) ≤ V * (N - 1) := Nat.mul_le_mul_left V (by omega)
    omega
  rw [hone] at hwrap ⊢
  have hkey : 2 ^ 32 < S := by
    by_contra hle
    have htotal := Nat.mul_le_mul (Nat.succ_le_succ (not_lt.mp hle)) (Nat.le_sub_one_of_lt hN)
    change (S + 1) * N ≤ _ at htotal
    omega
  have htotal := Nat.mul_le_mul (Nat.succ_le_succ hS) (Nat.le_sub_one_of_lt hN)
  change (S + 1) * N ≤ _ at htotal
  omega

end Wraps

lemma RegionsApart.values_fit (h : hm.RegionsApart) (hvalue : 0 < hm.valueSize.toNat)
    (hsize : hm.storage.size < 2 ^ 64) :
    hm.valueSize.toNat * (hm.tableCount.toNat - 1) < 2 ^ 32 := by
  by_contra hwrap
  obtain ⟨p, hpos, hp, halias⟩ := exists_aliased_value hvalue (not_lt.mp hwrap)
  have hto : (UInt32.ofNat p).toNat = p := toNat_ofNat_of_le hp.le
  have hzero : (0 : UInt32) < UInt32.ofNat p := by
    rw [UInt32.lt_iff_toNat_lt, hto]
    exact hpos
  have hlt : UInt32.ofNat p < hm.tableCount := by
    rw [UInt32.lt_iff_toNat_lt, hto]
    exact hp
  obtain ⟨hapart, hinside⟩ := h 0 (UInt32.ofNat p) hzero hlt _ List.mem_cons_self
  have hvalues : Region.Apart ⟨(hm.valueOffset 0).toNat, hm.valueSize.toNat⟩
      ⟨(hm.valueOffset (UInt32.ofNat p)).toNat, hm.valueSize.toNat⟩ :=
    List.pairwise_pair.mp (hapart.sublist (List.drop_sublist 4 (hm.regions 0 (UInt32.ofNat p))))
  have hfirst : (hm.valueOffset 0).toNat + (hm.valueSize.toNat - 1) < hm.storage.size := by
    apply hinside ⟨(hm.valueOffset 0).toNat, hm.valueSize.toNat⟩
    · simp [regions]
    · exact ⟨Nat.le_add_right _ _, Nat.add_lt_add_left (Nat.sub_one_lt hvalue.ne') _⟩
  have haliased : (hm.valueOffset (UInt32.ofNat p)).toNat =
      (hm.valueOffset 0).toNat + hm.valueSize.toNat * p % 2 ^ 32 := by
    have h0 := valueOffset_mod hm 0
    rw [UInt32.toNat_zero, Nat.mul_zero, Nat.zero_mod, Nat.add_zero] at h0
    rw [valueOffset_mod, hto, ← Nat.mod_add_mod, ← h0]
    exact Nat.mod_eq_of_lt (by omega)
  apply hvalues (hm.valueOffset (UInt32.ofNat p)).toNat
  · rw [haliased]
    exact ⟨Nat.le_add_right _ _, Nat.add_lt_add_left halias _⟩
  · exact ⟨le_rfl, Nat.lt_add_of_pos_right hvalue⟩

lemma RegionsApart.total_fits (h : hm.RegionsApart) (hvalue : 0 < hm.valueSize.toNat)
    (hvalues : hm.valueSize.toNat * (hm.tableCount.toNat - 1) < 2 ^ 32)
    (hsize : hm.storage.size =
      (4 + hm.keySize.toNat + hm.valueSize.toNat) * hm.tableCount.toNat % 2 ^ 64) :
    (4 + hm.keySize.toNat + hm.valueSize.toNat) * hm.tableCount.toNat < 2 ^ 64 := by
  have hks := hm.keySize.toNat_lt
  by_contra hwrap
  obtain ⟨hcount, hbehind, hslot⟩ := slot_behind_wrapped (by omega) hm.tableCount.toNat_lt hvalue
    hm.valueSize.toNat_lt hvalues (not_lt.mp hwrap)
  obtain ⟨_, hinside⟩ := h 0 3 (by decide) (UInt32.lt_iff_toNat_lt.mpr hcount) _ List.mem_cons_self
  have hlast : (hm.slotOffset 3).toNat < hm.storage.size := by
    apply hinside ⟨(hm.slotOffset 3).toNat, 4⟩
    · simp [regions]
    · exact ⟨le_rfl, Nat.lt_add_of_pos_right (Nat.succ_pos 3)⟩
  rw [slotOffset_mod, hsize] at hlast
  change (4 + hm.keySize.toNat) * 3 % 2 ^ 64 < _ at hlast
  rw [Nat.mod_eq_of_lt hslot] at hlast
  omega

/-- The addressed regions of all pairs of entries are disjoint and inside the allocated bytes
exactly when the last value starts less than 2^32 bytes behind the first one and the size of the
storage does not wrap. -/
theorem hashmap_regions_apart {σ : Type} {A : Allocator σ} {s s' : σ} (hA : A.Sized) (hm : Hashmap)
    (hvalue : 0 < hm.valueSize)
    (hmalloc : mallocAndInitStorage A hm.keySize hm.valueSize hm.tableCount s = some (some hm.storage, s')) :
    hm.RegionsApart ↔ hm.LayoutFits := by
  have hsize := storageSize_mod hA hmalloc
  have hvalue' := pos_iff_toNat_pos.mp hvalue
  constructor
  · intro h
    have hbelow : hm.storage.size < 2 ^ 64 := by
      rw [hsize]
      exact Nat.mod_lt _ (by decide)
    have hvalues := h.values_fit hvalue' hbelow
    exact ⟨hvalues, h.total_fits hvalue' hvalues hsize⟩
  · intro h
    rw [Nat.mod_eq_of_lt h.total] at hsize
    exact h.regionsApart hsize

lemma zeroAllocator_sized : zeroAllocator.Sized := by
  rintro n s b s' ⟨⟩
  rfl

/-- What `hashmap_init_with_options` makes of these sizes. -/
def zeroedMap (keySize valueSize tableCount : UInt32) : Hashmap where
  tableCount := tableCount
  keySize := keySize
  valueSize := valueSize
  slotsUsed := 0
  hash := hash32JenkinsOaat
  storage := zeroedStorage
    ⟨16, ((4 + keySize.toUInt64 + valueSize.toUInt64) * tableCount.toUInt64).toNat, fun _ => 0⟩
    keySize tableCount

lemma zeroAllocator_storage (keySize valueSize tableCount : UInt32) :
    mallocAndInitStorage zeroAllocator keySize valueSize tableCount () =
      some (some (zeroedMap keySize valueSize tableCount).storage, ()) := rfl

theorem hashmap_regions_apart_default : (zeroedMap 4 4 128).RegionsApart :=
  (hashmap_regions_apart zeroAllocator_sized (zeroedMap 4 4 128) (by decide)
    (zeroAllocator_storage 4 4 128)).mpr ⟨by decide, by decide⟩

/-- With 65537 values of 65536 bytes, the last value lies on the first one. -/
theorem hashmap_regions_overlap :
    (zeroedMap 4 65536 65537).valueOffset 65536 = (zeroedMap 4 65536 65537).valueOffset 0 ∧
      ¬(zeroedMap 4 65536 65537).RegionsApart := by
  refine ⟨by decide, ?_⟩
  intro h
  have hvalues := h.values_fit (by decide) (by decide)
  revert hvalues
  decide

end Hashmap

end CStructures
