import CStructures.Proofs.BtreeEntries

/-!
# Erasure through a pointer

A pointer to a value is turned back into the index that it was computed from, and the keyed
erasure finds the same index by binary search.
-/

namespace CStructures
open Lib

namespace Btree

variable {b b' : Btree} {m : KeyMap} {k : UInt32} {value : List Byte} {answer : AllocAnswer} {off : Nat}

/-- `off` is the pointer that `b` gives for `k`, and `b'` the btree from then on: a found value, the
value that is inserted or already there, or the value of the current item of a loop. -/
inductive GivesPointer (b : Btree) (k : UInt32) : Nat → Btree → Prop
  | find {off : Nat} (h : (btreeFind b k).val = some off) : GivesPointer b k off b
  | insertOrGet {value : List Byte} {answer : AllocAnswer} {status : BtreeStatus} {off : Nat} {b' : Btree}
      (hv : value.length = b.valueSize.toNat)
      (h : (btreeInsertOrGet b k value answer).val = (status, some off, b')) (hbounds : b'.InBounds) :
      GivesPointer b k off b'
  | forEach {idx : UInt32} (hidx : idx.toNat < b.count.toNat) (hk : (forEachItem b idx).val.key = k) :
      GivesPointer b k (forEachItem b idx).val.value b

lemma Represents.find_isSome (h : b.Represents m) {e : UInt32 × List Byte} (he : e ∈ b.entries) :
    ∃ off, (btreeFind b e.1).val = some off := by
  have hlookup := (h.lookup_iff e.1 e.2).mpr he
  rcases h.find_cases e.1 with ⟨_, hmem⟩ | ⟨p, _, _, hsome⟩
  · rw [Finmap.lookup_eq_none.mpr hmem] at hlookup
    cases hlookup
  · exact ⟨_, hsome⟩

lemma Represents.find_pointsTo (h : b.Represents m) (hfind : (btreeFind b k).val = some off) :
    b.PointsTo k off := by
  rcases h.find_cases k with ⟨hnone, _⟩ | ⟨p, hp, hk, hsome⟩
  · rw [hnone] at hfind
    cases hfind
  · rw [hsome] at hfind
    rw [← Option.some.inj hfind]
    exact pointsTo_of_lt hp hk

/-- An insertion that gives a pointer has not been refused. -/
lemma granted_of_pointer (h : b.Sound) (hsome : (btreeInsertOrGet b k value answer).val.2.1 = some off) :
    ∃ g, btreeInsertOrGet b k value answer = btreeInsertOrGet b k value (some g) := by
  cases answer with
  | some g => exact ⟨g, rfl⟩
  | none =>
    by_cases hfull : b.count = b.capacity
    · rw [insertOrGet_refused ((grow_none h).trans (if_pos hfull))] at hsome
      cases hsome
    · refine ⟨zeroGrant, ?_⟩
      simp only [btreeInsertOrGet, grow_of_room hfull none (some zeroGrant)]

lemma Represents.insertAtLowerBound_pointsTo (h : b.Represents m) (hroom : b.count.toNat < b.capacity.toNat) :
    let p := (btreeFindLowerBound b k).val
    let b' := (CStructures.insertAtLowerBound b p k value).val
    b'.PointsTo k (b'.valueOffset (UInt32.ofNat p)) ∧ b'.valueSize = b.valueSize := by
  have hlb := findLowerBound_spec h.sound.ascending k
  have hd := h.sound.isSome (by omega)
  obtain ⟨hcount, _, hvs, _, hkeys⟩ := @insertAtLowerBound_keys b k value _ hd hlb.le hroom
  have hle := hlb.le
  refine ⟨pointsTo_of_lt ?_ ?_, hvs⟩
  · omega
  · rw [hkeys _ (by omega), insertAt_self]

/-- The insertion gives the address of the value in the btree that it leaves. -/
theorem Represents.insertOrGet_pointsTo (h : b.Represents m) (hv : value.length = b.valueSize.toNat)
    {status : BtreeStatus} (hret : (btreeInsertOrGet b k value answer).val = (status, some off, b'))
    (hbounds : b'.InBounds) :
    b'.PointsTo k off ∧ b'.Sound ∧ b'.valueSize = b.valueSize := by
  obtain ⟨g, hg⟩ := granted_of_pointer h.sound (congrArg (fun r => r.2.1) hret)
  rw [hg] at hret
  have hbounds' : (btreeInsertNew b k value (some g)).val.2.InBounds := by
    rw [← insertOrGet_btree, hret]
    exact hbounds
  obtain ⟨grown, hgrow, hrep, hroom, hvs⟩ := h.grown hbounds'
  rw [insertOrGet_grown hgrow] at hret
  simp only [hrep.isKeyAt, decide_eq_true_eq] at hret
  split_ifs at hret with hmem
  · obtain ⟨hp, hk⟩ := hrep.at_lowerBound hmem
    simp only [Prod.mk.injEq, Option.some.injEq] at hret
    obtain ⟨_, rfl, rfl⟩ := hret
    exact ⟨pointsTo_of_lt hp hk, hrep.sound, hvs⟩
  · obtain ⟨hins, _⟩ := hrep.insertAtLowerBound hmem hroom (by rw [hv, hvs])
    obtain ⟨hpoints, hsize⟩ := @Represents.insertAtLowerBound_pointsTo grown m k value hrep hroom
    simp only [Prod.mk.injEq, Option.some.injEq] at hret
    obtain ⟨_, rfl, rfl⟩ := hret
    exact ⟨hpoints, hins.sound, hsize.trans hvs⟩

theorem Represents.givesPointer (h : b.Represents m) (hgives : b.GivesPointer k off b') :
    b'.PointsTo k off ∧ b'.Sound ∧ b'.valueSize = b.valueSize := by
  cases hgives with
  | find hfind => exact ⟨h.find_pointsTo hfind, h.sound, rfl⟩
  | insertOrGet hv hret hbounds => exact h.insertOrGet_pointsTo hv hret hbounds
  | forEach hidx hk => exact ⟨⟨_, hidx, (keys_eq b _).trans hk, rfl⟩, h.sound, rfl⟩

lemma Sound.val_erase (h : b.Sound) {i : UInt32} (hi : i.toNat < b.count.toNat) (hk : b.keys i.toNat = k) :
    (btreeErase b k).val = (.ok, (btreeEraseIndex b i).val.2) := by
  have hlb := (findLowerBound_spec h.ascending k).eq_of_mem h.ascending hi hk
  have hkey : (isKeyAt b i.toNat k).val = true := by
    rw [val_isKeyAt]
    exact decide_eq_true ⟨hi, hk⟩
  unfold btreeErase
  simp only [Logged.val_bind, Logged.val_pure, hlb, hkey, if_true, UInt32.ofNat_toNat]

lemma Sound.valueOffset_within (h : b.Sound) (hpos : 0 < b.valueSize) {i : UInt32}
    (hi : i.toNat < b.count.toNat) :
    b.valueOffset 0 ≤ b.valueOffset i ∧ b.valueOffset i < b.valueOffset b.count := by
  have hfit := h.bounds.valuesFit
  have hcb := h.count_le
  have hpos' := pos_iff_toNat_pos.mp hpos
  have hzero : b.valueOffset 0 = 4 * b.capacity.toNat + b.valueSize.toNat * 0 := valueOffsetCap_zero b b.capacity
  have hlt : b.valueSize.toNat * i.toNat < b.valueSize.toNat * b.count.toNat := Nat.mul_lt_mul_of_pos_left hi hpos'
  rw [hzero, valueOffset_toNat hfit (by omega), valueOffset_toNat hfit hcb]
  omega

theorem Sound.eraseInternalValue (h : b.Sound) (hpos : 0 < b.valueSize) (hpoints : b.PointsTo k off) :
    b.valueOffset 0 ≤ off ∧ off < b.valueOffset b.count ∧ (btreeErase b k).val.1 = .ok ∧
      (btreeEraseInternalValue b off).val = (k, (btreeErase b k).val.2) := by
  obtain ⟨i, hi, hk, rfl⟩ := hpoints
  have hcb := h.count_le
  obtain ⟨hbegin, hend⟩ := h.valueOffset_within hpos hi
  have hidx : b.valueToIdx (b.valueOffset i) = i := valueToIdx_valueOffset h.bounds.valuesFit hpos (by omega)
  refine ⟨hbegin, hend, ?_, ?_⟩
  · rw [h.val_erase hi hk]
  · rw [btreeEraseInternalValue, hidx, h.val_erase hi hk, val_eraseIndex, hk]

end Btree

/-- On every btree that a run within the bounds reaches, erasure through the pointer that was given
for a key passes the assertions, returns the key and leaves the btree that the keyed erasure leaves. -/
theorem btree_fast_erase_agrees {valueSize : UInt32} {actions : List BtreeAction} {b : Btree}
    (hrun : Run Btree.BoundedStep (btreeInit valueSize) actions b) (hpos : 0 < b.valueSize) :
    (∀ e ∈ b.entries, ∃ off, (btreeFind b e.1).val = some off) ∧
    ∀ k off b', b.GivesPointer k off b' →
      b'.valueOffset 0 ≤ off ∧ off < b'.valueOffset b'.count ∧ (btreeErase b' k).val.1 = .ok ∧
        (btreeEraseInternalValue b' off).val = (k, (btreeErase b' k).val.2) := by
  obtain ⟨m, hrep⟩ := Btree.represents_of_run hrun
  refine ⟨fun e he => hrep.find_isSome he, fun k off b' hgives => ?_⟩
  obtain ⟨hpoints, hsound, hvs⟩ := hrep.givesPointer hgives
  exact hsound.eraseInternalValue (hvs ▸ hpos) hpoints

def twinCalls : List BtreeCall := [.insertNew 5 [1], .insertNew 3 [1], .insertNew 8 [1]]

theorem btree_fast_erase_agrees_twins : ∃ b : Btree, ∃ off,
    b.entries = [(3, [1]), (5, [1]), (8, [1])] ∧ (btreeFind b 5).val = some off ∧
    (btreeEraseInternalValue b off).val = (5, (btreeErase b 5).val.2) := by
  have hentries : ((Btree.grantedActions twinCalls).foldlM Btree.boundedAct (btreeInit 1)).map
      (fun b => (b.valueSize, b.entries)) = some (1, [(3, [1]), (5, [1]), (8, [1])]) := by
    decide +kernel
  obtain ⟨b, hrun, hb⟩ := Run.exists_of_foldlM Btree.boundedAct_step hentries
  obtain ⟨hvs, hb⟩ : b.valueSize = 1 ∧ b.entries = [(3, [1]), (5, [1]), (8, [1])] := by
    simpa only [Prod.mk.injEq] using hb
  have hpos : 0 < b.valueSize := by
    rw [hvs]
    decide
  obtain ⟨hfound, hagrees⟩ := btree_fast_erase_agrees hrun hpos
  obtain ⟨off, hfind⟩ := hfound (5, [1]) (by rw [hb]; decide)
  obtain ⟨_, _, _, hval⟩ := hagrees 5 off b (.find hfind)
  exact ⟨b, off, hb, hfind, hval⟩

end CStructures
