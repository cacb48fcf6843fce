import CStructures.Proofs.BtreeEntries
import CStructures.Proofs.BtreeGrowth

/-!
# Insertion of a key that exists

Both insertions grow a full buffer before they look for the key. A stored key is reported as
such in every btree that has room or is granted more.
-/

namespace CStructures
open Lib

namespace Btree

variable {b b' : Btree} {k : UInt32} {v value : List Byte} {answer : AllocAnswer} {off : Nat}

/-- Both insertions answer that the key exists and leave all entries, and the second one points to
the stored value. -/
structure ReportsExisting (b : Btree) (k : UInt32) (value : List Byte) (answer : AllocAnswer) : Prop where
  insertNew : ∃ b', (btreeInsertNew b k value answer).val = (.exists, b') ∧ b'.entries = b.entries
  insertOrGet : ∃ off b', (btreeInsertOrGet b k value answer).val = (.exists, some off, b') ∧
    b'.entries = b.entries ∧ b'.PointsTo k off ∧ (k, b'.deref off) ∈ b.entries

lemma PointsTo.mem_entries (h : b.PointsTo k off) (hfit : b.count.toNat * b.valueSize.toNat < 2 ^ 32) :
    (k, b.deref off) ∈ b.entries := by
  obtain ⟨i, hi, rfl, rfl⟩ := h
  rw [deref_valueOffset hfit hi.le]
  exact (mem_entries_iff hfit).mpr ⟨_, hi, rfl, rfl⟩

/-! ### The growth before the search -/

lemma Sound.full (h : b.Sound) (hfull : b.count = b.capacity) : b.Full where
  full := hfull
  buffer := by
    intro d hd
    rw [bufferSize_toNat (size_lt_of_valuesFit h.bounds.valuesFit)]
    exact h.buffer d hd
  unallocated := h.unallocated
  ascending := h.ascending

/-- A growth that is not needed or is granted leaves the entries, even where the new capacity is
too large for another one. -/
lemma Sound.grown (h : b.Sound) (hroom : b.count ≠ b.capacity ∨ answer.isSome) :
    ∃ grown, (btreeGrow b answer).val = (.ok, grown) ∧ SameEntries b grown := by
  by_cases hfull : b.count = b.capacity
  · obtain ⟨g, rfl⟩ := Option.isSome_iff_exists.mp (hroom.resolve_left (not_not.mpr hfull))
    obtain ⟨grown, _, hgrow, _, _, _, hsame⟩ :=
      (h.full hfull).grow h.bounds.capacity h.bounds.valuesFit g
    exact ⟨grown, hgrow, hsame⟩
  · refine ⟨b, ?_, .refl b⟩
    rw [grow_of_room hfull answer none, grow_none h, if_neg hfull]

lemma SameEntries.found (hsame : SameEntries b b') (h : b.Sound) {i : Nat} (hi : i < b.count.toNat)
    (hk : b.keys i = k) :
    (btreeFindLowerBound b' k).val = i ∧ (CStructures.isKeyAt b' i k).val = true := by
  have hi' : i < b'.count.toNat := by rwa [hsame.count]
  have hk' : b'.keys i = k := by rw [hsame.keys i hi, hk]
  have hasc : Ascending b'.keys b'.count.toNat := by
    rw [hsame.count]
    exact h.ascending.congr hsame.keys
  refine ⟨(findLowerBound_spec hasc k).eq_of_mem hasc hi' hk', ?_⟩
  rw [val_isKeyAt]
  exact decide_eq_true ⟨hi', hk'⟩

theorem Sound.reportsExisting (h : b.Sound) (hmem : (k, v) ∈ b.entries)
    (hroom : b.count ≠ b.capacity ∨ answer.isSome) : b.ReportsExisting k value answer := by
  obtain ⟨grown, hgrow, hsame⟩ := h.grown hroom
  obtain ⟨i, hi, hk, _⟩ := (mem_entries_iff h.countFits).mp hmem
  obtain ⟨hbound, hkey⟩ := hsame.found h hi hk
  have hentries := hsame.entries h.countFits
  have hfit : grown.count.toNat * grown.valueSize.toNat < 2 ^ 32 := by
    rw [hsame.count, hsame.valueSize]
    exact h.countFits
  have hpoints : grown.PointsTo k (grown.valueOffset (UInt32.ofNat i)) := by
    apply pointsTo_of_lt
    · rwa [hsame.count]
    · rw [hsame.keys i hi, hk]
  constructor
  · refine ⟨grown, ?_, hentries⟩
    rw [insertNew_grown hgrow, hbound, if_pos hkey]
  · refine ⟨_, grown, ?_, hentries, hpoints, hentries ▸ hpoints.mem_entries hfit⟩
    rw [insertOrGet_grown hgrow, hbound, if_pos hkey]

theorem Sound.reportsExisting_iff (h : b.Sound) (hmem : (k, v) ∈ b.entries) (value : List Byte)
    (answer : AllocAnswer) :
    b.ReportsExisting k value answer ↔ b.count ≠ b.capacity ∨ answer.isSome := by
  refine ⟨fun hreports => ?_, h.reportsExisting hmem⟩
  by_contra hrefused
  rw [not_or, not_not, Option.not_isSome_iff_eq_none] at hrefused
  obtain ⟨hfull, rfl⟩ := hrefused
  -- the search is not reached
  have hgrow : (btreeGrow b none).val = (.oom, b) := (grow_none h).trans (if_pos hfull)
  obtain ⟨b', hval, _⟩ := hreports.insertNew
  rw [insertNew_refused hgrow] at hval
  cases hval

end Btree

/-- On every btree that a run within the bounds reaches, both insertions report a stored key as
existing if and only if the btree is not full or the allocator grants the growth. -/
theorem btree_existing_reported_iff {valueSize : UInt32} {actions : List BtreeAction} {b : Btree}
    (hrun : Run Btree.BoundedStep (btreeInit valueSize) actions b) {k : UInt32} {v : List Byte}
    (hmem : (k, v) ∈ b.entries) (value : List Byte) (answer : AllocAnswer) :
    b.ReportsExisting k value answer ↔ b.count ≠ b.capacity ∨ answer.isSome := by
  obtain ⟨m, hrep⟩ := Btree.represents_of_run hrun
  exact hrep.sound.reportsExisting_iff hmem value answer

lemma fillActions_full : ∃ b : Btree, Run Btree.BoundedStep (btreeInit 4) fillActions b ∧
    b.count = b.capacity ∧ (7, [7, 0, 0, 0]) ∈ b.entries := by
  have hresult : (fillActions.foldlM Btree.boundedAct (btreeInit 4)).map
      (fun b => (decide (b.count = b.capacity), decide ((7, [7, 0, 0, 0]) ∈ b.entries))) =
        some (true, true) := by decide +kernel
  obtain ⟨b, hrun, hb⟩ := Run.exists_of_foldlM Btree.boundedAct_step hresult
  simp only [Prod.mk.injEq, decide_eq_true_eq] at hb
  exact ⟨b, hrun, hb.1, hb.2⟩

theorem full_btree_hides_existing : ∃ b : Btree, Run Btree.BoundedStep (btreeInit 4) fillActions b ∧
    (7, [7, 0, 0, 0]) ∈ b.entries ∧ (btreeInsertNew b 7 [7, 0, 0, 0] none).val.1 = .oom ∧
    (btreeInsertOrGet b 7 [7, 0, 0, 0] none).val.1 = .oom ∧ ¬b.ReportsExisting 7 [7, 0, 0, 0] none := by
  obtain ⟨b, hrun, hfull, hmem⟩ := fillActions_full
  obtain ⟨m, hrep⟩ := Btree.represents_of_run hrun
  have hgrow : (btreeGrow b none).val = (.oom, b) := (Btree.grow_none hrep.sound).trans (if_pos hfull)
  refine ⟨b, hrun, hmem, ?_, ?_, ?_⟩
  · rw [Btree.insertNew_refused hgrow]
  · rw [Btree.insertOrGet_refused hgrow]
  · intro hreports
    obtain ⟨b', hval, _⟩ := hreports.insertNew
    rw [Btree.insertNew_refused hgrow] at hval
    cases hval

theorem btree_existing_reported_iff_granted : ∃ b : Btree, b.count = b.capacity ∧
    b.ReportsExisting 7 [9, 9, 9, 9] (some zeroGrant) := by
  obtain ⟨b, hrun, hfull, hmem⟩ := fillActions_full
  exact ⟨b, hfull, (btree_existing_reported_iff hrun hmem _ _).mpr (Or.inr rfl)⟩

end CStructures
