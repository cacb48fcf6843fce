import CStructures.Proofs.BtreeAccess

/-!
# Value slots and value moves

The size of a buffer is computed in 64 bits, but the offsets of its values and the lengths
of their moves are 32-bit products. Both agree as long as the value area has fewer than
2^32 bytes.
-/

namespace CStructures
open Lib

/-- A move of values takes all bytes of its entries. -/
def Access.Whole (valueSize : Nat) : Access → Prop
  | .move .values entries _ _ len => len = entries * valueSize
  | _ => True

namespace Btree

variable {b : Btree} {key : UInt32} {value : List Byte} {answer : AllocAnswer}

/-- The slots of different values share no byte and lie in a buffer of `size` bytes. -/
def SlotsApart (b : Btree) (size : Nat) : Prop :=
  ∀ i j : UInt32, i < j → j < b.capacity →
    (∀ n, b.valueOffset i ≤ n → n < b.valueOffset i + b.valueSize.toNat →
      ¬(b.valueOffset j ≤ n ∧ n < b.valueOffset j + b.valueSize.toNat)) ∧
    RangeInside size (b.valueOffset i) b.valueSize.toNat ∧
    RangeInside size (b.valueOffset j) b.valueSize.toNat

def WholeMoves (b : Btree) (log : List Access) : Prop := ∀ a ∈ log, a.Whole b.valueSize.toNat

/-- The moves of all functions that move values. -/
structure MovesWhole (b : Btree) : Prop where
  realloc : ∀ newCapacity answer, b.WholeMoves (btreeRealloc b newCapacity answer).log
  insertNew : ∀ key value answer, b.WholeMoves (btreeInsertNew b key value answer).log
  insertOrGet : ∀ key value answer, b.WholeMoves (btreeInsertOrGet b key value answer).log
  eraseIndex : ∀ idx < b.count, b.WholeMoves (btreeEraseIndex b idx).log

lemma slotsApart (hfit : b.ValuesFit) {size : Nat} (hsize : b.bufferSize b.capacity ≤ size) :
    b.SlotsApart size := by
  intro i j hij hj
  have hij' := UInt32.lt_iff_toNat_lt.mp hij
  have hj' := UInt32.lt_iff_toNat_lt.mp hj
  have hapart := stride_le b.valueSize.toNat hij'
  have hfirst := stride_le b.valueSize.toNat (hij'.trans hj')
  have hsecond := stride_le b.valueSize.toNat hj'
  rw [bufferSize_split hfit] at hsize
  rw [valueOffset_toNat hfit (by omega), valueOffset_toNat hfit (by omega)]
  refine ⟨fun n _ _ => by omega, rangeInside_iff.mpr (Or.inr ?_), rangeInside_iff.mpr (Or.inr ?_)⟩
  · omega
  · omega

lemma wholeMoves_of_reads {n : Nat} {log : List Access}
    (h : ∀ a ∈ log, ∃ i < n, a = .read (keyOffset i) 4) : b.WholeMoves log := by
  intro a ha
  obtain ⟨i, _, rfl⟩ := h a ha
  trivial

lemma moveValues_whole (hfit : b.ValuesFit) {n : UInt32} (hn : n.toNat ≤ b.capacity.toNat)
    {b' : Btree} (hvs : b'.valueSize = b.valueSize) (dst src : Nat) :
    b.WholeMoves (b'.moveValues dst src n).log := by
  intro a ha
  rw [List.mem_singleton.mp ha]
  change (n * b'.valueSize).toNat = n.toNat * b.valueSize.toNat
  rw [hvs, entries_toNat hfit hn, Nat.mul_comm]

lemma realloc_whole (hfit : b.ValuesFit) (newCapacity : UInt32) :
    b.WholeMoves (btreeRealloc b newCapacity answer).log := by
  have hnil : b.WholeMoves [] := List.forall_mem_nil _
  unfold btreeRealloc
  cases hd : b.data with
  | none => cases answer <;> exact hnil
  | some data =>
    dsimp only
    split_ifs with hgrow
    · cases answer with
      | none => exact hnil
      | some grant =>
        simp only [Logged.log_bind, Logged.log_pure, List.append_nil]
        exact moveValues_whole hfit le_rfl rfl _ _
    · simp only [Logged.log_bind, Logged.log_pure, List.append_nil]
      exact moveValues_whole hfit le_rfl rfl _ _

lemma realloc_fields (newCapacity : UInt32) :
    (btreeRealloc b newCapacity answer).val.2.count = b.count ∧
      (btreeRealloc b newCapacity answer).val.2.valueSize = b.valueSize := by
  unfold btreeRealloc
  cases b.data with
  | none => cases answer <;> exact ⟨rfl, rfl⟩
  | some data =>
    dsimp only
    split_ifs with hgrow
    · cases answer <;> exact ⟨rfl, rfl⟩
    · exact ⟨rfl, rfl⟩

lemma grow_whole (hfit : b.ValuesFit) : b.WholeMoves (btreeGrow b answer).log := by
  unfold btreeGrow
  split_ifs
  · exact realloc_whole hfit _
  · exact List.forall_mem_nil _

lemma grow_fields : (btreeGrow b answer).val.2.count = b.count ∧
    (btreeGrow b answer).val.2.valueSize = b.valueSize := by
  unfold btreeGrow
  split_ifs
  · exact realloc_fields _
  · exact ⟨rfl, rfl⟩

/-- The insertion moves at most the entries there were before the buffer has grown. -/
lemma insertAtLowerBound_whole (hfit : b.ValuesFit) (hcount : b.count.toNat ≤ b.capacity.toNat)
    {b' : Btree} (hc : b'.count = b.count) (hvs : b'.valueSize = b.valueSize) {p : Nat}
    (hp : p ≤ b'.count.toNat) : b.WholeMoves (insertAtLowerBound b' p key value).log := by
  have hto := toNat_ofNat_of_le hp
  have hn : (b'.count - UInt32.ofNat p).toNat = b'.count.toNat - p := by
    rw [toNat_sub_of_le (by omega), hto]
  have hle : (b'.count - UInt32.ofNat p).toNat ≤ b.capacity.toNat := by
    rw [hn, hc]
    omega
  unfold insertAtLowerBound
  simp only [Logged.log_bind]
  refine List.forall_mem_append.mpr ⟨?_, List.forall_mem_append.mpr ⟨?_,
    List.forall_mem_append.mpr ⟨?_, ?_⟩⟩⟩
  · intro a ha
    rw [List.mem_singleton.mp ha]
    trivial
  · exact moveValues_whole hfit hle hvs _ _
  · intro a ha
    rw [List.mem_singleton.mp ha]
    trivial
  · rw [Logged.log_ite]
    split_ifs
    · intro a ha
      rw [List.mem_singleton.mp ha]
      trivial
    · exact List.forall_mem_nil _

lemma insertion_whole (hfit : b.ValuesFit) (hcount : b.count.toNat ≤ b.capacity.toNat) {b' : Btree}
    (hc : b'.count = b.count) (hvs : b'.valueSize = b.valueSize) :
    let p := (btreeFindLowerBound b' key).val
    b.WholeMoves ((btreeFindLowerBound b' key).log ++ ((isKeyAt b' p key).log ++
      if (isKeyAt b' p key).val then [] else (insertAtLowerBound b' p key value).log)) := by
  obtain ⟨hreads, hle⟩ := @findLowerBound_reads b' key
  refine List.forall_mem_append.mpr ⟨wholeMoves_of_reads hreads,
    List.forall_mem_append.mpr ⟨wholeMoves_of_reads (isKeyAt_reads _ key), ?_⟩⟩
  split_ifs
  · exact List.forall_mem_nil _
  · exact insertAtLowerBound_whole hfit hcount hc hvs hle

lemma movesWhole (hfit : b.ValuesFit) (hcount : b.count.toNat ≤ b.capacity.toNat) : b.MovesWhole where
  realloc := fun newCapacity answer => realloc_whole hfit newCapacity
  insertNew := by
    intro key value answer
    obtain ⟨hc, hvs⟩ := @grow_fields b answer
    unfold btreeInsertNew
    simp only [Logged.log_bind, Logged.log_ite, Logged.log_pure, List.append_nil]
    refine List.forall_mem_append.mpr ⟨grow_whole hfit, ?_⟩
    split
    · exact List.forall_mem_nil _
    · exact insertion_whole hfit hcount hc hvs
  insertOrGet := by
    intro key value answer
    obtain ⟨hc, hvs⟩ := @grow_fields b answer
    unfold btreeInsertOrGet
    simp only [Logged.log_bind, Logged.log_ite, Logged.log_pure, List.append_nil]
    refine List.forall_mem_append.mpr ⟨grow_whole hfit, ?_⟩
    split
    · exact List.forall_mem_nil _
    · exact insertion_whole hfit hcount hc hvs
  eraseIndex := by
    intro idx hidx
    have hidx' := UInt32.lt_iff_toNat_lt.mp hidx
    have hn : (b.count - idx).toNat = b.count.toNat - idx.toNat := toNat_sub_of_le hidx'.le
    unfold btreeEraseIndex
    simp only [Logged.log_bind, Logged.log_pure, List.append_nil]
    refine List.forall_mem_append.mpr ⟨?_, List.forall_mem_append.mpr ⟨?_, ?_⟩⟩
    · intro a ha
      rw [List.mem_singleton.mp ha]
      trivial
    · intro a ha
      rw [List.mem_singleton.mp ha]
      trivial
    · exact moveValues_whole hfit (by omega) rfl _ _

/-- The values of a reallocated buffer are moved as a whole only if the value area has fewer
than 2^32 bytes. -/
lemma valuesFit_of_realloc {d : Block} (hd : b.data = some d) (g : Grant)
    (h : b.WholeMoves (btreeRealloc b b.capacity (some g)).log) : b.ValuesFit := by
  have hmem : Access.move .values b.capacity.toNat (b.valueOffsetCap 0 (clampCapacity b.capacity))
      (b.valueOffsetCap 0 b.capacity) (b.capacity * b.valueSize).toNat ∈
        (btreeRealloc b b.capacity (some g)).log := by
    unfold btreeRealloc
    simp only [hd]
    split_ifs <;> exact List.mem_singleton.mpr rfl
  have hlen : (b.capacity * b.valueSize).toNat = b.capacity.toNat * b.valueSize.toNat := h _ hmem
  rw [ValuesFit, ← hlen]
  exact (b.capacity * b.valueSize).toNat_lt

end Btree

/-- In an allocated buffer, the value slots are disjoint and inside, and all moves of values
have the exact number of bytes, if and only if the value area has fewer than 2^32 bytes. -/
theorem btree_slots_apart_and_moves_whole {b : Btree} {d : Block} (hd : b.data = some d)
    (hsize : b.bufferSize b.capacity ≤ d.size) (hcount : b.count ≤ b.capacity) :
    b.SlotsApart d.size ∧ b.MovesWhole ↔ b.capacity.toNat * b.valueSize.toNat < 2 ^ 32 := by
  constructor
  · rintro ⟨_, hmoves⟩
    exact Btree.valuesFit_of_realloc hd zeroGrant (hmoves.realloc _ _)
  · intro hfit
    exact ⟨Btree.slotsApart hfit hsize, Btree.movesWhole hfit (UInt32.le_iff_toNat_le.mp hcount)⟩

theorem btree_slots_apart_and_moves_whole_first : ∃ (b : Btree) (d : Block),
    (btreeReserve (btreeInit 8) 1 (some zeroGrant)).val = (.ok, b) ∧ b.data = some d ∧
    (b.SlotsApart d.size ∧ b.MovesWhole ↔ b.capacity.toNat * b.valueSize.toNat < 2 ^ 32) :=
  ⟨_, _, rfl, rfl, btree_slots_apart_and_moves_whole rfl (by decide) (by decide)⟩

/-- With values of 65536 bytes and room for 65537 of them, the first and the last value
share their slot, and a reallocation moves 65536 bytes only. -/
theorem btree_slots_aliased : ∃ (b : Btree) (d : Block),
    (btreeReserve (btreeInit 65536) 65537 (some zeroGrant)).val = (.ok, b) ∧ b.data = some d ∧
    d.size = b.capacity.toNat * (4 + b.valueSize.toNat) ∧ 65536 < b.capacity ∧
    b.valueOffset 0 = b.valueOffset 65536 ∧ ¬b.SlotsApart d.size ∧ ¬b.MovesWhole := by
  refine ⟨_, _, rfl, rfl, by decide, by decide, by decide, ?_, ?_⟩
  · intro h
    exact (h 0 65536 (by decide) (by decide)).1 262148 (by decide) (by decide) ⟨by decide, by decide⟩
  · intro h
    have hfit := Btree.valuesFit_of_realloc rfl zeroGrant (h.realloc _ _)
    unfold Btree.ValuesFit at hfit
    revert hfit
    decide

end CStructures
