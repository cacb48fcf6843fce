import CStructures.Proofs.HashmapLayout

/-!
# The probe loops

What the loops of `hashmap_insert`, `hashmap_erase` and `hashmap_find` have established
when they are left, in terms of the probe path of the key and of the table.
-/

namespace CStructures
open Lib

lemma hashWrapper_not_reserved (hm : Hashmap) (data : List Byte) :
    hashWrapper hm data ≠ hmSlotUnused ∧ hashWrapper hm data ≠ hmSlotRip ∧
      hashWrapper hm data ≠ hmSlotInvalid := by
  unfold hashWrapper
  simp only
  split_ifs with h
  · decide
  · simpa only [not_or] using h

namespace Hashmap

/-- The loop variables after `n` passes of a probe loop for `key`. -/
def probeAt (hm : Hashmap) (key : List Byte) (n : Nat) : Probe :=
  (Probe.next hm.tableCount)^[n] (Probe.start hm.tableCount (hashWrapper hm key))

lemma path_eq (hm : Hashmap) (key : List Byte) (n : Nat) :
    hm.path key n = (hm.probeAt key n).pos.toNat := rfl

lemma probeAt_succ (hm : Hashmap) (key : List Byte) (n : Nat) :
    hm.probeAt key (n + 1) = (hm.probeAt key n).next hm.tableCount :=
  Function.iterate_succ_apply' _ _ _

/-- The invariant of the slots and keys, for every size of the values: each live slot holds
the hash of its key, keys are found on their probe paths, and `slots_used` counts them. -/
structure Valid (hm : Hashmap) : Prop where
  tableCount_pos : 0 < hm.tableCount.toNat
  keysFit : hm.KeysFit
  hashed : ∀ (p : UInt32) (k : List Byte), p.toNat < hm.tableCount.toNat → hm.cell p = .live k →
    hm.slot p = hashWrapper hm k
  wellFormed : WellFormed hm.path hm.table
  used : cellCount (Finset.range hm.tableCount.toNat) Cell.isLive hm.table = hm.slotsUsed.toNat

variable {hm : Hashmap} {key : List Byte}

lemma probeAt_pos_lt (h : 0 < hm.tableCount.toNat) (n : Nat) :
    (hm.probeAt key n).pos.toNat < hm.tableCount.toNat := by
  cases n with
  | zero =>
    change (hashWrapper hm key % hm.tableCount).toNat < _
    rw [UInt32.toNat_mod]
    exact Nat.mod_lt _ h
  | succ n =>
    rw [probeAt_succ]
    change (_ % hm.tableCount).toNat < _
    rw [UInt32.toNat_mod]
    exact Nat.mod_lt _ h

lemma table_path (h : 0 < hm.tableCount.toNat) (n : Nat) :
    hm.table (hm.path key n) = hm.cell (hm.probeAt key n).pos :=
  table_toNat (probeAt_pos_lt h n)

/-- A position that holds the hash and the bytes of `key` is a live cell of the table. -/
lemma cell_of_match {p : UInt32} (hs : hm.slot p = hashWrapper hm key) (hk : hm.key p = key) :
    hm.cell p = .live key := by
  obtain ⟨hu, hr, _⟩ := hashWrapper_not_reserved hm key
  exact cell_eq_live.mpr ⟨by rwa [hs], by rwa [hs], hk⟩

/-- Passing a position without leaving the loop means that the cell is not unused and does
not hold the key. -/
lemma Valid.passes (hv : hm.Valid) {n : Nat}
    (h : ∀ j < n, hm.slot (hm.probeAt key j).pos ≠ hmSlotUnused ∧
      ¬(hm.slot (hm.probeAt key j).pos = hashWrapper hm key ∧ hm.key (hm.probeAt key j).pos = key)) :
    Passes hm.path hm.table key n := by
  intro j hj
  obtain ⟨hu, hm'⟩ := h j hj
  rw [table_path hv.tableCount_pos]
  refine ⟨cell_eq_unused.not.mpr hu, fun hl => hm' ⟨?_, (cell_eq_live.mp hl).2.2⟩⟩
  exact hv.hashed _ _ (probeAt_pos_lt hv.tableCount_pos j) hl

lemma lookupExit_eq_none {s : Probe} (h : lookupExit hm (hashWrapper hm key) key s = none) :
    hm.slot s.pos ≠ hmSlotUnused ∧ ¬(hm.slot s.pos = hashWrapper hm key ∧ hm.key s.pos = key) := by
  obtain ⟨hu, _, _⟩ := hashWrapper_not_reserved hm key
  unfold lookupExit at h
  split_ifs at h with h1 h2 h3
  · exact ⟨by rwa [h1], fun h => h2 h.2⟩
  · exact ⟨h3, fun h => h1 h.1⟩

lemma lookup_found {fuel : Nat} {pos : UInt32} (hv : hm.Valid)
    (h : lookup fuel hm key = some (some pos)) :
    pos.toNat < hm.tableCount.toNat ∧ hm.cell pos = .live key := by
  obtain ⟨n, _, _, hexit⟩ := loop_eq_some_iff.mp h
  change lookupExit hm _ key (hm.probeAt key n) = _ at hexit
  unfold lookupExit at hexit
  split_ifs at hexit with h1 h2
  · simp only [Option.some.injEq] at hexit
    subst hexit
    exact ⟨probeAt_pos_lt hv.tableCount_pos n, cell_of_match h1 h2⟩
  · simp at hexit

lemma lookup_ends {fuel : Nat} (hv : hm.Valid) (h : lookup fuel hm key = some none) :
    ∃ n, Passes hm.path hm.table key n ∧ hm.table (hm.path key n) = .unused := by
  obtain ⟨n, _, hbefore, hexit⟩ := loop_eq_some_iff.mp h
  have hp : Passes hm.path hm.table key n := hv.passes fun j hj => lookupExit_eq_none (hbefore j hj)
  refine ⟨n, hp, ?_⟩
  change lookupExit hm _ key (hm.probeAt key n) = _ at hexit
  unfold lookupExit at hexit
  split_ifs at hexit with h1 h2 h3
  · simp at hexit
  · rw [table_path hv.tableCount_pos, cell_eq_unused]
    exact h3

lemma lookup_absent {fuel : Nat} (hv : hm.Valid) (h : lookup fuel hm key = some none) :
    ¬Stored hm.table key := by
  obtain ⟨n, hp, hn⟩ := lookup_ends hv h
  exact hv.wellFormed.not_stored hp hn

lemma insertExit_eq_none {s : Probe × UInt32}
    (h : insertExit hm (hashWrapper hm key) key s = none) :
    hm.slot s.1.pos ≠ hmSlotUnused ∧
      ¬(hm.slot s.1.pos = hashWrapper hm key ∧ hm.key s.1.pos = key) := by
  unfold insertExit at h
  split_ifs at h with h1 h2
  exact ⟨h1, h2⟩

lemma insertExit_eq_exists {s : Probe × UInt32}
    (h : insertExit hm (hashWrapper hm key) key s = some none) :
    hm.slot s.1.pos = hashWrapper hm key ∧ hm.key s.1.pos = key := by
  unfold insertExit at h
  by_cases h1 : hm.slot s.1.pos = hmSlotUnused
  · rw [if_pos h1] at h
    cases h
  · rw [if_neg h1] at h
    by_contra h2
    rw [if_neg h2] at h
    cases h

lemma insertExit_eq_store {s : Probe × UInt32} {pos : UInt32}
    (h : insertExit hm (hashWrapper hm key) key s = some (some pos)) :
    hm.slot s.1.pos = hmSlotUnused ∧
      (s.2 ≠ hmSlotInvalid ∧ pos = s.2 ∨ s.2 = hmSlotInvalid ∧ pos = s.1.pos) := by
  unfold insertExit at h
  by_cases h1 : hm.slot s.1.pos = hmSlotUnused
  · rw [if_pos h1, Option.some.injEq, Option.some.injEq] at h
    refine ⟨h1, ?_⟩
    by_cases h2 : s.2 = hmSlotInvalid
    · rw [if_neg (not_not.mpr h2)] at h
      exact Or.inr ⟨h2, h.symm⟩
    · rw [if_pos h2] at h
      exact Or.inl ⟨h2, h.symm⟩
  · rw [if_neg h1] at h
    split_ifs at h
    cases h

/-- After `n` passes `last_tombstone` is the position of a tombstone among the first `n`, or
still invalid when there is none. -/
lemma insertNext_iterate (hm : Hashmap) (key : List Byte) (n : Nat) :
    ∃ last, (insertNext hm (hashWrapper hm key))^[n]
        (Probe.start hm.tableCount (hashWrapper hm key), hmSlotInvalid) = (hm.probeAt key n, last) ∧
      ((last = hmSlotInvalid ∧ ∀ j < n, hm.cell (hm.probeAt key j).pos ≠ .tombstone) ∨
        ∃ j < n, last = (hm.probeAt key j).pos ∧ hm.cell last = .tombstone) := by
  induction n with
  | zero => exact ⟨_, rfl, Or.inl ⟨rfl, fun j hj => by omega⟩⟩
  | succ n ih =>
    obtain ⟨last, hs, hlast⟩ := ih
    rw [Function.iterate_succ_apply', hs, probeAt_succ]
    by_cases hrip : hm.slot (hm.probeAt key n).pos = hmSlotRip
    · have hcell := cell_eq_tombstone.mpr hrip
      refine ⟨(hm.probeAt key n).pos, ?_, Or.inr ⟨n, by omega, rfl, hcell⟩⟩
      rw [insertNext, if_pos ⟨by rw [hrip]; exact (hashWrapper_not_reserved hm key).2.1.symm, hrip⟩]
    · refine ⟨last, by rw [insertNext, if_neg fun h => hrip h.2], ?_⟩
      rcases hlast with ⟨hinv, hnone⟩ | ⟨j, hj, h⟩
      · refine Or.inl ⟨hinv, fun j hj => ?_⟩
        rcases Nat.lt_succ_iff_lt_or_eq.mp hj with hj | rfl
        · exact hnone j hj
        · exact cell_eq_tombstone.not.mpr hrip
      · exact Or.inr ⟨j, by omega, h⟩

lemma insertLoop_stored {fuel : Nat} (h : loop (insertExit hm (hashWrapper hm key) key)
      (insertNext hm (hashWrapper hm key)) fuel
      (Probe.start hm.tableCount (hashWrapper hm key), hmSlotInvalid) = some none)
    (htc : 0 < hm.tableCount.toNat) : Stored hm.table key := by
  obtain ⟨n, _, _, hexit⟩ := loop_eq_some_iff.mp h
  obtain ⟨last, hs, _⟩ := insertNext_iterate hm key n
  rw [hs] at hexit
  obtain ⟨hslot, hkey⟩ := insertExit_eq_exists hexit
  refine ⟨hm.path key n, ?_⟩
  rw [table_path htc]
  exact cell_of_match hslot hkey

lemma insertLoop_storable {fuel : Nat} {pos : UInt32}
    (h : loop (insertExit hm (hashWrapper hm key) key) (insertNext hm (hashWrapper hm key)) fuel
      (Probe.start hm.tableCount (hashWrapper hm key), hmSlotInvalid) = some (some pos))
    (hv : hm.Valid) :
    pos.toNat < hm.tableCount.toNat ∧ ∃ n, Passes hm.path hm.table key n ∧
      hm.table (hm.path key n) = .unused ∧ Storable hm.path hm.table key n pos.toNat := by
  have htc := hv.tableCount_pos
  obtain ⟨n, _, hbefore, hexit⟩ := loop_eq_some_iff.mp h
  obtain ⟨last, hs, hlast⟩ := insertNext_iterate hm key n
  rw [hs] at hexit
  obtain ⟨hslot, hpos⟩ := insertExit_eq_store hexit
  have hpasses : Passes hm.path hm.table key n := by
    refine hv.passes fun i hi => ?_
    obtain ⟨l, hl, _⟩ := insertNext_iterate hm key i
    have hi' := hbefore i hi
    rw [hl] at hi'
    have hnone := insertExit_eq_none hi'
    exact hnone
  have hunused : hm.table (hm.path key n) = .unused := by
    rw [table_path htc, cell_eq_unused]
    exact hslot
  dsimp only at hpos
  rcases hlast with ⟨hl, hnone⟩ | ⟨j, hj, hj', hcell⟩
  · have hp : pos = (hm.probeAt key n).pos := (hpos.resolve_left fun h => h.1 hl).2
    have hlt : pos.toNat < hm.tableCount.toNat := by
      rw [hp]
      exact probeAt_pos_lt htc n
    refine ⟨hlt, n, hpasses, hunused, Or.inl ⟨by rw [hp, path_eq], fun i hi => ?_⟩⟩
    rw [table_path htc]
    exact hnone i hi
  · have hlast : last.toNat < hm.tableCount.toNat := by
      rw [hj']
      exact probeAt_pos_lt htc j
    have hl : last ≠ hmSlotInvalid := by
      rintro rfl
      have := hm.tableCount.toNat_lt
      change 2 ^ 32 - 1 < hm.tableCount.toNat at hlast
      omega
    have hp : pos = last := (hpos.resolve_right fun h => hl h.1).2
    refine ⟨hp ▸ hlast, n, hpasses, hunused, Or.inr ⟨j, hj, by rw [hp, hj', path_eq], ?_⟩⟩
    rw [hp, table_toNat hlast]
    exact hcell

/-- An insertion that returns has found the key, or stores it at a position that is free for
it at the end of its probe path. -/
theorem insertProbed_spec {fuel : Nat} {value : Option (List Byte)} {status : HashmapStatus}
    {hm' : Hashmap} (hv : hm.Valid) (h : insertProbed fuel hm key value = some (status, hm')) :
    (status = .hmExists ∧ hm' = hm ∧ Stored hm.table key) ∨
      ∃ n, ∃ pos : UInt32, status = .hmOk ∧
        hm' = storeEntry hm pos (hashWrapper hm key) key value ∧ pos.toNat < hm.tableCount.toNat ∧
        Passes hm.path hm.table key n ∧ hm.table (hm.path key n) = .unused ∧
        Storable hm.path hm.table key n pos.toNat := by
  unfold insertProbed at h
  simp only at h
  split at h
  · simp at h
  · next hloop =>
    simp only [Option.some.injEq, Prod.mk.injEq] at h
    exact Or.inl ⟨h.1.symm, h.2.symm, insertLoop_stored hloop hv.tableCount_pos⟩
  · next pos hloop =>
    simp only [Option.some.injEq, Prod.mk.injEq] at h
    obtain ⟨hlt, n, hn⟩ := insertLoop_storable hloop hv
    exact Or.inr ⟨n, pos, h.1.symm, h.2.symm, hlt, hn⟩

end Hashmap

end CStructures
