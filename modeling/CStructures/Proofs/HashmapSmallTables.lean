import CStructures.Proofs.HashmapIteration
import CStructures.Proofs.HashmapTombstones

/-!
# Small tables

An insertion checks the load before it counts its own entry. One entry more than the load that
passes the check is less than the whole table from four slots on, and can be all of a smaller one.
-/

namespace CStructures
open Lib

namespace Hashmap

variable {hm hm' : Hashmap} {key : List Byte} {value : Option (List Byte)} {tableCount : UInt32}

def BoundedInsertStep {σ : Type} (A : Allocator σ) (c : Hashmap × σ) (l : HashmapCall × HashmapAnswer)
    (c' : Hashmap × σ) : Prop :=
  InsertStep A c l c' ∧ c.1.slotsUsed.toNat * 100 < 2 ^ 32 ∧ c.1.tableCount.toNat * 3 < 2 ^ 32

/-- Every run of insertions into a new map with this table count leaves a slot for searches to stop at. -/
def KeepsFreeSlot (tableCount : UInt32) : Prop :=
  ∀ (σ : Type) (A : Allocator σ) (keySize valueSize : UInt32) (hash : Hash32Func) (s s₀ s' : σ)
    (hm₀ hm : Hashmap) (ls : List (HashmapCall × HashmapAnswer)),
    hashmapInitWithOptions A keySize valueSize tableCount hash s = some (some hm₀, s₀) →
      Run (BoundedInsertStep A) (hm₀, s₀) ls (hm, s') → hm.slotsUsed < hm.tableCount ∧ hm.HasUnused

lemma EraseFree.hasUnused (h : hm.EraseFree) (hlt : hm.slotsUsed.toNat < hm.tableCount.toNat) : hm.HasUnused := by
  have hparts := h.valid.unusedCount_add_used h.noTombstone
  rw [hasUnused_iff]
  omega

/-- A load that passes the check leaves two slots free in a table of four or more. -/
lemma two_free_of_not_loadCheck (hload : ¬loadCheck hm = true) (hused : hm.slotsUsed.toNat * 100 < 2 ^ 32)
    (hcount : 4 ≤ hm.tableCount.toNat) : hm.slotsUsed.toNat + 1 < hm.tableCount.toNat := by
  rw [loadCheck_iff, Nat.mod_eq_of_lt hused, Nat.le_div_iff_mul_le (by omega)] at hload
  omega

structure NotFull (hm : Hashmap) : Prop where
  eraseFree : hm.EraseFree
  four_le : 4 ≤ hm.tableCount.toNat
  used_lt : hm.slotsUsed.toNat < hm.tableCount.toNat

lemma boundedInsert_eraseFree {σ : Type} {A : Allocator σ} {c c' : Hashmap × σ}
    {l : HashmapCall × HashmapAnswer} (h : c.1.EraseFree) (hstep : BoundedInsertStep A c l c') :
    c'.1.EraseFree := by
  obtain ⟨⟨hstep, key, value, hl⟩, _⟩ := hstep
  obtain ⟨status, hins⟩ := insertStep_inserted h hl hstep
  exact hins.eraseFree

theorem NotFull.insert {σ : Type} {A : Allocator σ} {c c' : Hashmap × σ} {l : HashmapCall × HashmapAnswer}
    (h : c.1.NotFull) (hstep : BoundedInsertStep A c l c') : c'.1.NotFull := by
  obtain ⟨⟨hstep, key, value, hl⟩, hused, _⟩ := hstep
  obtain ⟨status, hins⟩ := insertStep_inserted h.eraseFree hl hstep
  have hfour := h.four_le
  have hlt := h.used_lt
  have hroom : c.1.slotsUsed.toNat + 1 <
      if loadCheck c.1 then c.1.tableCount.toNat * 3 else c.1.tableCount.toNat := by
    split_ifs with hload
    · omega
    · exact two_free_of_not_loadCheck hload hused hfour
  rcases hins.outcome with ⟨_, hsame⟩ | ⟨hcount, hout⟩
  · rw [hsame]
    exact h
  · rw [← hcount] at hroom
    refine ⟨hins.eraseFree, ?_, ?_⟩
    · rw [hcount]
      split_ifs <;> omega
    · rcases hout with ⟨_, _, hsame⟩ | ⟨_, _, hmore, _⟩
      · rw [hsame]
        omega
      · omega

theorem keepsFreeSlot_of_four_le (hfour : 4 ≤ tableCount) (hsmall : tableCount.toNat * 3 < 2 ^ 32) :
    KeepsFreeSlot tableCount := by
  intro σ A keySize valueSize hash s s₀ s' hm₀ hm ls hinit hrun
  have hfour' : 4 ≤ tableCount.toNat := UInt32.le_iff_toNat_le.mp hfour
  obtain ⟨hef, htc, _, _, _, _, hused⟩ := hashmapInitWithOptions_eraseFree (by omega) (by omega) hinit
  have hstart : hm₀.NotFull := by
    refine ⟨hef, by rwa [htc], ?_⟩
    rw [hused, htc, UInt32.toNat_zero]
    omega
  have hfree : hm.NotFull := hrun.invariant (fun c => c.1.NotFull) (fun c l c' h hstep => h.insert hstep) hstart
  exact ⟨UInt32.lt_iff_toNat_lt.mpr hfree.used_lt, hfree.eraseFree.hasUnused hfree.used_lt⟩

def boundedInsert (c : Hashmap × Unit) : HashmapCall → Option (HashmapAnswer × Hashmap × Unit)
  | .insert key value =>
    if c.1.slotsUsed.toNat * 100 < 2 ^ 32 ∧ c.1.tableCount.toNat * 3 < 2 ^ 32 then
      steppedCall c (.insert key value)
    else none
  | _ => none

lemma boundedInsert_step {c c' : Hashmap × Unit} {call : HashmapCall} {answer : HashmapAnswer}
    (h : boundedInsert c call = some (answer, c')) : BoundedInsertStep zeroAllocator c (call, answer) c' := by
  cases call with
  | insert key value =>
    unfold boundedInsert at h
    dsimp only at h
    split_ifs at h with hbounds
    exact ⟨⟨steppedCall_step h, key, value, rfl⟩, hbounds⟩
  | _ => cases h

def byteHash : Hash32Func := fun key => UInt32.ofNat (ofLe key)

def filledMap (tableCount : UInt32) (calls : List HashmapCall) : Option Hashmap :=
  (hashmapInitWithOptions zeroAllocator 1 0 tableCount byteHash ()).bind fun r =>
    r.1.bind fun hm => (runCalls boundedInsert (hm, ()) calls).map fun r => r.2.1

lemma run_of_filledMap {calls : List HashmapCall} (h : filledMap tableCount calls = some hm) :
    ∃ hm₀ ls, hashmapInitWithOptions zeroAllocator 1 0 tableCount byteHash () = some (some hm₀, ()) ∧
      Run (BoundedInsertStep zeroAllocator) (hm₀, ()) ls (hm, ()) := by
  obtain ⟨⟨r, s⟩, hinit, hrest⟩ := Option.bind_eq_some_iff.mp h
  obtain ⟨hm₀, rfl, hcalls⟩ := Option.bind_eq_some_iff.mp hrest
  obtain ⟨ls, ⟨hm', s'⟩, hrun, rfl⟩ := Run.exists_of_runCalls (fun _ _ _ _ h => boundedInsert_step h) hcalls
  exact ⟨hm₀, ls, hinit, hrun⟩

/-- Keys for different slots of a table with up to three. -/
def fillingCalls : List HashmapCall := [.insert [3] none, .insert [4] none, .insert [5] none]

lemma not_keepsFreeSlot {calls : List HashmapCall} (h : (filledMap tableCount calls).map
    (fun hm => decide (hm.slotsUsed = hm.tableCount)) = some true) : ¬KeepsFreeSlot tableCount := by
  intro hkeeps
  obtain ⟨hm, hfilled, hfull⟩ := Option.map_eq_some_iff.mp h
  obtain ⟨hm₀, ls, hinit, hrun⟩ := run_of_filledMap hfilled
  obtain ⟨hlt, _⟩ := hkeeps Unit zeroAllocator 1 0 byteHash () () () hm₀ hm ls hinit hrun
  rw [of_decide_eq_true hfull] at hlt
  exact lt_irrefl _ hlt

/-- As many entries as a table has slots get past the load check of a table with one to three. -/
theorem small_table_fills (hpos : 0 < tableCount) (hlt : tableCount < 4) : ¬KeepsFreeSlot tableCount := by
  rw [pos_iff_toNat_pos] at hpos
  rw [UInt32.lt_iff_toNat_lt] at hlt
  change tableCount.toNat < 4 at hlt
  have hcases : tableCount = 1 ∨ tableCount = 2 ∨ tableCount = 3 := by
    simp only [← UInt32.toNat_inj]
    change tableCount.toNat = 1 ∨ tableCount.toNat = 2 ∨ tableCount.toNat = 3
    omega
  rcases hcases with rfl | rfl | rfl
  · exact @not_keepsFreeSlot 1 (fillingCalls.take 1) (by decide +kernel)
  · exact @not_keepsFreeSlot 2 (fillingCalls.take 2) (by decide +kernel)
  · exact @not_keepsFreeSlot 3 fillingCalls (by decide +kernel)

theorem Valid.find_never_returns (hv : hm.Valid) (hfull : ¬hm.HasUnused) (hkey : ¬Stored hm.table key)
    (fuel : Nat) : hashmapFind fuel hm key = none := by
  unfold hashmapFind
  cases hlookup : lookup fuel hm key with
  | none => rfl
  | some r =>
    cases r with
    | none =>
      obtain ⟨n, _, hunused⟩ := lookup_ends hv hlookup
      rw [table_path hv.tableCount_pos, cell_eq_unused] at hunused
      exact absurd ⟨_, probeAt_pos_lt hv.tableCount_pos n, hunused⟩ hfull
    | some pos =>
      obtain ⟨hlt, hlive⟩ := lookup_found hv hlookup
      rw [← table_toNat hlt] at hlive
      exact absurd ⟨_, hlive⟩ hkey

end Hashmap

/-- With a table of `tableCount` slots at the start, every run of insertions that return keeps fewer
entries than slots, and with that an unused slot, if and only if there are at least four slots. -/
theorem hashmap_free_slot_iff {tableCount : UInt32} (hpos : 0 < tableCount)
    (hsmall : tableCount.toNat * 3 < 2 ^ 32) : Hashmap.KeepsFreeSlot tableCount ↔ 4 ≤ tableCount := by
  constructor
  · intro hkeeps
    by_contra hlt
    exact Hashmap.small_table_fills hpos (lt_of_not_ge hlt) hkeeps
  · intro hfour
    exact Hashmap.keepsFreeSlot_of_four_le hfour hsmall

theorem hashmap_free_slot_default : Hashmap.KeepsFreeSlot hmDefaultTableCount :=
  (hashmap_free_slot_iff (by decide) (by decide)).mpr (by decide)

/-- Three insertions fill a table of three slots, and then a search for a fourth key never returns. -/
theorem hashmap_three_slots_fill : ∃ hm₀ ls hm,
    hashmapInitWithOptions zeroAllocator 1 0 3 Hashmap.byteHash () = some (some hm₀, ()) ∧
    Run (Hashmap.BoundedInsertStep zeroAllocator) (hm₀, ()) ls (hm, ()) ∧
    hm.slotsUsed = 3 ∧ hm.tableCount = 3 ∧ ¬hm.HasUnused ∧ ¬Hashmap.KeepsFreeSlot 3 ∧
    ∀ fuel, hashmapFind fuel hm [6] = none := by
  have hresult : (Hashmap.filledMap 3 Hashmap.fillingCalls).map (fun hm => (hm.slotsUsed, hm.tableCount,
      (List.range 3).map hm.table)) = some (3, 3, [.live [3], .live [4], .live [5]]) := by decide +kernel
  obtain ⟨hm, hfilled, hm'⟩ := Option.map_eq_some_iff.mp hresult
  simp only [Prod.mk.injEq] at hm'
  obtain ⟨hused, htc, hcells⟩ := hm'
  obtain ⟨hm₀, ls, hinit, hrun⟩ := Hashmap.run_of_filledMap hfilled
  obtain ⟨hef, _⟩ := Hashmap.hashmapInitWithOptions_eraseFree (by decide) (by decide) hinit
  have hef' : hm.EraseFree := hrun.invariant (fun c => c.1.EraseFree)
    (fun c l c' h hstep => Hashmap.boundedInsert_eraseFree h hstep) hef
  have hlive : ∀ p < 3, ∃ k, hm.table p = .live k ∧ k ≠ [6] := by
    intro p hp
    have hcell : hm.table p ∈ (List.range 3).map hm.table := List.mem_map_of_mem (List.mem_range.mpr hp)
    rw [hcells] at hcell
    simp only [List.mem_cons, List.not_mem_nil, or_false] at hcell
    rcases hcell with h | h | h <;> exact ⟨_, h, by decide⟩
  have hfull : ¬hm.HasUnused := by
    rintro ⟨pos, hpos, hslot⟩
    rw [← Hashmap.cell_eq_unused, ← Hashmap.table_toNat hpos] at hslot
    rw [htc] at hpos
    obtain ⟨k, hk, _⟩ := hlive _ hpos
    rw [hslot] at hk
    cases hk
  have habsent : ¬Stored hm.table [6] := by
    rintro ⟨p, hp⟩
    have hlt := Hashmap.table_eq_live_lt hp
    rw [htc] at hlt
    obtain ⟨k, hk, hne⟩ := hlive p hlt
    rw [hp] at hk
    exact hne (Cell.live.inj hk).symm
  exact ⟨hm₀, ls, hm, hinit, hrun, hused, htc, hfull, Hashmap.small_table_fills (by decide) (by decide),
    hef'.valid.find_never_returns hfull habsent⟩

end CStructures
