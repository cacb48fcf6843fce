import CStructures.Proofs.BtreeAccess
import CStructures.Proofs.BtreeFailure

/-!
# Reached btrees and their entries

Every btree that calls, erasures through pointers and erasures in loops reach within the bounds
represents a map, whatever the allocator answers. Its entries are a list in ascending order.
-/

namespace CStructures
open Lib

namespace Btree

variable {b b' : Btree} {m : KeyMap} {action : BtreeAction} {idx : UInt32}

/-- One action with whatever the allocator answers, on a buffer with any bytes beyond the entries,
into a state within the bounds. -/
def BoundedStep : Btree → BtreeAction → Btree → Prop :=
  ActStep fun b action => (b.act action).InBounds

lemma valueToIdx_valueOffset {n : Nat} (hfit : n * b.valueSize.toNat < 2 ^ 32) (hpos : 0 < b.valueSize)
    (hidx : idx.toNat ≤ n) : b.valueToIdx (b.valueOffset idx) = idx := by
  have hpos' := pos_iff_toNat_pos.mp hpos
  have hoff : b.valueOffset idx - b.valueOffset 0 = b.valueSize.toNat * idx.toNat := by
    rw [valueOffset_toNat hfit hidx, valueOffset_toNat hfit (i := 0) (Nat.zero_le n), UInt32.toNat_zero]
    omega
  rw [valueToIdx, hoff, Nat.mul_div_cancel_left _ hpos', UInt32.ofNat_toNat]

theorem Represents.act (h : b.Represents m) (hallowed : b.Allowed action) (hbounds : (b.act action).InBounds) :
    ∃ m', (b.act action).Represents m' := by
  cases action with
  | call call answer =>
    cases answer with
    | none =>
      obtain ⟨m', _, hrep⟩ := h.failedCall hallowed hbounds
      exact ⟨m', hrep⟩
    | some g =>
      obtain ⟨m', _, hrep⟩ := h.call hallowed g hbounds
      exact ⟨m', hrep⟩
  | eraseInternalValue off =>
    obtain ⟨_, i, hi, rfl⟩ := hallowed
    exact ⟨_, (h.eraseIndex _ (valueToIdx_lt hi)).2⟩
  | eraseCurrentItem idx => exact ⟨_, (h.eraseIndex idx hallowed).2⟩

theorem represents_of_run {valueSize : UInt32} {actions : List BtreeAction}
    (hrun : Run BoundedStep (btreeInit valueSize) actions b) : ∃ m, b.Represents m := by
  apply Run.invariant (fun b => ∃ m, b.Represents m) _ ⟨∅, represents_init valueSize⟩ hrun
  rintro b action b' ⟨m, h⟩ ⟨b₁, hs, _, hallowed, hbounds, rfl⟩
  exact (h.scrambled hs).act hallowed hbounds

def boundedAct (b : Btree) : BtreeAction → Option Btree
  | .call call answer =>
    let b' := b.act (.call call answer)
    if b.count ≤ b.capacity ∧ call.Fits b ∧ b'.capacity.toNat < 2 ^ 31 ∧
        b'.capacity.toNat * b'.valueSize.toNat < 2 ^ 32 then some b'
    else none
  | _ => none

lemma boundedAct_step (b : Btree) (action : BtreeAction) (b' : Btree) (h : boundedAct b action = some b') :
    BoundedStep b action b' := by
  cases action with
  | call call answer =>
    unfold boundedAct at h
    dsimp only at h
    split_ifs at h with hok
    obtain ⟨hcount, hfits, hcap, hvalues⟩ := hok
    exact ⟨b, .refl b, UInt32.le_iff_toNat_le.mp hcount, hfits, ⟨hcap, hvalues⟩, (Option.some.inj h).symm⟩
  | _ => cases h

/-- A run of calls, each of which is granted what it asks for. -/
def grantedActions (calls : List BtreeCall) : List BtreeAction :=
  calls.map fun call => .call call (some zeroGrant)

/-- The entries in the order of the buffer, as the macros address them. -/
def entries (b : Btree) : List (UInt32 × List Byte) :=
  tabulate (fun i => (load32 b.bytes (keyOffset i), b.deref (b.valueOffset (UInt32.ofNat i)))) b.count.toNat

lemma length_entries : b.entries.length = b.count.toNat := length_tabulate

lemma Sound.countFits (h : b.Sound) : b.count.toNat * b.valueSize.toNat < 2 ^ 32 :=
  lt_of_le_of_lt (Nat.mul_le_mul_right _ h.count_le) h.bounds.valuesFit

lemma entries_eq (hfit : b.count.toNat * b.valueSize.toNat < 2 ^ 32) :
    b.entries = tabulate (fun i => (b.keys i, b.vals i)) b.count.toNat := by
  apply tabulate_congr
  intro i hi
  have hto := toNat_ofNat_of_le hi.le
  rw [← keys_eq, deref_valueOffset hfit (by omega), hto]

lemma getElem_entries (hfit : b.count.toNat * b.valueSize.toNat < 2 ^ 32) {i : Nat} (hi : i < b.entries.length) :
    b.entries[i] = (b.keys i, b.vals i) := by
  simp only [entries_eq hfit, getElem_tabulate]

lemma SameEntries.entries (h : SameEntries b b') (hfit : b.count.toNat * b.valueSize.toNat < 2 ^ 32) :
    b'.entries = b.entries := by
  rw [entries_eq hfit, entries_eq (by rw [h.count, h.valueSize]; exact hfit), h.count]
  apply tabulate_congr
  intro i hi
  rw [h.keys i hi, h.vals i hi]

lemma Sound.entries_ascending (h : b.Sound) : (b.entries.map Prod.fst).Pairwise (· < ·) := by
  rw [List.pairwise_iff_getElem]
  intro i j hi hj hij
  rw [List.length_map] at hi hj
  rw [List.getElem_map, List.getElem_map, getElem_entries h.countFits, getElem_entries h.countFits]
  rw [length_entries] at hj
  exact h.ascending i j hij hj

/-- Erasure at an index takes that entry out of the list. -/
theorem Sound.eraseIndex (h : b.Sound) (hidx : idx.toNat < b.count.toNat) :
    let r := (btreeEraseIndex b idx).val
    r.1 = b.keys idx.toNat ∧ r.2.Sound ∧ r.2.entries = b.entries.eraseIdx idx.toNat := by
  have hcb := h.count_le
  have hd := h.isSome (by omega)
  obtain ⟨hkey, hcount, hcap, hvs, hsize, hkeys, hvals⟩ := eraseIndex_spec hd h.bounds.valuesFit hidx hcb
  set b' := (btreeEraseIndex b idx).val.2 with hb'
  have hasc := h.ascending
  rw [← hcount] at hasc
  have hsound : b'.Sound := h.of_sameBuffer hcap hvs hsize (by omega) (hasc.eraseAt.congr hkeys)
  refine ⟨hkey, hsound, ?_⟩
  rw [entries_eq hsound.countFits, entries_eq h.countFits, ← hcount, ← tabulate_eraseAt (by omega)]
  apply tabulate_congr
  intro i hi
  rw [hkeys i hi, hvals i hi]
  unfold eraseAt
  split_ifs <;> rfl

lemma mem_entries_iff {k : UInt32} {v : List Byte} (hfit : b.count.toNat * b.valueSize.toNat < 2 ^ 32) :
    (k, v) ∈ b.entries ↔ Holds b.keys b.vals b.count.toNat k v := by
  rw [entries_eq hfit, List.mem_iff_getElem]
  constructor
  · rintro ⟨i, hi, heq⟩
    rw [getElem_tabulate, Prod.mk.injEq] at heq
    exact ⟨i, by simpa using hi, heq.1, heq.2⟩
  · rintro ⟨i, hi, rfl, rfl⟩
    exact ⟨i, by simpa using hi, by simp⟩

lemma Represents.lookup_iff (h : b.Represents m) (k : UInt32) (v : List Byte) :
    m.lookup k = some v ↔ (k, v) ∈ b.entries := by
  rw [h.tabulates k v, mem_entries_iff h.sound.countFits]

/-- `off` is the address of the value with the key `k`. -/
def PointsTo (b : Btree) (k : UInt32) (off : Nat) : Prop :=
  ∃ i : UInt32, i.toNat < b.count.toNat ∧ b.keys i.toNat = k ∧ off = b.valueOffset i

lemma pointsTo_of_lt {p : Nat} (hp : p < b.count.toNat) {k : UInt32} (hk : b.keys p = k) :
    b.PointsTo k (b.valueOffset (UInt32.ofNat p)) := by
  have hto := toNat_ofNat_of_le hp.le
  exact ⟨UInt32.ofNat p, by omega, by rw [hto, hk], rfl⟩

end Btree

end CStructures
