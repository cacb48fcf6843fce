import CStructures.Proofs.BtreeEntries
import Mathlib.Data.List.Nodup

/-!
# Erasure by value

The search has an index that no entry can have for its answer that there is none. The erasure
turns it into a key for the same purpose, and that key can be inserted like any other.
-/

namespace CStructures
open Lib

namespace Btree

variable {b : Btree} {m : KeyMap} {value : List Byte} {k : UInt32}

/-- The keys of the entries with a value. -/
def keysOf (b : Btree) (value : List Byte) : Set UInt32 := {k | (k, value) ∈ b.entries}

/-- The invalid key is returned exactly when no entry has the value, and then nothing changes.
Otherwise the entry with the least key goes, and its key is returned. -/
structure ErasesTruthfully (b : Btree) (value : List Byte) : Prop where
  invalid : (btreeEraseValue b value).val.1 = btreeInvalidKey ↔ ∀ k, k ∉ b.keysOf value
  unchanged : (∀ k, k ∉ b.keysOf value) → (btreeEraseValue b value).val.2 = b
  erased : ∀ k, IsLeast (b.keysOf value) k →
    (btreeEraseValue b value).val.1 = k ∧
      (btreeEraseValue b value).val.2.entries = b.entries.erase (k, value)

lemma Sound.entries_nodup (h : b.Sound) : b.entries.Nodup := by
  apply List.Nodup.of_map Prod.fst
  exact h.entries_ascending.imp fun hlt => hlt.ne

lemma Represents.isLeast_iff (h : b.Represents m) : IsLeast (b.keysOf value) k ↔ LeastKeyOf m value k := by
  rw [LeastKeyOf, h.lookup_iff]
  apply and_congr Iff.rfl
  constructor
  · intro hle k' hk'
    exact hle ((h.lookup_iff k' value).mp hk')
  · intro hle k' hk'
    exact hle k' ((h.lookup_iff k' value).mpr hk')

/-- What the erasure does, whichever key it returns. -/
theorem Represents.eraseValue (h : b.Represents m) (value : List Byte) :
    let r := (btreeEraseValue b value).val
    ((∀ k, k ∉ b.keysOf value) ∧ r = (btreeInvalidKey, b)) ∨
      (IsLeast (b.keysOf value) r.1 ∧ r.2.entries = b.entries.erase (r.1, value)) := by
  rw [val_eraseValue]
  rcases h.matchingValue value with ⟨hi, hnone⟩ | ⟨hne, hi, hleast⟩
  · rw [if_pos hi]
    exact Or.inl ⟨fun k hk => hnone k ((h.lookup_iff k value).mpr hk), rfl⟩
  · rw [if_neg hne]
    right
    set i := (btreeFindIndexOfMatchingValue b value).val
    obtain ⟨hkey, _, herased⟩ := h.sound.eraseIndex hi
    have hlen : i.toNat < b.entries.length := by rwa [length_entries]
    have hentry : b.entries[i.toNat] = (b.keys i.toNat, value) := by
      have hlookup := h.tabulates.lookup hi
      rw [hleast.1] at hlookup
      rw [getElem_entries h.sound.countFits, ← Option.some.inj hlookup]
    rw [hkey, herased, ← hentry, h.sound.entries_nodup.erase_getElem]
    exact ⟨h.isLeast_iff.mpr hleast, rfl⟩

theorem Represents.erasesTruthfully_iff (h : b.Represents m) (value : List Byte) :
    b.ErasesTruthfully value ↔ ¬IsLeast (b.keysOf value) btreeInvalidKey := by
  constructor
  · intro htrue hleast
    obtain ⟨hkey, _⟩ := htrue.erased _ hleast
    exact htrue.invalid.mp hkey _ hleast.1
  · intro hnot
    rcases h.eraseValue value with ⟨hnone, hr⟩ | ⟨hleast, herased⟩
    · rw [Prod.ext_iff] at hr
      exact ⟨iff_of_true hr.1 hnone, fun _ => hr.2, fun k hk => absurd hk.1 (hnone k)⟩
    · refine ⟨iff_of_false ?_ ?_, ?_, ?_⟩
      · intro hkey
        rw [hkey] at hleast
        exact hnot hleast
      · intro hnone
        exact hnone _ hleast.1
      · intro hnone
        exact absurd hleast.1 (hnone _)
      · intro k hk
        rw [hk.unique hleast]
        exact ⟨rfl, herased⟩

end Btree

/-- On every btree that a run within the bounds reaches, erasure by value reports truthfully unless
the key that stands for a missing value is itself the least key with the value. -/
theorem btree_erase_value_truthful_iff {valueSize : UInt32} {actions : List BtreeAction} {b : Btree}
    (hrun : Run Btree.BoundedStep (btreeInit valueSize) actions b) (value : List Byte) :
    b.ErasesTruthfully value ↔ ¬IsLeast (b.keysOf value) btreeInvalidKey := by
  obtain ⟨m, hrep⟩ := Btree.represents_of_run hrun
  exact hrep.erasesTruthfully_iff value

def topKeyCalls : List BtreeCall := [.insertNew 7 [1], .insertNew btreeInvalidKey [2]]

/-- The largest key has the value 2, and the erasure that removes it answers that there is none. -/
theorem btree_erase_value_hides_top_key : ∃ b : Btree,
    Run Btree.BoundedStep (btreeInit 1) (Btree.grantedActions topKeyCalls) b ∧
    (btreeInvalidKey, [2]) ∈ b.entries ∧ (btreeEraseValue b [2]).val.1 = btreeInvalidKey ∧
    (btreeEraseValue b [2]).val.2.entries = [(7, [1])] ∧ ¬b.ErasesTruthfully [2] := by
  have hresult : ((Btree.grantedActions topKeyCalls).foldlM Btree.boundedAct (btreeInit 1)).map
      (fun b => (b.entries, (btreeEraseValue b [2]).val.1, (btreeEraseValue b [2]).val.2.entries)) =
        some ([(7, [1]), (btreeInvalidKey, [2])], btreeInvalidKey, [(7, [1])]) := by decide +kernel
  obtain ⟨b, hrun, hb⟩ := Run.exists_of_foldlM Btree.boundedAct_step hresult
  simp only [Prod.mk.injEq] at hb
  obtain ⟨hentries, hkey, herased⟩ := hb
  have hmem : (btreeInvalidKey, [2]) ∈ b.entries := by
    rw [hentries]
    exact List.mem_cons_of_mem _ List.mem_cons_self
  exact ⟨b, hrun, hmem, hkey, herased, fun htrue => htrue.invalid.mp hkey _ hmem⟩

theorem btree_erase_value_truthful_iff_short : ∃ b : Btree, b.entries = [(3, [1]), (5, [2]), (8, [2])] ∧
    b.ErasesTruthfully [2] := by
  have hentries : ((Btree.grantedActions [.insertNew 5 [2], .insertNew 3 [1], .insertNew 8 [2]]).foldlM
      Btree.boundedAct (btreeInit 1)).map Btree.entries = some [(3, [1]), (5, [2]), (8, [2])] := by
    decide +kernel
  obtain ⟨b, hrun, hb⟩ := Run.exists_of_foldlM Btree.boundedAct_step hentries
  refine ⟨b, hb, (btree_erase_value_truthful_iff hrun [2]).mpr ?_⟩
  intro hleast
  have hmem : (btreeInvalidKey, [2]) ∈ b.entries := hleast.1
  rw [hb] at hmem
  revert hmem
  decide

end CStructures
