import CStructures.Proofs.HashmapRehash

/-!
# The load of the table

`hashmap_insert` computes the load in 32 bits. The computed load reaches 70 percent exactly
when the true load does, as long as a hundred times the used slots fit in a word.
-/

namespace CStructures
open Lib

def refusingAllocator : Allocator Unit where
  malloc _ := pure none
  free _ := pure ()

namespace Hashmap

variable {hm hm' : Hashmap} {key : List Byte} {value : Option (List Byte)} {status : HashmapStatus}

def Loaded (hm : Hashmap) : Prop := hm.tableCount.toNat * 70 ≤ hm.slotsUsed.toNat * 100

/-- `hashmap_insert` asks for a larger table before it inserts: it is out of memory if that is
refused, whatever the key. -/
def Expands (hm : Hashmap) : Prop := ∀ fuel key value,
  hashmapInsert refusingAllocator (fuel + 1) hm key value () = some ((.hmOom, hm), ())

/-- The table is expanded when it is loaded, and then to three times its slots. -/
structure TriggerExact (hm : Hashmap) : Prop where
  trigger : hm.Expands ↔ hm.Loaded
  triples : hm.Expands → ∀ {σ : Type} (A : Allocator σ) fuel key value s status hm' s',
    hashmapInsert A fuel hm key value s = some ((status, hm'), s') → status ≠ .hmOom →
      hm'.tableCount.toNat = hm.tableCount.toNat * 3 ∧ hm.tableCount < hm'.tableCount
  stays : ¬hm.Expands → ∀ {σ : Type} (A : Allocator σ) fuel key value s status hm' s',
    hashmapInsert A fuel hm key value s = some ((status, hm'), s') →
      status ≠ .hmOom ∧ hm'.tableCount = hm.tableCount

lemma expands_iff : hm.Expands ↔ loadCheck hm = true := by
  constructor
  · intro h
    by_contra hload
    have hinsert := h 0 [] none
    rw [hashmapInsert, if_neg hload, lift_eq_some] at hinsert
    exact (insertProbed_fields hinsert.1).1 rfl
  · intro hload fuel key value
    rw [hashmapInsert, if_pos hload]
    rfl

section Insert

variable {σ : Type} {A : Allocator σ} {s s' : σ} {fuel : Nat}

lemma resizeRehash_tableCount {insert : Hashmap → List Byte → Option (List Byte) →
    StateT σ Option (HashmapStatus × Hashmap)} {n : UInt32} {new : Hashmap}
    (h : resizeRehash A insert hm n s = some (some new, s')) : new.tableCount = n := by
  rw [resizeRehash, bind_eq_some] at h
  obtain ⟨storage, s1, _, h⟩ := h
  cases storage with
  | none =>
    obtain ⟨h, _⟩ := pure_eq_some.mp h
    cases h
  | some storage =>
    rw [bind_eq_some] at h
    obtain ⟨r, s2, _, h⟩ := h
    cases r with
    | none =>
      obtain ⟨h, _⟩ := pure_eq_some.mp h
      cases h
    | some moved =>
      rw [bind_eq_some] at h
      obtain ⟨_, s3, _, h⟩ := h
      obtain ⟨h, _⟩ := pure_eq_some.mp h
      rw [← Option.some.inj h]

lemma hashmapInsert_tableCount (h : hashmapInsert A fuel hm key value s = some ((status, hm'), s'))
    (hload : loadCheck hm = true) (hst : status ≠ .hmOom) :
    hm'.tableCount = hm.tableCount * hmExpandFactor := by
  cases fuel with
  | zero => cases h
  | succ fuel =>
    rw [hashmapInsert, if_pos hload, bind_eq_some] at h
    obtain ⟨r, s1, hresize, h⟩ := h
    cases r with
    | none =>
      obtain ⟨h, _⟩ := pure_eq_some.mp h
      rw [Prod.mk.injEq] at h
      exact absurd h.1.symm hst
    | some new =>
      have hprobed := (insertProbed_fields (lift_eq_some.mp h).1).2.1
      exact hprobed.trans (resizeRehash_tableCount hresize)

end Insert

/-- The computed load is the true one in a small table, and never high enough in a large one. -/
lemma loadCheck_iff_loaded (hpos : 0 < hm.tableCount) (hused : hm.slotsUsed ≤ hm.tableCount) :
    loadCheck hm = true ↔ hm.Loaded ∧ hm.slotsUsed.toNat * 100 < 2 ^ 32 := by
  rw [pos_iff_toNat_pos] at hpos
  rw [UInt32.le_iff_toNat_le] at hused
  rw [loadCheck_iff, Nat.le_div_iff_mul_le hpos, Loaded, Nat.mul_comm 70]
  have hmod := Nat.mod_le (hm.slotsUsed.toNat * 100) (2 ^ 32)
  constructor
  · intro h
    have hload := h.trans hmod
    refine ⟨hload, ?_⟩
    -- were the product to wrap, more than the whole table would have to be used
    omega
  · rintro ⟨hload, hlt⟩
    rwa [Nat.mod_eq_of_lt hlt]

/-- In every table with at least one slot and no more used slots than slots, `hashmap_insert`
expands exactly at a load of 70 percent, and then to three times the slots, if a hundred times
the used slots do not wrap or the load is lower. -/
theorem rehash_trigger_exact (hm : Hashmap) (hpos : 0 < hm.tableCount)
    (hused : hm.slotsUsed ≤ hm.tableCount) :
    hm.TriggerExact ↔ hm.slotsUsed.toNat * 100 < 2 ^ 32 ∨ ¬hm.Loaded := by
  have hcheck := loadCheck_iff_loaded hpos hused
  constructor
  · intro h
    by_contra hcon
    push Not at hcon
    have hload := expands_iff.mp (h.trigger.mpr hcon.2)
    have hlt := (hcheck.mp hload).2
    omega
  · intro h
    refine ⟨?_, ?_, ?_⟩
    · rw [expands_iff, hcheck]
      tauto
    · intro hexpands σ A fuel key value s status hm' s' hinsert hst
      have hload := expands_iff.mp hexpands
      have hcount := hashmapInsert_tableCount hinsert hload hst
      have hthree := expanded_toNat hload
      rw [UInt32.lt_iff_toNat_lt, hcount]
      rw [pos_iff_toNat_pos] at hpos
      omega
    · intro hexpands σ A fuel key value s status hm' s' hinsert
      rw [expands_iff] at hexpands
      obtain ⟨_, fuel', hprobed⟩ := hashmapInsert_of_not_loadCheck hexpands hinsert
      have hfields := insertProbed_fields hprobed
      exact ⟨hfields.1, hfields.2.1⟩

theorem rehash_trigger_exact_default :
    (⟨128, 4, 4, 90, hash32JenkinsOaat, ⟨16, 1536, fun _ => 0⟩⟩ : Hashmap).TriggerExact :=
  (rehash_trigger_exact _ (by decide) (by decide)).mpr (Or.inl (by decide))

/-- With 42949673 of 61356675 slots used, the load is at 70 percent, and a hundred times the
used slots are 4 in a word. -/
theorem rehash_trigger_missed :
    ¬(⟨61356675, 4, 4, 42949673, hash32JenkinsOaat, ⟨16, 736280100, fun _ => 1⟩⟩ : Hashmap).TriggerExact := by
  intro h
  have hload := expands_iff.mp (h.trigger.mpr (by unfold Loaded; decide))
  revert hload
  decide

end Hashmap

end CStructures
