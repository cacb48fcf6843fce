import CStructures.Lib.Run
import CStructures.Proofs.BtreeEdit

/-!
# The btree refines a sorted map

One specification for each operation, in terms of a finite map that the buffer represents,
and from them the simulation of whole runs.
-/

namespace CStructures
open Lib

abbrev KeyMap := Finmap fun _ : UInt32 => List Byte

/-- `k` is the least key of `m` that has the value `v`. -/
def LeastKeyOf (m : KeyMap) (v : List Byte) (k : UInt32) : Prop :=
  m.lookup k = some v ∧ ∀ k', m.lookup k' = some v → k ≤ k'

/-- The abstract map: what each call answers and leaves behind. -/
inductive SortedMapStep : KeyMap → BtreeCall × BtreeAnswer → KeyMap → Prop
  | insertNew {m k v} (h : k ∉ m) : SortedMapStep m (.insertNew k v, .status .ok) (m.insert k v)
  | insertOld {m k v} (h : k ∈ m) : SortedMapStep m (.insertNew k v, .status .exists) m
  | insertOrGetNew {m k v} (h : k ∉ m) :
      SortedMapStep m (.insertOrGet k v, .statusValue .notFound (some v)) (m.insert k v)
  | insertOrGetOld {m k v} (h : k ∈ m) :
      SortedMapStep m (.insertOrGet k v, .statusValue .exists (m.lookup k)) m
  | setOld {m k v} (h : k ∈ m) : SortedMapStep m (.setExisting k v, .status .ok) (m.insert k v)
  | setNew {m k v} (h : k ∉ m) : SortedMapStep m (.setExisting k v, .status .notFound) m
  | find {m k} : SortedMapStep m (.find k, .value (m.lookup k)) m
  | findKey {m v k} (h : LeastKeyOf m v k) : SortedMapStep m (.findKey v, .keyPointer (some k)) m
  | findNoKey {m v} (h : ∀ k, m.lookup k ≠ some v) : SortedMapStep m (.findKey v, .keyPointer none) m
  | findAndCompare {m k v} :
      SortedMapStep m (.findAndCompare k v, .flag (decide (m.lookup k = some v))) m
  | keyExists {m k} : SortedMapStep m (.keyExists k, .flag (decide (k ∈ m))) m
  | getAnyValue {m k v} (h : m.lookup k = some v) (hleast : ∀ k' ∈ m, k ≤ k') :
      SortedMapStep m (.getAnyValue, .value (some v)) m
  | getNoValue : SortedMapStep ∅ (.getAnyValue, .value none) ∅
  | eraseOld {m k} (h : k ∈ m) : SortedMapStep m (.erase k, .status .ok) (m.erase k)
  | eraseNew {m k} (h : k ∉ m) : SortedMapStep m (.erase k, .status .notFound) m
  | eraseValue {m v k} (h : LeastKeyOf m v k) : SortedMapStep m (.eraseValue v, .key k) (m.erase k)
  | eraseNoValue {m v} (h : ∀ k, m.lookup k ≠ some v) :
      SortedMapStep m (.eraseValue v, .key btreeInvalidKey) m
  | clear {m} : SortedMapStep m (.clear, .done) ∅
  | reserve {m size} : SortedMapStep m (.reserve size, .status .ok) m
  | compact {m} : SortedMapStep m (.compact, .done) m

namespace Btree

variable {b b' : Btree} {m : KeyMap} {key : UInt32} {value : List Byte}

/-- The entries of the buffer are the bindings of `m`. -/
structure Represents (b : Btree) (m : KeyMap) : Prop where
  sound : b.Sound
  tabulates : Tabulates b.keys b.vals b.count.toNat m

lemma Represents.sameEntries (h : b.Represents m) (hs : b'.Sound) (hsame : SameEntries b b') :
    b'.Represents m := by
  refine ⟨hs, ?_⟩
  rw [hsame.count]
  exact h.tabulates.congr hsame.keys hsame.vals

lemma Represents.isSome (h : b.Represents m) (hpos : 0 < b.count.toNat) : b.data.isSome :=
  h.sound.isSome (by have := h.sound.count_le; omega)

lemma Represents.isKeyAt (h : b.Represents m) (key : UInt32) :
    (CStructures.isKeyAt b (btreeFindLowerBound b key).val key).val = decide (key ∈ m) := by
  rw [val_isKeyAt, decide_eq_decide, h.tabulates.mem_iff]
  exact (findLowerBound_spec h.sound.ascending key).mem_iff h.sound.ascending

lemma Represents.at_lowerBound (h : b.Represents m) (hmem : key ∈ m) :
    (btreeFindLowerBound b key).val < b.count.toNat ∧ b.keys (btreeFindLowerBound b key).val = key :=
  ((findLowerBound_spec h.sound.ascending key).mem_iff h.sound.ascending).mpr
    (h.tabulates.mem_iff.mp hmem)

lemma Represents.deref_index (h : b.Represents m) {p : Nat} (hp : p < b.count.toNat) :
    m.lookup (b.keys p) = some (b.deref (b.valueOffset (UInt32.ofNat p))) := by
  have hto := toNat_ofNat_of_le hp.le
  have hcap := h.sound.count_le
  rw [deref_valueOffset h.sound.bounds.valuesFit (by omega), hto]
  exact h.tabulates.lookup hp

lemma Represents.find_cases (h : b.Represents m) (key : UInt32) :
    ((btreeFind b key).val = none ∧ key ∉ m) ∨
      ∃ p < b.count.toNat, b.keys p = key ∧
        (btreeFind b key).val = some (b.valueOffset (UInt32.ofNat p)) := by
  unfold btreeFind
  simp only [Logged.val_bind, Logged.val_ite, Logged.val_pure, h.isKeyAt, decide_eq_true_eq]
  by_cases hmem : key ∈ m
  · rw [if_pos hmem]
    obtain ⟨hp, hk⟩ := h.at_lowerBound hmem
    exact Or.inr ⟨_, hp, hk, rfl⟩
  · rw [if_neg hmem]
    exact Or.inl ⟨rfl, hmem⟩

theorem Represents.find (h : b.Represents m) (key : UInt32) :
    (btreeFind b key).val.map b.deref = m.lookup key := by
  rcases h.find_cases key with ⟨hnone, hmem⟩ | ⟨p, hp, rfl, hsome⟩
  · rw [hnone, Finmap.lookup_eq_none.mpr hmem]
    rfl
  · rw [hsome, h.deref_index hp]
    rfl

theorem Represents.findAndCompare (h : b.Represents m) (key : UInt32) (value : List Byte) :
    (btreeFindAndCompare b key value).val = decide (m.lookup key = some value) := by
  unfold btreeFindAndCompare
  simp only [Logged.val_bind]
  rw [← h.find key]
  cases (btreeFind b key).val with
  | none => rfl
  | some off =>
    simp only [Option.map_some, Option.some.injEq]
    rfl

/-- The linear search finds the least key with a value. -/
theorem Represents.matchingValue (h : b.Represents m) (value : List Byte) :
    let i := (btreeFindIndexOfMatchingValue b value).val
    (i = 0xFFFFFFFF ∧ ∀ k, m.lookup k ≠ some value) ∨
      (i ≠ 0xFFFFFFFF ∧ i.toNat < b.count.toNat ∧ LeastKeyOf m value (b.keys i.toNat)) := by
  have hcb := h.sound.count_le
  have hsmall := h.sound.bounds.capacity
  rcases findIndexOfMatchingValue_spec h.sound.bounds.valuesFit (UInt32.le_iff_toNat_le.mpr hcb) value with
    ⟨hi, hnone⟩ | ⟨hi, hval, hbefore⟩
  · refine Or.inl ⟨hi, fun k hk => ?_⟩
    obtain ⟨j, hj, _, hv⟩ := (h.tabulates k value).mp hk
    exact hnone j hj hv
  · refine Or.inr ⟨?_, hi, ?_, ?_⟩
    · intro heq
      rw [heq] at hi
      change 2 ^ 32 - 1 < _ at hi
      omega
    · rw [h.tabulates.lookup hi, hval]
    · intro k' hk'
      obtain ⟨j, hj, rfl, hv⟩ := (h.tabulates k' value).mp hk'
      refine h.sound.ascending.le ?_ hj
      by_contra hlt
      exact hbefore j (by omega) hv

/-- The common end of the two insertions. -/
theorem Represents.insertAtLowerBound (h : b.Represents m) (hmem : key ∉ m)
    (hroom : b.count.toNat < b.capacity.toNat) (hv : value.length = b.valueSize.toNat) :
    let p := (btreeFindLowerBound b key).val
    let b' := (CStructures.insertAtLowerBound b p key value).val
    b'.Represents (m.insert key value) ∧ b'.capacity = b.capacity ∧
      b'.deref (b'.valueOffset (UInt32.ofNat p)) = value := by
  have hlb := findLowerBound_spec h.sound.ascending key
  have hd := h.sound.isSome (by omega)
  have hle : b.count.toNat * b.valueSize.toNat ≤ b.capacity.toNat * b.valueSize.toNat :=
    Nat.mul_le_mul_right _ hroom.le
  obtain ⟨hcount, hcap, hvs, hsize, hkeys⟩ := @insertAtLowerBound_keys b key value _ hd hlb.le hroom
  have hvals := @insertAtLowerBound_vals b key value _ hd (hle.trans_lt h.sound.bounds.valuesFit) hlb.le hroom hv
  set p := (btreeFindLowerBound b key).val with hp
  set b' := (CStructures.insertAtLowerBound b p key value).val with hb'
  have hnot : ¬(p < b.count.toNat ∧ b.keys p = key) := by
    rw [hlb.mem_iff h.sound.ascending, ← h.tabulates.mem_iff]
    exact hmem
  have hfit : b'.ValuesFit := by
    rw [ValuesFit, hcap, hvs]
    exact h.sound.bounds.valuesFit
  have hasc : Ascending b'.keys b'.count.toNat := by
    rw [hcount]
    exact (h.sound.ascending.insertAt hlb hnot).congr hkeys
  have hsound : b'.Sound := h.sound.of_sameBuffer hcap hvs hsize (by omega) hasc
  refine ⟨⟨hsound, ?_⟩, hcap, ?_⟩
  · rw [hcount]
    exact (h.tabulates.insert hmem hlb.le).congr hkeys hvals
  · have hto := toNat_ofNat_of_le hlb.le
    have hle := hlb.le
    rw [deref_valueOffset hfit (by rw [hto, hcap]; omega), hto, hvals p (by omega), insertAt_self]

theorem Represents.eraseIndex (h : b.Represents m) (idx : UInt32) (hidx : idx.toNat < b.count.toNat) :
    let r := (btreeEraseIndex b idx).val
    r.1 = b.keys idx.toNat ∧ r.2.Represents (m.erase (b.keys idx.toNat)) := by
  have hd := h.isSome (by omega)
  obtain ⟨hkey, hcount, hcap, hvs, hsize, hkeys, hvals⟩ :=
    eraseIndex_spec hd h.sound.bounds.valuesFit hidx h.sound.count_le
  set b' := (btreeEraseIndex b idx).val.2 with hb'
  have hcb := h.sound.count_le
  have hasc := h.sound.ascending
  have htab := h.tabulates
  rw [← hcount] at hasc htab
  exact ⟨hkey, h.sound.of_sameBuffer hcap hvs hsize (by change b'.count.toNat ≤ _; omega)
    (hasc.eraseAt.congr hkeys), (htab.erase hasc (by omega)).congr hkeys hvals⟩

theorem Represents.writeValue (h : b.Represents m) {p : Nat} (hp : p < b.count.toNat)
    (hv : value.length = b.valueSize.toNat) :
    (b.writeValue (b.valueOffset (UInt32.ofNat p)) value).val.Represents (m.insert (b.keys p) value) := by
  have hd := h.isSome (by omega)
  have hto := toNat_ofNat_of_le hp.le
  have hcb := h.sound.count_le
  have hkeys : ∀ i < b.count.toNat,
      (b.writeValue (b.valueOffset (UInt32.ofNat p)) value).val.keys i = b.keys i :=
    fun i hi => keys_writeValue hd (by omega)
  have hvals : ∀ i < b.count.toNat,
      (b.writeValue (b.valueOffset (UInt32.ofNat p)) value).val.vals i = Function.update b.vals p value i := by
    intro i _
    rw [vals_writeValue hd h.sound.bounds.valuesFit (by omega) hv, hto, Function.update_apply]
  exact ⟨h.sound.of_sameBuffer rfl rfl setBytes_size h.sound.count_le (h.sound.ascending.congr hkeys),
    (h.tabulates.update h.sound.ascending hp).congr hkeys hvals⟩

lemma insertAtLowerBound_inBounds {p : Nat} :
    (CStructures.insertAtLowerBound b p key value).val.InBounds ↔ b.InBounds := by
  have hfields : (CStructures.insertAtLowerBound b p key value).val.capacity = b.capacity ∧
      (CStructures.insertAtLowerBound b p key value).val.valueSize = b.valueSize := by
    unfold CStructures.insertAtLowerBound
    simp only [Logged.val_bind, Logged.val_ite, Logged.val_pure]
    split_ifs <;> exact ⟨rfl, rfl⟩
  constructor
  · rintro ⟨hc, hf⟩
    rw [ValuesFit, hfields.1, hfields.2] at hf
    exact ⟨hfields.1 ▸ hc, hf⟩
  · rintro ⟨hc, hf⟩
    refine ⟨by rwa [hfields.1], ?_⟩
    rwa [ValuesFit, hfields.1, hfields.2]

/-- Both insertions leave the same btree. -/
lemma insertOrGet_btree (b : Btree) (key : UInt32) (value : List Byte) (answer : AllocAnswer) :
    (btreeInsertOrGet b key value answer).val.2.2 = (btreeInsertNew b key value answer).val.2 := by
  rcases grow_cases b answer with ⟨grown, hgrow⟩ | hgrow
  · rw [insertOrGet_grown hgrow, insertNew_grown hgrow]
    split_ifs <;> rfl
  · rw [insertOrGet_refused hgrow, insertNew_refused hgrow]

/-- The growth before an insertion, when the result is within the bounds. -/
lemma Represents.grown (h : b.Represents m) {g : Grant}
    (hbounds : (btreeInsertNew b key value (some g)).val.2.InBounds) :
    ∃ grown, (btreeGrow b (some g)).val = (.ok, grown) ∧ grown.Represents m ∧
      grown.count.toNat < grown.capacity.toNat ∧ grown.valueSize = b.valueSize := by
  obtain ⟨hok, hspec⟩ := grow_spec h.sound g
  have hgrow : (btreeGrow b (some g)).val = (.ok, (btreeGrow b (some g)).val.2) := Prod.ext hok rfl
  rw [insertNew_grown hgrow] at hbounds
  have hbounds' : (btreeGrow b (some g)).val.2.InBounds := by
    split_ifs at hbounds
    · exact hbounds
    · dsimp only at hbounds
      exact insertAtLowerBound_inBounds.mp hbounds
  obtain ⟨hsound, hsame, hroom⟩ := hspec hbounds'
  rw [← hsame.count] at hroom
  exact ⟨_, hgrow, h.sameEntries hsound hsame, hroom, hsame.valueSize⟩

theorem Represents.insertNew (h : b.Represents m) (hv : value.length = b.valueSize.toNat) (g : Grant) :
    let r := (btreeInsertNew b key value (some g)).val
    r.2.InBounds → (key ∉ m ∧ r.1 = .ok ∧ r.2.Represents (m.insert key value)) ∨
      (key ∈ m ∧ r.1 = .exists ∧ r.2.Represents m) := by
  intro r hbounds
  obtain ⟨grown, hgrow, hrep, hroom, hvs⟩ := h.grown hbounds
  have hr : r = (btreeInsertNew b key value (some g)).val := rfl
  rw [hr, insertNew_grown hgrow]
  simp only [hrep.isKeyAt, decide_eq_true_eq]
  by_cases hmem : key ∈ m
  · rw [if_pos hmem]
    exact Or.inr ⟨hmem, rfl, hrep⟩
  · rw [if_neg hmem]
    obtain ⟨hins, _⟩ := hrep.insertAtLowerBound hmem hroom (by rw [hv, hvs])
    exact Or.inl ⟨hmem, rfl, hins⟩

theorem Represents.insertOrGet (h : b.Represents m) (hv : value.length = b.valueSize.toNat) (g : Grant) :
    let r := (btreeInsertOrGet b key value (some g)).val
    r.2.2.InBounds →
      (key ∉ m ∧ r.1 = .notFound ∧ r.2.1.map r.2.2.deref = some value ∧
        r.2.2.Represents (m.insert key value)) ∨
      (key ∈ m ∧ r.1 = .exists ∧ r.2.1.map r.2.2.deref = m.lookup key ∧ r.2.2.Represents m) := by
  intro r hbounds
  rw [insertOrGet_btree] at hbounds
  obtain ⟨grown, hgrow, hrep, hroom, hvs⟩ := h.grown hbounds
  have hr : r = (btreeInsertOrGet b key value (some g)).val := rfl
  rw [hr, insertOrGet_grown hgrow]
  simp only [hrep.isKeyAt, decide_eq_true_eq]
  by_cases hmem : key ∈ m
  · rw [if_pos hmem]
    obtain ⟨hp, hk⟩ := hrep.at_lowerBound hmem
    refine Or.inr ⟨hmem, rfl, ?_, hrep⟩
    have hlookup := hrep.deref_index hp
    rw [hk] at hlookup
    exact hlookup.symm
  · rw [if_neg hmem]
    obtain ⟨hins, hcap, hderef⟩ := hrep.insertAtLowerBound hmem hroom (by rw [hv, hvs])
    exact Or.inl ⟨hmem, rfl, congrArg some hderef, hins⟩

theorem Represents.setExisting (h : b.Represents m) (hpos : 0 < b.valueSize)
    (hv : value.length = b.valueSize.toNat) :
    let r := (btreeSetExisting b key value).val
    (key ∈ m ∧ r.1 = .ok ∧ r.2.Represents (m.insert key value)) ∨
      (key ∉ m ∧ r.1 = .notFound ∧ r.2.Represents m) := by
  have hne : b.valueSize ≠ 0 := hpos.ne'
  unfold btreeSetExisting
  rw [if_neg hne]
  simp only [Logged.val_bind]
  rcases h.find_cases key with ⟨hnone, hmem⟩ | ⟨p, hp, rfl, hsome⟩
  · simp only [hnone]
    exact Or.inr ⟨hmem, rfl, h⟩
  · simp only [hsome]
    exact Or.inl ⟨h.tabulates.mem_iff.mpr ⟨p, hp, rfl⟩, rfl, h.writeValue hp hv⟩

theorem Represents.erase (h : b.Represents m) (key : UInt32) :
    let r := (btreeErase b key).val
    (key ∈ m ∧ r.1 = .ok ∧ r.2.Represents (m.erase key)) ∨
      (key ∉ m ∧ r.1 = .notFound ∧ r.2.Represents m) := by
  unfold btreeErase
  simp only [Logged.val_bind, Logged.val_ite, Logged.val_pure, h.isKeyAt, decide_eq_true_eq]
  by_cases hmem : key ∈ m
  · rw [if_pos hmem]
    obtain ⟨hp, hk⟩ := h.at_lowerBound hmem
    have hto := toNat_ofNat_of_le hp.le
    obtain ⟨_, herase⟩ := h.eraseIndex (UInt32.ofNat (btreeFindLowerBound b key).val) (by omega)
    rw [hto, hk] at herase
    exact Or.inl ⟨hmem, rfl, herase⟩
  · rw [if_neg hmem]
    exact Or.inr ⟨hmem, rfl, h⟩

lemma val_eraseValue (b : Btree) (value : List Byte) : (btreeEraseValue b value).val =
    if (btreeFindIndexOfMatchingValue b value).val = 0xFFFFFFFF then (btreeInvalidKey, b)
    else (btreeEraseIndex b (btreeFindIndexOfMatchingValue b value).val).val := by
  unfold btreeEraseValue
  simp only [Logged.val_bind, Logged.val_ite, Logged.val_pure]

theorem Represents.eraseLeastKey (h : b.Represents m) (value : List Byte) :
    let r := (btreeEraseValue b value).val
    (r = (btreeInvalidKey, b) ∧ ∀ k, m.lookup k ≠ some value) ∨
      (LeastKeyOf m value r.1 ∧ r.2.Represents (m.erase r.1)) := by
  rw [val_eraseValue]
  rcases h.matchingValue value with ⟨hi, hnone⟩ | ⟨hne, hi, hleast⟩
  · rw [if_pos hi]
    exact Or.inl ⟨rfl, hnone⟩
  · obtain ⟨hkey, hrep⟩ := h.eraseIndex _ hi
    rw [← hkey] at hleast hrep
    rw [if_neg hne]
    exact Or.inr ⟨hleast, hrep⟩

lemma Represents.clear (h : b.Represents m) : (btreeClear b).Represents ∅ := by
  refine ⟨h.sound.of_sameBuffer rfl rfl rfl (Nat.zero_le _) ?_, tabulates_empty⟩
  intro i j _ hj
  exact absurd hj (Nat.not_lt_zero j)

theorem Represents.reserve (h : b.Represents m) (size : UInt32) (g : Grant) :
    let r := (btreeReserve b size (some g)).val
    r.1 = .ok ∧ (r.2.InBounds → r.2.Represents m) := by
  have hcb := h.sound.count_le
  unfold btreeReserve
  rw [Logged.val_ite]
  split_ifs with hlt
  · have hlt' := UInt32.lt_iff_toNat_lt.mp hlt
    obtain ⟨hok, _, hspec⟩ := realloc_spec h.sound size (by omega) g
    exact ⟨hok, fun hbounds => h.sameEntries (hspec hbounds).1 (hspec hbounds).2⟩
  · exact ⟨rfl, fun _ => h⟩

theorem Represents.compact (h : b.Represents m) (g : Grant) :
    let b' := (btreeCompact b (some g)).val
    b'.InBounds → b'.Represents m := by
  unfold btreeCompact
  rw [Logged.val_ite]
  split_ifs with hzero
  · intro b' hbounds
    have hcount : b.count.toNat = 0 := by rw [hzero]; rfl
    have hsound : Sound { b with data := none, capacity := 0 } := by
      refine ⟨hbounds, ?_, ?_, fun _ => rfl, ?_⟩
      · change b.count.toNat ≤ 0
        omega
      · intro d hd
        cases hd
      · intro i j _ hj
        change j < b.count.toNat at hj
        omega
    refine ⟨hsound, ?_⟩
    have htab := h.tabulates
    change Tabulates _ _ b.count.toNat m
    rw [hcount] at htab ⊢
    exact htab.congr (fun i hi => absurd hi (Nat.not_lt_zero i)) fun i hi => absurd hi (Nat.not_lt_zero i)
  · intro b' hbounds
    obtain ⟨_, _, hspec⟩ := realloc_spec h.sound _ le_rfl g
    exact h.sameEntries (hspec hbounds).1 (hspec hbounds).2

theorem Represents.getAnyValue (h : b.Represents m) :
    (m = ∅ ∧ (btreeGetAnyValue b).map b.deref = none) ∨
      ∃ k v, m.lookup k = some v ∧ (∀ k' ∈ m, k ≤ k') ∧ (btreeGetAnyValue b).map b.deref = some v := by
  unfold btreeGetAnyValue
  by_cases hzero : b.count = 0
  · rw [if_pos hzero]
    refine Or.inl ⟨Finmap.ext_lookup fun k => ?_, rfl⟩
    have hcount : b.count.toNat = 0 := by rw [hzero]; rfl
    rw [Finmap.lookup_empty, Finmap.lookup_eq_none, h.tabulates.mem_iff, hcount]
    rintro ⟨i, hi, _⟩
    exact absurd hi (Nat.not_lt_zero i)
  · rw [if_neg hzero]
    have hpos : 0 < b.count.toNat := by
      have := UInt32.toNat_inj.not.mpr hzero
      change b.count.toNat ≠ 0 at this
      omega
    refine Or.inr ⟨b.keys 0, _, h.deref_index hpos, fun k' hk' => ?_, rfl⟩
    obtain ⟨i, hi, rfl⟩ := h.tabulates.mem_iff.mp hk'
    exact h.sound.ascending.le (Nat.zero_le i) hi

/-- Other bytes than those of the entries may have changed. -/
def Scrambled (b b' : Btree) : Prop :=
  ∃ bytes, b' = b.setBytes bytes ∧ ∀ i < b.count.toNat, b'.keys i = b.keys i ∧ b'.vals i = b.vals i

lemma Represents.scrambled (h : b.Represents m) (hs : Scrambled b b') : b'.Represents m := by
  obtain ⟨bytes, rfl, hentries⟩ := hs
  have hkeys := fun i hi => (hentries i hi).1
  exact ⟨h.sound.of_sameBuffer rfl rfl setBytes_size h.sound.count_le (h.sound.ascending.congr hkeys),
    h.tabulates.congr hkeys fun i hi => (hentries i hi).2⟩

/-- One call whose allocation succeeds, on a buffer with any bytes beyond the entries, into
a state within the bounds. -/
def GrantedStep (b : Btree) (l : BtreeCall × BtreeAnswer) (b' : Btree) : Prop :=
  ∃ b₁ g, Scrambled b b₁ ∧ l.1.Fits b₁ ∧ (btreeCall b₁ (some g) l.1).val = (l.2, b') ∧ b'.InBounds

theorem Represents.call (h : b.Represents m) {call : BtreeCall} (hfits : call.Fits b) (g : Grant) :
    let r := (btreeCall b (some g) call).val
    r.2.InBounds → ∃ m', SortedMapStep m (call, r.1) m' ∧ r.2.Represents m' := by
  cases call with
  | insertNew key value =>
    intro r hbounds
    change ∃ m', SortedMapStep m (_, .status (btreeInsertNew b key value (some g)).val.1) m' ∧ _
    rcases h.insertNew hfits g hbounds with ⟨hmem, hst, hrep⟩ | ⟨hmem, hst, hrep⟩
    · exact ⟨_, hst ▸ .insertNew hmem, hrep⟩
    · exact ⟨_, hst ▸ .insertOld hmem, hrep⟩
  | insertOrGet key value =>
    intro r hbounds
    change ∃ m', SortedMapStep m (_, .statusValue (btreeInsertOrGet b key value (some g)).val.1
      ((btreeInsertOrGet b key value (some g)).val.2.1.map _)) m' ∧ _
    rcases h.insertOrGet hfits.2 g hbounds with ⟨hmem, hst, hval, hrep⟩ | ⟨hmem, hst, hval, hrep⟩
    · rw [hst]
      exact ⟨_, hval ▸ .insertOrGetNew hmem, hrep⟩
    · rw [hst]
      exact ⟨_, hval ▸ .insertOrGetOld hmem, hrep⟩
  | setExisting key value =>
    intro r _
    change ∃ m', SortedMapStep m (_, .status (btreeSetExisting b key value).val.1) m' ∧ _
    rcases h.setExisting hfits.1 hfits.2 with ⟨hmem, hst, hrep⟩ | ⟨hmem, hst, hrep⟩
    · exact ⟨_, hst ▸ .setOld hmem, hrep⟩
    · exact ⟨_, hst ▸ .setNew hmem, hrep⟩
  | find key =>
    intro r _
    refine ⟨m, ?_, h⟩
    change SortedMapStep m (_, .value ((btreeFind b key).val.map b.deref)) _
    rw [h.find]
    exact .find
  | findKey value =>
    intro r _
    refine ⟨m, ?_, h⟩
    change SortedMapStep m (_, .keyPointer ((btreeFindKey b value).val.map _)) _
    unfold btreeFindKey
    simp only [Logged.val_bind, Logged.val_ite, Logged.val_pure]
    rcases h.matchingValue value with ⟨hi, hnone⟩ | ⟨hne, _, hleast⟩
    · rw [if_pos hi]
      exact .findNoKey hnone
    · rw [if_neg hne, Option.map_some, ← keys_eq]
      exact .findKey hleast
  | findAndCompare key value =>
    intro r _
    refine ⟨m, ?_, h⟩
    change SortedMapStep m (_, .flag (btreeFindAndCompare b key value).val) _
    rw [h.findAndCompare]
    exact .findAndCompare
  | keyExists key =>
    intro r _
    refine ⟨m, ?_, h⟩
    change SortedMapStep m (_, .flag (CStructures.isKeyAt b (btreeFindLowerBound b key).val key).val) _
    rw [h.isKeyAt]
    exact .keyExists
  | getAnyValue =>
    intro r _
    change ∃ m', SortedMapStep m (_, .value ((btreeGetAnyValue b).map b.deref)) m' ∧ b.Represents m'
    rcases h.getAnyValue with ⟨rfl, hnone⟩ | ⟨k, v, hk, hleast, hsome⟩
    · rw [hnone]
      exact ⟨∅, .getNoValue, h⟩
    · rw [hsome]
      exact ⟨m, .getAnyValue hk hleast, h⟩
  | erase key =>
    intro r _
    change ∃ m', SortedMapStep m (_, .status (btreeErase b key).val.1) m' ∧ _
    rcases h.erase key with ⟨hmem, hst, hrep⟩ | ⟨hmem, hst, hrep⟩
    · exact ⟨_, hst ▸ .eraseOld hmem, hrep⟩
    · exact ⟨_, hst ▸ .eraseNew hmem, hrep⟩
  | eraseValue value =>
    intro r _
    change ∃ m', SortedMapStep m (_, .key (btreeEraseValue b value).val.1) m' ∧
      (btreeEraseValue b value).val.2.Represents m'
    rcases h.eraseLeastKey value with ⟨hval, hnone⟩ | ⟨hleast, hrep⟩
    · rw [hval]
      exact ⟨m, .eraseNoValue hnone, h⟩
    · exact ⟨_, .eraseValue hleast, hrep⟩
  | clear => exact fun _ => ⟨∅, .clear, h.clear⟩
  | reserve size =>
    intro r hbounds
    obtain ⟨hok, hrep⟩ := h.reserve size g
    change ∃ m', SortedMapStep m (_, .status (btreeReserve b size (some g)).val.1) m' ∧ _
    exact ⟨m, hok ▸ .reserve, hrep hbounds⟩
  | compact => exact fun hbounds => ⟨m, .compact, h.compact g hbounds⟩

lemma represents_init (valueSize : UInt32) : (btreeInit valueSize).Represents ∅ := by
  refine ⟨⟨⟨?_, ?_⟩, le_rfl, ?_, fun _ => rfl, ?_⟩, tabulates_empty⟩
  · change 0 < 2 ^ 31
    omega
  · change 0 * valueSize.toNat < 2 ^ 32
    omega
  · intro d hd
    cases hd
  · intro i j _ hj
    exact absurd hj (Nat.not_lt_zero j)

/-- The first `count` keys ascend, and the entries, as the macros address them, are the
bindings of `m`. -/
structure Shows (b : Btree) (m : KeyMap) : Prop where
  count_le : b.count.toNat ≤ b.capacity.toNat
  count_eq : b.count.toNat = m.keys.card
  ascending : ∀ i j, i < j → j < b.count.toNat →
    load32 b.bytes (keyOffset i) < load32 b.bytes (keyOffset j)
  entries : ∀ k v, m.lookup k = some v ↔ ∃ i : UInt32, i.toNat < b.count.toNat ∧
    load32 b.bytes (keyOffset i.toNat) = k ∧ b.deref (b.valueOffset i) = v

lemma Represents.shows (h : b.Represents m) : b.Shows m where
  count_le := h.sound.count_le
  count_eq := (h.tabulates.card h.sound.ascending).symm
  ascending := by
    intro i j hij hj
    rw [← keys_eq, ← keys_eq]
    exact h.sound.ascending i j hij hj
  entries := by
    intro k v
    have hcb := h.sound.count_le
    have hfit := h.sound.bounds.valuesFit
    rw [h.tabulates k v]
    constructor
    · rintro ⟨i, hi, hk, hv⟩
      have hto := toNat_ofNat_of_le hi.le
      refine ⟨UInt32.ofNat i, by omega, by rw [hto, ← keys_eq, hk], ?_⟩
      rw [deref_valueOffset hfit (by omega), hto, hv]
    · rintro ⟨i, hi, hk, hv⟩
      rw [deref_valueOffset hfit (by omega)] at hv
      exact ⟨i.toNat, hi, by rw [keys_eq, hk], hv⟩

end Btree

/-- Over every run from `btree_init` in which allocations succeed and no product of a size
and a count reaches 2^32, the calls are answered as by a sorted map, and the buffer keeps
the bindings of that map in ascending order. -/
theorem btree_refines_sorted_map {valueSize : UInt32} {b : Btree} {ls : List (BtreeCall × BtreeAnswer)}
    (hrun : Run Btree.GrantedStep (btreeInit valueSize) ls b) :
    ∃ m, Run SortedMapStep ∅ ls m ∧ b.Shows m := by
  obtain ⟨m, hmrun, hrep⟩ := Run.simulate (fun b m => Btree.Represents b m)
    (fun b m l b' hrep hstep => by
      obtain ⟨b₁, g, hs, hfits, hval, hbounds⟩ := hstep
      obtain ⟨call, answer⟩ := l
      obtain ⟨m', hstep, hrep'⟩ := (hrep.scrambled hs).call hfits g (by rw [hval]; exact hbounds)
      rw [hval] at hstep hrep'
      exact ⟨m', hstep, hrep'⟩) (Btree.represents_init valueSize) hrun
  exact ⟨m, hmrun, hrep.shows⟩

lemma Btree.Scrambled.refl (b : Btree) : Btree.Scrambled b b := by
  refine ⟨b.bytes, ?_, fun _ _ => ⟨rfl, rfl⟩⟩
  obtain ⟨data, _, _, _⟩ := b
  cases data <;> rfl

def zeroGrant : Grant := ⟨16, fun _ => 0⟩

/-- Execute a `GrantedStep` with zeroed blocks. -/
def grantedCall (b : Btree) (call : BtreeCall) : Option (BtreeAnswer × Btree) :=
  let r := (btreeCall b (some zeroGrant) call).val
  if call.Fits b ∧ r.2.capacity.toNat < 2 ^ 31 ∧
      r.2.capacity.toNat * r.2.valueSize.toNat < 2 ^ 32 then some r
  else none

lemma grantedCall_step {b b' : Btree} {call : BtreeCall} {answer : BtreeAnswer}
    (h : grantedCall b call = some (answer, b')) : Btree.GrantedStep b (call, answer) b' := by
  unfold grantedCall at h
  dsimp only at h
  split_ifs at h with hcall
  obtain ⟨hfits, hcap, hfit⟩ := hcall
  rw [Option.some.inj h] at hcap hfit
  exact ⟨b, zeroGrant, .refl b, hfits, Option.some.inj h, hcap, hfit⟩

def sortedCalls : List BtreeCall :=
  [.insertNew 5 [1, 2], .insertNew 3 [3, 4], .insertOrGet 5 [9, 9], .erase 5, .insertNew 8 [5, 6],
    .compact, .getAnyValue, .find 8, .find 5]

theorem btree_refines_sorted_map_short : ∃ ls, ∃ b : Btree,
    ls.map Prod.snd = [.status .ok, .status .ok, .statusValue .exists (some [1, 2]), .status .ok,
      .status .ok, .done, .value (some [3, 4]), .value (some [5, 6]), .value none] ∧
    ∃ m, Run SortedMapStep ∅ ls m ∧ b.Shows m := by
  have hanswers : (runCalls grantedCall (btreeInit 2) sortedCalls).map (fun r => r.1.map Prod.snd) =
      some [.status .ok, .status .ok, .statusValue .exists (some [1, 2]), .status .ok, .status .ok,
        .done, .value (some [3, 4]), .value (some [5, 6]), .value none] := by decide +kernel
  obtain ⟨ls, b, hrun, hls⟩ := Run.exists_of_runCalls (fun _ _ _ _ h => grantedCall_step h) hanswers
  exact ⟨ls, b, hls, btree_refines_sorted_map hrun⟩

end CStructures
