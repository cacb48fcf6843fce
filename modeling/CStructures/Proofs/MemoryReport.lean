import CStructures.Model.Memory
import CStructures.Proofs.HashmapRefinement

/-!
# The report of the allocation tracker

The report table binds the live addresses to their sizes. Its own allocations go through
the tracking functions with the flag set: they are counted, and leave the report alone.
-/

namespace CStructures
open Lib

lemma ofNat_ofLe_leBytes_eight (w : UInt64) : UInt64.ofNat (ofLe (leBytes 8 w.toNat)) = w := by
  have hw : w.toNat < 256 ^ 8 := w.toNat_lt
  rw [ofLe_leBytes, Nat.mod_eq_of_lt hw, UInt64.ofNat_toNat]

lemma pointerBytes_injective : Function.Injective pointerBytes := by
  intro p q h
  rw [← ofNat_ofLe_leBytes_eight p, ← ofNat_ofLe_leBytes_eight q]
  exact congrArg (fun bytes => UInt64.ofNat (ofLe bytes)) h

@[simp] lemma length_pointerBytes (p : UInt64) : (pointerBytes p).length = 8 := length_leBytes _ _

@[simp] lemma ReportInfo.length_bytes (info : ReportInfo) : info.bytes.length = 16 := by
  simp [ReportInfo.bytes]

lemma reportInfo_bytes (info : ReportInfo) : reportInfo info.bytes = info := by
  have htake : info.bytes.take 8 = leBytes 8 info.location.toNat := by
    simp [ReportInfo.bytes]
  have hdrop : info.bytes.drop 8 = leBytes 8 info.size.toNat := by
    simp [ReportInfo.bytes]
  rw [reportInfo, htake, hdrop, ofNat_ofLe_leBytes_eight, ofNat_ofLe_leBytes_eight]

/-- `r` holds a record for each block of `m`, and no other. -/
def Records (r : ByteMap) (m : BlockMap) : Prop :=
  ∀ k v, r.lookup k = some v ↔
    ∃ p n, m.lookup p = some n ∧ k = pointerBytes p ∧ v = ReportInfo.bytes ⟨p, n⟩

section Records

variable {r : ByteMap} {m : BlockMap} {p n : UInt64}

lemma Records.empty : Records ∅ ∅ := by
  intro k v
  simp

lemma Records.lookup (h : Records r m) :
    r.lookup (pointerBytes p) = (m.lookup p).map fun n => ReportInfo.bytes ⟨p, n⟩ := by
  ext v
  rw [h, Option.map_eq_some_iff]
  constructor
  · rintro ⟨q, n, hn, hk, rfl⟩
    obtain rfl := pointerBytes_injective hk
    exact ⟨n, hn, rfl⟩
  · rintro ⟨n, hn, rfl⟩
    exact ⟨p, n, hn, rfl, rfl⟩

lemma Records.mem_iff (h : Records r m) : pointerBytes p ∈ r ↔ p ∈ m := by
  rw [← Finmap.lookup_isSome, h.lookup, Option.isSome_map, Finmap.lookup_isSome]

lemma Records.insert (h : Records r m) :
    Records (r.insert (pointerBytes p) (ReportInfo.bytes ⟨p, n⟩)) (m.insert p n) := by
  intro k v
  by_cases hk : k = pointerBytes p
  · subst hk
    rw [Finmap.lookup_insert, Option.some.injEq]
    constructor
    · rintro rfl
      exact ⟨p, n, Finmap.lookup_insert m, rfl, rfl⟩
    · rintro ⟨q, n', hn, hq, rfl⟩
      obtain rfl := pointerBytes_injective hq
      rw [Finmap.lookup_insert, Option.some.injEq] at hn
      rw [hn]
  · rw [Finmap.lookup_insert_of_ne _ hk, h]
    refine exists_congr fun q => exists_congr fun n' => and_congr_left fun hq => ?_
    have hne : q ≠ p := fun hqp => hk (hqp ▸ hq.1)
    rw [Finmap.lookup_insert_of_ne _ hne]

lemma Records.erase (h : Records r m) : Records (r.erase (pointerBytes p)) (m.erase p) := by
  intro k v
  by_cases hk : k = pointerBytes p
  · subst hk
    rw [Finmap.lookup_erase]
    constructor
    · intro hno
      cases hno
    · rintro ⟨q, n', hn, hq, rfl⟩
      obtain rfl := pointerBytes_injective hq
      rw [Finmap.lookup_erase] at hn
      cases hn
  · rw [Finmap.lookup_erase_ne hk, h]
    refine exists_congr fun q => exists_congr fun n' => and_congr_left fun hq => ?_
    have hne : q ≠ p := fun hqp => hk (hqp ▸ hq.1)
    rw [Finmap.lookup_erase_ne hne]

lemma Records.card_keys (h : Records r m) : r.keys.card = m.keys.card := by
  rw [← Finset.card_image_of_injective m.keys pointerBytes_injective]
  congr 1
  ext k
  rw [Finset.mem_image, Finmap.mem_keys, Finmap.mem_iff]
  constructor
  · rintro ⟨v, hv⟩
    obtain ⟨p, n, hn, rfl, _⟩ := (h k v).mp hv
    exact ⟨p, Finmap.mem_keys.mpr (Finmap.mem_of_lookup_eq_some hn), rfl⟩
  · rintro ⟨p, hp, rfl⟩
    exact Finmap.mem_iff.mp (h.mem_iff.mpr (Finmap.mem_keys.mp hp))

end Records

/-- The table is the report of the blocks of `m`. Its load check stops expanding it while
its values are addressable. -/
structure Reports (report : Hashmap) (m : BlockMap) : Prop where
  valid : report.Valid
  keySize : report.keySize = 8
  valueSize : report.valueSize = 16
  small : report.tableCount.toNat * 70 < 2 ^ 32 * 3
  records : ∃ r, Represents report.table report.values r ∧ Records r m

namespace Hashmap

variable {σ : Type} {A : Allocator σ} {s s' : σ} {fuel : Nat} {hm hm' : Hashmap}

lemma valuesFit_of_small (hvs : hm.valueSize = 16) (hs : hm.tableCount.toNat * 70 < 2 ^ 32 * 3) :
    hm.ValuesFit := by
  rw [ValuesFit, hvs]
  change 16 * _ < _
  omega

end Hashmap

namespace Reports

open Hashmap

variable {σ : Type} {A : Allocator σ} {s s' : σ} {fuel : Nat} {hm hm' : Hashmap} {m : BlockMap}
  {p n : UInt64}

lemma binds_iff (h : Reports hm m) {k v : List Byte} : Binds hm.table hm.values k v ↔
    ∃ p n, m.lookup p = some n ∧ k = pointerBytes p ∧ v = ReportInfo.bytes ⟨p, n⟩ := by
  obtain ⟨r, hrep, hrec⟩ := h.records
  rw [← hrep k v, hrec]

lemma card_keys (h : Reports hm m) : (hashmapCount hm).toNat = m.keys.card := by
  obtain ⟨r, hrep, hrec⟩ := h.records
  rw [h.valid.card_keys hrep, hrec.card_keys]

lemma expandedSize_pos (h : Reports hm m) (hload : loadCheck hm = true) : 0 < hm.expandedSize := by
  have hcount := expanded_toNat hload
  have hpos := h.valid.tableCount_pos
  have hsmall := h.small
  have hsize : hm.expandedSize.toNat = 28 * (hm.tableCount.toNat * 3) := by
    rw [expandedSize, h.keySize, h.valueSize, UInt64.toNat_mul, UInt32.toNat_toUInt64, hcount]
    change 28 * _ % 2 ^ 64 = _
    exact Nat.mod_eq_of_lt (by omega)
  rw [UInt64.lt_iff_toNat_lt, hsize]
  change 0 < _
  omega

/-- Recording a new block, unless the rehash found no memory. -/
theorem insert {status : HashmapStatus} (h : Reports hm m) (hp : p ∉ m)
    (hins : hashmapInsert A fuel hm (pointerBytes p) (some (ReportInfo.bytes ⟨p, n⟩)) s =
      some ((status, hm'), s')) :
    (loadCheck hm = true ∧ A.malloc hm.expandedSize s = some (none, s')) ∨
      Reports hm' (m.insert p n) ∧ (hm'.storage.addr = hm.storage.addr ∧ s' = s ∨
        loadCheck hm = true ∧ Moved A hm hm' s s') := by
  rcases hashmapInsert_cases h.valid hins with ⟨_, _, hload, hn⟩ | ⟨grown, fuel', hgrown, _, hprobed⟩
  · exact Or.inl ⟨hload, hn⟩
  obtain ⟨hoom, htc, hvs, haddr⟩ := insertProbed_fields hprobed
  have hfields : hm'.tableCount.toNat * 70 < 2 ^ 32 * 3 ∧ hm'.valueSize = 16 := by
    rw [htc, hvs]
    rcases hgrown with ⟨rfl, _⟩ | ⟨_, hre, _⟩
    · exact ⟨h.small, h.valueSize⟩
    · have hsmall := hre.small
      have hcount := hre.tableCount
      exact ⟨by omega, hre.valueSize.trans h.valueSize⟩
  have hplace : hm'.storage.addr = hm.storage.addr ∧ s' = s ∨
      loadCheck hm = true ∧ Moved A hm hm' s s' := by
    rcases hgrown with ⟨rfl, rfl, _⟩ | ⟨hload, _, b, s1, hmalloc, hfree, hb⟩
    · exact Or.inl ⟨haddr, rfl⟩
    · exact Or.inr ⟨hload, b, s1, hmalloc, hfree, haddr.trans hb⟩
  obtain ⟨r, hrep, hrec⟩ := h.records
  obtain ⟨hsmall, hvs⟩ := hfields
  obtain ⟨hv', hks', _, _, hcase⟩ := hashmapInsert_spec h.valid hrep
    (by rw [h.keySize]; exact length_pointerBytes p)
    (by rw [h.valueSize]; exact ReportInfo.length_bytes _) (valuesFit_of_small hvs hsmall) hins
  rcases hcase with ⟨rfl, _⟩ | ⟨_, hmem, _⟩ | ⟨_, _, hrep'⟩
  · exact absurd rfl hoom
  · exact absurd (hrec.mem_iff.mp hmem) hp
  · exact Or.inr ⟨⟨hv', hks'.trans h.keySize, hvs, hsmall, _, hrep', hrec.insert⟩, hplace⟩

/-- Erasing the record of a block. -/
theorem erase {r : Option UInt64} (h : Reports hm m)
    (he : hashmapErase fuel hm (pointerBytes p) = some (r, hm')) :
    Reports hm' (m.erase p) ∧ hm'.storage.addr = hm.storage.addr ∧
      r.map (fun info => reportInfo (hm'.deref info)) = (m.lookup p).map (ReportInfo.mk p) := by
  obtain ⟨rec, hrep, hrec⟩ := h.records
  have hfields : hm'.tableCount = hm.tableCount ∧ hm'.storage.addr = hm.storage.addr := by
    rcases hashmapErase_cases h.valid he with ⟨_, rfl, _⟩ | ⟨pos, _, rfl, _⟩ <;> exact ⟨rfl, rfl⟩
  obtain ⟨hv', hks, hvs, _, hr, hrep'⟩ := hashmapErase_spec h.valid hrep he
  refine ⟨⟨hv', hks.trans h.keySize, hvs.trans h.valueSize, ?_, _, hrep', hrec.erase⟩, hfields.2, ?_⟩
  · rw [hfields.1]
    exact h.small
  · rw [hrec.lookup] at hr
    have hinfo := congrArg (Option.map reportInfo) hr
    rw [Option.map_map, Option.map_map] at hinfo
    simpa only [Function.comp_def, reportInfo_bytes] using hinfo

end Reports

end CStructures
