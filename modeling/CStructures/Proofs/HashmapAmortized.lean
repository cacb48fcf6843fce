import CStructures.Lib.Amortized
import CStructures.Proofs.HashmapIteration
import Mathlib.Algebra.BigOperators.Ring.List

/-!
# The cost of rehashing

A rehash goes through all slots of the old table. The table triples at a load of 70 percent, so
that the rehashes of a run go through at most five slots for every two keys that it inserts, and
the table is never much larger than the number of insertions.
-/

namespace CStructures
open Lib

def insertions : HashmapCall × HashmapAnswer → Nat
  | (.insert _ _, .status .hmOk) => 1
  | _ => 0

namespace Hashmap

variable {σ : Type} {A : Allocator σ} {hm hm' : Hashmap} {s s' : σ} {fuel : Nat} {key : List Byte}

/-- The number of slots that the loop of `resize_rehash` goes through. -/
def rehashedSlots (c : Hashmap × σ) : HashmapCall × HashmapAnswer → Nat
  | (.insert _ _, .status status) =>
    if loadCheck c.1 = true ∧ status ≠ .hmOom then c.1.tableCount.toNat else 0
  | _ => 0

/-- The keys that have paid five halves each for the next rehash. -/
def saved (hm : Hashmap) : Nat := 5 * hm.slotsUsed.toNat - hm.tableCount.toNat

/-- What a call has done to the number of entries and to the number of slots: the table has
tripled at a load of 70 percent, or has kept its size. -/
structure Triples (hm : Hashmap) (rehashed inserted : Nat) (hm' : Hashmap) : Prop where
  used : hm'.slotsUsed.toNat ≤ hm.slotsUsed.toNat + inserted
  slots : rehashed = 0 ∧ hm'.tableCount = hm.tableCount ∨
    rehashed = hm.tableCount.toNat ∧ hm'.tableCount.toNat = hm.tableCount.toNat * 3 ∧
      hm.tableCount.toNat * 70 ≤ hm.slotsUsed.toNat * 100

lemma load_of_loadCheck (h : loadCheck hm = true) : hm.tableCount.toNat * 70 ≤ hm.slotsUsed.toNat * 100 := by
  rw [loadCheck_iff] at h
  have hmod : hm.slotsUsed.toNat * 100 % 2 ^ 32 ≤ hm.slotsUsed.toNat * 100 := Nat.mod_le _ _
  have hdiv := Nat.div_mul_le_self (hm.slotsUsed.toNat * 100 % 2 ^ 32) hm.tableCount.toNat
  have hmul := Nat.mul_le_mul_right hm.tableCount.toNat h
  omega

lemma insert_triples {value : Option (List Byte)} {status : HashmapStatus} (hv : hm.Valid)
    (h : hashmapInsert A fuel hm key value s = some ((status, hm'), s')) :
    Triples hm (rehashedSlots (hm, s) (.insert key value, .status status))
      (insertions (.insert key value, .status status)) hm' := by
  rcases hashmapInsert_cases hv h with ⟨rfl, rfl, _⟩ | ⟨grown, fuel', hgrown, hvg, hins⟩
  · exact ⟨Nat.le_add_right _ _, Or.inl ⟨if_neg fun hoom => hoom.2 rfl, rfl⟩⟩
  obtain ⟨hoom, htc, _⟩ := insertProbed_fields hins
  refine ⟨?_, ?_⟩
  · have hused := hgrown.sameContents.used
    rcases insertProbed_spec hvg hins with ⟨rfl, rfl, _⟩ | ⟨n, pos, rfl, rfl, hpos, _, hn, hs⟩
    · rw [hused]
      exact Nat.le_add_right _ _
    · rw [storeEntry_slotsUsed_toNat (hvg.used_lt hpos fun k => hs.not_live hn), hused]
      exact le_rfl
  · rcases hgrown with ⟨rfl, _, hload⟩ | ⟨hload, hre, _⟩
    · exact Or.inl ⟨if_neg fun hrehash => hload hrehash.1, htc⟩
    · refine Or.inr ⟨if_pos ⟨hload, hoom⟩, ?_, load_of_loadCheck hload⟩
      rw [htc, hre.tableCount]

lemma erase_triples {r : Option UInt64} (hv : hm.Valid) (h : hashmapErase fuel hm key = some (r, hm')) :
    Triples hm 0 0 hm' := by
  rcases hashmapErase_cases hv h with ⟨_, rfl, _⟩ | ⟨pos, _, rfl, hpos, hlive⟩
  · exact ⟨le_rfl, Or.inl ⟨rfl, rfl⟩⟩
  · refine ⟨?_, Or.inl ⟨rfl, buryEntry_tableCount⟩⟩
    have hlive' : (hm.table pos.toNat).isLive = true := by
      rw [table_toNat hpos, hlive]
      rfl
    have hcount := cellCount_update (Finset.mem_range.mpr hpos) Cell.isLive hm.table .tombstone
    rw [hlive', hv.used] at hcount
    have hpos' : 0 < hm.slotsUsed.toNat := by
      simp only [Cell.isLive, Bool.toNat_true, Bool.toNat_false, Nat.add_zero] at hcount
      omega
    rw [buryEntry_slotsUsed, toNat_pred hpos']
    exact (Nat.sub_le _ _).trans (Nat.le_add_right _ _)

theorem step_triples {c c' : Hashmap × σ} {l : HashmapCall × HashmapAnswer} (hv : c.1.Valid)
    (hstep : HashmapStep A c l c') : Triples c.1 (rehashedSlots c l) (insertions l) c'.1 := by
  obtain ⟨_, fuel, hcall⟩ := hstep
  obtain ⟨call, answer⟩ := l
  cases call with
  | insert key value =>
    obtain ⟨status, rfl, h⟩ := hashmapCall_insert.mp hcall
    exact insert_triples hv h
  | find key =>
    obtain ⟨r, rfl, rfl, h⟩ := hashmapCall_find.mp hcall
    exact ⟨le_rfl, Or.inl ⟨rfl, rfl⟩⟩
  | erase key =>
    obtain ⟨r, rfl, _, h⟩ := hashmapCall_erase.mp hcall
    exact erase_triples hv h

lemma Triples.pays {rehashed inserted : Nat} (h : Triples hm rehashed inserted hm') :
    2 * rehashed + hm'.saved ≤ hm.saved + 5 * inserted := by
  obtain ⟨hused, ⟨rfl, hsame⟩ | ⟨rfl, htripled, hload⟩⟩ := h
  · rw [saved, saved, hsame]
    omega
  · rw [saved, saved, htripled]
    omega

/-- The table is no larger than at first, or has tripled for as many keys as have been inserted. -/
structure Proportionate (bound inserted : Nat) (hm : Hashmap) : Prop where
  used : hm.slotsUsed.toNat ≤ inserted
  slots : 7 * hm.tableCount.toNat ≤ max (7 * bound) (30 * inserted)

lemma Proportionate.step {bound n rehashed inserted : Nat} (h : Proportionate bound n hm)
    (htriples : Triples hm rehashed inserted hm') : Proportionate bound (n + inserted) hm' := by
  obtain ⟨hn, hslots⟩ := h
  obtain ⟨hused, hcase⟩ := htriples
  refine ⟨by omega, ?_⟩
  rcases hcase with ⟨_, hsame⟩ | ⟨_, htripled, hload⟩
  · rw [hsame]
    omega
  · rw [htripled]
    omega

/-- The invariant of the iteration: the table is in order, and its keys are some finite set. -/
def Keyed (hm : Hashmap) : Prop := hm.Valid ∧ ∃ keys : Finset (List Byte), ∀ k, k ∈ keys ↔ Stored hm.table k

lemma Keyed.step {c c' : Hashmap × σ} {l : HashmapCall × HashmapAnswer} (h : c.1.Keyed)
    (hstep : HashmapStep A c l c') : c'.1.Keyed := by
  obtain ⟨hv, keys, hkeys⟩ := h
  obtain ⟨keys', _, hv', hkeys'⟩ := step_keys ⟨hv, hkeys⟩ hstep
  exact ⟨hv', keys', hkeys'⟩

lemma Proportionate.run {bound n : Nat} {c c' : Hashmap × σ} {ls : List (HashmapCall × HashmapAnswer)}
    (hc : c.1.Keyed) (h : Proportionate bound n c.1) (hrun : Run (HashmapStep A) c ls c') :
    Proportionate bound (n + (ls.map insertions).sum) c'.1 := by
  induction hrun generalizing n with
  | nil => exact h
  | @cons c c₁ c' l ls hfirst _ ih =>
    have hrest := ih (hc.step hfirst) (h.step (step_triples hc.1 hfirst))
    rwa [List.map_cons, List.sum_cons, ← Nat.add_assoc]

lemma init_keyed {keySize valueSize tableCount : UInt32} {hash : Hash32Func}
    (hpos : 0 < tableCount) (hfits : StorageFits keySize valueSize tableCount)
    (hinit : hashmapInitWithOptions A keySize valueSize tableCount hash s = some (some hm, s')) :
    hm.Keyed ∧ hm.slotsUsed = 0 ∧ hm.tableCount = tableCount := by
  obtain ⟨hv, htc, _, _, _, htable⟩ :=
    hashmapInitWithOptions_valid (pos_iff_toNat_pos.mp hpos) hfits.keys hinit
  refine ⟨⟨hv, ∅, fun k => ?_⟩, ?_, htc⟩
  · rw [htable]
    exact iff_of_false (Finset.notMem_empty k) fun ⟨_, hno⟩ => nomatch hno
  · have hused := hv.used
    rw [htable] at hused
    apply UInt32.toNat_inj.mp
    rw [← hused]
    exact Finset.card_eq_zero.mpr (Finset.filter_eq_empty_iff.mpr fun _ _ => Bool.false_ne_true)

end Hashmap

/-- Over every run from `hashmap_init_with_options`, whatever the hash function and the answers of
the allocator, the rehashes go through at most five slots for every two keys that have been
inserted, and a table that has grown has at most thirty slots for every seven of them. -/
theorem hashmap_growth_amortized {σ : Type} {A : Allocator σ} {keySize valueSize tableCount : UInt32}
    {hash : Hash32Func} {s s₀ s' : σ} {hm₀ hm : Hashmap} {ls : List (HashmapCall × HashmapAnswer)}
    {rehashed : Nat} (hpos : 0 < tableCount) (hfits : StorageFits keySize valueSize tableCount)
    (hinit : hashmapInitWithOptions A keySize valueSize tableCount hash s = some (some hm₀, s₀))
    (hrun : Run (Charged (HashmapStep A) Hashmap.rehashedSlots) ((hm₀, s₀), 0) ls
      ((hm, s'), rehashed)) :
    2 * rehashed ≤ 5 * (ls.map insertions).sum ∧
      7 * hm.tableCount.toNat ≤ max (7 * tableCount.toNat) (30 * (ls.map insertions).sum) := by
  obtain ⟨hkeyed, hused, htc⟩ := Hashmap.init_keyed hpos hfits hinit
  have hpay := (hrun.amortized 2 (fun c => c.1.saved) (fun c => c.1.Keyed)
    (fun c l c' hc hstep => ⟨hc.step hstep, (Hashmap.step_triples hc.1 hstep).pays⟩) hkeyed).2
  have hproportionate := Hashmap.Proportionate.run hkeyed
    (⟨by rw [hused]; exact le_rfl, by rw [htc]; exact le_max_left _ _⟩ :
      Hashmap.Proportionate tableCount.toNat 0 hm₀) hrun.uncharged
  rw [Nat.zero_add] at hproportionate
  refine ⟨?_, hproportionate.slots⟩
  have hsaved : hm₀.saved = 0 := by
    rw [Hashmap.saved, hused]
    exact Nat.zero_sub _
  have hprices : (ls.map fun l => 5 * insertions l).sum = 5 * (ls.map insertions).sum :=
    List.sum_map_mul_left ..
  dsimp only at hpay
  rw [hsaved, hprices] at hpay
  omega

def rehashingCall (c : (Hashmap × Unit) × Nat) (call : HashmapCall) :
    Option (HashmapAnswer × (Hashmap × Unit) × Nat) :=
  (steppedCall c.1 call).map fun r => (r.1, r.2, c.2 + Hashmap.rehashedSlots c.1 (call, r.1))

lemma rehashingCall_step (c : (Hashmap × Unit) × Nat) (call : HashmapCall) (answer : HashmapAnswer)
    (c' : (Hashmap × Unit) × Nat) (h : rehashingCall c call = some (answer, c')) :
    Charged (HashmapStep zeroAllocator) Hashmap.rehashedSlots c (call, answer) c' := by
  obtain ⟨⟨answer', c₁⟩, hcall, heq⟩ := Option.map_eq_some_iff.mp h
  obtain ⟨rfl, rfl⟩ := Prod.mk.inj heq
  exact ⟨steppedCall_step hcall, rfl⟩

/-- The table of four slots is rehashed for a fourth key, although the key is there already. -/
def rehashingCalls : List HashmapCall :=
  [.insert [1] (some [7]), .insert [2] none, .erase [1], .insert [3] (some [9]), .insert [4] none,
    .insert [2] (some [5]), .erase [4]]

theorem hashmap_growth_amortized_four : ∃ ls : List (HashmapCall × HashmapAnswer), ∃ hm : Hashmap,
    ∃ rehashed : Nat,
    ls.map Prod.fst = rehashingCalls ∧ rehashed = 4 ∧ hm.tableCount = 12 ∧
    2 * rehashed ≤ 5 * (ls.map insertions).sum ∧
    7 * hm.tableCount.toNat ≤ max (7 * 4) (30 * (ls.map insertions).sum) := by
  obtain ⟨hm₀, hinit⟩ : ∃ hm₀,
      hashmapInitWithOptions zeroAllocator 1 1 4 (fun _ => 0) () = some (some hm₀, ()) := ⟨_, rfl⟩
  have hcalls : (hashmapInitWithOptions zeroAllocator 1 1 4 (fun _ => 0) ()).bind
      (fun r => r.1.bind fun hm => (runCalls rehashingCall ((hm, ()), 0) rehashingCalls).map
        fun r => (r.1.map Prod.fst, r.2.2, r.2.1.1.tableCount)) = some (rehashingCalls, 4, 12) := by
    decide +kernel
  rw [hinit] at hcalls
  obtain ⟨ls, ⟨⟨hm, _⟩, rehashed⟩, hrun, hview⟩ := Run.exists_of_runCalls rehashingCall_step hcalls
  simp only [Prod.mk.injEq] at hview
  obtain ⟨hls, hrehashed, htc⟩ := hview
  exact ⟨ls, hm, rehashed, hls, hrehashed, htc, hashmap_growth_amortized (by decide)
    (show StorageFits 1 1 4 by unfold StorageFits; decide) hinit hrun⟩

end CStructures
