import CStructures.Proofs.HashmapProbing

/-!
# Tombstones and unused slots

An erasure leaves a tombstone, which ends no search, and the load that decides about a
rehash counts entries only. An insertion keeps an unused slot in the table exactly when it
is `Roomy`; when insertions are not, repeated insertion and erasure use up all the slots.
-/

namespace CStructures
open Lib

namespace Hashmap

variable {hm hm' : Hashmap} {key : List Byte} {value : Option (List Byte)} {pos : UInt32}

def HasUnused (hm : Hashmap) : Prop :=
  ∃ pos : UInt32, pos.toNat < hm.tableCount.toNat ∧ hm.slot pos = hmSlotUnused

def unusedCount (hm : Hashmap) : Nat :=
  cellCount (Finset.range hm.tableCount.toNat) Cell.isUnused hm.table

lemma hasUnused_iff : hm.HasUnused ↔ 0 < hm.unusedCount := by
  rw [unusedCount, cellCount, Finset.card_pos]
  constructor
  · rintro ⟨p, hp, hslot⟩
    refine ⟨p.toNat, Finset.mem_filter.mpr ⟨Finset.mem_range.mpr hp, ?_⟩⟩
    rw [Cell.isUnused_iff, table_toNat hp, cell_eq_unused]
    exact hslot
  · rintro ⟨n, hn⟩
    obtain ⟨hlt, hunused⟩ := Finset.mem_filter.mp hn
    rw [Finset.mem_range] at hlt
    have hto : (UInt32.ofNat n).toNat = n := toNat_ofNat_of_le hlt.le
    refine ⟨UInt32.ofNat n, by rwa [hto], cell_eq_unused.mp ?_⟩
    rw [← table_toNat (by rwa [hto]), hto]
    exact Cell.isUnused_iff.mp hunused

/-- The search for `key` passes a tombstone before it meets an unused slot. -/
def MeetsTombstone (hm : Hashmap) (key : List Byte) : Prop :=
  ∃ j, hm.table (hm.path key j) = .tombstone ∧ ∀ i < j, hm.table (hm.path key i) ≠ .unused

/-- An insertion that leaves an unused slot: the table is expanded, or has another unused
slot, or has the key already, or a tombstone is reused. -/
def Roomy (hm : Hashmap) : HashmapCall → Prop
  | .insert key _ =>
    loadCheck hm = true ∨ 1 < hm.unusedCount ∨ Stored hm.table key ∨ hm.MeetsTombstone key
  | _ => True

lemma unusedCount_storeEntry (hf : hm.KeysFit) (hp : pos.toNat < hm.tableCount.toNat)
    (hk : key.length = hm.keySize.toNat) :
    (storeEntry hm pos (hashWrapper hm key) key value).unusedCount +
      (hm.table pos.toNat).isUnused.toNat = hm.unusedCount := by
  have hcount := cellCount_update (Finset.mem_range.mpr hp) Cell.isUnused hm.table (.live key)
  rw [unusedCount, table_storeEntry hf hp hk, storeEntry_tableCount]
  simpa [Cell.isUnused, unusedCount] using hcount

lemma unusedCount_buryEntry (hf : hm.KeysFit) (hp : pos.toNat < hm.tableCount.toNat)
    (hlive : hm.cell pos = .live key) : (hm.buryEntry pos).unusedCount = hm.unusedCount := by
  have hcount := cellCount_update (Finset.mem_range.mpr hp) Cell.isUnused hm.table .tombstone
  rw [table_toNat hp, hlive] at hcount
  rw [unusedCount, table_buryEntry hf hp]
  change cellCount (Finset.range hm.tableCount.toNat) _ _ = _
  simpa [Cell.isUnused, unusedCount] using hcount

/-- At the end of a search the key goes to a tombstone exactly when one was met. -/
lemma isUnused_storable {n : Nat} (hpass : Passes hm.path hm.table key n)
    (hn : hm.table (hm.path key n) = .unused) (hs : Storable hm.path hm.table key n pos.toNat) :
    (hm.table pos.toNat).isUnused = false ↔ hm.MeetsTombstone key := by
  constructor
  · intro hfalse
    rcases hs with ⟨heq, _⟩ | ⟨j, hj, heq, htomb⟩
    · rw [heq, hn] at hfalse
      cases hfalse
    · exact ⟨j, heq ▸ htomb, fun i hi => (hpass i (by omega)).1⟩
  · rintro ⟨j, hj, hclear⟩
    have hlt : j < n := by
      by_contra hge
      rcases Nat.eq_or_lt_of_le (Nat.not_lt.mp hge) with heq | hgt
      · rw [← heq, hn] at hj
        cases hj
      · exact hclear n hgt hn
    rcases hs with ⟨_, hnone⟩ | ⟨_, _, _, htomb⟩
    · exact absurd hj (hnone j hlt)
    · rw [htomb]
      rfl

lemma Valid.unusedCount_add_used (hv : hm.Valid) (hno : ∀ p, hm.table p ≠ .tombstone) :
    hm.unusedCount + hm.slotsUsed.toNat = hm.tableCount.toNat := by
  have hpart := cellCount_partition (Finset.range hm.tableCount.toNat) hm.table
  have htomb : cellCount (Finset.range hm.tableCount.toNat) Cell.isTombstone hm.table = 0 := by
    rw [cellCount, Finset.card_eq_zero, Finset.filter_eq_empty_iff]
    intro p _ hp
    have hcell := hno p
    cases htable : hm.table p <;> simp_all [Cell.isTombstone]
  rw [hv.used, htomb, Finset.card_range] at hpart
  rw [unusedCount]
  omega

/-- A rehash leaves at least two thirds of the slots unused. -/
lemma Rehashed.unusedCount (h : Rehashed hm hm') (hv : hm.Valid) :
    2 * hm.tableCount.toNat ≤ hm'.unusedCount := by
  have hpart := h.valid.unusedCount_add_used h.noTombstone
  have hlive := cellCount_le (Finset.range hm.tableCount.toNat) Cell.isLive hm.table
  rw [hv.used, Finset.card_range] at hlive
  rw [h.used, h.tableCount] at hpart
  omega

section Steps

variable {σ : Type} {A : Allocator σ} {s s' : σ} {fuel : Nat} {status : HashmapStatus}

theorem Valid.insert_hasUnused (hv : hm.Valid) (hu : hm.HasUnused)
    (hkey : key.length = hm.keySize.toNat)
    (h : hashmapInsert A fuel hm key value s = some ((status, hm'), s')) :
    hm'.Valid ∧ (hm'.HasUnused ↔ hm.Roomy (.insert key value)) := by
  have htc := hv.tableCount_pos
  rcases hashmapInsert_cases hv h with
    ⟨_, rfl, hload, _⟩ | ⟨grown, fuel', ⟨rfl, _, hload⟩ | ⟨hload, hre, _⟩, hvg, hins⟩
  · exact ⟨hv, iff_of_true hu (Or.inl hload)⟩
  · rcases insertProbed_spec hv hins with
      ⟨_, rfl, hst⟩ | ⟨n, pos, _, rfl, hpos, hpass, hn, hs⟩
    · exact ⟨hv, iff_of_true hu (Or.inr (Or.inr (Or.inl hst)))⟩
    · refine ⟨hv.store hkey hpos hpass hn hs, ?_⟩
      have hcount := @unusedCount_storeEntry _ key value pos hv.keysFit hpos hkey
      have hns := hv.wellFormed.not_stored hpass hn
      have htomb := isUnused_storable hpass hn hs
      rw [hasUnused_iff] at hu ⊢
      simp only [Roomy, hload, hns, Bool.false_eq_true, false_or, ← htomb]
      cases hb : (grown.table pos.toNat).isUnused with
      | true =>
        rw [hb, Bool.toNat_true] at hcount
        simp only [Bool.true_eq_false, or_false]
        omega
      | false =>
        rw [hb, Bool.toNat_false] at hcount
        simp only [or_true, iff_true]
        omega
  · have hroom := hre.unusedCount hv
    have hgoal : hm'.Valid ∧ hm'.HasUnused := by
      rcases insertProbed_spec hvg hins with
        ⟨_, rfl, _⟩ | ⟨n, pos, _, rfl, hpos, hpass, hn, hs⟩
      · exact ⟨hvg, hasUnused_iff.mpr (by omega)⟩
      · have hkey' : key.length = grown.keySize.toNat := by rw [hre.keySize, hkey]
        have hcount := @unusedCount_storeEntry _ key value pos hvg.keysFit hpos hkey'
        have hle := Bool.toNat_le (grown.table pos.toNat).isUnused
        exact ⟨hvg.store hkey' hpos hpass hn hs, hasUnused_iff.mpr (by omega)⟩
    exact ⟨hgoal.1, iff_of_true hgoal.2 (Or.inl hload)⟩

/-- Any call that returns leaves an unused slot exactly when it is roomy. -/
theorem step_hasUnused {c c' : Hashmap × σ} {l : HashmapCall × HashmapAnswer} (hv : c.1.Valid)
    (hu : c.1.HasUnused) (hstep : HashmapStep A c l c') :
    c'.1.Valid ∧ (c'.1.HasUnused ↔ c.1.Roomy l.1) := by
  obtain ⟨hfits, fuel, hcall⟩ := hstep
  obtain ⟨call, answer⟩ := l
  cases call with
  | insert key value =>
    obtain ⟨status, _, hins⟩ := hashmapCall_insert.mp hcall
    exact hv.insert_hasUnused hu hfits.1 hins
  | find key =>
    obtain ⟨r, _, rfl, _⟩ := hashmapCall_find.mp hcall
    exact ⟨hv, iff_of_true hu trivial⟩
  | erase key =>
    obtain ⟨r, _, _, herase⟩ := hashmapCall_erase.mp hcall
    rcases hashmapErase_cases hv herase with ⟨_, hsame, _⟩ | ⟨pos, _, hburied, hpos, hlive⟩
    · rw [hsame]
      exact ⟨hv, iff_of_true hu trivial⟩
    · rw [hburied]
      refine ⟨hv.bury hpos hlive, iff_of_true ?_ trivial⟩
      rw [hasUnused_iff] at hu ⊢
      rwa [unusedCount_buryEntry hv.keysFit hpos hlive]

/-- A call keeps the hash function, and uses up one unused slot at most. -/
lemma step_unusedCount {c c' : Hashmap × σ} {l : HashmapCall × HashmapAnswer} (hv : c.1.Valid)
    (hstep : HashmapStep A c l c') :
    c'.1.Valid ∧ c'.1.hash = c.1.hash ∧ c.1.unusedCount ≤ c'.1.unusedCount + 1 := by
  obtain ⟨hfits, fuel, hcall⟩ := hstep
  obtain ⟨call, answer⟩ := l
  cases call with
  | insert key value =>
    obtain ⟨status, _, hins⟩ := hashmapCall_insert.mp hcall
    rcases hashmapInsert_cases hv hins with ⟨_, hsame, _⟩ | ⟨grown, fuel', hgrown, hvg, hprobed⟩
    · rw [hsame]
      exact ⟨hv, rfl, Nat.le_succ _⟩
    have hsame := hgrown.sameContents
    have hks : key.length = grown.keySize.toNat := by rw [hsame.1, hfits.1]
    have hle : c.1.unusedCount ≤ grown.unusedCount := by
      rcases hgrown with ⟨rfl, _⟩ | ⟨_, hre, _⟩
      · exact le_rfl
      · have hall := cellCount_le (Finset.range c.1.tableCount.toNat) Cell.isUnused c.1.table
        rw [Finset.card_range] at hall
        have hroom := hre.unusedCount hv
        change c.1.unusedCount ≤ _ at hall
        omega
    rcases insertProbed_spec hvg hprobed with ⟨_, hgrown', _⟩ | ⟨n, pos, _, hstored, hpos, hpass, hn, hs⟩
    · rw [hgrown']
      exact ⟨hvg, hsame.hash, hle.trans (Nat.le_succ _)⟩
    · have hcount := @unusedCount_storeEntry _ key value pos hvg.keysFit hpos hks
      have hbit := Bool.toNat_le (grown.table pos.toNat).isUnused
      rw [hstored]
      exact ⟨hvg.store hks hpos hpass hn hs, storeEntry_hash.trans hsame.hash, by omega⟩
  | find key =>
    obtain ⟨r, _, hsame, _⟩ := hashmapCall_find.mp hcall
    rw [hsame]
    exact ⟨hv, rfl, Nat.le_succ _⟩
  | erase key =>
    obtain ⟨r, _, _, herase⟩ := hashmapCall_erase.mp hcall
    rcases hashmapErase_cases hv herase with ⟨_, hsame, _⟩ | ⟨pos, _, hburied, hpos, hlive⟩
    · rw [hsame]
      exact ⟨hv, rfl, Nat.le_succ _⟩
    · have hcount := unusedCount_buryEntry hv.keysFit hpos hlive
      rw [hburied]
      exact ⟨hv.bury hpos hlive, buryEntry_hash, hcount.ge.trans (Nat.le_succ _)⟩

def RoomyStep (A : Allocator σ) (c : Hashmap × σ) (l : HashmapCall × HashmapAnswer)
    (c' : Hashmap × σ) : Prop :=
  HashmapStep A c l c' ∧ c.1.Roomy l.1

/-- A run of fewer calls than there are unused slots is roomy. -/
theorem run_roomy {c c' : Hashmap × σ} {ls : List (HashmapCall × HashmapAnswer)} (hv : c.1.Valid)
    (hrun : Run (HashmapStep A) c ls c') (hshort : ls.length < c.1.unusedCount) :
    Run (RoomyStep A) c ls c' := by
  induction hrun with
  | nil => exact .nil _
  | @cons c c₁ c' l ls hfirst _ ih =>
    rw [List.length_cons] at hshort
    obtain ⟨hv₁, _, hle⟩ := step_unusedCount hv hfirst
    refine .cons ⟨hfirst, ?_⟩ (ih hv₁ (by omega))
    unfold Roomy
    split
    · exact Or.inr (Or.inl (by omega))
    · trivial

end Steps

end Hashmap

/-- From `hashmap_create`, in every run of roomy calls the table keeps an unused slot, and
the next call keeps one exactly when it is roomy too. -/
theorem unused_slot_remains {σ : Type} {A : Allocator σ} {s s₀ s' : σ} {keySize valueSize : UInt32}
    {hash : Hash32Func} {hm₀ hm : Hashmap} {ls : List (HashmapCall × HashmapAnswer)}
    (hinit : hashmapCreateWithOptions A keySize valueSize hmDefaultTableCount hash s =
      some (some hm₀, s₀))
    (hrun : Run (Hashmap.RoomyStep A) (hm₀, s₀) ls (hm, s')) :
    hm.HasUnused ∧ ∀ l c', HashmapStep A (hm, s') l c' → (c'.1.HasUnused ↔ hm.Roomy l.1) := by
  obtain ⟨hef, htc, _, _, _, ht, _⟩ :=
    Hashmap.hashmapCreateWithOptions_spec (by decide) (by decide) hinit
  have h0 : hm₀.HasUnused := by
    have hpos : (0 : UInt32).toNat < hm₀.tableCount.toNat := hef.valid.tableCount_pos
    refine ⟨0, hpos, Hashmap.cell_eq_unused.mp ?_⟩
    rw [← Hashmap.table_toNat hpos, ht]
  obtain ⟨hv, hu⟩ := hrun.invariant (fun c => c.1.Valid ∧ c.1.HasUnused)
    (fun c l c' hc hstep => by
      obtain ⟨hv', hiff⟩ := Hashmap.step_hasUnused hc.1 hc.2 hstep.1
      exact ⟨hv', hiff.mpr hstep.2⟩) ⟨hef.valid, h0⟩
  exact ⟨hu, fun l c' hstep => (Hashmap.step_hasUnused hv hu hstep).2⟩

def buryingCalls : List HashmapCall :=
  [.insert (leBytes 2 300) none, .erase (leBytes 2 300), .insert (leBytes 2 0) none]

lemma crowded_reused {hm₀ : Hashmap} (h : Crowded 0 hm₀)
    (hinit : hashmapCreateWithOptions zeroAllocator 2 0 hmDefaultTableCount (fun _ => 7) () =
      some (some hm₀, ())) :
    ∃ ls hm, Run (HashmapStep zeroAllocator) (hm₀, ()) ls (hm, ()) ∧ ls.map Prod.fst = buryingCalls ∧
      Crowded 1 hm := by
  have hcalls : (hashmapCreateWithOptions zeroAllocator 2 0 hmDefaultTableCount (fun _ => 7) ()).bind
      (fun r => r.1.bind fun hm => (runCalls steppedCall (hm, ()) buryingCalls).map fun r =>
        decide (r.1.map Prod.fst = buryingCalls ∧ r.2.1.keySize = 2 ∧ r.2.1.tableCount = 128 ∧
          r.2.1.slotsUsed = 1 ∧ (List.range 128).map r.2.1.table =
            (List.range 128).map fun p => if p = 7 then Cell.live (leBytes 2 0) else .unused)) =
      some true := by decide +kernel
  rw [hinit] at hcalls
  obtain ⟨ls, ⟨hm, _⟩, hrun, hview⟩ := Run.exists_of_runCalls (fun _ _ _ _ h => steppedCall_step h) hcalls
  obtain ⟨hfst, hks, hcount, hused, hcells⟩ := of_decide_eq_true hview
  obtain ⟨hv, hhash⟩ := hrun.invariant (fun c => c.1.Valid ∧ c.1.hash = fun _ => 7)
    (fun c l c' hc hstep => by
      obtain ⟨hv, hhash, _⟩ := Hashmap.step_unusedCount hc.1 hstep
      exact ⟨hv, hhash.trans hc.2⟩) ⟨h.eraseFree.valid, h.hash⟩
  have htable : ∀ p < 128, hm.table p = if p = 7 then .live (leBytes 2 0) else .unused := by
    intro p hp
    exact List.map_inj_left.mp hcells p (List.mem_range.mpr hp)
  have hout : ∀ p, 128 ≤ p → hm.table p = .unused := fun p hp => if_neg (by rw [hcount]; exact Nat.not_lt.mpr hp)
  refine ⟨ls, hm, hrun, hfst, ⟨hv, ?_, fun p htomb => ?_⟩, hhash, hks, ?_, ?_, fun k => ?_⟩
  · rw [hcount]
    decide
  · by_cases hp : p < 128
    · rw [htable p hp] at htomb
      split_ifs at htomb
    · rw [hout p (Nat.not_lt.mp hp)] at htomb
      cases htomb
  · rw [hcount]
    rfl
  · rw [hused]
    rfl
  · constructor
    · rintro ⟨p, hp⟩
      have hlt := Hashmap.table_eq_live_lt hp
      rw [hcount] at hlt
      rw [htable p hlt] at hp
      split_ifs at hp
      exact ⟨0, Nat.zero_lt_one, (Cell.live.inj hp).symm⟩
    · rintro ⟨i, hi, rfl⟩
      obtain rfl := Nat.lt_one_iff.mp hi
      exact ⟨7, htable 7 (by decide)⟩

/-- A tombstone is reused, and 99 more insertions expand the table. -/
theorem unused_slot_remains_reused : ∃ hm₀ ls hm,
    hashmapCreateWithOptions zeroAllocator 2 0 hmDefaultTableCount (fun _ => 7) () = some (some hm₀, ()) ∧
    Run (Hashmap.RoomyStep zeroAllocator) (hm₀, ()) ls (hm, ()) ∧ buryingCalls <+: ls.map Prod.fst ∧
    hm.tableCount.toNat = 384 ∧ hm.slotsUsed.toNat = 100 ∧
    hm.HasUnused ∧ ∀ l c', HashmapStep zeroAllocator (hm, ()) l c' → (c'.1.HasUnused ↔ hm.Roomy l.1) := by
  obtain ⟨hm₀, hinit, hzero⟩ := crowded_init
  obtain ⟨ls, hm₁, hreused, hfst, hone⟩ := crowded_reused hzero hinit
  obtain ⟨ls', hm, hinserted, hlength, h⟩ := crowded_run hone (by decide : 1 ≤ 100) (by decide)
  have hrun := hreused.append (hinserted.mono fun _ _ _ hstep => hstep.1)
  have hshort : (ls ++ ls').length < hm₀.unusedCount := by
    have hparts := hzero.eraseFree.valid.unusedCount_add_used hzero.eraseFree.noTombstone
    have hthree : ls.length = 3 := by rw [← List.length_map Prod.fst, hfst]; rfl
    rw [hzero.used, hzero.tableCount, if_pos (Nat.zero_le _)] at hparts
    rw [List.length_append, hthree, hlength]
    omega
  have hroomy := Hashmap.run_roomy hzero.eraseFree.valid hrun hshort
  refine ⟨hm₀, _, hm, hinit, hroomy, ?_, h.tableCount, h.used, unused_slot_remains hinit hroomy⟩
  rw [List.map_append, hfst]
  exact List.prefix_append _ _

/-! ### Running out of unused slots -/

def slotHash : Hash32Func := fun key => UInt32.ofNat (ofLe key) + 128

/-- The first table after `m` one-byte keys have been inserted and erased again. -/
structure Buried (m : Nat) (hm : Hashmap) : Prop where
  valid : hm.Valid
  tableCount : hm.tableCount = 128
  keySize : hm.keySize = 1
  hash : hm.hash = slotHash
  used : hm.slotsUsed = 0
  table : ∀ p < 128, hm.table p = if p < m then .tombstone else .unused

lemma Buried.tableCount_toNat {m : Nat} {hm : Hashmap} (h : Buried m hm) :
    hm.tableCount.toNat = 128 := by
  rw [h.tableCount]
  rfl

lemma Buried.path_zero {m b : Nat} {hm : Hashmap} (h : Buried m hm) (hb : b < 128) :
    hm.path (leBytes 1 b) 0 = b := by
  have hofLe : ofLe (leBytes 1 b) = b := by
    rw [ofLe_leBytes]
    omega
  have hslot : slotHash (leBytes 1 b) = UInt32.ofNat (b + 128) := by
    rw [slotHash, hofLe, UInt32.ofNat_add]
    rfl
  have hto : (UInt32.ofNat (b + 128)).toNat = b + 128 :=
    UInt32.toNat_ofNat_of_lt' (by simp [UInt32.size]; omega)
  have hwrap : hashWrapper hm (leBytes 1 b) = UInt32.ofNat (b + 128) := by
    have hne : ∀ w : UInt32, w.toNat < 128 ∨ 256 ≤ w.toNat → UInt32.ofNat (b + 128) ≠ w := by
      rintro w hw rfl
      omega
    rw [hashWrapper, h.hash, hslot]
    refine if_neg ?_
    rintro (heq | heq | heq)
    · exact hne _ (Or.inl (by decide)) heq
    · exact hne _ (Or.inl (by decide)) heq
    · exact hne _ (Or.inr (by decide)) heq
  change (hashWrapper hm (leBytes 1 b) % hm.tableCount).toNat = b
  rw [hwrap, UInt32.toNat_mod, hto, h.tableCount_toNat]
  omega

lemma Buried.not_stored {m : Nat} {hm : Hashmap} (h : Buried m hm) (key : List Byte) :
    ¬Stored hm.table key := by
  rintro ⟨p, hp⟩
  have hlt := Hashmap.table_eq_live_lt hp
  rw [h.tableCount_toNat] at hlt
  rw [h.table p hlt] at hp
  split_ifs at hp

lemma Buried.insert {m : Nat} {hm : Hashmap} (h : Buried m hm) (hlt : m < 128) :
    ∃ status pos, pos.toNat = m ∧
      hashmapInsert zeroAllocator 129 hm (leBytes 1 m) none () =
        some ((status, storeEntry hm pos (hashWrapper hm (leBytes 1 m)) (leBytes 1 m) none), ()) ∧
      (storeEntry hm pos (hashWrapper hm (leBytes 1 m)) (leBytes 1 m) none).Valid := by
  set key := leBytes 1 m with hkeydef
  have hpath : hm.path key 0 = m := h.path_zero hlt
  have hkey : key.length = hm.keySize.toNat := by
    rw [h.keySize, hkeydef, length_leBytes]
    rfl
  have hunused : hm.table (hm.path key 0) = .unused := by
    rw [hpath, h.table m hlt, if_neg (by omega)]
  have htc := h.tableCount_toNat
  have hends : hm.ProbeEnds key := by
    refine ⟨0, by omega, Hashmap.cell_eq_unused.mp ?_⟩
    rw [← Hashmap.table_path h.valid.tableCount_pos, hunused]
  have hload : ¬loadCheck hm = true := by
    rw [loadCheck, h.used, h.tableCount]
    decide
  obtain ⟨⟨status, hm'⟩, hins⟩ := @Hashmap.hashmapInsert_returns_of_not_loadCheck hm key none Unit
    zeroAllocator () 129 hload hends (by omega)
  obtain ⟨_, fuel, hprobed⟩ := Hashmap.hashmapInsert_of_not_loadCheck hload hins
  rcases Hashmap.insertProbed_spec h.valid hprobed with
    ⟨_, _, hst⟩ | ⟨n, pos, _, rfl, hpos, hpass, hn, hs⟩
  · exact absurd hst (h.not_stored key)
  · have hn0 : n = 0 := by
      by_contra hne
      exact (hpass 0 (by omega)).1 hunused
    subst hn0
    have hposm : pos.toNat = m := by
      rcases hs with ⟨heq, _⟩ | ⟨j, hj, _⟩
      · rw [heq, hpath]
      · omega
    exact ⟨status, pos, hposm, hins, h.valid.store hkey hpos hpass hn hs⟩

lemma Buried.insert_erase {m : Nat} {hm : Hashmap} (h : Buried m hm) (hlt : m < 128) :
    ∃ l l' hm' hm'', HashmapStep zeroAllocator (hm, ()) l (hm', ()) ∧
      HashmapStep zeroAllocator (hm', ()) l' (hm'', ()) ∧ Buried (m + 1) hm'' := by
  obtain ⟨status, pos, hposm, hins, hvalid⟩ := h.insert hlt
  set key := leBytes 1 m with hkeydef
  have hkey : key.length = hm.keySize.toNat := by
    rw [h.keySize, hkeydef, length_leBytes]
    rfl
  have hpos : pos.toNat < hm.tableCount.toNat := by
    rw [hposm, h.tableCount_toNat]
    exact hlt
  set hm' := storeEntry hm pos (hashWrapper hm key) key none with hm'def
  have htable : hm'.table = Function.update hm.table m (.live key) := by
    rw [← hposm]
    exact Hashmap.table_storeEntry h.valid.keysFit hpos hkey
  have hpath' : hm'.path key 0 = m := by
    have hcongr : hm'.path = hm.path :=
      Hashmap.path_congr Hashmap.storeEntry_hash Hashmap.storeEntry_tableCount
    rw [hcongr, h.path_zero hlt]
  obtain ⟨r, hlookup⟩ := @Hashmap.lookup_returns hm' key 1 0 hvalid (by omega)
    (Or.inr (by rw [hpath', htable, Function.update_self]))
  obtain ⟨⟨r', hm''⟩, herase⟩ : ∃ r, hashmapErase 1 hm' key = some r := by
    rw [hashmapErase, hlookup]
    cases r <;> exact ⟨_, rfl⟩
  have hstored : hm'.table m = .live key := by rw [htable, Function.update_self]
  rcases Hashmap.hashmapErase_cases hvalid herase with ⟨_, _, hns⟩ | ⟨pos', _, rfl, hpos', hlive⟩
  · exact absurd ⟨m, hstored⟩ hns
  have hposm' : pos'.toNat = m :=
    hvalid.wellFormed.unique _ _ key ((Hashmap.table_toNat hpos').trans hlive) hstored
  refine ⟨(.insert key none, .status status), (.erase key, .value (r'.map (hm'.buryEntry pos').deref)),
    hm', hm'.buryEntry pos', ⟨⟨hkey, by simp⟩, 129, ?_⟩, ⟨hkey, 1, ?_⟩, ?_⟩
  · simp only [hashmapCall, hins, Option.map_some]
  · simp only [hashmapCall, herase, Option.map_some]
  · refine ⟨hvalid.bury hpos' hlive, ?_, ?_, ?_, ?_, ?_⟩
    · rw [Hashmap.buryEntry_tableCount, Hashmap.storeEntry_tableCount, h.tableCount]
    · rw [Hashmap.buryEntry_keySize, Hashmap.storeEntry_keySize, h.keySize]
    · rw [Hashmap.buryEntry_hash, Hashmap.storeEntry_hash, h.hash]
    · rw [Hashmap.buryEntry_slotsUsed, Hashmap.storeEntry_slotsUsed, h.used]
      decide
    · intro p hp
      rw [Hashmap.table_buryEntry hvalid.keysFit hpos', htable, hposm', Function.update_idem]
      by_cases hpm : p = m
      · rw [hpm, Function.update_self, if_pos (by omega)]
      · rw [Function.update_of_ne hpm, h.table p hp]
        split_ifs <;> first | rfl | omega

lemma buried_run {hm₀ : Hashmap} (h : Buried 0 hm₀) {m : Nat} (hle : m ≤ 128) :
    ∃ ls hm, Run (HashmapStep zeroAllocator) (hm₀, ()) ls (hm, ()) ∧ Buried m hm := by
  induction m with
  | zero => exact ⟨[], hm₀, .nil _, h⟩
  | succ m ih =>
    obtain ⟨ls, hm, hrun, hm'⟩ := ih (by omega)
    obtain ⟨l, l', hm1, hm2, hstep, hstep', hc⟩ := hm'.insert_erase (by omega)
    exact ⟨ls ++ [l] ++ [l'], hm2, (hrun.snoc hstep).snoc hstep', hc⟩

/-- Inserting and erasing 128 keys leaves no unused slot, and the search for a key never
returns. -/
theorem unused_slots_exhausted : ∃ hm₀ ls hm,
    hashmapCreateWithOptions zeroAllocator 1 0 hmDefaultTableCount slotHash () =
      some (some hm₀, ()) ∧
    Run (HashmapStep zeroAllocator) (hm₀, ()) ls (hm, ()) ∧ hashmapCount hm = 0 ∧
    (¬∃ pos : UInt32, pos.toNat < hm.tableCount.toNat ∧ hm.slot pos = hmSlotUnused) ∧
    ∀ fuel key, hashmapFind fuel hm key = none := by
  obtain ⟨hm₀, hinit⟩ : ∃ hm₀, hashmapCreateWithOptions zeroAllocator 1 0 hmDefaultTableCount
      slotHash () = some (some hm₀, ()) := ⟨_, rfl⟩
  obtain ⟨hef, htc, hks, _, hhash, ht, hused⟩ :=
    Hashmap.hashmapCreateWithOptions_spec (by decide) (by decide) hinit
  have hzero : Buried 0 hm₀ := ⟨hef.valid, htc, hks, hhash, hused, fun p _ => by simp [ht]⟩
  obtain ⟨ls, hm, hrun, h⟩ := buried_run hzero le_rfl
  have hfull : ∀ p < 128, hm.table p = .tombstone := by
    intro p hp
    rw [h.table p hp, if_pos hp]
  refine ⟨hm₀, ls, hm, hinit, hrun, h.used, ?_, ?_⟩
  · rintro ⟨pos, hpos, hslot⟩
    have hcell := Hashmap.cell_eq_unused.mpr hslot
    rw [← Hashmap.table_toNat hpos, hfull _ (h.tableCount_toNat ▸ hpos)] at hcell
    cases hcell
  · intro fuel key
    cases hl : lookup fuel hm key with
    | none => rw [hashmapFind, hl]
    | some r =>
      cases r with
      | none =>
        obtain ⟨n, _, hn⟩ := Hashmap.lookup_ends h.valid hl
        have hlt := @Hashmap.probeAt_pos_lt hm key h.valid.tableCount_pos n
        rw [Hashmap.path_eq, hfull _ (h.tableCount_toNat ▸ hlt)] at hn
        cases hn
      | some pos =>
        obtain ⟨hpos, hlive⟩ := Hashmap.lookup_found h.valid hl
        exact absurd ⟨_, (Hashmap.table_toNat hpos).trans hlive⟩ (h.not_stored key)

end CStructures
