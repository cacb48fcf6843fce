import CStructures.Proofs.HashmapRehash

/-!
# The hashmap refines a finite map

One specification for each operation, in terms of a finite map that the table represents,
and from them the simulation of whole runs.
-/

namespace CStructures
open Lib

/-- The calls of a client. A NULL value leaves the value bytes of a new entry as they are. -/
inductive HashmapCall
  | insert (key : List Byte) (value : Option (List Byte))
  | find (key : List Byte)
  | erase (key : List Byte)
  deriving DecidableEq

/-- What a call answers. A pointer is observed through the value bytes at it. -/
inductive HashmapAnswer
  | status (status : HashmapStatus)
  | value (value : Option (List Byte))
  deriving DecidableEq

/-- A call passes a key and a value of the sizes that the map was made for. -/
def HashmapCall.Fits (hm : Hashmap) : HashmapCall → Prop
  | .insert key value =>
    key.length = hm.keySize.toNat ∧ ∀ v ∈ value, v.length = hm.valueSize.toNat
  | .find key => key.length = hm.keySize.toNat
  | .erase key => key.length = hm.keySize.toNat

instance HashmapCall.decidableFits (hm : Hashmap) (call : HashmapCall) : Decidable (call.Fits hm) := by
  cases call <;> unfold HashmapCall.Fits <;> infer_instance

def HashmapCall.HasValue : HashmapCall → Prop
  | .insert _ value => value.isSome
  | _ => True

instance HashmapCall.decidableHasValue (call : HashmapCall) : Decidable call.HasValue := by
  cases call <;> unfold HashmapCall.HasValue <;> infer_instance

/-- Make one call, on the map and the state of the allocator. -/
def hashmapCall {σ : Type} (A : Allocator σ) (fuel : Nat) (c : Hashmap × σ) :
    HashmapCall → Option (HashmapAnswer × Hashmap × σ)
  | .insert key value =>
    (hashmapInsert A fuel c.1 key value c.2).map fun r => (.status r.1.1, r.1.2, r.2)
  | .find key => (hashmapFind fuel c.1 key).map fun r => (.value (r.map c.1.deref), c)
  | .erase key => (hashmapErase fuel c.1 key).map fun r => (.value (r.1.map r.2.deref), r.2, c.2)

section Calls

variable {σ : Type} {A : Allocator σ} {fuel : Nat} {c c' : Hashmap × σ} {key : List Byte}
  {value : Option (List Byte)} {answer : HashmapAnswer}

lemma hashmapCall_insert : hashmapCall A fuel c (.insert key value) = some (answer, c') ↔
    ∃ status, answer = .status status ∧
      hashmapInsert A fuel c.1 key value c.2 = some ((status, c'.1), c'.2) := by
  rw [hashmapCall, Option.map_eq_some_iff]
  constructor
  · rintro ⟨⟨⟨status, hm'⟩, s'⟩, h, heq⟩
    cases heq
    exact ⟨status, rfl, h⟩
  · rintro ⟨status, rfl, h⟩
    exact ⟨_, h, rfl⟩

lemma hashmapCall_find : hashmapCall A fuel c (.find key) = some (answer, c') ↔
    ∃ r, answer = .value (r.map c.1.deref) ∧ c' = c ∧ hashmapFind fuel c.1 key = some r := by
  rw [hashmapCall, Option.map_eq_some_iff]
  constructor
  · rintro ⟨r, h, heq⟩
    cases heq
    exact ⟨r, rfl, rfl, h⟩
  · rintro ⟨r, rfl, rfl, h⟩
    exact ⟨r, h, rfl⟩

lemma hashmapCall_erase : hashmapCall A fuel c (.erase key) = some (answer, c') ↔
    ∃ r, answer = .value (r.map c'.1.deref) ∧ c'.2 = c.2 ∧ hashmapErase fuel c.1 key = some (r, c'.1) := by
  rw [hashmapCall, Option.map_eq_some_iff]
  constructor
  · rintro ⟨⟨r, hm'⟩, h, heq⟩
    cases heq
    exact ⟨r, rfl, rfl, h⟩
  · rintro ⟨r, rfl, hs, h⟩
    exact ⟨_, h, by rw [← hs]⟩

end Calls

def HashmapStep {σ : Type} (A : Allocator σ) (c : Hashmap × σ) (l : HashmapCall × HashmapAnswer)
    (c' : Hashmap × σ) : Prop :=
  l.1.Fits c.1 ∧ ∃ fuel, hashmapCall A fuel c l.1 = some (l.2, c')

abbrev ByteMap := Finmap fun _ : List Byte => List Byte

/-- The abstract map: what each call answers and leaves behind. -/
inductive MapStep : ByteMap → HashmapCall × HashmapAnswer → ByteMap → Prop
  | insertNew {m : ByteMap} {k v : List Byte} (h : k ∉ m) :
      MapStep m (.insert k (some v), .status .hmOk) (m.insert k v)
  | insertOld {m : ByteMap} {k v : List Byte} (h : k ∈ m) :
      MapStep m (.insert k (some v), .status .hmExists) m
  | find {m : ByteMap} {k : List Byte} : MapStep m (.find k, .value (m.lookup k)) m
  | erase {m : ByteMap} {k : List Byte} : MapStep m (.erase k, .value (m.lookup k)) (m.erase k)

namespace Hashmap

variable {σ : Type} {A : Allocator σ} {s s' : σ} {fuel : Nat} {hm hm' : Hashmap} {m : ByteMap}
  {key value : List Byte}

lemma Rehashed.represents (h : Rehashed hm hm') (hfit : hm'.ValuesFit)
    (hm : Represents hm.table hm.values m) : Represents hm'.table hm'.values m := by
  intro k v
  rw [h.binds hfit]
  exact hm k v

theorem hashmapInsert_spec {status : HashmapStatus} (hv : hm.Valid)
    (hm₀ : Represents hm.table hm.values m) (hkey : key.length = hm.keySize.toNat)
    (hvalue : value.length = hm.valueSize.toNat) (hfit : hm'.ValuesFit)
    (h : hashmapInsert A fuel hm key (some value) s = some ((status, hm'), s')) :
    hm'.Valid ∧ hm'.keySize = hm.keySize ∧ hm'.valueSize = hm.valueSize ∧ hm'.hash = hm.hash ∧
      ((status = .hmOom ∧ hm' = hm ∧ A.malloc hm.expandedSize s = some (none, s')) ∨
        (status = .hmExists ∧ key ∈ m ∧ Represents hm'.table hm'.values m) ∨
        (status = .hmOk ∧ key ∉ m ∧ Represents hm'.table hm'.values (m.insert key value))) := by
  rcases hashmapInsert_cases hv h with ⟨rfl, rfl, _, hn⟩ | ⟨grown, fuel', hgrown, hvg, hins⟩
  · exact ⟨hv, rfl, rfl, rfl, Or.inl ⟨rfl, rfl, hn⟩⟩
  obtain ⟨hks, hvs, hhash, _⟩ := hgrown.sameContents
  have hrep : grown.ValuesFit → Represents grown.table grown.values m := by
    rcases hgrown with ⟨rfl, _⟩ | ⟨_, hre, _⟩
    · exact fun _ => hm₀
    · exact fun hf => hre.represents hf hm₀
  rcases insertProbed_spec hvg hins with
    ⟨rfl, rfl, hst⟩ | ⟨n, pos, rfl, rfl, hpos, hpass, hn, hs⟩
  · exact ⟨hvg, hks, hvs, hhash,
      Or.inr (Or.inl ⟨rfl, (hrep hfit).mem_iff.mpr hst, hrep hfit⟩)⟩
  · have hfit' : grown.ValuesFit := by simpa [ValuesFit] using hfit
    have hkey' : key.length = grown.keySize.toNat := by rw [hks, hkey]
    have hvalue' : value.length = grown.valueSize.toNat := by rw [hvs, hvalue]
    have hns := hvg.wellFormed.not_stored hpass hn
    refine ⟨hvg.store hkey' hpos hpass hn hs, by simpa using hks, by simpa using hvs,
      by simpa using hhash, Or.inr (Or.inr ⟨rfl, fun hmem => hns ((hrep hfit').mem_iff.mp hmem), ?_⟩)⟩
    exact (hrep hfit').insert hns fun k' w =>
      binds_storeEntry hvg.keysFit hfit' hpos hkey' hvalue' hn hs k' w

lemma lookup_eq_some (hm₀ : Represents hm.table hm.values m) {pos : UInt32}
    (hpos : pos.toNat < hm.tableCount.toNat) (hlive : hm.cell pos = .live key) :
    m.lookup key = some (hm.value pos) :=
  (hm₀ key _).mpr ⟨pos.toNat, (table_toNat hpos).trans hlive, values_toNat⟩

lemma lookup_eq_none (hm₀ : Represents hm.table hm.values m) (h : ¬Stored hm.table key) :
    m.lookup key = none :=
  Finmap.lookup_eq_none.mpr fun hmem => h (hm₀.mem_iff.mp hmem)

theorem hashmapFind_spec {r : Option UInt64} (hv : hm.Valid)
    (hm₀ : Represents hm.table hm.values m) (h : hashmapFind fuel hm key = some r) :
    r.map hm.deref = m.lookup key := by
  unfold hashmapFind at h
  split at h
  · cases h
  · next hl =>
    rw [Option.some.injEq] at h
    subst h
    exact (lookup_eq_none hm₀ (lookup_absent hv hl)).symm
  · next pos hl =>
    rw [Option.some.injEq] at h
    subst h
    obtain ⟨hpos, hlive⟩ := lookup_found hv hl
    exact (lookup_eq_some hm₀ hpos hlive).symm

/-- An erasure that returns has buried the key, or found it absent. -/
theorem hashmapErase_cases {r : Option UInt64} (hv : hm.Valid)
    (h : hashmapErase fuel hm key = some (r, hm')) :
    (r = none ∧ hm' = hm ∧ ¬Stored hm.table key) ∨
      ∃ pos : UInt32, r = some (hm.valueOffset pos) ∧ hm' = hm.buryEntry pos ∧
        pos.toNat < hm.tableCount.toNat ∧ hm.cell pos = .live key := by
  unfold hashmapErase at h
  split at h
  · cases h
  · next hl =>
    rw [Option.some.injEq, Prod.mk.injEq] at h
    exact Or.inl ⟨h.1.symm, h.2.symm, lookup_absent hv hl⟩
  · next pos hl =>
    rw [Option.some.injEq, Prod.mk.injEq] at h
    exact Or.inr ⟨pos, h.1.symm, h.2.symm, lookup_found hv hl⟩

theorem hashmapErase_spec {r : Option UInt64} (hv : hm.Valid)
    (hm₀ : Represents hm.table hm.values m) (h : hashmapErase fuel hm key = some (r, hm')) :
    hm'.Valid ∧ hm'.keySize = hm.keySize ∧ hm'.valueSize = hm.valueSize ∧ hm'.hash = hm.hash ∧
      r.map hm'.deref = m.lookup key ∧ Represents hm'.table hm'.values (m.erase key) := by
  rcases hashmapErase_cases hv h with ⟨rfl, rfl, hns⟩ | ⟨pos, rfl, rfl, hpos, hlive⟩
  · have hnone := lookup_eq_none hm₀ hns
    refine ⟨hv, rfl, rfl, rfl, hnone.symm, hm₀.erase fun k' w => ?_⟩
    constructor
    · intro hb
      refine ⟨?_, hb⟩
      rintro rfl
      exact hns hb.stored
    · exact And.right
  · refine ⟨hv.bury hpos hlive, buryEntry_keySize, buryEntry_valueSize, buryEntry_hash, ?_,
      hm₀.erase (binds_buryEntry hv hpos hlive)⟩
    rw [lookup_eq_some hm₀ hpos hlive]
    exact congrArg some (value_buryEntry hv.keysFit hpos)

lemma Valid.card_keys (hv : hm.Valid) (hm₀ : Represents hm.table hm.values m) :
    (hashmapCount hm).toNat = m.keys.card := by
  classical
  change hm.slotsUsed.toNat = _
  rw [← hv.used, cellCount]
  have hkey : ∀ p ∈ (Finset.range hm.tableCount.toNat).filter fun p => (hm.table p).isLive,
      ∃ k, hm.table p = .live k := fun p hp => Cell.isLive_iff.mp (Finset.mem_filter.mp hp).2
  choose! f hf using hkey
  refine Finset.card_bij (fun p _ => f p) ?_ ?_ ?_
  · intro p hp
    rw [Finmap.mem_keys, hm₀.mem_iff]
    exact ⟨p, hf p hp⟩
  · intro p hp q hq hpq
    exact hv.wellFormed.unique p q (f p) (hf p hp) (hpq ▸ hf q hq)
  · intro k hk
    rw [Finmap.mem_keys, hm₀.mem_iff] at hk
    obtain ⟨p, hp⟩ := hk
    have hmem : p ∈ (Finset.range hm.tableCount.toNat).filter fun p => (hm.table p).isLive :=
      Finset.mem_filter.mpr ⟨Finset.mem_range.mpr (table_eq_live_lt hp), Cell.isLive_iff.mpr ⟨k, hp⟩⟩
    refine ⟨p, hmem, ?_⟩
    have hk := hf p hmem
    rw [hp, Cell.live.injEq] at hk
    exact hk.symm

/-- `hashmap_init_with_options` leaves an empty map where the keys are addressable. -/
theorem hashmapInitWithOptions_valid {keySize valueSize tableCount : UInt32} {hash : Hash32Func}
    (hpos : 0 < tableCount.toNat) (hf : (4 + keySize.toNat) * tableCount.toNat + 2 ^ 32 ≤ 2 ^ 64)
    (h : hashmapInitWithOptions A keySize valueSize tableCount hash s = some (some hm, s')) :
    hm.Valid ∧ hm.tableCount = tableCount ∧ hm.keySize = keySize ∧ hm.valueSize = valueSize ∧
      hm.hash = hash ∧ hm.table = fun _ => .unused := by
  rw [hashmapInitWithOptions, bind_eq_some] at h
  obtain ⟨b, s1, hmalloc, hrest⟩ := h
  obtain ⟨b', _, rfl⟩ := mallocAndInitStorage_spec hmalloc
  cases b' with
  | none =>
    obtain ⟨hr, _⟩ := pure_eq_some.mp hrest
    cases hr
  | some storage =>
    obtain ⟨hr, _⟩ := pure_eq_some.mp hrest
    rw [Option.some.injEq] at hr
    subst hr
    set hm₀ : Hashmap :=
      ⟨tableCount, keySize, valueSize, 0, hash, zeroedStorage storage keySize tableCount⟩
    have hf : hm₀.KeysFit := hf
    have ht : hm₀.table = fun _ => .unused := table_empty fun p hp => empty_slot hf rfl hp
    exact ⟨Valid.empty hpos hf rfl ht, rfl, rfl, rfl, rfl, ht⟩

theorem hashmapInitWithOptions_spec {keySize valueSize tableCount : UInt32} {hash : Hash32Func}
    (hpos : 0 < tableCount.toNat) (hsmall : tableCount.toNat ≤ 2 ^ 31)
    (h : hashmapInitWithOptions A keySize valueSize tableCount hash s = some (some hm, s')) :
    hm.Valid ∧ hm.tableCount = tableCount ∧ hm.keySize = keySize ∧ hm.valueSize = valueSize ∧
      hm.hash = hash ∧ hm.table = fun _ => .unused := by
  apply hashmapInitWithOptions_valid hpos _ h
  exact @keysFit_of_small ⟨tableCount, keySize, valueSize, 0, hash, hm.storage⟩ hsmall

/-- The block that `hashmap_init_with_options` asks for holds the table. -/
lemma hashmapInitWithOptions_malloc {keySize valueSize tableCount : UInt32} {hash : Hash32Func}
    {r : Option Hashmap}
    (h : hashmapInitWithOptions A keySize valueSize tableCount hash s = some (r, s')) :
    ∃ b, A.malloc ((4 + keySize.toUInt64 + valueSize.toUInt64) * tableCount.toUInt64) s = some (b, s') ∧
      r.map (fun hm => hm.storage.addr) = b.map Block.addr := by
  rw [hashmapInitWithOptions, bind_eq_some] at h
  obtain ⟨b, s1, hmalloc, hrest⟩ := h
  obtain ⟨b', hb', rfl⟩ := mallocAndInitStorage_spec hmalloc
  cases b' with
  | none =>
    obtain ⟨rfl, rfl⟩ := pure_eq_some.mp hrest
    exact ⟨none, hb', rfl⟩
  | some storage =>
    obtain ⟨rfl, rfl⟩ := pure_eq_some.mp hrest
    exact ⟨some storage, hb', rfl⟩

lemma represents_empty (ht : hm.table = fun _ => .unused) : Represents hm.table hm.values ∅ := by
  intro k v
  simp [ht, Binds]

/-! ### Whole runs -/

/-- A step with a value for every insertion, into a state whose value area is addressable. -/
def ValuedStep (A : Allocator σ) (c : Hashmap × σ) (l : HashmapCall × HashmapAnswer)
    (c' : Hashmap × σ) : Prop :=
  HashmapStep A c l c' ∧ l.1.HasValue ∧ c'.1.ValuesFit

lemma valuedStep_simulates (hA : A.NeverFails) {c c' : Hashmap × σ} {l : HashmapCall × HashmapAnswer}
    (hc : c.1.Valid ∧ Represents c.1.table c.1.values m) (h : ValuedStep A c l c') :
    ∃ m', MapStep m l m' ∧ c'.1.Valid ∧ Represents c'.1.table c'.1.values m' := by
  obtain ⟨hv, hm₀⟩ := hc
  obtain ⟨⟨hfits, fuel, hcall⟩, hnull, hfit⟩ := h
  obtain ⟨call, answer⟩ := l
  cases call with
  | insert key value =>
    cases value with
    | none => cases hnull
    | some v =>
      obtain ⟨status, rfl, h⟩ := hashmapCall_insert.mp hcall
      obtain ⟨hv', _, _, _, hcase⟩ := hashmapInsert_spec hv hm₀ hfits.1 (hfits.2 v rfl) hfit h
      rcases hcase with ⟨_, _, hn⟩ | ⟨rfl, hmem, hrep⟩ | ⟨rfl, hmem, hrep⟩
      · cases hA _ _ _ _ hn
      · exact ⟨m, .insertOld hmem, hv', hrep⟩
      · exact ⟨_, .insertNew hmem, hv', hrep⟩
  | find key =>
    obtain ⟨r, rfl, rfl, h⟩ := hashmapCall_find.mp hcall
    rw [hashmapFind_spec hv hm₀ h]
    exact ⟨m, .find, hv, hm₀⟩
  | erase key =>
    obtain ⟨r, rfl, _, h⟩ := hashmapCall_erase.mp hcall
    obtain ⟨hv', _, _, _, hr, hrep⟩ := hashmapErase_spec hv hm₀ h
    rw [hr]
    exact ⟨_, .erase, hv', hrep⟩

/-- A new table is the empty map, so where every step acts on the represented map, a run does. -/
lemma run_simulates {L : Type} {step : Hashmap × σ → L → Hashmap × σ → Prop}
    {mapStep : ByteMap → L → ByteMap → Prop} {keySize valueSize tableCount : UInt32}
    {hash : Hash32Func} {s s₀ s' : σ} {hm₀ hm : Hashmap} {ls : List L}
    (hpos : 0 < tableCount) (hcount : tableCount.toNat * 3 < 2 ^ 32)
    (hinit : hashmapInitWithOptions A keySize valueSize tableCount hash s = some (some hm₀, s₀))
    (hrun : Run step (hm₀, s₀) ls (hm, s'))
    (hstep : ∀ c m l c', c.1.Valid ∧ Represents c.1.table c.1.values m → step c l c' →
      ∃ m', mapStep m l m' ∧ c'.1.Valid ∧ Represents c'.1.table c'.1.values m') :
    ∃ m, Run mapStep ∅ ls m ∧ hm.Valid ∧ Represents hm.table hm.values m := by
  have hpos' := pos_iff_toNat_pos.mp hpos
  obtain ⟨hv, _, _, _, _, ht⟩ := hashmapInitWithOptions_spec hpos' (by omega) hinit
  exact Run.simulate (fun c m => c.1.Valid ∧ Represents c.1.table c.1.values m) hstep
    ⟨hv, represents_empty ht⟩ hrun

end Hashmap

/-- Over every run from `hashmap_init_with_options` in which allocations succeed and the
value areas stay below 2^32 bytes, the calls are answered as by a finite map, which the
table represents at the end and whose size is `hashmap_count`. -/
theorem hashmap_refines_map {σ : Type} {A : Allocator σ} (hA : A.NeverFails)
    {keySize valueSize tableCount : UInt32} {hash : Hash32Func} {s s₀ s' : σ} {hm₀ hm : Hashmap}
    {ls : List (HashmapCall × HashmapAnswer)} (hpos : 0 < tableCount)
    (hcount : tableCount.toNat * 3 < 2 ^ 32)
    (hinit : hashmapInitWithOptions A keySize valueSize tableCount hash s = some (some hm₀, s₀))
    (hrun : Run (Hashmap.ValuedStep A) (hm₀, s₀) ls (hm, s')) :
    ∃ m, Run MapStep ∅ ls m ∧ Represents hm.table hm.values m ∧
      (hashmapCount hm).toNat = m.keys.card := by
  obtain ⟨m, hmrun, hv', hrep⟩ := Hashmap.run_simulates hpos hcount hinit hrun
    fun _ _ _ _ hc hstep => Hashmap.valuedStep_simulates hA hc hstep
  exact ⟨m, hmrun, hrep, hv'.card_keys hrep⟩

def zeroAllocator : Allocator Unit where
  malloc n := pure (some ⟨16, n.toNat, fun _ => 0⟩)
  free _ := pure ()

def steppedCall (c : Hashmap × Unit) (call : HashmapCall) : Option (HashmapAnswer × Hashmap × Unit) :=
  if call.Fits c.1 then hashmapCall zeroAllocator 9 c call else none

lemma steppedCall_step {c c' : Hashmap × Unit} {call : HashmapCall} {answer : HashmapAnswer}
    (h : steppedCall c call = some (answer, c')) : HashmapStep zeroAllocator c (call, answer) c' := by
  unfold steppedCall at h
  split_ifs at h with hfits
  exact ⟨hfits, 9, h⟩

/-- Execute a `ValuedStep`. -/
def valuedCall (c : Hashmap × Unit) (call : HashmapCall) : Option (HashmapAnswer × Hashmap × Unit) :=
  if call.Fits c.1 ∧ call.HasValue then
    (hashmapCall zeroAllocator 9 c call).filter fun r =>
      r.2.1.valueSize.toNat * r.2.1.tableCount.toNat < 2 ^ 32
  else none

lemma valuedCall_step {c c' : Hashmap × Unit} {call : HashmapCall} {answer : HashmapAnswer}
    (h : valuedCall c call = some (answer, c')) :
    Hashmap.ValuedStep zeroAllocator c (call, answer) c' := by
  unfold valuedCall at h
  split_ifs at h with hcall
  obtain ⟨h, hfit⟩ := Option.filter_eq_some_iff.mp h
  exact ⟨⟨hcall.1, 9, h⟩, hcall.2, (decide_eq_true_eq.mp hfit :)⟩

/-- All keys collide in a table of four slots: a tombstone is reused, and the fifth
insertion expands the table. -/
def collidingCalls : List HashmapCall :=
  [.insert [1] (some [7]), .insert [2] (some [8]), .erase [1], .insert [3] (some [9]),
    .insert [4] (some [6]), .insert [2] (some [5]), .find [2], .find [1]]

theorem hashmap_refines_map_colliding : ∃ ls hm,
    ls.map Prod.snd = [.status .hmOk, .status .hmOk, .value (some [7]), .status .hmOk,
      .status .hmOk, .status .hmExists, .value (some [8]), .value none] ∧
    ∃ m, Run MapStep ∅ ls m ∧ Represents hm.table hm.values m ∧
      (hashmapCount hm).toNat = m.keys.card := by
  obtain ⟨hm₀, hinit⟩ : ∃ hm₀,
      hashmapInitWithOptions zeroAllocator 1 1 4 (fun _ => 0) () = some (some hm₀, ()) := ⟨_, rfl⟩
  have hanswers : (hashmapInitWithOptions zeroAllocator 1 1 4 (fun _ => 0) ()).bind
      (fun r => r.1.bind fun hm => (runCalls valuedCall (hm, ()) collidingCalls).map
        fun r => r.1.map Prod.snd) =
      some [.status .hmOk, .status .hmOk, .value (some [7]), .status .hmOk, .status .hmOk,
        .status .hmExists, .value (some [8]), .value none] := by decide +kernel
  rw [hinit] at hanswers
  obtain ⟨ls, ⟨hm, _⟩, hrun, hls⟩ := Run.exists_of_runCalls (fun _ _ _ _ h => valuedCall_step h) hanswers
  refine ⟨ls, hm, hls, hashmap_refines_map ?_ (by decide) (by decide) hinit hrun⟩
  intro n s r s' h
  obtain ⟨hr, _⟩ := pure_eq_some.mp h
  subst hr
  rfl

end CStructures
