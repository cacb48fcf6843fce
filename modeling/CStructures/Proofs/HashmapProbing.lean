import CStructures.Lib.Triangular
import CStructures.Proofs.HashmapRefinement

/-!
# How far probing reaches

The probe loops are unbounded. In a table without tombstones they end within `table_count`
probes as long as there are fewer entries than distinct probe positions, and the expanded
tables have fewer such positions than slots.
-/

namespace CStructures
open Lib

namespace Hashmap

variable {hm hm' : Hashmap} {key : List Byte} {value : Option (List Byte)}

/-- One of the first `table_count` probes for `key` finds an unused slot. -/
def ProbeEnds (hm : Hashmap) (key : List Byte) : Prop :=
  ∃ n < hm.tableCount.toNat, hm.slot (hm.probeAt key n).pos = hmSlotUnused

lemma probe_triangular {tableCount : UInt32} (hash : UInt32) (hsmall : tableCount.toNat ≤ 2 ^ 31)
    {n : Nat} (hn : n ≤ tableCount.toNat) (hpos : 0 < tableCount.toNat) :
    ((Probe.next tableCount)^[n] (Probe.start tableCount hash)).i.toNat = n ∧
      ((Probe.next tableCount)^[n] (Probe.start tableCount hash)).pos.toNat =
        (hash.toNat + triangular n) % tableCount.toNat := by
  induction n with
  | zero =>
    refine ⟨rfl, ?_⟩
    rw [triangular, Nat.add_zero]
    exact UInt32.toNat_mod _ _
  | succ n ih =>
    obtain ⟨hi, hp⟩ := ih (by omega)
    rw [Function.iterate_succ_apply']
    set s := (Probe.next tableCount)^[n] (Probe.start tableCount hash)
    have hlt : s.pos.toNat < tableCount.toNat := hp ▸ Nat.mod_lt _ hpos
    have hi' : (s.i + 1).toNat = n + 1 := by
      rw [toNat_succ (b := tableCount) (by omega), hi]
    refine ⟨hi', ?_⟩
    change ((s.pos + (s.i + 1)) % tableCount).toNat = _
    rw [UInt32.toNat_mod, UInt32.toNat_add, hi', Nat.mod_eq_of_lt (a := _ + _) (by omega), hp,
      Nat.mod_add_mod, triangular, Nat.add_assoc]

lemma path_triangular (hsmall : hm.tableCount.toNat ≤ 2 ^ 31) {n : Nat}
    (hn : n ≤ hm.tableCount.toNat) (hpos : 0 < hm.tableCount.toNat) :
    hm.path key n = ((hashWrapper hm key).toNat + triangular n) % hm.tableCount.toNat :=
  (probe_triangular _ hsmall hn hpos).2

/-- The state of a map from which nothing has been erased. -/
structure EraseFree (hm : Hashmap) : Prop where
  valid : hm.Valid
  small : hm.tableCount.toNat ≤ 2 ^ 31
  noTombstone : ∀ p, hm.table p ≠ .tombstone

/-- With fewer entries than probe positions every search meets an unused slot. -/
theorem EraseFree.probeEnds (h : hm.EraseFree)
    (hused : hm.slotsUsed.toNat < coverage hm.tableCount.toNat) (key : List Byte) :
    hm.ProbeEnds key := by
  have hpos := h.valid.tableCount_pos
  rw [← h.valid.used] at hused
  obtain ⟨n, hn, hfree⟩ := exists_probe_not_mem (hashWrapper hm key).toNat hused
  refine ⟨n, hn, ?_⟩
  rw [← path_triangular h.small hn.le hpos, Finset.mem_filter, not_and] at hfree
  have hlive := hfree (Finset.mem_range.mpr (probeAt_pos_lt hpos n))
  rw [← cell_eq_unused, ← table_path hpos]
  cases hcell : hm.table (hm.path key n) with
  | unused => rfl
  | tombstone => exact absurd hcell (h.noTombstone _)
  | live k => exact absurd (Cell.isLive_iff.mpr ⟨k, hcell⟩) hlive

/-- When all keys hash alike, a search that meets an unused slot leaves at most the other
probe positions for the entries. -/
theorem EraseFree.used_lt_coverage (h : hm.EraseFree) (hconst : ∀ k k', hm.hash k = hm.hash k')
    (hends : hm.ProbeEnds key) : hm.slotsUsed.toNat < coverage hm.tableCount.toNat := by
  have hpos := h.valid.tableCount_pos
  obtain ⟨n, hn, hslot⟩ := hends
  have hunused : hm.table (hm.path key n) = .unused := by
    rw [table_path hpos, cell_eq_unused]
    exact hslot
  have hpath : ∀ k, hm.path k = hm.path key := by
    intro k
    funext j
    simp only [path, hashWrapper, hconst k key]
  set probes := (Finset.range hm.tableCount.toNat).image fun i =>
    ((hashWrapper hm key).toNat + triangular i) % hm.tableCount.toNat with hprobes
  have hmem : ∀ j ≤ n, hm.path key j ∈ probes := fun j hj =>
    Finset.mem_image.mpr ⟨j, Finset.mem_range.mpr (by omega), (path_triangular h.small (by omega) hpos).symm⟩
  have hsub : (Finset.range hm.tableCount.toNat).filter (fun p => (hm.table p).isLive) ⊆
      probes.erase (hm.path key n) := by
    intro p hp
    obtain ⟨k, hk⟩ := Cell.isLive_iff.mp (Finset.mem_filter.mp hp).2
    obtain ⟨m, rfl, hclear⟩ := h.valid.wellFormed.reach p k hk
    rw [hpath k] at hk hclear ⊢
    have hle : m ≤ n := by
      by_contra hlt
      exact hclear n (by omega) hunused
    refine Finset.mem_erase.mpr ⟨fun heq => ?_, hmem m hle⟩
    rw [heq, hunused] at hk
    cases hk
  have hcard : hm.slotsUsed.toNat ≤ (probes.erase (hm.path key n)).card := by
    rw [← h.valid.used]
    exact Finset.card_le_card hsub
  have herase := Finset.card_erase_lt_of_mem (hmem n le_rfl)
  have hcover : probes.card = coverage hm.tableCount.toNat := card_probes _ _
  omega

lemma insertProbed_returns {fuel : Nat} (hends : hm.ProbeEnds key)
    (hfuel : hm.tableCount.toNat ≤ fuel) : ∃ r, insertProbed fuel hm key value = some r := by
  obtain ⟨n, hn, hslot⟩ := hends
  obtain ⟨last, hs, _⟩ := insertNext_iterate hm key n
  have hexit : insertExit hm (hashWrapper hm key) key ((insertNext hm (hashWrapper hm key))^[n]
      (Probe.start hm.tableCount (hashWrapper hm key), hmSlotInvalid)) ≠ none := by
    rw [hs, insertExit, if_pos hslot]
    exact Option.some_ne_none _
  obtain ⟨r, hr⟩ := loop_of_exit hexit (by omega : n < fuel)
  unfold insertProbed
  simp only [hr]
  cases r with
  | none => exact ⟨_, rfl⟩
  | some pos => exact ⟨_, rfl⟩

lemma lookup_returns {fuel n : Nat} (hv : hm.Valid) (hfuel : n < fuel)
    (h : hm.table (hm.path key n) = .unused ∨ hm.table (hm.path key n) = .live key) :
    ∃ r, lookup fuel hm key = some r := by
  have hexit : lookupExit hm (hashWrapper hm key) key (hm.probeAt key n) ≠ none := by
    obtain ⟨hu, _, _⟩ := hashWrapper_not_reserved hm key
    have hlt := @probeAt_pos_lt hm key hv.tableCount_pos n
    rw [table_path hv.tableCount_pos] at h
    unfold lookupExit
    rcases h with h | h
    · have hslot := cell_eq_unused.mp h
      rw [if_neg (by rw [hslot]; exact hu.symm), if_pos hslot]
      exact Option.some_ne_none _
    · rw [if_pos (hv.hashed _ _ hlt h), if_pos (cell_eq_live.mp h).2.2]
      exact Option.some_ne_none _
  exact loop_of_exit hexit hfuel

section Returns

variable {σ : Type} {A : Allocator σ} {s s' : σ} {new : Hashmap}

lemma hashmapInsert_returns_of_not_loadCheck {fuel : Nat} (hload : ¬loadCheck hm = true)
    (hends : hm.ProbeEnds key) (hfuel : hm.tableCount.toNat < fuel) :
    ∃ r, hashmapInsert A fuel hm key value s = some (r, s) := by
  obtain ⟨fuel, rfl⟩ : ∃ f, fuel = f + 1 := ⟨fuel - 1, by omega⟩
  obtain ⟨r, hr⟩ := @insertProbed_returns hm key value fuel hends (by omega : _ ≤ fuel)
  refine ⟨r, ?_⟩
  rw [hashmapInsert, if_neg hload, lift_eq_some]
  exact ⟨hr, rfl⟩

lemma RehashInv.eraseFree {newTableCount : UInt32} {addr : UInt64} {i : Nat}
    (h : RehashInv hm newTableCount addr i new) (hsmall : newTableCount.toNat ≤ 2 ^ 31) :
    new.EraseFree := ⟨h.valid, by rwa [h.tableCount], h.noTombstone⟩

lemma rehashFrom_returns {fuel : Nat} {newTableCount : UInt32} {addr : UInt64} (hv : hm.Valid)
    (hcount : newTableCount.toNat = hm.tableCount.toNat * 3) (hsmall : newTableCount.toNat ≤ 2 ^ 31)
    (hused : hm.slotsUsed.toNat < coverage newTableCount.toNat)
    (hfuel : newTableCount.toNat < fuel) (remaining : Nat) (i : UInt32) (new : Hashmap)
    (hi : i.toNat + remaining = hm.tableCount.toNat)
    (hinv : RehashInv hm newTableCount addr i.toNat new) :
    ∃ r, rehashFrom A (hashmapInsert A fuel) hm remaining i new s = some r := by
  induction remaining generalizing i new with
  | zero => exact ⟨_, rfl⟩
  | succ remaining ih =>
    have hlt : i.toNat < hm.tableCount.toNat := by omega
    have hsucc : (i + 1).toNat = i.toNat + 1 := toNat_succ hlt
    rw [rehashFrom]
    by_cases hfree : hm.slot i = hmSlotUnused ∨ hm.slot i = hmSlotRip
    · rw [if_pos hfree]
      exact ih (i + 1) new (by omega) (hsucc ▸ hinv.skip_free hlt hfree)
    · rw [if_neg hfree]
      rw [not_or] at hfree
      have hlive : hm.cell i = .live (hm.key i) := cell_eq_live.mpr ⟨hfree.1, hfree.2, rfl⟩
      have hnew : new.slotsUsed.toNat < coverage new.tableCount.toNat := by
        have hmono := cellCount_mono (Finset.range_subset_range.mpr hlt.le) Cell.isLive hm.table
        rw [hv.used, ← hinv.used] at hmono
        rw [hinv.tableCount]
        omega
      have hends := (hinv.eraseFree hsmall).probeEnds hnew (hm.key i)
      have hload := hinv.not_loadCheck hlt.le hcount
      obtain ⟨⟨status, new'⟩, hins⟩ := @hashmapInsert_returns_of_not_loadCheck new (hm.key i)
        (some (hm.value i)) σ A s fuel hload hends (by rw [hinv.tableCount]; exact hfuel)
      obtain ⟨_, fuel', hprobed⟩ := hashmapInsert_of_not_loadCheck hload hins
      rcases insertProbed_spec hinv.valid hprobed with
        ⟨_, _, hst⟩ | ⟨n, pos, rfl, rfl, hpos, hpass, hn, hs⟩
      · exact absurd hst (hinv.not_stored hv hlt hlive)
      · have hnext := hinv.transfer hlt hlive hpos hpass hn hs
        rw [← hsucc] at hnext
        obtain ⟨r, hr⟩ := ih (i + 1) _ (by omega) hnext
        exact ⟨r, bind_eq_some.mpr ⟨_, _, hins, hr⟩⟩

/-- With an allocator that grants every request, an insertion returns while there are fewer
entries than probe positions. -/
theorem EraseFree.hashmapInsert_returns (hA : A.Grants) (h : hm.EraseFree)
    (hused : hm.slotsUsed.toNat < coverage hm.tableCount.toNat) :
    ∃ fuel r, hashmapInsert A fuel hm key value s = some r := by
  have hpos := h.valid.tableCount_pos
  by_cases hload : loadCheck hm = true
  · have hsmall := tableCount_le_of_loadCheck hload
    have hcount := expanded_toNat hload
    have hcover := coverage_lt_coverage_three_mul hpos
    rw [Nat.mul_comm, ← hcount] at hcover
    obtain ⟨b, s1, hb⟩ := hA.malloc ((4 + hm.keySize.toUInt64 + hm.valueSize.toUInt64) *
      (hm.tableCount * hmExpandFactor).toUInt64) s
    have hstart : RehashInv hm (hm.tableCount * hmExpandFactor) b.addr (0 : UInt32).toNat _ :=
      RehashInv.start hm (by omega) (by omega)
    set fuel := (hm.tableCount * hmExpandFactor).toNat + 1 with hfuel
    obtain ⟨⟨r, s2⟩, hloop⟩ := @rehashFrom_returns hm σ A s1 fuel (hm.tableCount * hmExpandFactor)
      b.addr h.valid hcount (by omega) (by omega) (by omega) hm.tableCount.toNat 0 _
      (by change 0 + _ = _; omega) hstart
    obtain ⟨_, new, rfl, hinv⟩ := rehashFrom_spec h.valid hcount hm.tableCount.toNat 0 _
      (by change 0 + _ = _; omega) hstart hloop
    obtain ⟨s3, hfree⟩ := hA.free hm.storage.addr s2
    have hmalloc : mallocAndInitStorage A hm.keySize hm.valueSize (hm.tableCount * hmExpandFactor) s =
        some (some (zeroedStorage b hm.keySize (hm.tableCount * hmExpandFactor)), s1) :=
      bind_eq_some.mpr ⟨_, _, hb, pure_eq_some.mpr ⟨rfl, rfl⟩⟩
    have hresize : resizeRehash A (hashmapInsert A fuel) hm (hm.tableCount * hmExpandFactor) s =
        some (some { hm with storage := new.storage, tableCount := hm.tableCount * hmExpandFactor }, s3) :=
      bind_eq_some.mpr ⟨_, _, hmalloc, bind_eq_some.mpr ⟨_, _, hloop,
        bind_eq_some.mpr ⟨_, _, hfree, pure_eq_some.mpr ⟨rfl, rfl⟩⟩⟩⟩
    obtain ⟨hr, _⟩ | ⟨new', hnew', hre, _⟩ := resizeRehash_spec h.valid hload hresize
    · cases hr
    · rw [Option.some.injEq] at hnew'
      have hcount' := hre.tableCount
      have hfree' : new'.EraseFree := ⟨hre.valid, by omega, hre.noTombstone⟩
      have hends := hfree'.probeEnds (by rw [hre.used, hcount', ← hcount]; omega) key
      obtain ⟨r, hr⟩ := @insertProbed_returns new' key value fuel hends (by omega)
      refine ⟨fuel + 1, (r, s3), ?_⟩
      rw [hashmapInsert, if_pos hload, bind_eq_some]
      refine ⟨_, _, hresize, ?_⟩
      rw [hnew']
      exact lift_eq_some.mpr ⟨hr, rfl⟩
  · obtain ⟨r, hr⟩ := @hashmapInsert_returns_of_not_loadCheck hm key value σ A s
      (hm.tableCount.toNat + 1) hload (h.probeEnds hused key) (by omega)
    exact ⟨_, _, hr⟩

end Returns

section Runs

variable {σ : Type} {A : Allocator σ} {s s' : σ} {fuel : Nat} {status : HashmapStatus}

structure Inserted (hm hm' : Hashmap) (key : List Byte) (status : HashmapStatus) : Prop where
  eraseFree : hm'.EraseFree
  hash : hm'.hash = hm.hash
  keySize : hm'.keySize = hm.keySize
  valueSize : hm'.valueSize = hm.valueSize
  outcome : (status = .hmOom ∧ hm' = hm) ∨
    hm'.tableCount.toNat = (if loadCheck hm then hm.tableCount.toNat * 3 else hm.tableCount.toNat) ∧
      (status = .hmExists ∧ Stored hm.table key ∧ hm'.slotsUsed = hm.slotsUsed ∨
        status = .hmOk ∧ ¬Stored hm.table key ∧ hm'.slotsUsed.toNat = hm.slotsUsed.toNat + 1 ∧
          ∀ k, Stored hm'.table k ↔ k = key ∨ Stored hm.table k)

theorem EraseFree.inserted (h : hm.EraseFree) (hkey : key.length = hm.keySize.toNat)
    (hins : hashmapInsert A fuel hm key value s = some ((status, hm'), s')) :
    Inserted hm hm' key status := by
  rcases hashmapInsert_cases h.valid hins with ⟨rfl, rfl, _⟩ | ⟨grown, fuel', hgrown, _, hprobed⟩
  · exact ⟨h, rfl, rfl, rfl, Or.inl ⟨rfl, rfl⟩⟩
  obtain ⟨hks, hvs, hhash, hused, hstored⟩ := hgrown.sameContents
  have hg : grown.EraseFree ∧ grown.tableCount.toNat =
      (if loadCheck hm then hm.tableCount.toNat * 3 else hm.tableCount.toNat) := by
    rcases hgrown with ⟨rfl, _, hload⟩ | ⟨hload, hre, _⟩
    · exact ⟨h, by rw [if_neg hload]⟩
    · have hsmall := hre.small
      have hcount := hre.tableCount
      exact ⟨⟨hre.valid, by omega, hre.noTombstone⟩, by rw [if_pos hload, hcount]⟩
  obtain ⟨hef, hcount⟩ := hg
  rcases insertProbed_spec hef.valid hprobed with
    ⟨rfl, rfl, hst⟩ | ⟨n, pos, rfl, rfl, hpos, hpass, hn, hs⟩
  · exact ⟨hef, hhash, hks, hvs, Or.inr ⟨hcount, Or.inl ⟨rfl, (hstored key).mp hst, hused⟩⟩⟩
  · have hkey' : key.length = grown.keySize.toNat := by rw [hks, hkey]
    have htable := @table_storeEntry grown pos key value hef.valid.keysFit hpos hkey'
    have hlt := hef.valid.used_lt hpos fun k => hs.not_live hn
    refine ⟨⟨hef.valid.store hkey' hpos hpass hn hs, by simpa using hef.small, ?_⟩,
      by simpa using hhash, by simpa using hks, by simpa using hvs, Or.inr ⟨by simpa using hcount,
        Or.inr ⟨rfl, ?_, ?_, ?_⟩⟩⟩
    · intro p
      rw [htable]
      by_cases hp : p = pos.toNat
      · simp [hp]
      · rw [Function.update_of_ne hp]
        exact hef.noTombstone p
    · rw [← hstored]
      exact hef.valid.wellFormed.not_stored hpass hn
    · rw [storeEntry_slotsUsed_toNat hlt, hused]
    · intro k
      rw [htable, stored_store fun k => hs.not_live hn, hstored]

def InsertStep (A : Allocator σ) (c : Hashmap × σ) (l : HashmapCall × HashmapAnswer)
    (c' : Hashmap × σ) : Prop :=
  HashmapStep A c l c' ∧ ∃ key value, l.1 = .insert key value

lemma insertStep_inserted {c c' : Hashmap × σ} {l : HashmapCall × HashmapAnswer}
    (h : c.1.EraseFree) (hl : l.1 = .insert key value) (hstep : HashmapStep A c l c') :
    ∃ status, Inserted c.1 c'.1 key status := by
  obtain ⟨hfits, fuel, hcall⟩ := hstep
  rw [hl] at hfits hcall
  obtain ⟨status, _, hins⟩ := hashmapCall_insert.mp hcall
  exact ⟨status, h.inserted hfits.1 hins⟩

/-- Insertions erase nothing, and keep the hash function. -/
lemma InsertStep.eraseFree {c c' : Hashmap × σ} {l : HashmapCall × HashmapAnswer} {hash : Hash32Func}
    (h : c.1.EraseFree ∧ c.1.hash = hash) (hstep : InsertStep A c l c') : c'.1.EraseFree ∧ c'.1.hash = hash := by
  obtain ⟨hstep, key, value, hl⟩ := hstep
  obtain ⟨status, hins⟩ := insertStep_inserted h.1 hl hstep
  exact ⟨hins.eraseFree, hins.hash.trans h.2⟩

end Runs

lemma hashmapInitWithOptions_eraseFree {σ : Type} {A : Allocator σ} {s s' : σ}
    {keySize valueSize tableCount : UInt32} {hash : Hash32Func} (hpos : 0 < tableCount.toNat)
    (hsmall : tableCount.toNat ≤ 2 ^ 31)
    (h : hashmapInitWithOptions A keySize valueSize tableCount hash s = some (some hm, s')) :
    hm.EraseFree ∧ hm.tableCount = tableCount ∧ hm.keySize = keySize ∧ hm.valueSize = valueSize ∧
      hm.hash = hash ∧ hm.table = (fun _ => .unused) ∧ hm.slotsUsed = 0 := by
  obtain ⟨hv, htc, hks, hvs, hhash, ht⟩ := hashmapInitWithOptions_spec hpos hsmall h
  refine ⟨⟨hv, by rwa [htc], by simp [ht]⟩, htc, hks, hvs, hhash, ht, ?_⟩
  have hused := hv.used
  rw [ht] at hused
  apply UInt32.toNat_inj.mp
  rw [← hused]
  simp [cellCount, Cell.isLive]

theorem hashmapCreateWithOptions_spec {σ : Type} {A : Allocator σ} {s s' : σ}
    {keySize valueSize tableCount : UInt32} {hash : Hash32Func} (hpos : 0 < tableCount.toNat)
    (hsmall : tableCount.toNat ≤ 2 ^ 31)
    (h : hashmapCreateWithOptions A keySize valueSize tableCount hash s = some (some hm, s')) :
    hm.EraseFree ∧ hm.tableCount = tableCount ∧ hm.keySize = keySize ∧ hm.valueSize = valueSize ∧
      hm.hash = hash ∧ hm.table = (fun _ => .unused) ∧ hm.slotsUsed = 0 := by
  rw [hashmapCreateWithOptions, bind_eq_some] at h
  obtain ⟨b, s1, _, hrest⟩ := h
  cases b with
  | none =>
    obtain ⟨hr, _⟩ := pure_eq_some.mp hrest
    cases hr
  | some header => exact hashmapInitWithOptions_eraseFree hpos hsmall hrest

end Hashmap

/-- After any insertions, every search meets an unused slot within `table_count` probes while there
are fewer entries than probe positions. When all keys hash alike, no search does otherwise. -/
theorem probe_reaches_unused {σ : Type} {A : Allocator σ} {s s₀ s' : σ} {keySize valueSize : UInt32}
    {hash : Hash32Func} {hm₀ hm : Hashmap} {ls : List (HashmapCall × HashmapAnswer)}
    (hinit : hashmapCreateWithOptions A keySize valueSize hmDefaultTableCount hash s =
      some (some hm₀, s₀))
    (hrun : Run (Hashmap.InsertStep A) (hm₀, s₀) ls (hm, s')) :
    (hm.slotsUsed.toNat < coverage hm.tableCount.toNat → ∀ key, hm.ProbeEnds key) ∧
      ((∀ k k', hash k = hash k') →
        ∀ key, hm.ProbeEnds key ↔ hm.slotsUsed.toNat < coverage hm.tableCount.toNat) := by
  obtain ⟨hef, _, _, _, hhash, _, _⟩ :=
    Hashmap.hashmapCreateWithOptions_spec (by decide) (by decide) hinit
  obtain ⟨hef', hhash'⟩ := hrun.invariant (fun c => c.1.EraseFree ∧ c.1.hash = hash)
    (fun c l c' hc hstep => hstep.eraseFree hc) ⟨hef, hhash⟩
  refine ⟨hef'.probeEnds, fun hconst key => ⟨fun hends => ?_, fun hlt => hef'.probeEnds hlt key⟩⟩
  exact hef'.used_lt_coverage (by rwa [hhash']) hends

lemma zeroAllocator_grants : zeroAllocator.Grants where
  malloc _ s := ⟨_, s, rfl⟩
  free _ s := ⟨s, rfl⟩

lemma leBytes_two_injective {i j : Nat} (hi : i < 256 ^ 2) (hj : j < 256 ^ 2)
    (h : leBytes 2 i = leBytes 2 j) : i = j := by
  have hmod := congrArg ofLe h
  rw [ofLe_leBytes, ofLe_leBytes, Nat.mod_eq_of_lt hi, Nat.mod_eq_of_lt hj] at hmod
  exact hmod

lemma coverage_expanded : coverage 384 = 256 := coverage_three_mul_two_pow 7

/-- The map after the insertion of `m` two-byte keys that all hash to 7. -/
structure Crowded (m : Nat) (hm : Hashmap) : Prop where
  eraseFree : hm.EraseFree
  hash : hm.hash = fun _ => 7
  keySize : hm.keySize = 2
  tableCount : hm.tableCount.toNat = if m ≤ 90 then 128 else 384
  used : hm.slotsUsed.toNat = m
  stored : ∀ k, Stored hm.table k ↔ ∃ i < m, k = leBytes 2 i

lemma Crowded.used_lt_coverage {m : Nat} {hm : Hashmap} (h : Crowded m hm) (hlt : m < 256) :
    hm.slotsUsed.toNat < coverage hm.tableCount.toNat := by
  rw [h.used, h.tableCount]
  split_ifs with h90
  · have hcover : coverage 128 = 128 := coverage_two_pow 7
    omega
  · rw [coverage_expanded]
    exact hlt

lemma Crowded.loadCheck {m : Nat} {hm : Hashmap} (h : Crowded m hm) (hlt : m < 256) :
    loadCheck hm = true ↔ m = 90 := by
  have hmod : m * 100 % 2 ^ 32 = m * 100 := Nat.mod_eq_of_lt (by omega)
  rw [Hashmap.loadCheck_iff, h.used, h.tableCount, hmod]
  split_ifs with h90 <;> omega

lemma Crowded.step {m : Nat} {hm : Hashmap} (h : Crowded m hm) (hlt : m < 256) :
    ∃ l hm', Hashmap.InsertStep zeroAllocator (hm, ()) l (hm', ()) ∧ Crowded (m + 1) hm' := by
  have hnew : ¬Stored hm.table (leBytes 2 m) := by
    rw [h.stored]
    rintro ⟨i, hi, heq⟩
    have := leBytes_two_injective (by omega) (by omega) heq
    omega
  have hkey : (leBytes 2 m).length = hm.keySize.toNat := by
    rw [h.keySize, length_leBytes]
    rfl
  obtain ⟨fuel, ⟨⟨status, hm'⟩, s'⟩, hins⟩ := @Hashmap.EraseFree.hashmapInsert_returns hm
    (leBytes 2 m) none Unit zeroAllocator () zeroAllocator_grants h.eraseFree (h.used_lt_coverage hlt)
  have hstep : Hashmap.InsertStep zeroAllocator (hm, ()) (.insert (leBytes 2 m) none, .status status)
      (hm', ()) := by
    refine ⟨⟨⟨hkey, by simp⟩, fuel, ?_⟩, _, _, rfl⟩
    simp only [hashmapCall, hins, Option.map_some]
  have hspec := h.eraseFree.inserted hkey hins
  refine ⟨_, hm', hstep, ?_⟩
  rcases hspec.outcome with ⟨rfl, _⟩ | ⟨hcount, ⟨_, hst, _⟩ | ⟨_, _, hu, hst⟩⟩
  · rcases Hashmap.hashmapInsert_cases h.eraseFree.valid hins with
      ⟨_, _, _, hn⟩ | ⟨grown, fuel', _, hvg, hprobed⟩
    · cases zeroAllocator_grants.neverFails _ _ _ _ hn
    · rcases Hashmap.insertProbed_spec hvg hprobed with ⟨hno, _⟩ | ⟨_, _, hno, _⟩ <;> cases hno
  · exact absurd hst hnew
  · refine ⟨hspec.eraseFree, hspec.hash.trans h.hash, hspec.keySize.trans h.keySize, ?_, ?_, ?_⟩
    · rw [hcount, h.tableCount]
      simp only [h.loadCheck hlt]
      split_ifs <;> omega
    · rw [hu, h.used]
    · intro k
      rw [hst, h.stored]
      constructor
      · rintro (rfl | ⟨i, hi, rfl⟩)
        · exact ⟨m, by omega, rfl⟩
        · exact ⟨i, by omega, rfl⟩
      · rintro ⟨i, hi, rfl⟩
        rcases Nat.lt_succ_iff_lt_or_eq.mp hi with hi | rfl
        · exact Or.inr ⟨i, hi, rfl⟩
        · exact Or.inl rfl

lemma crowded_run {hm₀ : Hashmap} {m₀ m : Nat} (h : Crowded m₀ hm₀) (hle₀ : m₀ ≤ m) (hle : m ≤ 256) :
    ∃ ls hm, Run (Hashmap.InsertStep zeroAllocator) (hm₀, ()) ls (hm, ()) ∧ ls.length = m - m₀ ∧
      Crowded m hm := by
  induction m, hle₀ using Nat.le_induction with
  | base => exact ⟨[], hm₀, .nil _, (Nat.sub_self m₀).symm, h⟩
  | succ m hle₀ ih =>
    obtain ⟨ls, hm, hrun, hlength, hm'⟩ := ih (by omega)
    obtain ⟨l, hm'', hstep, hc⟩ := hm'.step (by omega)
    refine ⟨ls ++ [l], hm'', hrun.snoc hstep, ?_, hc⟩
    rw [List.length_append, hlength, List.length_singleton]
    omega

lemma crowded_init : ∃ hm₀, hashmapCreateWithOptions zeroAllocator 2 0 hmDefaultTableCount (fun _ => 7) () =
    some (some hm₀, ()) ∧ Crowded 0 hm₀ := by
  obtain ⟨hm₀, hinit⟩ : ∃ hm₀, hashmapCreateWithOptions zeroAllocator 2 0 hmDefaultTableCount
      (fun _ => 7) () = some (some hm₀, ()) := ⟨_, rfl⟩
  obtain ⟨hef, htc, hks, _, hhash, ht, hused⟩ :=
    Hashmap.hashmapCreateWithOptions_spec (by decide) (by decide) hinit
  refine ⟨hm₀, hinit, hef, hhash, hks, by rw [htc]; rfl, by rw [hused]; rfl, fun k => ?_⟩
  simp [ht, Stored]

/-- 255 keys with one hash leave one probe position of the expanded table, which every search
meets. -/
theorem probe_reaches_unused_crowded : ∃ hm₀ ls hm,
    hashmapCreateWithOptions zeroAllocator 2 0 hmDefaultTableCount (fun _ => 7) () =
      some (some hm₀, ()) ∧
    Run (Hashmap.InsertStep zeroAllocator) (hm₀, ()) ls (hm, ()) ∧ hm.tableCount.toNat = 384 ∧
    hm.slotsUsed.toNat = 255 ∧ ∀ key, hm.ProbeEnds key := by
  obtain ⟨hm₀, hinit, hzero⟩ := crowded_init
  obtain ⟨ls, hm, hrun, _, h⟩ := crowded_run hzero (Nat.zero_le _) (by decide : 255 ≤ 256)
  exact ⟨hm₀, ls, hm, hinit, hrun, h.tableCount, h.used,
    (probe_reaches_unused hinit hrun).1 (h.used_lt_coverage (by decide))⟩

/-- 256 insertions of keys with one hash occupy every probe position of the expanded table:
the search for another key meets no unused slot. -/
theorem probe_misses_unused : ∃ hm₀ ls hm key,
    hashmapCreateWithOptions zeroAllocator 2 0 hmDefaultTableCount (fun _ => 7) () =
      some (some hm₀, ()) ∧
    Run (Hashmap.InsertStep zeroAllocator) (hm₀, ()) ls (hm, ()) ∧ hm.tableCount.toNat = 384 ∧
    hm.slotsUsed.toNat = 256 ∧ key.length = hm.keySize.toNat ∧ ¬Stored hm.table key ∧
    ¬∃ n < hm.tableCount.toNat, hm.slot (hm.probeAt key n).pos = hmSlotUnused := by
  obtain ⟨hm₀, hinit, hzero⟩ := crowded_init
  obtain ⟨ls, hm, hrun, _, h⟩ := crowded_run hzero (Nat.zero_le _) le_rfl
  have htc' : hm.tableCount.toNat = 384 := h.tableCount
  refine ⟨hm₀, ls, hm, leBytes 2 256, hinit, hrun, htc', h.used, by rw [h.keySize]; rfl, ?_, ?_⟩
  · rw [h.stored]
    rintro ⟨i, hi, heq⟩
    have := leBytes_two_injective (by omega) (by omega) heq
    omega
  · intro hends
    have hlt := h.eraseFree.used_lt_coverage (fun k k' => by rw [h.hash]) hends
    rw [h.used, htc', coverage_expanded] at hlt
    omega

end CStructures
