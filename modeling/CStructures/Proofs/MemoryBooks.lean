import CStructures.Proofs.MemoryCounters

/-!
# The books of the allocation tracker balance

Over every run of well-behaved calls the report, the counters and the number of bytes in
use agree with the live blocks of the client, whether or not the report has been rehashed.
-/

namespace CStructures
open Lib

/-- What the C library promises about its functions when it does not run out of memory:
granted blocks are apart from the live ones, given by `live`, and a live block can be
freed. -/
structure System.Conforms {σ : Type} (S : System σ) (live : σ → BlockMap) : Prop where
  malloc : ∀ {n s r s'}, 0 < n → S.malloc n s = some (r, s') →
    ∃ g, r = some g ∧ Fresh (live s) g.addr n ∧ live s' = (live s).insert g.addr n
  realloc : ∀ {p n s q s'}, (p = 0 ∨ p ∈ live s) → 0 < n → S.realloc p n s = some (q, s') →
    Fresh ((live s).erase p) q n ∧ live s' = ((live s).erase p).insert q n
  free : ∀ {p s}, p ∈ live s → ∃ s', S.free p s = some ((), s') ∧ live s' = (live s).erase p

/-- The blocks of the client and the storage of the report, at `addr`, are live and
different blocks. -/
structure Owned (live : BlockMap) (addr : UInt64) (m : BlockMap) : Prop where
  within : Within m live
  storage : addr ∈ live
  notClient : addr ∉ m
  nonNull : addr ≠ 0

section Owned

variable {live m : BlockMap} {addr p n : UInt64}

lemma Owned.insert (h : Owned live addr m) (hf : Fresh live p n) :
    Owned (live.insert p n) addr (m.insert p n) where
  within := h.within.insert
  storage := Finmap.mem_insert.mpr (Or.inr h.storage)
  notClient := by
    rw [Finmap.mem_insert, not_or]
    refine ⟨?_, h.notClient⟩
    rintro rfl
    exact hf.absent h.storage
  nonNull := h.nonNull

lemma Owned.erase (h : Owned live addr m) (hp : p ≠ addr) :
    Owned (live.erase p) addr (m.erase p) where
  within := h.within.erase
  storage := Finmap.mem_erase.mpr ⟨hp.symm, h.storage⟩
  notClient hmem := h.notClient (Finmap.mem_erase.mp hmem).2
  nonNull := h.nonNull

/-- The report moves to a fresh block. -/
lemma Owned.move (h : Owned live addr m) (hf : Fresh live p n) :
    Owned ((live.insert p n).erase addr) p m where
  within := (h.within.insert_of_notMem fun hp => hf.absent (h.within.mem hp)).erase_of_notMem h.notClient
  storage := by
    refine Finmap.mem_erase.mpr ⟨?_, Finmap.mem_insert.mpr (Or.inl rfl)⟩
    rintro rfl
    exact hf.absent h.storage
  notClient hp := hf.absent (h.within.mem hp)
  nonNull := hf.nonNull

lemma Owned.ne_of_client (h : Owned live addr m) (hp : p = 0 ∨ p ∈ m) : p ≠ addr := by
  rintro rfl
  exact hp.elim h.nonNull h.notClient

end Owned

/-- The tracker's variables agree with the live blocks of the client. -/
structure Balanced {σ : Type} (live : σ → BlockMap) (c : Memory σ) (m : BlockMap) : Prop where
  tracking : c.gIgnoreHmMalloc = false
  report : Reports c.gReport m
  owned : Owned (live c.system) c.gReport.storage.addr m
  apart : Apart m
  counts : c.gAllocations = c.dDeallocations + 1 + UInt64.ofNat m.keys.card
  usage : c.gBytesInUse.toNat = totalSize m
  peak : totalSize m ≤ c.gBytesInUsePeak.toNat

section Steps

variable {σ : Type} {S : System σ} {live : σ → BlockMap} {fuel : Nat} {c c' : Memory σ}
  {m : BlockMap} {p n : UInt64}

lemma addBytes_usage (h : c.gBytesInUse.toNat + n.toNat < 2 ^ 64) :
    (c.addBytes n).gBytesInUse.toNat = c.gBytesInUse.toNat + n.toNat := by
  change (c.gBytesInUse + n).toNat = _
  rw [UInt64.toNat_add, Nat.mod_eq_of_lt h]

lemma addBytes_peak (h : c.gBytesInUse.toNat + n.toNat < 2 ^ 64) :
    (c.addBytes n).gBytesInUsePeak.toNat =
      max c.gBytesInUsePeak.toNat (c.gBytesInUse.toNat + n.toNat) := by
  have husage := addBytes_usage h
  change (if c.gBytesInUsePeak < (c.addBytes n).gBytesInUse then (c.addBytes n).gBytesInUse
    else c.gBytesInUsePeak).toNat = _
  split_ifs with hlt
  · rw [UInt64.lt_iff_toNat_lt, husage] at hlt
    omega
  · rw [UInt64.lt_iff_toNat_lt, husage] at hlt
    omega

lemma Balanced.record (hS : S.Conforms live) (htracking : c.gIgnoreHmMalloc = false)
    (hreport : Reports c.gReport m)
    (howned : Owned (live c.system) c.gReport.storage.addr (m.insert p n)) (hp : p ∉ m)
    (hapart : Apart (m.insert p n))
    (hcounts : c.gAllocations = c.dDeallocations + 1 + UInt64.ofNat (m.keys.card + 1))
    (husage : c.gBytesInUse.toNat = totalSize m)
    (h : unlessIgnored (recordAllocation (trackedAllocator S fuel) fuel p n) c = some ((), c')) :
    Balanced live c' (m.insert p n) ∧
      c'.gBytesInUsePeak.toNat = max c.gBytesInUsePeak.toNat (totalSize (m.insert p n)) := by
  have htotal : totalSize (m.insert p n) = c.gBytesInUse.toNat + n.toNat := by
    rw [totalSize_insert hp, husage]
  have hfits : c.gBytesInUse.toNat + n.toNat < 2 ^ 64 := htotal ▸ hapart.totalSize_lt
  rw [unlessIgnored_of_tracking htracking] at h
  obtain ⟨status, report, c1, hins, rfl⟩ := recordAllocation_cases h
  have hused : (c.addBytes n).gBytesInUse.toNat = totalSize (m.insert p n) :=
    (addBytes_usage hfits).trans htotal.symm
  have hpeak : (c.addBytes n).gBytesInUsePeak.toNat =
      max c.gBytesInUsePeak.toNat (totalSize (m.insert p n)) := by
    rw [addBytes_peak hfits, htotal]
  have hle : totalSize (m.insert p n) ≤ (c.addBytes n).gBytesInUsePeak.toNat := by omega
  have hignored : ((c.addBytes n).setIgnore true).gIgnoreHmMalloc = true := rfl
  rcases hreport.insert hp hins with ⟨hload, hoom⟩ | ⟨hreport', ⟨haddr, rfl⟩ | ⟨hload, hmoved⟩⟩
  · rcases cstructuresMalloc_ignored hignored hoom with ⟨s', hnull, _⟩ | ⟨g, s', _, hno, _⟩
    · obtain ⟨g, hg, _⟩ := hS.malloc (hreport.expandedSize_pos hload) hnull
      cases hg
    · cases hno
  · refine ⟨⟨rfl, hreport', ?_, hapart, ?_, ?_, ?_⟩, ?_⟩
    · change Owned (live c.system) report.storage.addr _
      rwa [haddr]
    · rw [card_insert hp]
      exact hcounts
    · exact hused
    · exact hle
    · exact hpeak
  · obtain ⟨g, s1, s2, hmalloc, hfree, haddr, rfl⟩ := moved_ignored hignored howned.nonNull hmoved
    obtain ⟨g', hg', hfresh, hlive⟩ := hS.malloc (hreport.expandedSize_pos hload) hmalloc
    rw [Option.some.injEq] at hg'
    subst hg'
    have hstorage : c.gReport.storage.addr ∈ live s1 := by
      rw [hlive]
      exact Finmap.mem_insert.mpr (Or.inr howned.storage)
    obtain ⟨s2', hfree', hlive'⟩ := hS.free hstorage
    obtain ⟨_, rfl⟩ := Prod.mk.inj (Option.some.inj (hfree.symm.trans hfree'))
    refine ⟨⟨rfl, hreport', ?_, hapart, ?_, ?_, ?_⟩, ?_⟩
    · change Owned (live s2) report.storage.addr _
      rw [haddr, hlive', hlive]
      exact howned.move hfresh
    · change c.gAllocations + 1 = c.dDeallocations + 1 + 1 + _
      rw [card_insert hp, hcounts]
      ac_rfl
    · exact hused
    · exact hle
    · exact hpeak

lemma forgetAllocation_spec (hreport : Reports c.gReport m)
    (husage : c.gBytesInUse.toNat = totalSize m) (hp : p ∈ m)
    (h : forgetAllocation fuel p c = some ((), c')) :
    c'.system = c.system ∧ c'.gIgnoreHmMalloc = c.gIgnoreHmMalloc ∧ Reports c'.gReport (m.erase p) ∧
      c'.gReport.storage.addr = c.gReport.storage.addr ∧ c'.gAllocations = c.gAllocations ∧
      c'.dDeallocations = c.dDeallocations ∧ c'.gBytesInUse.toNat = totalSize (m.erase p) ∧
      c'.gBytesInUsePeak = c.gBytesInUsePeak := by
  obtain ⟨info, report, herase, rfl⟩ := forgetAllocation_cases h
  obtain ⟨hreport', haddr, hinfo⟩ := hreport.erase herase
  obtain ⟨n, hn⟩ := Finmap.mem_iff.mp hp
  rw [hn] at hinfo
  obtain ⟨off, rfl, hoff⟩ := Option.map_eq_some_iff.mp hinfo
  have htotal := totalSize_erase hn
  refine ⟨rfl, rfl, hreport', haddr, rfl, rfl, ?_, rfl⟩
  change (c.gBytesInUse - (reportInfo (report.deref off)).size).toNat = _
  rw [hoff, UInt64.toNat_sub_of_le _ _ (UInt64.le_iff_toNat_le.mpr (by dsimp only; omega))]
  dsimp only
  omega

/-- One block more is one allocation more. -/
lemma Balanced.counts_allocation (h : Balanced live c m) :
    c.gAllocations + 1 = c.dDeallocations + 1 + UInt64.ofNat (m.keys.card + 1) := by
  rw [h.counts, UInt64.ofNat_add]
  exact UInt64.add_assoc _ _ _

theorem Balanced.malloc (hS : S.Conforms live) (h : Balanced live c m) (hn : 0 < n)
    {r : Option Block} (hcall : cstructuresMalloc S fuel n c = some (r, c')) :
    ∃ g, r = some (mallocBlock n.toNat g) ∧ g.addr ≠ 0 ∧ Balanced live c' (m.insert g.addr n) ∧
      c'.gBytesInUsePeak.toNat = max c.gBytesInUsePeak.toNat (totalSize (m.insert g.addr n)) := by
  rcases cstructuresMalloc_cases hcall with ⟨s', hnull, _⟩ | ⟨g, s', fuel', hmalloc, hr, hrec⟩
  · obtain ⟨g, hg, _⟩ := hS.malloc hn hnull
    cases hg
  obtain ⟨g', hg', hfresh, hlive⟩ := hS.malloc hn hmalloc
  rw [Option.some.injEq] at hg'
  subst hg'
  have hclient := h.owned.within.fresh hfresh
  have howned : Owned (live s') c.gReport.storage.addr (m.insert g.addr n) := by
    rw [hlive]
    exact h.owned.insert hfresh
  exact ⟨g, hr, hfresh.nonNull, Balanced.record (c := (c.setSystem s').countAllocation) hS h.tracking
    h.report howned hclient.absent (h.apart.insert hclient) h.counts_allocation h.usage hrec⟩

theorem Balanced.realloc (hS : S.Conforms live) (h : Balanced live c m) (hp : p = 0 ∨ p ∈ m)
    (hn : 0 < n) {q : UInt64} (hcall : cstructuresRealloc S fuel p n c = some (q, c')) :
    q ≠ 0 ∧ Balanced live c' ((m.erase p).insert q n) ∧
      c'.gBytesInUsePeak.toNat = max c.gBytesInUsePeak.toNat (totalSize ((m.erase p).insert q n)) := by
  obtain ⟨s', c1, hrealloc, hold, hrec⟩ := cstructuresRealloc_cases hcall
  obtain ⟨hfresh, hlive⟩ := hS.realloc (hp.imp_right h.owned.within.mem) hn hrealloc
  have hne := h.owned.ne_of_client hp
  have hclient := h.owned.within.erase.fresh hfresh
  have howned : Owned (live s') c.gReport.storage.addr ((m.erase p).insert q n) := by
    rw [hlive]
    exact (h.owned.erase hne).insert hfresh
  have hapart := h.apart.erase.insert hclient
  refine ⟨hfresh.nonNull, ?_⟩
  rcases releaseOld_cases hold with ⟨rfl, rfl⟩ | ⟨hp0, hforget⟩
  · have herase := erase_of_notMem h.apart.nonNull
    rw [herase] at howned hapart hclient ⊢
    exact Balanced.record (c := (c.setSystem s').countAllocation) hS h.tracking h.report howned
      hclient.absent hapart h.counts_allocation h.usage hrec
  · have hmem := hp.resolve_left hp0
    obtain ⟨hsystem, htracking, hreport, haddr, halloc, hdealloc, husage, hpeak⟩ :=
      forgetAllocation_spec (c := c.setSystem s') h.report h.usage hmem hforget
    have hcounts : c1.gAllocations = c1.dDeallocations + 1 + UInt64.ofNat ((m.erase p).keys.card + 1) := by
      rw [halloc, hdealloc, card_erase hmem]
      exact h.counts
    rw [show c.gBytesInUsePeak = c1.gBytesInUsePeak from hpeak.symm]
    refine Balanced.record hS (htracking.trans h.tracking) hreport ?_ hclient.absent hapart hcounts
      husage hrec
    rw [hsystem, haddr]
    exact howned

theorem Balanced.free (hS : S.Conforms live) (h : Balanced live c m) (hp : p ∈ m) {u : Unit}
    (hcall : cstructuresFree S fuel p c = some (u, c')) :
    Balanced live c' (m.erase p) ∧ c'.gBytesInUsePeak = c.gBytesInUsePeak := by
  obtain ⟨c1, hforget, hcase⟩ := cstructuresFree_cases hcall
  rw [unlessIgnored_of_tracking h.tracking] at hforget
  obtain ⟨hsystem, htracking, hreport, haddr, halloc, hdealloc, husage, hpeak⟩ :=
    forgetAllocation_spec h.report h.usage hp hforget
  have hp0 : p ≠ 0 := by
    rintro rfl
    exact h.apart.nonNull hp
  obtain ⟨_, s', hfree, rfl⟩ := hcase.resolve_left fun h0 => hp0 h0.1
  obtain ⟨s'', hfree', hlive⟩ := hS.free (h.owned.within.mem hp)
  rw [hsystem] at hfree
  obtain ⟨_, rfl⟩ := Prod.mk.inj (Option.some.inj (hfree.symm.trans hfree'))
  have hle := h.peak
  have htotal : totalSize (m.erase p) ≤ totalSize m := by
    obtain ⟨n, hn⟩ := Finmap.mem_iff.mp hp
    have := totalSize_erase hn
    omega
  refine ⟨⟨htracking.trans h.tracking, hreport, ?_, h.apart.erase, ?_, husage, ?_⟩, hpeak⟩
  · change Owned (live s') c1.gReport.storage.addr _
    rw [hlive, haddr]
    exact h.owned.erase (h.owned.ne_of_client (Or.inr hp))
  · have hcounts := h.counts
    rw [← card_erase hp, UInt64.ofNat_add] at hcounts
    change c1.gAllocations = c1.dDeallocations + 1 + 1 + _
    rw [halloc, hdealloc, hcounts, show UInt64.ofNat 1 = 1 from rfl]
    ac_rfl
  · change _ ≤ c1.gBytesInUsePeak.toNat
    rw [hpeak]
    omega

theorem Balanced.init (hS : S.Conforms live) (h : memoryInit S fuel c = some (0, c')) :
    Balanced live c' ∅ ∧ c'.gBytesInUsePeak = 0 ∧ c'.dDeallocations = 0 := by
  obtain ⟨report, c1, hinit, rfl⟩ := memoryInit_cases h
  obtain ⟨b, hmalloc, haddr⟩ := Hashmap.hashmapInitWithOptions_malloc hinit
  obtain ⟨hv, htc, hks, hvs, _, htable⟩ :=
    Hashmap.hashmapInitWithOptions_spec (by decide) (by decide) hinit
  rcases cstructuresMalloc_ignored rfl hmalloc with ⟨_, _, rfl, _⟩ | ⟨g, s', hg, rfl, rfl⟩
  · cases haddr
  obtain ⟨g', hg', hfresh, hlive⟩ := hS.malloc (by decide) hg
  rw [Option.some.injEq] at hg'
  subst hg'
  have haddr' : report.storage.addr = g.addr := Option.some.inj haddr
  have howned : Owned (live s') report.storage.addr ∅ := by
    rw [haddr', hlive]
    exact ⟨Within.empty, Finmap.mem_insert.mpr (Or.inl rfl), Finmap.notMem_empty, hfresh.nonNull⟩
  have hreport : Reports report ∅ :=
    ⟨hv, hks, hvs, by rw [htc]; decide, ∅, Hashmap.represents_empty htable, Records.empty⟩
  exact ⟨⟨rfl, hreport, howned, Apart.empty, rfl, rfl, Nat.zero_le _⟩, rfl, rfl⟩

lemma Balanced.readable (h : Balanced live c m) : Readable c.gReport := ⟨h.report.valid, h.report.keySize⟩

/-- The client has fewer than 2^32 live blocks, as the report counts them in 32 bits. -/
lemma Balanced.card_lt (h : Balanced live c m) : m.keys.card < 2 ^ 32 :=
  h.report.card_keys ▸ UInt32.toNat_lt _

/-- The difference of the two counters, as `memory_deinit` takes it, while neither has wrapped. -/
lemma toNat_leaks {a d : UInt64} {n : Nat} (ha : a = d + UInt64.ofNat n) (hfew : d.toNat + n < 2 ^ 64) :
    (if a > d then a - d else d - a).toNat = n := by
  have hn : (UInt64.ofNat n).toNat = n :=
    UInt64.toNat_ofNat_of_lt' (lt_of_le_of_lt (Nat.le_add_left _ _) hfew)
  have hsum : a.toNat = d.toNat + n := by
    rw [ha, UInt64.toNat_add, hn, Nat.mod_eq_of_lt hfew]
  split_ifs with hgt
  · rw [UInt64.toNat_sub_of_le _ _ (UInt64.le_of_lt hgt), hsum]
    omega
  · have hle : a ≤ d := UInt64.not_lt.mp hgt
    have hnat := UInt64.le_iff_toNat_le.mp hle
    rw [UInt64.toNat_sub_of_le _ _ hle, hsum]
    omega

theorem Balanced.deinit (hS : S.Conforms live) (h : Balanced live c m)
    (hfew : c.dDeallocations.toNat + m.keys.card < 2 ^ 64) (fuel : Nat) :
    ∃ leaks c', memoryDeinit S fuel c = some (leaks, c') ∧ leaks.toNat = m.keys.card := by
  obtain ⟨s', hfree, _⟩ := hS.free h.owned.storage
  have hallocations : c.gAllocations - 1 = c.dDeallocations + UInt64.ofNat m.keys.card := by
    rw [h.counts]
    grind
  set c1 : Memory σ := { c with gAllocations := c.gAllocations - 1 + 1 }.setIgnore true
  have hstorage : hashmapDeinit (trackedAllocator S fuel) c.gReport c1 =
      some ((), c1.countDeallocation.setSystem s') :=
    cstructuresFree_of_ignored rfl h.owned.nonNull hfree
  refine ⟨_, (c1.countDeallocation.setSystem s').setIgnore false, ?_, toNat_leaks hallocations hfew⟩
  rw [memoryDeinit, bind_eq_some]
  refine ⟨c, c, get_eq_some.mpr ⟨rfl, rfl⟩, bind_eq_some.mpr ⟨(), c1, set_eq_some.mpr rfl, ?_⟩⟩
  refine bind_eq_some.mpr ⟨(), _, hstorage, bind_eq_some.mpr ⟨(), _, modify_eq_some.mpr rfl, ?_⟩⟩
  exact pure_eq_some.mpr ⟨rfl, rfl⟩

lemma Balanced.step {m' : BlockMap} {l : MemoryCall × UInt64} (hS : S.Conforms live)
    (h : Balanced live c m) (hstep : MemoryStep S (c, m) l (c', m')) :
    Balanced live c' m' ∧
      c'.gBytesInUsePeak.toNat = max c.gBytesInUsePeak.toNat (totalSize m') := by
  obtain ⟨call, answer⟩ := l
  obtain ⟨hwell, ⟨fuel, hanswer⟩, hm'⟩ := hstep
  dsimp only at hwell hanswer hm'
  subst hm'
  cases call with
  | malloc n =>
    obtain ⟨⟨r, c1⟩, hcall, heq⟩ := Option.map_eq_some_iff.mp hanswer
    obtain ⟨rfl, rfl⟩ := Prod.mk.inj heq
    obtain ⟨g, rfl, hnull, hbalanced⟩ := h.malloc hS hwell hcall
    have hblocks : blocksAfterCall m (.malloc n, g.addr) = m.insert g.addr n := if_neg hnull
    rw [← hblocks] at hbalanced
    exact hbalanced
  | realloc p n =>
    obtain ⟨hnull, hbalanced⟩ := h.realloc hS hwell.1 hwell.2 hanswer
    rw [blocksAfterCall, if_neg hnull]
    exact hbalanced
  | free p =>
    obtain ⟨⟨r, c1⟩, hcall, heq⟩ := Option.map_eq_some_iff.mp hanswer
    obtain ⟨_, rfl⟩ := Prod.mk.inj heq
    obtain ⟨hbalanced, hpeak⟩ := h.free hS hwell hcall
    have hle := hbalanced.peak
    rw [hpeak] at hle ⊢
    exact ⟨hbalanced, (max_eq_left hle).symm⟩

lemma Balanced.run {x y : Memory σ × BlockMap} {ls : List (MemoryCall × UInt64)}
    (hS : S.Conforms live) (h : Balanced live x.1 x.2) (hrun : Run (MemoryStep S) x ls y) :
    Balanced live y.1 y.2 ∧ y.2 = ls.foldl blocksAfterCall x.2 ∧
      y.1.gBytesInUsePeak.toNat =
        max x.1.gBytesInUsePeak.toNat (foldPeak totalSize blocksAfterCall x.2 ls) := by
  induction hrun with
  | nil x => exact ⟨h, rfl, (max_eq_left h.peak).symm⟩
  | @cons x x' y l ls hstep _ ih =>
    obtain ⟨hbalanced, hpeak⟩ := h.step hS hstep
    obtain ⟨hbalanced', hblocks, hpeak'⟩ := ih hbalanced
    have hle := h.peak
    have hfirst := le_foldPeak totalSize blocksAfterCall x'.2 ls
    rw [hstep.2.2] at hblocks hpeak hpeak' hfirst
    refine ⟨hbalanced', hblocks, ?_⟩
    rw [hpeak', hpeak, foldPeak]
    omega

end Steps

/-- From `memory_init` on, over every run of well-behaved calls on a system that does not run
out of memory: the report binds the live addresses to their sizes, their number and the sum
of their sizes are as counted, the peak is the maximum of that sum, and `memory_deinit`
returns the number of live blocks as long as the call counters have not wrapped. -/
theorem memory_books_balance {σ : Type} {S : System σ} {live : σ → BlockMap}
    (hS : S.Conforms live) {fuel : Nat} {c c₀ c₁ : Memory σ} {m : BlockMap}
    {ls : List (MemoryCall × UInt64)} (hinit : memoryInit S fuel c = some (0, c₀))
    (hrun : Run (MemoryStep S) (c₀, ∅) ls (c₁, m)) :
    m = blocksAfter ls ∧
    (∀ key info, Binds c₁.gReport.table c₁.gReport.values key info ↔
      ∃ p n, m.lookup p = some n ∧ key = pointerBytes p ∧ info = ReportInfo.bytes ⟨p, n⟩) ∧
    (memoryGetNumAllocs c₁).toNat = m.keys.card ∧
    (memoryGetMemoryUsage c₁).toNat = totalSize m ∧
    IsGreatest {n | ∃ pre, pre <+: ls ∧ totalSize (blocksAfter pre) = n}
      c₁.gBytesInUsePeak.toNat ∧
    (ls.length < 2 ^ 63 →
      ∀ fuel, ∃ leaks c₂, memoryDeinit S fuel c₁ = some (leaks, c₂) ∧ leaks.toNat = m.keys.card) := by
  obtain ⟨hinit, hzero, hnone⟩ := Balanced.init hS hinit
  obtain ⟨h, hblocks, hpeak⟩ := hinit.run hS hrun
  refine ⟨hblocks, fun _ _ => h.report.binds_iff, ?_, h.usage, ?_, fun hshort => h.deinit hS ?_⟩
  · rw [memoryGetNumAllocs, UInt32.toNat_toUInt64]
    exact h.report.card_keys
  · rw [hpeak, hzero]
    change IsGreatest _ (max 0 _)
    rw [Nat.zero_max]
    exact isGreatest_foldPeak _ _ _ _
  · have hcalls : c₁.dDeallocations.toNat ≤ c₀.dDeallocations.toNat + ls.length :=
      run_deallocations_le hinit.readable hrun
    have hcard : m.keys.card < 2 ^ 32 := h.card_lt
    rw [hnone, UInt64.toNat_zero, Nat.zero_add] at hcalls
    omega

/-- A heap that grants the addresses from `s.1` on, and goes back to the last block freed. A
request that does not fit there does not return. -/
def stackSystem : System (UInt64 × BlockMap) where
  malloc n s :=
    if Fresh s.2 s.1 n then some (some ⟨s.1, fun _ => 0xAA⟩, (s.1 + n, s.2.insert s.1 n)) else none
  realloc p n s :=
    if Fresh (s.2.erase p) s.1 n then some (s.1, (s.1 + n, (s.2.erase p).insert s.1 n)) else none
  free p s := some ((), (p, s.2.erase p))

lemma stackSystem_conforms : stackSystem.Conforms Prod.snd where
  malloc := by
    intro n s r s' _ h
    obtain ⟨hfresh, h⟩ := Option.ite_none_right_eq_some.mp h
    obtain ⟨rfl, rfl⟩ := Prod.mk.inj (Option.some.inj h)
    exact ⟨_, rfl, hfresh, rfl⟩
  realloc := by
    intro p n s q s' _ _ h
    obtain ⟨hfresh, h⟩ := Option.ite_none_right_eq_some.mp h
    obtain ⟨rfl, rfl⟩ := Prod.mk.inj (Option.some.inj h)
    exact ⟨hfresh, rfl⟩
  free _ := ⟨_, rfl, rfl⟩

def freshMemory : Memory (UInt64 × BlockMap) where
  gAllocations := 0
  dDeallocations := 0
  gIgnoreHmMalloc := false
  gBytesInUse := 0
  gBytesInUsePeak := 0
  gReport := ⟨0, 0, 0, 0, hash32Ptr, ⟨0, 0, fun _ => 0⟩⟩
  system := (4096, ∅)

def memoryExec (c : Memory (UInt64 × BlockMap) × BlockMap) (call : MemoryCall) :
    Option (UInt64 × Memory (UInt64 × BlockMap) × BlockMap) :=
  if call.WellBehaved c.2 then
    (memoryCall stackSystem 9 c.1 call).map fun r => (r.1, r.2, blocksAfterCall c.2 (call, r.1))
  else none

lemma memoryExec_step {c c' : Memory (UInt64 × BlockMap) × BlockMap} {call : MemoryCall}
    {answer : UInt64} (h : memoryExec c call = some (answer, c')) :
    MemoryStep stackSystem c (call, answer) c' := by
  obtain ⟨hwell, h⟩ := Option.ite_none_right_eq_some.mp h
  obtain ⟨⟨q, c1⟩, hcall, heq⟩ := Option.map_eq_some_iff.mp h
  obtain ⟨rfl, rfl⟩ := Prod.mk.inj heq
  exact ⟨hwell, ⟨9, hcall⟩, rfl⟩

/-- The second block is freed and its address is granted again, and the first one moves. -/
def reusingCalls : List MemoryCall :=
  [.malloc 16, .malloc 32, .free 0x1d010, .malloc 24, .realloc 0x1d000 40, .realloc 0 8]

theorem memory_books_balance_reusing : ∃ c₀ ls c₁ m,
    memoryInit stackSystem 9 freshMemory = some (0, c₀) ∧
    ls.map Prod.snd = [0x1d000, 0x1d010, 0, 0x1d010, 0x1d028, 0x1d050] ∧
    Run (MemoryStep stackSystem) (c₀, ∅) ls (c₁, m) ∧
    m = blocksAfter ls ∧ (memoryGetNumAllocs c₁).toNat = m.keys.card ∧
    (memoryGetMemoryUsage c₁).toNat = totalSize m ∧
    ∀ fuel, ∃ leaks c₂, memoryDeinit stackSystem fuel c₁ = some (leaks, c₂) ∧
      leaks.toNat = m.keys.card := by
  obtain ⟨c₀, hinit⟩ : ∃ c₀, memoryInit stackSystem 9 freshMemory = some (0, c₀) := ⟨_, rfl⟩
  have hanswers : (memoryInit stackSystem 9 freshMemory).bind
      (fun r => (runCalls memoryExec (r.2, ∅) reusingCalls).map fun r => r.1.map Prod.snd) =
      some [0x1d000, 0x1d010, 0, 0x1d010, 0x1d028, 0x1d050] := by decide +kernel
  rw [hinit] at hanswers
  obtain ⟨ls, ⟨c₁, m⟩, hrun, hls⟩ := Run.exists_of_runCalls (fun _ _ _ _ h => memoryExec_step h) hanswers
  obtain ⟨hm, _, hcount, husage, _, hleaks⟩ :=
    memory_books_balance stackSystem_conforms hinit hrun
  have hlength : ls.length = 6 := by
    rw [← List.length_map Prod.snd, hls]
    rfl
  exact ⟨c₀, ls, c₁, m, hinit, hls, hrun, hm, hcount, husage, hleaks (by omega)⟩

end CStructures
