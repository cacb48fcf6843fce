import CStructures.Lib.Ownership
import CStructures.Proofs.MemoryCalls

/-!
# The call counters of the allocation tracker

The counters are 64-bit words that also count the calls of the report. Whatever the system has
refused, one call of a client adds at most one deallocation.
-/

namespace CStructures
open Lib

namespace Hashmap

variable {σ : Type} {A : Allocator σ} {s s' : σ} {fuel : Nat} {hm hm' : Hashmap} {key : List Byte}

/-- An insertion keeps the table valid and adds no other key, even when it is refused memory. -/
lemma hashmapInsert_stored {value : Option (List Byte)} {status : HashmapStatus} (hv : hm.Valid)
    (hkey : key.length = hm.keySize.toNat)
    (h : hashmapInsert A fuel hm key value s = some ((status, hm'), s')) :
    hm'.Valid ∧ hm'.keySize = hm.keySize ∧
      ∀ k, Stored hm'.table k → k = key ∨ Stored hm.table k := by
  rcases hashmapInsert_cases hv h with ⟨_, rfl, _⟩ | ⟨grown, fuel', hgrown, hvg, hprobed⟩
  · exact ⟨hv, rfl, fun k hk => Or.inr hk⟩
  obtain ⟨hks, _, _, _, hstored⟩ := hgrown.sameContents
  rcases insertProbed_spec hvg hprobed with
    ⟨_, rfl, _⟩ | ⟨n, pos, _, rfl, hpos, hpass, hn, hs⟩
  · exact ⟨hvg, hks, fun k hk => Or.inr ((hstored k).mp hk)⟩
  · have hkey' : key.length = grown.keySize.toNat := by rw [hks, hkey]
    refine ⟨hvg.store hkey' hpos hpass hn hs, storeEntry_keySize.trans hks, fun k hk => ?_⟩
    rw [table_storeEntry hvg.keysFit hpos hkey', stored_store fun k => hs.not_live hn] at hk
    exact hk.imp_right (hstored k).mp

/-- An erasure keeps the table valid and leaves no entry of its key. -/
lemma hashmapErase_stored {r : Option UInt64} (hv : hm.Valid)
    (h : hashmapErase fuel hm key = some (r, hm')) :
    hm'.Valid ∧ hm'.keySize = hm.keySize ∧ ¬Stored hm'.table key := by
  rcases hashmapErase_cases hv h with ⟨_, rfl, hns⟩ | ⟨pos, _, rfl, hpos, hlive⟩
  · exact ⟨hv, rfl, hns⟩
  · refine ⟨hv.bury hpos hlive, rfl, ?_⟩
    rw [stored_iff_binds (hm.buryEntry pos).values]
    rintro ⟨v, hb⟩
    exact ((binds_buryEntry hv hpos hlive key v).mp hb).1 rfl

end Hashmap

/-- What holds of the report whatever the system has refused. -/
structure Readable (report : Hashmap) : Prop where
  valid : report.Valid
  keySize : report.keySize = 8

section Counters

variable {σ : Type} {S : System σ} {A : Allocator (Memory σ)} {fuel : Nat} {c c' : Memory σ}
  {p n : UInt64}

lemma recordAllocation_readable (hr : Readable c.gReport)
    (h : recordAllocation A fuel p n c = some ((), c')) : Readable c'.gReport ∧
      ∀ k, Stored c'.gReport.table k → k = pointerBytes p ∨ Stored c.gReport.table k := by
  obtain ⟨status, report, c1, hins, rfl⟩ := recordAllocation_cases h
  obtain ⟨hv, hks, hstored⟩ := Hashmap.hashmapInsert_stored hr.valid
    (by rw [hr.keySize]; exact length_pointerBytes p) hins
  exact ⟨⟨hv, hks.trans hr.keySize⟩, hstored⟩

lemma unlessIgnored_record_readable (hr : Readable c.gReport)
    (h : unlessIgnored (recordAllocation A fuel p n) c = some ((), c')) : Readable c'.gReport ∧
      ∀ k, Stored c'.gReport.table k → k = pointerBytes p ∨ Stored c.gReport.table k := by
  rcases unlessIgnored_cases h with rfl | hrecord
  · exact ⟨hr, fun k hk => Or.inr hk⟩
  · exact recordAllocation_readable hr hrecord

lemma forgetAllocation_readable (hr : Readable c.gReport)
    (h : forgetAllocation fuel p c = some ((), c')) :
    Readable c'.gReport ∧ ¬Stored c'.gReport.table (pointerBytes p) := by
  obtain ⟨info, report, herase, rfl⟩ := forgetAllocation_cases h
  obtain ⟨hv, hks, hns⟩ := Hashmap.hashmapErase_stored hr.valid herase
  have hreport : (c.erased report info).gReport = report := by cases info <;> rfl
  rw [hreport]
  exact ⟨⟨hv, hks.trans hr.keySize⟩, hns⟩

lemma memoryInit_readable (h : memoryInit S fuel c = some (0, c')) : Readable c'.gReport := by
  obtain ⟨report, c1, hinit, rfl⟩ := memoryInit_cases h
  obtain ⟨hv, _, hks, _⟩ := Hashmap.hashmapInitWithOptions_spec (by decide) (by decide) hinit
  exact ⟨hv, hks⟩

/-- The calls that the report makes while it records a block: none, one for a new table, or
another one that frees the table it had. -/
inductive ReportCalls (c c' : Memory σ) : Prop
  | none (allocations : c'.gAllocations = c.gAllocations) (deallocations : c'.dDeallocations = c.dDeallocations)
  | table (allocations : c'.gAllocations = c.gAllocations + 1)
      (deallocations : c'.dDeallocations = c.dDeallocations)
  | rehash (allocations : c'.gAllocations = c.gAllocations + 1)
      (deallocations : c'.dDeallocations = c.dDeallocations + 1)

lemma hashmapInsert_reportCalls {hm hm' : Hashmap} {key : List Byte} {value : Option (List Byte)}
    {status : HashmapStatus} (hv : hm.Valid) (hc : c.gIgnoreHmMalloc = true)
    (h : hashmapInsert (trackedAllocator S fuel) fuel hm key value c = some ((status, hm'), c')) :
    ReportCalls c c' := by
  rcases Hashmap.hashmapInsert_cases hv h with ⟨_, _, _, hn⟩ | ⟨grown, fuel', hgrown, _, _⟩
  · rcases cstructuresMalloc_ignored hc hn with ⟨s', _, _, rfl⟩ | ⟨_, _, _, hno, _⟩
    · exact .none rfl rfl
    · cases hno
  rcases hgrown with ⟨_, rfl, _⟩ | ⟨_, _, b, c1, hmalloc, hfree, _⟩
  · exact .none rfl rfl
  rcases cstructuresMalloc_ignored hc hmalloc with ⟨_, _, hno, _⟩ | ⟨g, s', _, _, rfl⟩
  · cases hno
  obtain ⟨c2, hforget, hcase⟩ := cstructuresFree_cases hfree
  have hflag : (c.setSystem s').countAllocation.gIgnoreHmMalloc = true := hc
  obtain rfl := unlessIgnored_eq_of_ignored hflag hforget
  rcases hcase with ⟨_, rfl⟩ | ⟨_, s'', _, rfl⟩
  · exact .table rfl rfl
  · exact .rehash rfl rfl

lemma recordAllocation_reportCalls (hr : Readable c.gReport)
    (h : recordAllocation (trackedAllocator S fuel) fuel p n c = some ((), c')) : ReportCalls c c' := by
  obtain ⟨status, report, c1, hins, rfl⟩ := recordAllocation_cases h
  cases hashmapInsert_reportCalls (c := (c.addBytes n).setIgnore true) hr.valid rfl hins with
  | none ha hd => exact .none ha hd
  | table ha hd => exact .table ha hd
  | rehash ha hd => exact .rehash ha hd

lemma unlessIgnored_record_reportCalls (hr : Readable c.gReport)
    (h : unlessIgnored (recordAllocation (trackedAllocator S fuel) fuel p n) c = some ((), c')) :
    ReportCalls c c' := by
  rcases unlessIgnored_cases h with rfl | hrecord
  · exact .none rfl rfl
  · exact recordAllocation_reportCalls hr hrecord

lemma forgetAllocation_counters (h : forgetAllocation fuel p c = some ((), c')) :
    c'.gAllocations = c.gAllocations ∧ c'.dDeallocations = c.dDeallocations := by
  obtain ⟨info, report, _, rfl⟩ := forgetAllocation_cases h
  cases info <;> exact ⟨rfl, rfl⟩

lemma ReportCalls.deallocations_le (h : ReportCalls c c') :
    c'.dDeallocations.toNat ≤ c.dDeallocations.toNat + 1 := by
  cases h with
  | none _ hd => exact hd ▸ Nat.le_succ _
  | table _ hd => exact hd ▸ Nat.le_succ _
  | rehash _ hd =>
    rw [hd, UInt64.toNat_add]
    exact Nat.mod_le _ _

/-- The call leaves a readable report readable and adds at most `k` deallocations. -/
abbrev Deallocates (σ : Type) {α : Type} (k : Nat) (call : StateT (Memory σ) Option α) : Prop :=
  Spends (fun c => Readable c.gReport) (fun c => c.dDeallocations.toNat) k call

lemma onSystem_deallocates {α : Type} (call : StateT σ Option α) : Deallocates σ 0 (onSystem call) := by
  intro c r c' hr h
  obtain ⟨s', _, rfl⟩ := onSystem_eq_some.mp h
  exact ⟨hr, le_rfl⟩

lemma countAllocation_deallocates : Deallocates σ 0 (modify Memory.countAllocation) := by
  intro c u c' hr h
  obtain rfl := modify_eq_some.mp h
  exact ⟨hr, le_rfl⟩

lemma countDeallocation_deallocates : Deallocates σ 1 (modify Memory.countDeallocation) := by
  intro c u c' hr h
  obtain rfl := modify_eq_some.mp h
  refine ⟨hr, ?_⟩
  change (c.dDeallocations + 1).toNat ≤ _
  rw [UInt64.toNat_add]
  exact Nat.mod_le _ _

lemma unlessIgnored_deallocates {k : Nat} {body : StateT (Memory σ) Option Unit}
    (hbody : Deallocates σ k body) : Deallocates σ k (unlessIgnored body) := by
  intro c u c' hr h
  rcases unlessIgnored_cases h with rfl | hrun
  · exact ⟨hr, Nat.le_add_right _ _⟩
  · exact hbody c () c' hr hrun

/-- The report frees the table that it replaces. -/
lemma recordAllocation_deallocates (S : System σ) (fuel : Nat) (p n : UInt64) :
    Deallocates σ 1 (recordAllocation (trackedAllocator S fuel) fuel p n) := by
  intro c u c' hr h
  exact ⟨(recordAllocation_readable hr h).1, (recordAllocation_reportCalls hr h).deallocations_le⟩

lemma forgetAllocation_deallocates (fuel : Nat) (p : UInt64) : Deallocates σ 0 (forgetAllocation fuel p) := by
  intro c u c' hr h
  obtain ⟨_, hsame⟩ := forgetAllocation_counters h
  exact ⟨(forgetAllocation_readable hr h).1, le_of_eq (congrArg UInt64.toNat hsame)⟩

lemma releaseOld_deallocates (fuel : Nat) (p : UInt64) : Deallocates σ 0 (releaseOld fuel p) := by
  unfold releaseOld
  split_ifs
  · exact countAllocation_deallocates
  · exact forgetAllocation_deallocates fuel p

lemma cstructuresMalloc_deallocates (S : System σ) (fuel : Nat) (n : UInt64) :
    Deallocates σ 1 (cstructuresMalloc S fuel n) := by
  cases fuel with
  | zero =>
    rintro c r c' _ ⟨⟩
  | succ fuel =>
    refine (onSystem_deallocates _).bind (l := 1) fun g => ?_
    cases g with
    | none => exact Spends.pure 1 none
    | some g =>
      refine countAllocation_deallocates.bind (l := 1) fun _ => ?_
      exact (unlessIgnored_deallocates (recordAllocation_deallocates S fuel g.addr n)).thenPure _

lemma cstructuresRealloc_deallocates (S : System σ) (fuel : Nat) (p n : UInt64) :
    Deallocates σ 1 (cstructuresRealloc S fuel p n) := by
  refine (onSystem_deallocates _).bind (l := 1) fun q => ?_
  refine (releaseOld_deallocates fuel p).bind (l := 1) fun _ => ?_
  exact (unlessIgnored_deallocates (recordAllocation_deallocates S fuel q n)).thenPure fun _ => q

lemma cstructuresFree_deallocates (S : System σ) (fuel : Nat) (p : UInt64) :
    Deallocates σ 1 (cstructuresFree S fuel p) := by
  refine (unlessIgnored_deallocates (forgetAllocation_deallocates fuel p)).bind (l := 1) fun _ => ?_
  split_ifs
  · exact Spends.pure 1 ()
  · exact countDeallocation_deallocates.bind (l := 0) fun _ => onSystem_deallocates _

/-- One call adds at most one deallocation: of the block that is freed, or of the table that the
report replaces. -/
theorem memoryCall_deallocates (S : System σ) (fuel : Nat) (call : MemoryCall) :
    Deallocates σ 1 fun c => memoryCall S fuel c call := by
  intro c answer c' hr h
  cases call with
  | malloc n =>
    obtain ⟨⟨r, c1⟩, hcall, heq⟩ := Option.map_eq_some_iff.mp h
    obtain ⟨_, rfl⟩ := Prod.mk.inj heq
    exact cstructuresMalloc_deallocates S fuel n c r c1 hr hcall
  | realloc p n => exact cstructuresRealloc_deallocates S fuel p n c answer c' hr h
  | free p =>
    obtain ⟨⟨r, c1⟩, hcall, heq⟩ := Option.map_eq_some_iff.mp h
    obtain ⟨_, rfl⟩ := Prod.mk.inj heq
    exact cstructuresFree_deallocates S fuel p c r c1 hr hcall

lemma Readable.run {x y : Memory σ × BlockMap} {ls : List (MemoryCall × UInt64)}
    (hr : Readable x.1.gReport) (hrun : Run (MemoryStep S) x ls y) : Readable y.1.gReport := by
  refine hrun.invariant (fun x => Readable x.1.gReport) ?_ hr
  rintro x l x' hx ⟨_, ⟨fuel, hcall⟩, _⟩
  exact (memoryCall_deallocates S fuel l.1 x.1 l.2 x'.1 hx hcall).1

/-- From a readable report on, a run of `n` calls adds at most `n` deallocations. -/
theorem run_deallocations_le {x y : Memory σ × BlockMap} {ls : List (MemoryCall × UInt64)}
    (hr : Readable x.1.gReport) (hrun : Run (MemoryStep S) x ls y) :
    y.1.dDeallocations.toNat ≤ x.1.dDeallocations.toNat + ls.length := by
  induction hrun with
  | nil x => exact le_rfl
  | @cons x x' y l ls hstep _ ih =>
    obtain ⟨_, ⟨fuel, hcall⟩, _⟩ := hstep
    obtain ⟨hr', hle⟩ := memoryCall_deallocates S fuel l.1 x.1 l.2 x'.1 hr hcall
    have hone : x'.1.dDeallocations.toNat ≤ x.1.dDeallocations.toNat + 1 := hle
    have hrest := ih hr'
    rw [List.length_cons]
    omega

end Counters

end CStructures
